import DsApm.SqlSchema.Operator
/-!
# Engine — what the statements do to a schema

The database a migration runs against, as far as this package describes schemas: tables with their declared columns and
named keys, and unique indexes.  What a statement may do follows the operator's support: an engine that cannot create and
drop constraints keeps no table without columns and refuses to drop a column a key or an index uses, one that can drops
the keys and indexes with the column and wants the constraints of a table to have different names.

`Stmt.apply` is `none` where the engine reports an error.  `runAll_wellFormed`: no statement leaves a schema whose keys or
indexes stand on columns that are not there.
-/
namespace DsApm
namespace SqlSchema

open List

structure TableSchema where
  name : TableName
  columns : List ColumnDef
  primaryKey : Option (String × List ColumnName)
  foreignKeys : List (String × ForeignKeyDef)
  uniques : List (String × List ColumnName)
  deriving DecidableEq, Repr

structure IndexSchema where
  name : String
  table : TableName
  columns : List ColumnName
  deriving DecidableEq, Repr

structure Database where
  tables : List TableSchema
  indexes : List IndexSchema
  deriving DecidableEq, Repr

namespace TableSchema

def columnNames (t : TableSchema) : List ColumnName := t.columns.map ColumnDef.name

def constraintNames (t : TableSchema) : List String :=
  t.primaryKey.toList.map Prod.fst ++ t.foreignKeys.map Prod.fst ++ t.uniques.map Prod.fst

def KeysOwn (t : TableSchema) : Prop :=
  (∀ pk ∈ t.primaryKey, ∀ c ∈ pk.2, c ∈ t.columnNames) ∧
  (∀ fk ∈ t.foreignKeys, fk.2.referencingColumnName ∈ t.columnNames) ∧
  (∀ u ∈ t.uniques, ∀ c ∈ u.2, c ∈ t.columnNames)

instance (t : TableSchema) : Decidable t.KeysOwn :=
  inferInstanceAs (Decidable ((∀ pk ∈ t.primaryKey, ∀ c ∈ pk.2, c ∈ t.columnNames) ∧
    (∀ fk ∈ t.foreignKeys, fk.2.referencingColumnName ∈ t.columnNames) ∧
    (∀ u ∈ t.uniques, ∀ c ∈ u.2, c ∈ t.columnNames)))

def WellFormed (support : OperatorSupport) (t : TableSchema) : Prop :=
  t.columnNames.Nodup ∧ t.KeysOwn ∧ (support.sCreateAndDropConstraint = true → t.constraintNames.Nodup) ∧
    (support.sCreateAndDropConstraint = false → t.columns ≠ [])

instance (support : OperatorSupport) (t : TableSchema) : Decidable (t.WellFormed support) :=
  inferInstanceAs (Decidable (t.columnNames.Nodup ∧ t.KeysOwn ∧
    (support.sCreateAndDropConstraint = true → t.constraintNames.Nodup) ∧
    (support.sCreateAndDropConstraint = false → t.columns ≠ [])))

/-- The table without a column, and without the keys that use it where the engine drops them along. -/
def withoutColumn (support : OperatorSupport) (column : ColumnName) (t : TableSchema) : TableSchema :=
  let t' := { t with columns := t.columns.filter (fun c => c.name != column) }
  if support.sCreateAndDropConstraint then
    { t' with
      primaryKey := t.primaryKey.filter (fun pk => !pk.2.contains column)
      foreignKeys := t.foreignKeys.filter (fun fk => fk.2.referencingColumnName != column)
      uniques := t.uniques.filter (fun u => !u.2.contains column) }
  else t'

def setColumn (column : ColumnName) (f : ColumnDef → ColumnDef) (t : TableSchema) : TableSchema :=
  { t with columns := t.columns.map (fun c => if c.name = column then f c else c) }

def withoutConstraint (name : String) (t : TableSchema) : TableSchema :=
  { t with
    primaryKey := t.primaryKey.filter (fun pk => pk.1 != name)
    foreignKeys := t.foreignKeys.filter (fun fk => fk.1 != name)
    uniques := t.uniques.filter (fun u => u.1 != name) }

end TableSchema

def TableDef.schema (d : TableDef) : TableSchema := ⟨d.name, d.columns, d.primaryKey, d.foreignKeys, []⟩

namespace Database

def find (db : Database) (name : TableName) : Option TableSchema := db.tables.find? (fun t => t.name == name)

/-- `ALTER TABLE name`: the table is there, and what becomes of it is a table the engine can hold. -/
def alter (support : OperatorSupport) (db : Database) (name : TableName) (f : TableSchema → Option TableSchema) :
    Option Database :=
  match db.find name with
  | none => none
  | some t =>
    match f t with
    | none => none
    | some t' => if t'.WellFormed support then
        some { db with tables := db.tables.map (fun u => if u.name = name then t' else u) } else none

def alterColumn (support : OperatorSupport) (db : Database) (name : TableName) (column : ColumnName)
    (f : ColumnDef → ColumnDef) : Option Database :=
  if support.sAlterTableAlterColumnSetAndDrop then
    db.alter support name (fun t => if column ∈ t.columnNames then some (t.setColumn column f) else none)
  else none

def hasColumns (db : Database) (name : TableName) (columns : List ColumnName) : Bool :=
  match db.find name with
  | none => false
  | some t => columns.all (fun c => t.columnNames.contains c)

def indexed (db : Database) (name : TableName) (column : ColumnName) : Bool :=
  db.indexes.any (fun i => i.table == name && i.columns.contains column)

end Database

def Stmt.apply (support : OperatorSupport) (db : Database) : Stmt → Option Database
  | .createTable d =>
    if (db.find d.name).isSome then some db
    else if d.schema.WellFormed support then some { db with tables := db.tables ++ [d.schema] } else none
  | .insertSelect into source columns =>
    if db.hasColumns into columns && db.hasColumns source columns then some db else none
  | .dropTable table =>
    some ⟨db.tables.filter (fun t => t.name != table), db.indexes.filter (fun i => i.table != table)⟩
  | .renameTable table newName =>
    if (db.find table).isSome && (db.find newName).isNone then
      some ⟨db.tables.map (fun t => if t.name = table then { t with name := newName } else t),
        db.indexes.map (fun i => if i.table = table then { i with table := newName } else i)⟩
    else none
  | .addColumn table ifNotExists column =>
    if ifNotExists && !support.sAlterTableAddAndDropColumnIfNotExistsAndExists then none
    else db.alter support table (fun t =>
      if column.name ∈ t.columnNames then (if ifNotExists then some t else none)
      else some { t with columns := t.columns ++ [column] })
  | .dropColumn table ifExists column =>
    if ifExists && !support.sAlterTableAddAndDropColumnIfNotExistsAndExists then none
    else if db.indexed table column && !support.sCreateAndDropConstraint then none
    else (db.alter support table (fun t =>
      if column ∈ t.columnNames then some (t.withoutColumn support column)
      else (if ifExists then some t else none))).map (fun db' =>
        { db' with indexes := db'.indexes.filter (fun i => !(i.table == table && i.columns.contains column)) })
  | .update table column _ => if db.hasColumns table [column] then some db else none
  | .setNotNull table column => db.alterColumn support table column (fun c => { c with nullable := false })
  | .dropNotNull table column => db.alterColumn support table column (fun c => { c with nullable := true })
  | .setDefault table column default => db.alterColumn support table column (fun c => { c with default := default })
  | .dropDefault table column => db.alterColumn support table column (fun c => { c with default := "" })
  | .setDataType table column sqlType => db.alterColumn support table column (fun c => { c with sqlType := sqlType })
  | .addPrimaryKey table name columns =>
    if support.sCreateAndDropConstraint then
      db.alter support table (fun t => if t.primaryKey.isSome then none else some { t with primaryKey := some (name, columns) })
    else none
  | .addForeignKey table name key =>
    if support.sCreateAndDropConstraint then
      db.alter support table (fun t => some { t with foreignKeys := t.foreignKeys ++ [(name, key)] })
    else none
  | .dropConstraint table name =>
    if support.sCreateAndDropConstraint then db.alter support table (fun t => some (t.withoutConstraint name)) else none
  | .createUniqueIndex name table columns =>
    if db.indexes.any (fun i => i.name == name) then some db
    else if db.hasColumns table columns then some { db with indexes := db.indexes ++ [⟨name, table, columns⟩] } else none

def runAll (support : OperatorSupport) : List Stmt → Database → Option Database
  | [], db => some db
  | stmt :: rest, db =>
    match stmt.apply support db with
    | none => none
    | some db' => runAll support rest db'

variable {support : OperatorSupport}

theorem runAll_append (sql rest : List Stmt) (db : Database) :
    runAll support (sql ++ rest) db = (runAll support sql db).bind (runAll support rest) := by
  induction sql generalizing db with
  | nil => rfl
  | cons stmt sql ih =>
    rw [cons_append, runAll, runAll]
    cases stmt.apply support db with
    | none => rfl
    | some db' => exact ih db'

theorem runAll_singleton (stmt : Stmt) (db : Database) : runAll support [stmt] db = stmt.apply support db := by
  rw [runAll]
  cases stmt.apply support db with
  | none => rfl
  | some _ => rfl

theorem runAll_cons (stmt : Stmt) (rest : List Stmt) (db : Database) :
    runAll support (stmt :: rest) db = (stmt.apply support db).bind (runAll support rest) := by
  rw [← runAll_singleton, ← runAll_append, singleton_append]

variable {db db' : Database} {name : TableName} {f : TableSchema → Option TableSchema}

theorem alter_eq_some :
    db.alter support name f = some db' ↔ ∃ t t', db.find name = some t ∧ f t = some t' ∧ t'.WellFormed support ∧
      db' = { db with tables := db.tables.map (fun u => if u.name = name then t' else u) } := by
  unfold Database.alter
  constructor
  · intro h
    split at h
    · cases h
    · rename_i t hfind
      split at h
      · cases h
      · rename_i t' hft
        split at h
        · rename_i hwf
          exact ⟨t, t', hfind, hft, hwf, (Option.some.inj h).symm⟩
        · cases h
  · rintro ⟨t, t', hfind, hft, hwf, rfl⟩
    simp only [hfind, hft, if_pos hwf]

theorem alter_single (t : TableSchema) (indexes : List IndexSchema) (f : TableSchema → Option TableSchema) :
    Database.alter support ⟨[t], indexes⟩ t.name f =
      (f t).bind (fun t' => if t'.WellFormed support then some ⟨[t'], indexes⟩ else none) := by
  unfold Database.alter Database.find
  simp only [List.find?_cons, beq_self_eq_true, map_cons, map_nil, if_true]
  cases f t with
  | none => rfl
  | some _ => rfl

variable {t : TableSchema}

theorem hasColumns_single {indexes : List IndexSchema} {columns : List ColumnName}
    (h : ∀ c ∈ columns, c ∈ t.columnNames) : Database.hasColumns ⟨[t], indexes⟩ t.name columns = true := by
  unfold Database.hasColumns Database.find
  simp only [List.find?_cons, beq_self_eq_true]
  exact List.all_eq_true.2 (fun c hc => by simpa using h c hc)

/-! ## Repetitions -/

def Stmt.repeatable : Stmt → Bool
  | .renameTable .. => false
  | .addColumn .. => false
  | .dropColumn .. => false
  | .addPrimaryKey .. => false
  | .addForeignKey .. => false
  | _ => true

theorem find_name (h : db.find name = some t) :
    t ∈ db.tables ∧ t.name = name :=
  ⟨mem_of_find?_eq_some h, by simpa using List.find?_some h⟩

theorem find_map_replace {tables : List TableSchema} {t' : TableSchema}
    (h : tables.find? (fun u => u.name == name) = some t) (ht' : t'.name = name) :
    (tables.map (fun u => if u.name = name then t' else u)).find? (fun u => u.name == name) = some t' := by
  induction tables with
  | nil => cases h
  | cons u rest ih =>
    rw [map_cons, List.find?_cons]
    by_cases hu : u.name = name
    · rw [if_pos hu, ht', beq_self_eq_true]
    · rw [List.find?_cons] at h
      rw [if_neg hu]
      have hf : (u.name == name) = false := by simpa using hu
      rw [hf] at h ⊢
      exact ih h

theorem alter_repeat
    (hf : ∀ t t', f t = some t' → t'.name = t.name ∧ f t' = some t') (h : db.alter support name f = some db') :
    db'.alter support name f = some db' := by
  obtain ⟨t, t', hfind, ht, hwf, rfl⟩ := alter_eq_some.1 h
  obtain ⟨hname, hagain⟩ := hf t t' ht
  have hn : t'.name = name := hname.trans (find_name hfind).2
  refine alter_eq_some.2 ⟨t', t', find_map_replace hfind hn, hagain, hwf, ?_⟩
  simp only [List.map_map]
  congr 1
  refine map_congr_left (fun u _ => ?_)
  simp only [Function.comp]
  by_cases hu : u.name = name
  · rw [if_pos hu, if_pos hn]
  · rw [if_neg hu, if_neg hu]

variable {column : ColumnName}

theorem columnNames_setColumn {f : ColumnDef → ColumnDef} (hf : ∀ c, (f c).name = c.name)
    (t : TableSchema) : (t.setColumn column f).columnNames = t.columnNames := by
  unfold TableSchema.setColumn TableSchema.columnNames
  rw [List.map_map]
  refine map_congr_left (fun c _ => ?_)
  simp only [Function.comp]
  split
  · exact hf c
  · rfl

theorem alterColumn_repeat {f : ColumnDef → ColumnDef}
    (hname : ∀ c, (f c).name = c.name) (hidem : ∀ c, f (f c) = f c)
    (h : db.alterColumn support name column f = some db') : db'.alterColumn support name column f = some db' := by
  unfold Database.alterColumn at h ⊢
  split at h
  · rename_i hs
    rw [if_pos hs]
    refine alter_repeat (fun t t' ht => ?_) h
    split at ht
    · rename_i hin
      injection ht with ht
      subst ht
      refine ⟨rfl, ?_⟩
      rw [columnNames_setColumn hname, if_pos hin]
      congr 1
      unfold TableSchema.setColumn
      simp only [List.map_map]
      congr 1
      refine map_congr_left (fun c _ => ?_)
      simp only [Function.comp]
      by_cases hc : c.name = column
      · rw [if_pos hc, if_pos ((hname c).trans hc), hidem]
      · rw [if_neg hc, if_neg hc]
    · cases ht
  · cases h

theorem apply_repeat {stmt : Stmt} (hr : stmt.repeatable = true)
    (h : stmt.apply support db = some db') : stmt.apply support db' = some db' := by
  cases stmt with
  | renameTable | addColumn | dropColumn | addPrimaryKey | addForeignKey => cases hr
  | createTable d =>
    simp only [Stmt.apply] at h ⊢
    split at h
    · rename_i hs
      injection h with h; subst h
      rw [if_pos hs]
    · split at h
      · injection h with h; subst h
        have : (Database.find { db with tables := db.tables ++ [d.schema] } d.name).isSome = true := by
          unfold Database.find
          rw [List.find?_isSome]
          exact ⟨d.schema, by simp, by simp [TableDef.schema]⟩
        rw [if_pos this]
      · cases h
  | insertSelect into source columns =>
    simp only [Stmt.apply] at h ⊢
    split at h
    · rename_i hs
      injection h with h; subst h
      rw [if_pos hs]
    · cases h
  | dropTable table =>
    simp only [Stmt.apply, Option.some.injEq] at h ⊢
    subst h
    simp only [List.filter_filter, Bool.and_self]
  | update table column value =>
    simp only [Stmt.apply] at h ⊢
    split at h
    · rename_i hs
      injection h with h; subst h
      rw [if_pos hs]
    · cases h
  | setNotNull table column => exact alterColumn_repeat (fun _ => rfl) (fun _ => rfl) h
  | dropNotNull table column => exact alterColumn_repeat (fun _ => rfl) (fun _ => rfl) h
  | setDefault table column default => exact alterColumn_repeat (fun _ => rfl) (fun _ => rfl) h
  | dropDefault table column => exact alterColumn_repeat (fun _ => rfl) (fun _ => rfl) h
  | setDataType table column sqlType => exact alterColumn_repeat (fun _ => rfl) (fun _ => rfl) h
  | dropConstraint table name =>
    simp only [Stmt.apply] at h ⊢
    split at h
    · rename_i hs
      rw [if_pos hs]
      refine alter_repeat (fun t t' ht => ?_) h
      injection ht with ht
      subst ht
      refine ⟨rfl, ?_⟩
      congr 1
      unfold TableSchema.withoutConstraint
      simp only [List.filter_filter, Bool.and_self, Option.filter_filter]
    · cases h
  | createUniqueIndex name table columns =>
    simp only [Stmt.apply] at h ⊢
    split at h
    · rename_i hs
      injection h with h; subst h
      rw [if_pos hs]
    · split at h
      · injection h with h; subst h
        rw [if_pos (by simp)]
      · cases h

def NoRepeat : List Stmt → Prop := List.IsChain (fun a b => a = b → a.repeatable = true)

theorem runAll_destutter {sql : List Stmt} (h : NoRepeat sql) (db : Database) :
    runAll support (sql.destutter (· ≠ ·)) db = runAll support sql db := by
  cases sql with
  | nil => rfl
  | cons a sql =>
    rw [destutter_cons']
    induction sql generalizing a db with
    | nil => rfl
    | cons b sql ih =>
      obtain ⟨hab, htail⟩ := isChain_cons_cons.1 h
      by_cases heq : a = b
      · subst heq
        rw [destutter'_cons_neg _ (fun hne => hne rfl), ih db a htail, runAll_cons, runAll_cons a (a :: sql)]
        cases hap : a.apply support db with
        | none => rfl
        | some db' =>
          simp only [Option.bind_some]
          rw [runAll_cons, apply_repeat (hab rfl) hap, Option.bind_some]
      · rw [destutter'_cons_pos _ heq, runAll_cons, runAll_cons a (b :: sql)]
        cases a.apply support db with
        | none => rfl
        | some db' => exact ih db' b htail

/-! ## What no statement breaks -/

/-- A database of tables the engine can hold, with indexes over columns that are there. -/
def Database.WellFormed (support : OperatorSupport) (db : Database) : Prop :=
  (db.tables.map TableSchema.name).Nodup ∧ (∀ t ∈ db.tables, t.WellFormed support) ∧
    ∀ i ∈ db.indexes, ∃ t ∈ db.tables, t.name = i.table ∧ ∀ c ∈ i.columns, c ∈ t.columnNames

theorem map_name_replace {tables : List TableSchema} {t' : TableSchema} (ht' : t'.name = name) :
    (tables.map (fun u => if u.name = name then t' else u)).map TableSchema.name = tables.map TableSchema.name := by
  rw [List.map_map]
  refine map_congr_left (fun u _ => ?_)
  simp only [Function.comp]
  by_cases hu : u.name = name
  · rw [if_pos hu, ht', hu]
  · rw [if_neg hu]

theorem alter_wellFormed
    (hf : ∀ t t', f t = some t' → t'.name = t.name ∧
      ∀ i ∈ db.indexes, i.table = name → ∀ c ∈ i.columns, c ∈ t.columnNames → c ∈ t'.columnNames)
    (hdb : db.WellFormed support) (h : db.alter support name f = some db') : db'.WellFormed support := by
  obtain ⟨t, t', hfind, ht, hwf, rfl⟩ := alter_eq_some.1 h
  obtain ⟨hin, hname⟩ := find_name hfind
  obtain ⟨hname', hcols⟩ := hf t t' ht
  have hn : t'.name = name := hname'.trans hname
  have hnew : ∀ u ∈ db.tables, (if u.name = name then t' else u) ∈
      db.tables.map (fun u => if u.name = name then t' else u) := fun u hu => List.mem_map.2 ⟨u, hu, rfl⟩
  refine ⟨?_, ?_, ?_⟩
  · rw [map_name_replace hn]; exact hdb.1
  · intro u hu
    obtain ⟨v, hv, rfl⟩ := List.mem_map.1 hu
    split
    · exact hwf
    · exact hdb.2.1 v hv
  · intro i hi
    obtain ⟨u, hu, hut, hci⟩ := hdb.2.2 i hi
    by_cases hun : u.name = name
    · have hut' : u = t := inj_on_of_nodup_map hdb.1 hu hin (hun.trans hname.symm)
      subst hut'
      refine ⟨t', ?_, hn.trans (hun.symm.trans hut), fun c hc => hcols i hi (hut.symm.trans hun) c hc (hci c hc)⟩
      have := hnew u hu
      rwa [if_pos hun] at this
    · refine ⟨u, ?_, hut, hci⟩
      have := hnew u hu
      rwa [if_neg hun] at this

theorem alterColumn_wellFormed {f : ColumnDef → ColumnDef}
    (hdb : db.WellFormed support) (h : db.alterColumn support name column f = some db')
    (hname : ∀ c, (f c).name = c.name) : db'.WellFormed support := by
  unfold Database.alterColumn at h
  split at h
  · refine alter_wellFormed (fun t t' ht => ?_) hdb h
    split at ht
    · injection ht with ht
      subst ht
      exact ⟨rfl, fun _ _ _ c _ hc => by rwa [columnNames_setColumn hname]⟩
    · cases ht
  · cases h

theorem hasColumns_mem {columns : List ColumnName}
    (h : db.hasColumns name columns = true) :
    ∃ t ∈ db.tables, t.name = name ∧ ∀ c ∈ columns, c ∈ t.columnNames := by
  unfold Database.hasColumns at h
  cases hfind : db.find name with
  | none => rw [hfind] at h; cases h
  | some t =>
    rw [hfind] at h
    obtain ⟨hin, hn⟩ := find_name hfind
    exact ⟨t, hin, hn, fun c hc => by simpa using List.all_eq_true.1 h c hc⟩

theorem find_none (h : db.find name = none) : ∀ t ∈ db.tables, t.name ≠ name := by
  intro t ht hn
  have := List.find?_eq_none.1 h t ht
  simp [hn] at this

theorem mem_columnNames_withoutColumn {c : ColumnName} (hc : c ∈ t.columnNames) (hne : c ≠ column) :
    c ∈ (t.withoutColumn support column).columnNames := by
  have hcols : (t.withoutColumn support column).columns = t.columns.filter (fun c => c.name != column) := by
    unfold TableSchema.withoutColumn
    split
    · rfl
    · rfl
  unfold TableSchema.columnNames at hc ⊢
  obtain ⟨d, hd, rfl⟩ := List.mem_map.1 hc
  rw [hcols]
  exact List.mem_map.2 ⟨d, mem_filter.2 ⟨hd, by simpa using hne⟩, rfl⟩

theorem dropColumn_wellFormed {table : TableName} {ifExists : Bool}
    (hdb : db.WellFormed support) (h : (Stmt.dropColumn table ifExists column).apply support db = some db') :
    db'.WellFormed support := by
  simp only [Stmt.apply] at h
  split at h
  · cases h
  · split at h
    · cases h
    · obtain ⟨db₁, halter, rfl⟩ := Option.map_eq_some_iff.1 h
      obtain ⟨t, t', hfind, ht, hwf, rfl⟩ := alter_eq_some.1 halter
      -- the indexes that lose a column may as well go first; the others keep theirs
      have hdb₀ : Database.WellFormed support { db with
          indexes := db.indexes.filter (fun i => !(i.table == table && i.columns.contains column)) } :=
        ⟨hdb.1, hdb.2.1, fun i hi => hdb.2.2 i (mem_filter.1 hi).1⟩
      have halter₀ : Database.alter support { db with
          indexes := db.indexes.filter (fun i => !(i.table == table && i.columns.contains column)) } table
          (fun t => if column ∈ t.columnNames then some (t.withoutColumn support column)
            else (if ifExists then some t else none)) = some _ :=
        alter_eq_some.2 ⟨t, t', hfind, ht, hwf, rfl⟩
      refine alter_wellFormed (fun u u' hu => ?_) hdb₀ halter₀
      split at hu
      · injection hu with hu
        subst hu
        refine ⟨?_, fun i hi hit c hc hcu => mem_columnNames_withoutColumn hcu (fun hcc => ?_)⟩
        · unfold TableSchema.withoutColumn
          split
          · rfl
          · rfl
        · have hkeep := (mem_filter.1 hi).2
          subst hcc
          simp [hit, hc] at hkeep
      · split at hu
        · injection hu with hu
          subst hu
          exact ⟨rfl, fun _ _ _ _ _ hc => hc⟩
        · cases hu

theorem renameTable_wellFormed {table newName : TableName} (hdb : db.WellFormed support)
    (h : (Stmt.renameTable table newName).apply support db = some db') : db'.WellFormed support := by
  simp only [Stmt.apply] at h
  split at h
  · rename_i hs
    injection h with h
    subst h
    have hfree : ∀ t ∈ db.tables, t.name ≠ newName := by
      rw [Bool.and_eq_true, Option.isNone_iff_eq_none] at hs
      exact find_none hs.2
    refine ⟨?_, ?_, ?_⟩
    · rw [List.map_map]
      refine (nodup_map_iff_inj_on (List.Nodup.of_map _ hdb.1)).2 (fun u hu v hv heq => ?_)
      simp only [Function.comp] at heq
      by_cases hun : u.name = table <;> by_cases hvn : v.name = table
      · exact inj_on_of_nodup_map hdb.1 hu hv (hun.trans hvn.symm)
      · rw [if_pos hun, if_neg hvn] at heq; exact absurd heq.symm (hfree v hv)
      · rw [if_neg hun, if_pos hvn] at heq; exact absurd heq (hfree u hu)
      · rw [if_neg hun, if_neg hvn] at heq; exact inj_on_of_nodup_map hdb.1 hu hv heq
    · intro u hu
      obtain ⟨v, hv, rfl⟩ := List.mem_map.1 hu
      split
      · exact hdb.2.1 v hv
      · exact hdb.2.1 v hv
    · intro i hi
      obtain ⟨j, hj, rfl⟩ := List.mem_map.1 hi
      obtain ⟨u, hu, hut, hci⟩ := hdb.2.2 j hj
      refine ⟨_, List.mem_map.2 ⟨u, hu, rfl⟩, ?_, ?_⟩
      · by_cases hun : u.name = table
        · rw [if_pos hun, if_pos (hut.symm.trans hun)]
        · rw [if_neg hun, if_neg (fun hj => hun (hut.trans hj))]; exact hut
      · intro c hc
        have hc' : c ∈ u.columnNames := hci c (by split at hc <;> exact hc)
        split
        · exact hc'
        · exact hc'
  · cases h

/-- **No statement leaves keys or indexes over columns that are not there.** -/
theorem apply_wellFormed {stmt : Stmt} (hdb : db.WellFormed support)
    (h : stmt.apply support db = some db') : db'.WellFormed support := by
  cases stmt with
  | createTable d =>
    simp only [Stmt.apply] at h
    split at h
    · injection h with h; subst h; exact hdb
    · rename_i hs
      split at h
      · rename_i hwf
        injection h with h; subst h
        have hfree : ∀ t ∈ db.tables, t.name ≠ d.name := find_none (by simpa using hs)
        refine ⟨?_, ?_, ?_⟩
        · rw [map_append, map_singleton]
          refine nodup_append.2 ⟨hdb.1, nodup_singleton _, ?_⟩
          intro a ha b hb hab
          obtain ⟨t, ht, rfl⟩ := List.mem_map.1 ha
          rw [mem_singleton] at hb
          exact hfree t ht (hab.trans hb)
        · intro t ht
          rcases mem_append.1 ht with ht | ht
          · exact hdb.2.1 t ht
          · rw [mem_singleton.1 ht]; exact hwf
        · intro i hi
          obtain ⟨t, ht, hti⟩ := hdb.2.2 i hi
          exact ⟨t, mem_append_left _ ht, hti⟩
      · cases h
  | insertSelect into source columns =>
    simp only [Stmt.apply] at h
    split at h
    · injection h with h; subst h; exact hdb
    · cases h
  | dropTable table =>
    simp only [Stmt.apply, Option.some.injEq] at h
    subst h
    refine ⟨hdb.1.sublist (filter_sublist.map _), fun t ht => hdb.2.1 t (mem_filter.1 ht).1, ?_⟩
    intro i hi
    obtain ⟨hin, hit⟩ := mem_filter.1 hi
    obtain ⟨t, ht, htn, hci⟩ := hdb.2.2 i hin
    exact ⟨t, mem_filter.2 ⟨ht, by rw [htn]; exact hit⟩, htn, hci⟩
  | renameTable table newName => exact renameTable_wellFormed hdb h
  | addColumn table ifNotExists column =>
    simp only [Stmt.apply] at h
    split at h
    · cases h
    · refine alter_wellFormed (fun t t' ht => ?_) hdb h
      split at ht
      · split at ht
        · injection ht with ht; subst ht; exact ⟨rfl, fun _ _ _ _ _ hc => hc⟩
        · cases ht
      · injection ht with ht
        subst ht
        refine ⟨rfl, fun _ _ _ c _ hc => ?_⟩
        unfold TableSchema.columnNames at hc ⊢
        rw [map_append]
        exact mem_append_left _ hc
  | dropColumn table ifExists column => exact dropColumn_wellFormed hdb h
  | update table column value =>
    simp only [Stmt.apply] at h
    split at h
    · injection h with h; subst h; exact hdb
    · cases h
  | setNotNull table column => exact alterColumn_wellFormed hdb h (fun _ => rfl)
  | dropNotNull table column => exact alterColumn_wellFormed hdb h (fun _ => rfl)
  | setDefault table column default => exact alterColumn_wellFormed hdb h (fun _ => rfl)
  | dropDefault table column => exact alterColumn_wellFormed hdb h (fun _ => rfl)
  | setDataType table column sqlType => exact alterColumn_wellFormed hdb h (fun _ => rfl)
  | addPrimaryKey table name columns =>
    simp only [Stmt.apply] at h
    split at h
    · refine alter_wellFormed (fun t t' ht => ?_) hdb h
      split at ht
      · cases ht
      · injection ht with ht; subst ht; exact ⟨rfl, fun _ _ _ _ _ hc => hc⟩
    · cases h
  | addForeignKey table name key =>
    simp only [Stmt.apply] at h
    split at h
    · refine alter_wellFormed (fun t t' ht => ?_) hdb h
      injection ht with ht; subst ht; exact ⟨rfl, fun _ _ _ _ _ hc => hc⟩
    · cases h
  | dropConstraint table name =>
    simp only [Stmt.apply] at h
    split at h
    · refine alter_wellFormed (fun t t' ht => ?_) hdb h
      injection ht with ht; subst ht; exact ⟨rfl, fun _ _ _ _ _ hc => hc⟩
    · cases h
  | createUniqueIndex name table columns =>
    simp only [Stmt.apply] at h
    split at h
    · injection h with h; subst h; exact hdb
    · split at h
      · rename_i hcols
        injection h with h; subst h
        refine ⟨hdb.1, hdb.2.1, fun i hi => ?_⟩
        rcases mem_append.1 hi with hi | hi
        · exact hdb.2.2 i hi
        · rw [mem_singleton.1 hi]
          exact hasColumns_mem hcols
      · cases h

theorem runAll_wellFormed {sql : List Stmt} (hdb : db.WellFormed support)
    (h : runAll support sql db = some db') : db'.WellFormed support := by
  induction sql generalizing db with
  | nil => rw [runAll] at h; injection h with h; rwa [← h]
  | cons stmt sql ih =>
    rw [runAll_cons] at h
    obtain ⟨db₁, h₁, h₂⟩ := Option.bind_eq_some_iff.1 h
    exact ih (apply_wellFormed hdb h₁) h₂

end SqlSchema
end DsApm
