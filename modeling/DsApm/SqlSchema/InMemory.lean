import DsApm.SqlSchema.Migration
/-!
# InMemory — what altering makes of the old table

The table that `AlterTable` was given, step by step: which keys and columns the two loops leave, what the other steps add.
None of it depends on what the operator supports.  `alterTable_matches_iff`: the table is the new one exactly when the two
loops meet every foreign key and column that is to go.
-/
namespace DsApm
namespace SqlSchema

open List

/-! ## Comparing and finding -/

theorem Column.equals_iff {c d : Column} : c.equals d = true ↔ c = d := by
  unfold Column.equals
  simp only [Bool.and_eq_true, beq_iff_eq]
  constructor
  · rintro ⟨⟨⟨h₁, h₂⟩, h₃⟩, h₄⟩
    cases c; cases d; simp_all
  · rintro rfl
    exact ⟨⟨⟨rfl, rfl⟩, rfl⟩, rfl⟩

theorem ForeignKeyConstraint.equals_iff {fk other : ForeignKeyConstraint} :
    fk.equals other = true ↔ fk.toDefinitionSQL = other.toDefinitionSQL := by
  unfold ForeignKeyConstraint.equals ForeignKeyConstraint.toDefinitionSQL
  simp only [Bool.and_eq_true, beq_iff_eq, ForeignKeyDef.mk.injEq, and_assoc]

theorem PrimaryKeyConstraint.equals_self (pk : PrimaryKeyConstraint) : pk.equals pk = true := by
  unfold PrimaryKeyConstraint.equals
  simp

variable {table : Table} {name : ColumnName}

theorem findColumnByName_isNone :
    (findColumnByName table name).isNone = true ↔ name ∉ table.columnNames := by
  unfold findColumnByName Table.columnNames
  simp

theorem findColumnByName_eq_none (h : name ∉ table.columnNames) :
    findColumnByName table name = none := Option.isNone_iff_eq_none.1 (findColumnByName_isNone.2 h)

theorem findForeignKeyConstraint_isNone {fk : ForeignKeyConstraint} :
    (findForeignKeyConstraint table fk).isNone = true ↔ fk.toDefinitionSQL ∉ table.foreignKeyDefs := by
  unfold findForeignKeyConstraint Table.foreignKeyDefs
  simp only [Option.isNone_iff_eq_none, List.findIdx?_eq_none_iff, List.mem_map, not_exists, not_and]
  constructor
  · intro h x hx heq
    have := h x hx
    rw [ForeignKeyConstraint.equals_iff.2 heq] at this
    cases this
  · intro h x hx
    by_contra hne
    exact h x hx (ForeignKeyConstraint.equals_iff.1 (by simpa using hne))

theorem lacksColumn_iff : table.lacksColumn name = true ↔ name ∉ table.columnNames := by
  unfold Table.lacksColumn; simp

theorem lacksForeignKey_iff {d : ForeignKeyDef} :
    table.lacksForeignKey d = true ↔ d ∉ table.foreignKeyDefs := by
  unfold Table.lacksForeignKey; simp

/-- The first unique constraint with all the columns of the given one, which is dropped in its place. -/
def foundIn (us : List UniqueConstraint) (u : UniqueConstraint) : UniqueConstraint := (us.find? (fun v => v.equals u)).getD u

theorem UniqueConstraint.equals_iff {u v : UniqueConstraint} :
    u.equals v = true ↔ ∀ c ∈ v.columnNames, c ∈ u.columnNames := by
  unfold UniqueConstraint.equals
  simp

theorem findIdx?_foundIn {us : List UniqueConstraint} {u : UniqueConstraint} (hu : u ∈ us) :
    ∃ i, us.findIdx? (fun v => v.equals u) = some i ∧ us[i]? = some (foundIn us u) := by
  cases h : us.findIdx? (fun v => v.equals u) with
  | none =>
    have hself := List.findIdx?_eq_none_iff.1 h u hu
    rw [UniqueConstraint.equals_iff.2 (fun c hc => hc)] at hself
    cases hself
  | some i =>
    obtain ⟨hlt, hp, hmin⟩ := List.findIdx?_eq_some_iff_getElem.1 h
    refine ⟨i, rfl, ?_⟩
    have hfind : us.find? (fun v => v.equals u) = some us[i] :=
      List.find?_eq_some_iff_getElem.2 ⟨hp, i, hlt, rfl, fun j hj => by simpa using hmin j hj⟩
    unfold foundIn
    rw [hfind, List.getElem?_eq_getElem hlt]; rfl

/-! ## The operations -/

namespace Operator

variable (operator : Operator) (us : List UniqueConstraint)

variable {table : Table}

theorem dropConstraint_primaryKey {pk : PrimaryKeyConstraint} (h : table.primaryKeyConstraint = some pk) :
    operator.dropConstraint table us (.primaryKey pk) =
      ({ table with primaryKeyConstraint := none },
        if operator.support.sCreateAndDropConstraint then [(Constraint.primaryKey pk).toDropSQL table.name]
        else operator.recreateTable { table with primaryKeyConstraint := none } us) := by
  unfold dropConstraint Table.dropConstraint
  simp only [h, Constraint.equals, PrimaryKeyConstraint.equals_self, if_true]

variable {fk : ForeignKeyConstraint}

theorem dropConstraint_foreignKey {found : ForeignKeyConstraint}
    (h : table.foreignKeyConstraints.find? fk.equals = some found) :
    operator.dropConstraint table us (.foreignKey fk) =
      ({ table with foreignKeyConstraints := table.foreignKeyConstraints.eraseP fk.equals },
        if operator.support.sCreateAndDropConstraint then [(Constraint.foreignKey found).toDropSQL table.name]
        else operator.recreateTable
          { table with foreignKeyConstraints := table.foreignKeyConstraints.eraseP fk.equals } us) := by
  unfold dropConstraint Table.dropConstraint
  simp only [h]

theorem dropConstraint_foreignKey_absent
    (h : table.foreignKeyConstraints.find? fk.equals = none) :
    operator.dropConstraint table us (.foreignKey fk) = (table, []) := by
  unfold dropConstraint Table.dropConstraint findUniqueConstraint
  simp only [h]

theorem dropConstraint_unique {u found : UniqueConstraint} {i : Nat}
    (h : us.findIdx? (fun v => v.equals u) = some i) (hi : us[i]? = some found) :
    operator.dropConstraint table us (.unique u) =
      (table, if operator.support.sCreateAndDropConstraint then [(Constraint.unique found).toDropSQL table.name]
        else operator.recreateTable table (us.eraseIdx i)) := by
  have htable : table.dropConstraint (.unique u) = (table, none) := by
    unfold Table.dropConstraint
    simp only [Constraint.equals]
    split
    · rfl
    · rfl
  unfold dropConstraint
  simp only [htable, findUniqueConstraint, h, hi]

theorem dropConstraint_foreignKey_table (table : Table) (fk : ForeignKeyConstraint) :
    (operator.dropConstraint table us (.foreignKey fk)).1 =
      { table with foreignKeyConstraints := table.foreignKeyConstraints.eraseP fk.equals } := by
  cases h : table.foreignKeyConstraints.find? fk.equals with
  | some found => rw [dropConstraint_foreignKey operator us h]
  | none =>
    rw [dropConstraint_foreignKey_absent operator us h, eraseP_of_forall_not (List.find?_eq_none.1 h)]

theorem dropConstraint_unique_table (table : Table) (u : UniqueConstraint) :
    (operator.dropConstraint table us (.unique u)).1 = table := by
  have htable : table.dropConstraint (.unique u) = (table, none) := by
    unfold Table.dropConstraint
    simp only [Constraint.equals]
    split
    · rfl
    · rfl
  unfold dropConstraint
  simp only [htable]
  split
  · rfl
  · split
    · rfl
    · rfl

theorem dropColumn_table (table : Table) (column : Column) :
    (operator.dropColumn table column).1 =
      { table with columns := table.columns.eraseP (fun c => c.name == column.name) } := by
  unfold dropColumn
  cases h : findColumnByName table column.name with
  | some _ => rfl
  | none =>
    have hnone := List.findIdx?_eq_none_iff.1 h
    rw [eraseP_of_forall_not (fun c hc => by rw [hnone c hc]; exact Bool.false_ne_true)]

theorem addColumn_absent {column : Column} (h : column.name ∉ table.columnNames) :
    operator.addColumn table us column none =
      ({ table with columns := table.columns ++ [column] },
        [column.toAddSQL operator.fmter table.name
          operator.support.sAlterTableAddAndDropColumnIfNotExistsAndExists] ++
        (if column.nullable = false ∧ column.default = "" then
          [.update table.name column.name (.zero column.dataType.z)] else []) ++
        (if column.nullable = false then
          (if operator.support.sAlterTableAlterColumnSetAndDrop then [.setNotNull table.name column.name]
            else operator.recreateTable { table with columns := table.columns ++ [column] } us) else [])) := by
  unfold addColumn
  rw [findColumnByName_eq_none h]
  by_cases hn : column.nullable = false
  · by_cases hd : column.default = ""
    · by_cases ha : operator.support.sAlterTableAlterColumnSetAndDrop = true
      · simp [hn, hd, ha]
      · simp [hn, hd, ha]
    · by_cases ha : operator.support.sAlterTableAlterColumnSetAndDrop = true
      · simp [hn, hd, ha]
      · simp [hn, hd, ha]
  · simp [hn]

theorem addColumn_table {column : Column} (h : column.name ∉ table.columnNames) :
    (operator.addColumn table us column none).1 = { table with columns := table.columns ++ [column] } := by
  rw [addColumn_absent operator us h]

theorem set_findIdx? {columns : List Column} (hnodup : (columns.map Column.name).Nodup) {name : ColumnName} {i : Nat}
    (h : columns.findIdx? (fun c => c.name == name) = some i) (column : Column) :
    columns.set i column = columns.map (fun c => if c.name = name then column else c) := by
  induction columns generalizing i with
  | nil => cases h
  | cons c rest ih =>
    rw [map_cons, nodup_cons] at hnodup
    rw [List.findIdx?_cons] at h
    by_cases hc : c.name = name
    · rw [if_pos (by simpa using hc)] at h
      injection h with h
      subst h
      rw [set_cons_zero, map_cons, if_pos hc]
      congr 1
      refine (List.map_id rest).symm.trans (map_congr_left (fun d hd => ?_))
      rw [if_neg (fun hdn => hnodup.1 (List.mem_map.2 ⟨d, hd, hdn.trans hc.symm⟩))]; rfl
    · rw [if_neg (by simpa using hc)] at h
      obtain ⟨j, hj, rfl⟩ := Option.map_eq_some_iff.1 h
      rw [set_cons_succ, map_cons, if_neg hc, ih hnodup.2 hj]

theorem alterColumn_table (hnodup : table.columnNames.Nodup) (column : Column) :
    (operator.alterColumn table us column).1 =
      { table with columns := table.columns.map (fun c => if c.name = column.name then column else c) } := by
  unfold alterColumn
  cases h : findColumnByName table column.name with
  | none =>
    have hnone := List.findIdx?_eq_none_iff.1 h
    have hid : table.columns.map (fun c => if c.name = column.name then column else c) = table.columns := by
      refine (map_congr_left (fun c hc => ?_)).trans (List.map_id _)
      rw [if_neg (by simpa using hnone c hc)]; rfl
    rw [hid]
  | some i =>
    have hset := set_findIdx? hnodup h column
    have hlt : i < table.columns.length := (List.findIdx?_eq_some_iff_findIdx_eq.1 h).1
    simp only [List.getElem?_eq_getElem hlt]
    split
    · rename_i heq
      rw [← hset, ← Column.equals_iff.1 heq, set_getElem_self]
    · split
      · rw [← hset]
      · rw [← hset]

/-! ## The steps -/

variable (newTable : Table)

theorem dropPrimaryKey_table (s : Script) :
    (operator.dropPrimaryKey us newTable s).table = { s.table with
      primaryKeyConstraint := if keepsPrimaryKey s.table newTable then s.table.primaryKeyConstraint else none } := by
  unfold dropPrimaryKey keepsPrimaryKey
  cases hpk : s.table.primaryKeyConstraint with
  | none =>
    obtain ⟨⟨name, columns, pk, fks⟩, sql⟩ := s
    simp only at hpk; subst hpk; rfl
  | some pk =>
    cases hnew : newTable.primaryKeyConstraint with
    | none =>
      simp only [Script.add, dropConstraint_primaryKey operator us hpk]; rfl
    | some newPk =>
      simp only
      split
      · obtain ⟨⟨name, columns, pk', fks⟩, sql⟩ := s
        simp only at hpk; subst hpk; rfl
      · simp only [Script.add, dropConstraint_primaryKey operator us hpk]

theorem dropForeignKeyPass_table (s : Script) (fk : ForeignKeyConstraint) :
    (operator.dropForeignKeyPass us newTable s fk).table = { s.table with
      foreignKeyConstraints := if newTable.lacksForeignKey fk.toDefinitionSQL
        then s.table.foreignKeyConstraints.eraseP fk.equals else s.table.foreignKeyConstraints } := by
  unfold dropForeignKeyPass
  by_cases h : fk.toDefinitionSQL ∈ newTable.foreignKeyDefs
  · rw [if_neg (fun hn => findForeignKeyConstraint_isNone.1 hn h), if_neg (fun hl => lacksForeignKey_iff.1 hl h)]
  · rw [if_pos (findForeignKeyConstraint_isNone.2 h), if_pos (lacksForeignKey_iff.2 h)]
    exact dropConstraint_foreignKey_table operator us s.table fk

theorem dropForeignKeys_frame (s : Script) :
    (operator.dropForeignKeys us newTable s).table = { s.table with
        foreignKeyConstraints := (operator.dropForeignKeys us newTable s).table.foreignKeyConstraints } ∧
      (operator.dropForeignKeys us newTable s).table.foreignKeyConstraints.Sublist s.table.foreignKeyConstraints := by
  unfold dropForeignKeys
  refine GoSlice.rangeOver_inv (P := fun s' : Script =>
    s'.table = { s.table with foreignKeyConstraints := s'.table.foreignKeyConstraints } ∧
      s'.table.foreignKeyConstraints.Sublist s.table.foreignKeyConstraints) (fun s' fk hs' => ?_)
    ⟨rfl, List.Sublist.refl _⟩
  rw [dropForeignKeyPass_table]
  refine ⟨by rw [hs'.1], ?_⟩
  simp only
  split
  · exact eraseP_sublist.trans hs'.2
  · exact hs'.2

theorem dropForeignKeys_defs (s : Script) :
    (operator.dropForeignKeys us newTable s).table.foreignKeyDefs =
      GoSlice.rangeOver id (GoSlice.erasing newTable.lacksForeignKey) s.table.foreignKeyDefs := by
  unfold dropForeignKeys Table.foreignKeyDefs
  refine GoSlice.map_rangeOver newTable.lacksForeignKey (fun s : Script => s.table.foreignKeyConstraints)
    ForeignKeyConstraint.toDefinitionSQL (fun s' fk => ?_) s
  rw [dropForeignKeyPass_table]
  unfold GoSlice.erasing
  simp only
  split
  · exact GoSlice.map_eraseP _ (fun x => ForeignKeyConstraint.equals_iff.trans eq_comm) _
  · rfl

theorem dropUniques_table (s : Script) : (operator.dropUniques us s).table = s.table := by
  unfold dropUniques
  refine List.foldlRecOn us _ (motive := fun s' : Script => s'.table = s.table) rfl (fun s' hs' u _ => ?_)
  exact (dropConstraint_unique_table operator us s'.table u).trans hs'

theorem reduceDrops_table (s : Script) : (operator.reduceDrops s).table = s.table := by
  unfold reduceDrops
  split
  · rfl
  · rfl

theorem dropColumnPass_table (s : Script) (column : Column) :
    (operator.dropColumnPass newTable s column).table = { s.table with
      columns := if newTable.lacksColumn column.name
        then s.table.columns.eraseP (fun c => c.name == column.name) else s.table.columns } := by
  unfold dropColumnPass
  by_cases h : column.name ∈ newTable.columnNames
  · rw [if_neg (fun hn => findColumnByName_isNone.1 hn h), if_neg (fun hl => lacksColumn_iff.1 hl h)]
  · rw [if_pos (findColumnByName_isNone.2 h), if_pos (lacksColumn_iff.2 h)]
    exact dropColumn_table operator s.table column

theorem dropColumns_frame (s : Script) :
    (operator.dropColumns newTable s).table = { s.table with columns := (operator.dropColumns newTable s).table.columns } ∧
      (operator.dropColumns newTable s).table.columns.Sublist s.table.columns := by
  unfold dropColumns
  refine GoSlice.rangeOver_inv (P := fun s' : Script =>
    s'.table = { s.table with columns := s'.table.columns } ∧ s'.table.columns.Sublist s.table.columns)
    (fun s' c hs' => ?_) ⟨rfl, List.Sublist.refl _⟩
  rw [dropColumnPass_table]
  refine ⟨by rw [hs'.1], ?_⟩
  simp only
  split
  · exact eraseP_sublist.trans hs'.2
  · exact hs'.2

theorem dropColumns_names (s : Script) :
    (operator.dropColumns newTable s).table.columnNames =
      GoSlice.rangeOver id (GoSlice.erasing newTable.lacksColumn) s.table.columnNames := by
  unfold dropColumns Table.columnNames
  refine GoSlice.map_rangeOver newTable.lacksColumn (fun s : Script => s.table.columns) Column.name (fun s' c => ?_) s
  rw [dropColumnPass_table]
  unfold GoSlice.erasing
  simp only
  split
  · exact GoSlice.map_eraseP _ (fun x => beq_iff_eq) _
  · rfl

theorem addColumns_table {newTable : Table} (hnew : newTable.columnNames.Nodup) (s : Script) :
    (operator.addColumns us newTable s).table = { s.table with
      columns := s.table.columns ++ newTable.columns.filter (fun c => c.name ∉ s.table.columnNames) } := by
  unfold addColumns
  unfold Table.columnNames at hnew
  generalize newTable.columns = l at hnew
  induction l generalizing s with
  | nil => simp
  | cons c l ih =>
    rw [map_cons, nodup_cons] at hnew
    rw [foldl_cons, ih _ hnew.2]
    by_cases hc : c.name ∈ s.table.columnNames
    · rw [if_neg (fun hn => findColumnByName_isNone.1 hn hc), filter_cons_of_neg (by simpa using hc)]
    · rw [if_pos (findColumnByName_isNone.2 hc), filter_cons_of_pos (by simpa using hc)]
      simp only [Script.add, addColumn_table operator us hc]
      congr 1
      rw [List.append_assoc, singleton_append]
      congr 2
      refine filter_congr (fun d hd => ?_)
      have hdc : d.name ≠ c.name := fun h => hnew.1 (List.mem_map.2 ⟨d, hd, h⟩)
      simp [Table.columnNames, hdc]

def updated (l : List Column) (c : Column) : Column := (l.find? (fun d => d.name == c.name)).getD c

theorem updated_name (l : List Column) (c : Column) : (updated l c).name = c.name := by
  unfold updated
  cases h : l.find? (fun d => d.name == c.name) with
  | none => rfl
  | some d => simpa using List.find?_some h

theorem updated_cons {l : List Column} {c x : Column} (hc : c.name ∉ l.map Column.name) :
    updated (c :: l) x = updated l (if x.name = c.name then c else x) := by
  unfold updated
  rw [List.find?_cons]
  by_cases hx : x.name = c.name
  · have hnone : l.find? (fun d => d.name == c.name) = none :=
      List.find?_eq_none.2 (fun d hd h => hc (List.mem_map.2 ⟨d, hd, by simpa using h⟩))
    simp only [hx, beq_self_eq_true, if_true, hnone]; rfl
  · have hne : (c.name == x.name) = false := by simpa using fun h => hx h.symm
    simp only [hne, if_neg hx]

theorem alterColumn_columnNames (hnodup : table.columnNames.Nodup) (column : Column) :
    (operator.alterColumn table us column).1.columnNames = table.columnNames := by
  rw [alterColumn_table operator us hnodup]
  unfold Table.columnNames
  rw [List.map_map]
  refine map_congr_left (fun d _ => ?_)
  simp only [Function.comp]
  split
  · rename_i h; exact h.symm
  · rfl

theorem alterColumns_fold (l : List Column) (hl : (l.map Column.name).Nodup) (s : Script)
    (hs : s.table.columnNames.Nodup) :
    (l.foldl (fun (s : Script) column => s.add (operator.alterColumn s.table us column)) s).table =
      { s.table with columns := s.table.columns.map (updated l) } := by
  induction l generalizing s with
  | nil =>
    have hid : updated [] = id := by funext c; rfl
    rw [hid, List.map_id]; rfl
  | cons c l ih =>
    rw [map_cons, nodup_cons] at hl
    have htable := alterColumn_table operator us hs c
    have hnames : (s.add (operator.alterColumn s.table us c)).table.columnNames = s.table.columnNames :=
      alterColumn_columnNames operator us hs c
    rw [foldl_cons, ih hl.2 _ (hnames.symm ▸ hs)]
    simp only [Script.add, htable, List.map_map]
    congr 1
    exact map_congr_left (fun d _ => (updated_cons hl.1).symm)

theorem modifyColumns_table {newTable : Table} (hnew : newTable.columnNames.Nodup) (s : Script)
    (hs : s.table.columnNames.Nodup) :
    (operator.modifyColumns us newTable s).table =
      { s.table with columns := s.table.columns.map (updated newTable.columns) } := by
  have hfold := alterColumns_fold operator us newTable.columns hnew ⟨s.table, []⟩ hs
  unfold modifyColumns
  simp only
  split
  · exact hfold
  · split
    · exact hfold
    · exact hfold

theorem rename_table (s : Script) : (rename newTable s).table = { s.table with name := newTable.name } := by
  unfold rename
  split
  · rfl
  · rename_i h
    have h' : s.table.name = newTable.name := by simpa using h
    rw [← h']

theorem createPrimaryKey_table (s : Script) :
    (operator.createPrimaryKey us newTable s).table = { s.table with
      primaryKeyConstraint := match s.table.primaryKeyConstraint, newTable.primaryKeyConstraint with
        | none, some newPk => some newPk
        | some pk, some newPk => if pk.equals newPk then some pk else some newPk
        | pk, none => pk } := by
  unfold createPrimaryKey
  obtain ⟨⟨name, columns, pk, fks⟩, sql⟩ := s
  cases pk with
  | none =>
    cases newTable.primaryKeyConstraint with
    | none => rfl
    | some _ => rfl
  | some pk =>
    cases newTable.primaryKeyConstraint with
    | none => rfl
    | some newPk =>
      simp only
      split
      · rfl
      · rfl

theorem createConstraint_foreignKey
    (h : fk.toDefinitionSQL ∉ table.foreignKeyDefs) :
    operator.createConstraint table us (.foreignKey fk) =
      ({ table with foreignKeyConstraints := table.foreignKeyConstraints ++ [fk] },
        if operator.support.sCreateAndDropConstraint then (Constraint.foreignKey fk).toCreateSQL table.name
        else operator.recreateTable { table with foreignKeyConstraints := table.foreignKeyConstraints ++ [fk] } us) := by
  have hnone : ¬ table.foreignKeyConstraints.any fk.equals = true := by
    intro hany
    obtain ⟨x, hx, heq⟩ := List.any_eq_true.1 hany
    exact h (List.mem_map.2 ⟨x, hx, (ForeignKeyConstraint.equals_iff.1 heq).symm⟩)
  unfold createConstraint
  simp only [if_neg hnone]

theorem createForeignKeys_table (s : Script) :
    (operator.createForeignKeys us newTable s).table = { s.table with
      foreignKeyConstraints := s.table.foreignKeyConstraints ++
        missingForeignKeys s.table.foreignKeyDefs newTable.foreignKeyConstraints } := by
  unfold createForeignKeys
  generalize newTable.foreignKeyConstraints = l
  induction l generalizing s with
  | nil => simp [missingForeignKeys]
  | cons fk l ih =>
    rw [foldl_cons, ih, missingForeignKeys]
    by_cases hfk : fk.toDefinitionSQL ∈ s.table.foreignKeyDefs
    · rw [if_neg (fun hn => findForeignKeyConstraint_isNone.1 hn hfk), if_pos hfk]
    · rw [if_pos (findForeignKeyConstraint_isNone.2 hfk), if_neg hfk]
      simp only [Script.add, createConstraint_foreignKey operator us hfk, Table.foreignKeyDefs, map_append,
        map_singleton, List.append_assoc, singleton_append]

/-! ## The stages of an alteration -/

variable (oldTable : Table)

def dropped : Script :=
  operator.dropUniques us (operator.dropForeignKeys us newTable (operator.dropPrimaryKey us newTable ⟨oldTable, []⟩))

def trimmed : Script := operator.dropColumns newTable (operator.reduceDrops (operator.dropped us newTable oldTable))

def filled : Script :=
  operator.modifyColumns us newTable (operator.addColumns us newTable (operator.trimmed us newTable oldTable))

def renamed : Script := rename newTable (operator.filled us newTable oldTable)

def keyed : Script :=
  operator.createForeignKeys us newTable (operator.createPrimaryKey us newTable (operator.renamed us newTable oldTable))

theorem alterTable_eq : operator.alterTable oldTable us newTable =
    ((operator.keyed us newTable oldTable).table,
      (createIndices us (operator.keyed us newTable oldTable)).sql.destutter (· ≠ ·)) := rfl

theorem dropped_table : (operator.dropped us newTable oldTable).table = { oldTable with
    primaryKeyConstraint := if keepsPrimaryKey oldTable newTable then oldTable.primaryKeyConstraint else none
    foreignKeyConstraints := (operator.dropped us newTable oldTable).table.foreignKeyConstraints } := by
  unfold dropped
  rw [dropUniques_table, (dropForeignKeys_frame operator us newTable _).1, dropPrimaryKey_table]

theorem dropped_foreignKeys_sublist :
    (operator.dropped us newTable oldTable).table.foreignKeyConstraints.Sublist oldTable.foreignKeyConstraints := by
  unfold dropped
  rw [dropUniques_table]
  have h := (dropForeignKeys_frame operator us newTable (operator.dropPrimaryKey us newTable ⟨oldTable, []⟩)).2
  rw [dropPrimaryKey_table] at h
  exact h

theorem dropped_foreignKeyDefs : (operator.dropped us newTable oldTable).table.foreignKeyDefs =
    GoSlice.rangeOver id (GoSlice.erasing newTable.lacksForeignKey) oldTable.foreignKeyDefs := by
  unfold dropped
  rw [dropUniques_table, dropForeignKeys_defs, dropPrimaryKey_table]; rfl

theorem trimmed_table : (operator.trimmed us newTable oldTable).table = { oldTable with
    columns := (operator.trimmed us newTable oldTable).table.columns
    primaryKeyConstraint := if keepsPrimaryKey oldTable newTable then oldTable.primaryKeyConstraint else none
    foreignKeyConstraints := (operator.dropped us newTable oldTable).table.foreignKeyConstraints } := by
  unfold trimmed
  rw [(dropColumns_frame operator newTable _).1, reduceDrops_table, dropped_table operator us newTable oldTable]

theorem trimmed_columns_sublist : (operator.trimmed us newTable oldTable).table.columns.Sublist oldTable.columns := by
  unfold trimmed
  have h := (dropColumns_frame operator newTable (operator.reduceDrops (operator.dropped us newTable oldTable))).2
  rw [reduceDrops_table, dropped_table operator us newTable oldTable] at h
  exact h

theorem trimmed_columnNames : (operator.trimmed us newTable oldTable).table.columnNames =
    GoSlice.rangeOver id (GoSlice.erasing newTable.lacksColumn) oldTable.columnNames := by
  unfold trimmed
  rw [dropColumns_names, reduceDrops_table, dropped_table operator us newTable oldTable]; rfl

theorem mem_trimmed_of_stays {n : ColumnName} (hold : n ∈ oldTable.columnNames) (hnew : n ∈ newTable.columnNames) :
    n ∈ (operator.trimmed us newTable oldTable).table.columnNames := by
  rw [trimmed_columnNames]
  exact GoSlice.mem_rangeOver_of_stays hold (by simpa [Table.lacksColumn] using hnew)

theorem mem_old_of_mem_trimmed {n : ColumnName} (h : n ∈ (operator.trimmed us newTable oldTable).table.columnNames) :
    n ∈ oldTable.columnNames :=
  ((trimmed_columns_sublist operator us newTable oldTable).map Column.name).subset h

theorem trimmed_names_iff :
    (∀ n ∈ (operator.trimmed us newTable oldTable).table.columnNames, n ∈ newTable.columnNames) ↔
      GoSlice.Meets newTable.lacksColumn oldTable.columnNames := by
  rw [trimmed_columnNames, ← GoSlice.rangeOver_erasing_iff]
  simp [Table.lacksColumn]

theorem mem_dropped_of_stays {d : ForeignKeyDef} (hold : d ∈ oldTable.foreignKeyDefs)
    (hnew : d ∈ newTable.foreignKeyDefs) : d ∈ (operator.dropped us newTable oldTable).table.foreignKeyDefs := by
  rw [dropped_foreignKeyDefs]
  exact GoSlice.mem_rangeOver_of_stays hold (by simpa [Table.lacksForeignKey] using hnew)

theorem mem_old_of_mem_dropped {d : ForeignKeyDef} (h : d ∈ (operator.dropped us newTable oldTable).table.foreignKeyDefs) :
    d ∈ oldTable.foreignKeyDefs :=
  ((dropped_foreignKeys_sublist operator us newTable oldTable).map ForeignKeyConstraint.toDefinitionSQL).subset h

theorem dropped_defs_iff :
    (∀ d ∈ (operator.dropped us newTable oldTable).table.foreignKeyDefs, d ∈ newTable.foreignKeyDefs) ↔
      GoSlice.Meets newTable.lacksForeignKey oldTable.foreignKeyDefs := by
  rw [dropped_foreignKeyDefs, ← GoSlice.rangeOver_erasing_iff]
  simp [Table.lacksForeignKey]

section
variable {oldTable newTable} (hold : oldTable.columnNames.Nodup) (hnew : newTable.columnNames.Nodup)

include hold in
theorem trimmed_nodup : (operator.trimmed us newTable oldTable).table.columnNames.Nodup :=
  hold.sublist ((trimmed_columns_sublist operator us newTable oldTable).map Column.name)

include hold hnew in
theorem added_nodup :
    (operator.addColumns us newTable (operator.trimmed us newTable oldTable)).table.columnNames.Nodup := by
  rw [addColumns_table operator us hnew]
  unfold Table.columnNames
  rw [map_append, nodup_append]
  refine ⟨trimmed_nodup operator us hold, hnew.sublist (filter_sublist.map _), ?_⟩
  intro a ha b hb hab
  obtain ⟨c, hc, rfl⟩ := List.mem_map.1 hb
  exact (by simpa using (mem_filter.1 hc).2 : c.name ∉ _) (hab ▸ ha)

include hold hnew in
theorem filled_table : (operator.filled us newTable oldTable).table = { (operator.trimmed us newTable oldTable).table with
    columns := ((operator.trimmed us newTable oldTable).table.columns ++ newTable.columns.filter (fun c =>
      c.name ∉ (operator.trimmed us newTable oldTable).table.columnNames)).map (updated newTable.columns) } := by
  unfold filled
  rw [modifyColumns_table operator us hnew _ (added_nodup operator us hold hnew), addColumns_table operator us hnew]

include hold hnew in
theorem filled_columnNames : (operator.filled us newTable oldTable).table.columnNames =
    (operator.addColumns us newTable (operator.trimmed us newTable oldTable)).table.columnNames := by
  rw [filled_table operator us hold hnew, addColumns_table operator us hnew]
  unfold Table.columnNames
  rw [List.map_map]
  exact map_congr_left (fun c _ => updated_name _ c)

include hold hnew in
theorem mem_filled_columnNames {n : ColumnName} : n ∈ (operator.filled us newTable oldTable).table.columnNames ↔
    n ∈ (operator.trimmed us newTable oldTable).table.columnNames ∨ n ∈ newTable.columnNames := by
  rw [filled_columnNames operator us hold hnew, addColumns_table operator us hnew]
  generalize (operator.trimmed us newTable oldTable).table = t
  unfold Table.columnNames
  simp only [map_append, mem_append]
  constructor
  · rintro (h | h)
    · exact Or.inl h
    · obtain ⟨c, hc, rfl⟩ := List.mem_map.1 h
      exact Or.inr (List.mem_map.2 ⟨c, (mem_filter.1 hc).1, rfl⟩)
  · rintro (h | h)
    · exact Or.inl h
    · by_cases ht : n ∈ t.columns.map Column.name
      · exact Or.inl ht
      · obtain ⟨c, hc, rfl⟩ := List.mem_map.1 h
        exact Or.inr (List.mem_map.2 ⟨c, mem_filter.2 ⟨hc, by simpa using ht⟩, rfl⟩)

theorem updated_eq {l : List Column} (hl : (l.map Column.name).Nodup) {c x : Column} (hx : x ∈ l)
    (hname : x.name = c.name) : updated l c = x := by
  unfold updated
  cases h : l.find? (fun d => d.name == c.name) with
  | none => exact absurd (by simpa using hname) (List.find?_eq_none.1 h x hx)
  | some d =>
    have hd : d.name = c.name := by simpa using List.find?_some h
    exact inj_on_of_nodup_map hl (mem_of_find?_eq_some h) hx (hd.trans hname.symm)

include hold hnew in
/-- The columns are the new table's exactly when none is left that is not asked for. -/
theorem filled_columns_iff : (operator.filled us newTable oldTable).table.columns.Perm newTable.columns ↔
    GoSlice.Meets newTable.lacksColumn oldTable.columnNames := by
  have hnames := filled_columnNames operator us hold hnew
  have hmem := fun n => mem_filled_columnNames operator us hold hnew (n := n)
  have hnodup : (operator.filled us newTable oldTable).table.columnNames.Nodup := by
    rw [hnames]; exact added_nodup operator us hold hnew
  rw [← trimmed_names_iff operator us newTable oldTable]
  constructor
  · intro hperm n hn
    exact (hperm.map Column.name).subset ((hmem n).2 (Or.inl hn))
  · intro hmeets
    refine (perm_ext_iff_of_nodup (List.Nodup.of_map _ hnodup) (List.Nodup.of_map _ hnew)).2 (fun x => ?_)
    have hcols : (operator.filled us newTable oldTable).table.columns = _ :=
      congrArg Table.columns (filled_table operator us hold hnew)
    constructor
    · intro hx
      obtain ⟨y, hy, hyx⟩ := List.mem_map.1 (((hmem x.name).1 (List.mem_map_of_mem hx)).elim (hmeets _) id)
      rw [hcols] at hx
      obtain ⟨c, hc, rfl⟩ := List.mem_map.1 hx
      rw [updated_eq hnew hy (hyx.trans (updated_name _ c))]
      exact hy
    · intro hx
      have hxn : x.name ∈ (operator.filled us newTable oldTable).table.columnNames :=
        (hmem _).2 (Or.inr (List.mem_map_of_mem hx))
      rw [hnames, addColumns_table operator us hnew] at hxn
      obtain ⟨c, hc, hcx⟩ := List.mem_map.1 hxn
      rw [hcols]
      exact List.mem_map.2 ⟨c, hc, updated_eq hnew hx hcx.symm⟩

theorem mem_missingForeignKeys (l : List ForeignKeyConstraint) (there : List ForeignKeyDef) (d : ForeignKeyDef) :
    d ∈ (missingForeignKeys there l).map ForeignKeyConstraint.toDefinitionSQL ↔
      d ∈ l.map ForeignKeyConstraint.toDefinitionSQL ∧ d ∉ there := by
  induction l generalizing there with
  | nil => simp [missingForeignKeys]
  | cons fk l ih =>
    rw [missingForeignKeys]
    by_cases hfk : fk.toDefinitionSQL ∈ there
    · rw [if_pos hfk, ih, map_cons, mem_cons]
      constructor
      · exact fun h => ⟨Or.inr h.1, h.2⟩
      · rintro ⟨rfl | h, hn⟩
        · exact absurd hfk hn
        · exact ⟨h, hn⟩
    · rw [if_neg hfk, map_cons, map_cons, mem_cons, mem_cons, ih, mem_append,
        mem_singleton]
      constructor
      · rintro (rfl | ⟨h, hn⟩)
        · exact ⟨Or.inl rfl, hfk⟩
        · exact ⟨Or.inr h, fun hd => hn (Or.inl hd)⟩
      · rintro ⟨rfl | h, hn⟩
        · exact Or.inl rfl
        · by_cases hd : d = fk.toDefinitionSQL
          · exact Or.inl hd
          · exact Or.inr ⟨h, fun hor => hor.elim hn hd⟩

include hold hnew in
/-- **What altering makes of the old table.** -/
theorem keyed_table : (operator.keyed us newTable oldTable).table =
    { name := newTable.name
      columns := (operator.filled us newTable oldTable).table.columns
      primaryKeyConstraint := primaryKeyAfter oldTable newTable
      foreignKeyConstraints := (operator.dropped us newTable oldTable).table.foreignKeyConstraints ++
        missingForeignKeys (operator.dropped us newTable oldTable).table.foreignKeyDefs
          newTable.foreignKeyConstraints } := by
  unfold keyed
  rw [createForeignKeys_table, createPrimaryKey_table]
  unfold renamed
  rw [rename_table]
  have hfilled := filled_table operator us hold hnew
  have hpk : (operator.filled us newTable oldTable).table.primaryKeyConstraint =
      if keepsPrimaryKey oldTable newTable then oldTable.primaryKeyConstraint else none := by
    rw [hfilled, trimmed_table operator us newTable oldTable]
  have hfks : (operator.filled us newTable oldTable).table.foreignKeyConstraints =
      (operator.dropped us newTable oldTable).table.foreignKeyConstraints := by
    rw [hfilled, trimmed_table operator us newTable oldTable]
  simp only [hpk, hfks, Table.foreignKeyDefs, Table.mk.injEq, true_and, and_true]
  unfold primaryKeyAfter keepsPrimaryKey
  cases oldTable.primaryKeyConstraint with
  | none =>
    cases newTable.primaryKeyConstraint with
    | none => rfl
    | some _ => rfl
  | some pk =>
    cases newTable.primaryKeyConstraint with
    | none => rfl
    | some newPk =>
      by_cases h : pk.equals newPk = true
      · simp [h]
      · simp [h]

theorem sameKey_after : SameKey ((primaryKeyAfter oldTable newTable).map PrimaryKeyConstraint.columnNames)
    newTable.primaryKeyConstraint := by
  unfold primaryKeyAfter keepsPrimaryKey
  cases oldTable.primaryKeyConstraint with
  | none =>
    cases newTable.primaryKeyConstraint with
    | none => trivial
    | some p => exact PrimaryKeyConstraint.equals_self p
  | some pk =>
    cases newTable.primaryKeyConstraint with
    | none => trivial
    | some newPk =>
      simp only
      split
      · rename_i h; exact h
      · exact PrimaryKeyConstraint.equals_self newPk

include hold hnew in
/-- **The table in memory is the new one** exactly when the two loops meet everything that is to go. -/
theorem alterTable_matches_iff : (operator.alterTable oldTable us newTable).1.Matches newTable ↔
    GoSlice.Meets newTable.lacksColumn oldTable.columnNames ∧
      GoSlice.Meets newTable.lacksForeignKey oldTable.foreignKeyDefs := by
  rw [alterTable_eq]
  unfold Table.Matches
  simp only [keyed_table operator us hold hnew, filled_columns_iff operator us hold hnew, true_and]
  have hfks : (∀ d, d ∈ Table.foreignKeyDefs { (operator.keyed us newTable oldTable).table with
        foreignKeyConstraints := (operator.dropped us newTable oldTable).table.foreignKeyConstraints ++
          missingForeignKeys (operator.dropped us newTable oldTable).table.foreignKeyDefs
            newTable.foreignKeyConstraints } ↔ d ∈ newTable.foreignKeyDefs) ↔
      GoSlice.Meets newTable.lacksForeignKey oldTable.foreignKeyDefs := by
    rw [← dropped_defs_iff operator us newTable oldTable]
    have hmem : ∀ d, d ∈ ((operator.dropped us newTable oldTable).table.foreignKeyConstraints ++
        missingForeignKeys (operator.dropped us newTable oldTable).table.foreignKeyDefs
          newTable.foreignKeyConstraints).map ForeignKeyConstraint.toDefinitionSQL ↔
        d ∈ (operator.dropped us newTable oldTable).table.foreignKeyDefs ∨ d ∈ newTable.foreignKeyDefs := by
      intro d
      rw [map_append, mem_append, mem_missingForeignKeys]
      by_cases hd : d ∈ (operator.dropped us newTable oldTable).table.foreignKeyDefs
      · exact ⟨fun _ => Or.inl hd, fun _ => Or.inl hd⟩
      · exact ⟨fun h => h.elim Or.inl (fun h => Or.inr h.1), fun h => h.elim Or.inl (fun h => Or.inr ⟨h, hd⟩)⟩
    unfold Table.foreignKeyDefs at hmem ⊢
    constructor
    · exact fun h d hd => (h d).1 ((hmem d).2 (Or.inl hd))
    · exact fun h d => (hmem d).trans ⟨fun hor => hor.elim (h d) id, Or.inr⟩
  constructor
  · exact fun h => ⟨h.1, hfks.1 h.2.2⟩
  · exact fun h => ⟨h.1, sameKey_after, hfks.2 h.2⟩

end

end Operator
end SqlSchema
end DsApm
