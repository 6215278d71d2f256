import DsApm.SqlSchema.Repetition
import DsApm.SqlSchema.UniqueIndexes
/-!
# OneTable — statements on a database of one table

The database during a migration is the table in memory with some keys and indexes (`described`).  For each statement that a
step writes, what it makes of such a database.
-/
namespace DsApm
namespace SqlSchema

open List Option

variable {support : OperatorSupport}

def described (fmter : SQLFormatter) (table : Table) (pk : Option (String × List ColumnName))
    (fks : List (String × ForeignKeyDef)) (uniques : List (String × List ColumnName)) : TableSchema :=
  ⟨table.name, table.columns.map (Column.toDefinitionSQL fmter), pk, fks, uniques⟩

def namedKey (base : TableName) (pk : Option PrimaryKeyConstraint) : Option (String × List ColumnName) :=
  pk.map (fun pk => (pk.nameIn base, pk.columnNames))

def namedForeignKeys (base : TableName) (fks : List ForeignKeyConstraint) : List (String × ForeignKeyDef) :=
  fks.map (fun fk => (fk.nameIn base, fk.toDefinitionSQL))

def namedUniques (base : TableName) (us : List UniqueConstraint) : List (String × List ColumnName) :=
  us.map (fun u => (u.nameIn base, u.columnNames))

theorem schema_eq (fmter : SQLFormatter) (table : Table) (us : List UniqueConstraint) :
    table.schema fmter us = described fmter table (namedKey table.name table.primaryKeyConstraint)
      (namedForeignKeys table.name table.foreignKeyConstraints) (namedUniques table.name us) := rfl

theorem columnNames_described (fmter : SQLFormatter) (table : Table) (pk : Option (String × List ColumnName))
    (fks : List (String × ForeignKeyDef)) (uniques : List (String × List ColumnName)) :
    (described fmter table pk fks uniques).columnNames = table.columnNames := by
  unfold described TableSchema.columnNames Table.columnNames
  rw [List.map_map]
  rfl

/-! ## Tables the engine can hold -/

variable {t : TableSchema}

theorem TableSchema.WellFormed.of_columns {t' : TableSchema} (h : t.WellFormed support)
    (hpk : t'.primaryKey = t.primaryKey) (hfk : t'.foreignKeys = t.foreignKeys) (hu : t'.uniques = t.uniques)
    (hsub : ∀ c ∈ t.columnNames, c ∈ t'.columnNames) (hnodup : t'.columnNames.Nodup) (hne : t'.columns ≠ []) :
    t'.WellFormed support := by
  obtain ⟨_, ⟨hp, hf, hq⟩, hnames, _⟩ := h
  refine ⟨hnodup, ⟨?_, ?_, ?_⟩, ?_, fun _ => hne⟩
  · rw [hpk]; exact fun pk hin c hc => hsub c (hp pk hin c hc)
  · rw [hfk]; exact fun fk hin => hsub _ (hf fk hin)
  · rw [hu]; exact fun u hin c hc => hsub c (hq u hin c hc)
  · unfold TableSchema.constraintNames
    rw [hpk, hfk, hu]
    exact hnames

theorem TableSchema.WellFormed.of_keys {t' : TableSchema} (h : t.WellFormed support)
    (hpk : t'.primaryKey = t.primaryKey ∨ t'.primaryKey = none) (hfk : t'.foreignKeys.Sublist t.foreignKeys)
    (hu : t'.uniques.Sublist t.uniques) (hcols : t'.columns = t.columns) : t'.WellFormed support := by
  obtain ⟨hnodup, ⟨hp, hf, hq⟩, hnames, hne⟩ := h
  have hcn : t'.columnNames = t.columnNames := by unfold TableSchema.columnNames; rw [hcols]
  have hpk' : t'.primaryKey.toList.Sublist t.primaryKey.toList := by
    rcases hpk with hpk | hpk
    · rw [hpk]
    · rw [hpk]; exact nil_sublist _
  refine ⟨hcn ▸ hnodup, ⟨?_, ?_, ?_⟩, fun hs => ?_, fun hs => hcols ▸ hne hs⟩
  · rw [hcn]
    exact fun pk hin => hp pk (mem_toList.1 (hpk'.subset (mem_toList.2 hin)))
  · rw [hcn]; exact fun fk hin => hf fk (hfk.subset hin)
  · rw [hcn]; exact fun u hin => hq u (hu.subset hin)
  · refine (hnames hs).sublist ?_
    unfold TableSchema.constraintNames
    exact ((hpk'.map _).append (hfk.map _)).append (hu.map _)

/-! ## Statements -/

variable {indexes : List IndexSchema} {column : ColumnName}

theorem apply_update (h : column ∈ t.columnNames)
    (value : Value) : (Stmt.update t.name column value).apply support ⟨[t], indexes⟩ = some ⟨[t], indexes⟩ := by
  simp only [Stmt.apply]
  rw [if_pos (hasColumns_single (fun c hc => by rw [mem_singleton.1 hc]; exact h))]

theorem apply_addColumn (ht : t.WellFormed support) (indexes : List IndexSchema) {column : ColumnDef}
    (h : column.name ∉ t.columnNames) :
    (Stmt.addColumn t.name support.sAlterTableAddAndDropColumnIfNotExistsAndExists column).apply support ⟨[t], indexes⟩ =
        some ⟨[{ t with columns := t.columns ++ [column] }], indexes⟩ ∧
      TableSchema.WellFormed support { t with columns := t.columns ++ [column] } := by
  have hcn : TableSchema.columnNames { t with columns := t.columns ++ [column] } = t.columnNames ++ [column.name] := by
    simp [TableSchema.columnNames]
  have hwf : TableSchema.WellFormed support { t with columns := t.columns ++ [column] } := by
    refine ht.of_columns rfl rfl rfl (fun c hc => ?_) ?_ ?_
    · rw [hcn]; exact mem_append_left _ hc
    · rw [hcn, nodup_append]
      refine ⟨ht.1, nodup_singleton _, fun a ha b hb hab => h ?_⟩
      rw [mem_singleton] at hb
      rw [← hb, ← hab]; exact ha
    · exact append_ne_nil_of_right_ne_nil _ (cons_ne_nil _ _)
  refine ⟨?_, hwf⟩
  simp only [Stmt.apply]
  rw [if_neg (by simp), alter_single, if_neg h, bind_some, if_pos hwf]

theorem toAddSQL_eq (fmter : SQLFormatter) (column : Column) (name : TableName) (flag : Bool) :
    ∃ d : ColumnDef, d.name = column.name ∧ column.toAddSQL fmter name flag = .addColumn name flag d ∧
      ((column.nullable = true ∨ column.default ≠ "") → d = column.toDefinitionSQL fmter) ∧
      { d with nullable := column.nullable } = column.toDefinitionSQL fmter := by
  unfold Column.toAddSQL
  by_cases h : column.default = "" ∧ column.nullable = false
  · rw [if_pos h]
    refine ⟨_, rfl, rfl, fun hor => ?_, rfl⟩
    rcases hor with hn | hd
    · rw [h.2] at hn; cases hn
    · exact absurd h.1 hd
  · rw [if_neg h]
    exact ⟨_, rfl, rfl, fun _ => rfl, rfl⟩

theorem wellFormed_setColumn (ht : t.WellFormed support)
    {f : ColumnDef → ColumnDef} (hf : ∀ c, (f c).name = c.name) : (t.setColumn column f).WellFormed support := by
  have hcn : (t.setColumn column f).columnNames = t.columnNames := columnNames_setColumn hf t
  obtain ⟨hnodup, ⟨hp, hfk, hq⟩, hnames, hne⟩ := ht
  refine ⟨hcn ▸ hnodup, ⟨?_, ?_, ?_⟩, hnames, fun hs hnil => hne hs ?_⟩
  · rw [hcn]; exact hp
  · rw [hcn]; exact hfk
  · rw [hcn]; exact hq
  · exact map_eq_nil_iff.1 hnil

theorem alterColumn_single (hs : support.sAlterTableAlterColumnSetAndDrop = true)
    (ht : t.WellFormed support) {f : ColumnDef → ColumnDef}
    (hf : ∀ c, (f c).name = c.name) (h : column ∈ t.columnNames) :
    Database.alterColumn support ⟨[t], indexes⟩ t.name column f = some ⟨[t.setColumn column f], indexes⟩ := by
  unfold Database.alterColumn
  rw [if_pos hs, alter_single, if_pos h, bind_some, if_pos (wellFormed_setColumn ht hf)]

theorem apply_renameTable (hidx : ∀ i ∈ indexes, i.table = t.name)
    {newName : TableName} (hne : t.name ≠ newName) :
    (Stmt.renameTable t.name newName).apply support ⟨[t], indexes⟩ =
      some ⟨[{ t with name := newName }], indexes.map (fun i => { i with table := newName })⟩ := by
  have hfree : (t.name == newName) = false := by simpa using hne
  simp only [Stmt.apply, Database.find, List.find?_cons, beq_self_eq_true, hfree, List.find?_nil, isSome_some,
    isNone_none, Bool.and_self, if_true, map_cons, map_nil]
  congr 2
  exact map_congr_left (fun i hi => by rw [if_pos (hidx i hi)])

theorem eraseP_eq_filter {columns : List Column} (h : (columns.map Column.name).Nodup) (name : ColumnName) :
    columns.eraseP (fun c => c.name == name) = columns.filter (fun c => c.name != name) := by
  induction columns with
  | nil => rfl
  | cons c columns ih =>
    rw [map_cons, nodup_cons] at h
    by_cases hc : c.name = name
    · rw [eraseP_cons_of_pos (by simpa using hc), filter_cons_of_neg (by simpa using hc)]
      refine (filter_eq_self.2 (fun d hd => ?_)).symm
      simpa using fun hdn => h.1 (List.mem_map.2 ⟨d, hd, hdn.trans hc.symm⟩)
    · rw [eraseP_cons_of_neg (by simpa using hc), filter_cons_of_pos (by simpa using hc), ih h.2]

theorem map_filter_name (fmter : SQLFormatter) (columns : List Column) (name : ColumnName) :
    (columns.map (Column.toDefinitionSQL fmter)).filter (fun c => c.name != name) =
      (columns.filter (fun c => c.name != name)).map (Column.toDefinitionSQL fmter) := by
  rw [List.filter_map]; rfl

/-! ## Recreating a table -/

theorem nameOr_ne_empty {name generated : String} (h : generated ≠ "") : nameOr name generated ≠ "" := by
  unfold nameOr
  split
  · rename_i hn; exact hn
  · exact h

theorem generated_ne_empty {a b : String} (h : a ≠ "") : a ++ b ≠ "" := by
  intro hab
  exact h (String.append_eq_empty_iff.1 hab).1

theorem nameOr_self {name generated : String} (h : name ≠ "") : nameOr name generated = name := if_pos h

theorem temp_schema (fmter : SQLFormatter) (table : Table) :
    ∃ d, table.temp.toCreateSQL fmter = .createTable d ∧ d.name = table.temp.name ∧
      d.schema = { table.schema fmter [] with name := table.temp.name } := by
  refine ⟨_, rfl, rfl, ?_⟩
  have hpk : ∀ pk : PrimaryKeyConstraint, (pk.named (pk.nameIn table.name)).nameIn table.temp.name = pk.nameIn table.name :=
    fun pk => nameOr_self (nameOr_ne_empty (generated_ne_empty (by decide)))
  have hfk : ∀ fk : ForeignKeyConstraint, (fk.named (fk.nameIn table.name)).nameIn table.temp.name = fk.nameIn table.name :=
    fun fk => nameOr_self (nameOr_ne_empty (generated_ne_empty (generated_ne_empty (generated_ne_empty (by decide)))))
  unfold TableDef.schema Table.schema Table.schemaNamed
  simp only [TableSchema.mk.injEq, map_nil, and_true, true_and]
  refine ⟨rfl, ?_, ?_⟩
  · unfold Table.temp at hpk ⊢
    rw [Option.map_map]
    cases table.primaryKeyConstraint with
    | none => rfl
    | some pk => simp only [map_some, Function.comp, hpk pk]; rfl
  · unfold Table.temp at hfk ⊢
    rw [List.map_map]
    refine map_congr_left (fun fk _ => ?_)
    simp only [Function.comp, hfk fk]; rfl

/-- **Recreating a table** leaves it as it is in memory, with fresh indexes. -/
theorem runAll_recreateTable (operator : Operator) {table : Table} {us : List UniqueConstraint} (hname : t.name = table.name) (hidx : ∀ i ∈ indexes, i.table = table.name)
    (hcols : ∀ c ∈ table.columnNames, c ∈ t.columnNames)
    (hwf : (table.schema operator.fmter []).WellFormed support)
    (hus : ∀ u ∈ us, ∀ c ∈ u.columnNames, c ∈ table.columnNames) :
    runAll support (operator.recreateTable table us) ⟨[t], indexes⟩ =
      some ⟨[table.schema operator.fmter []], addIndexes table.name us []⟩ := by
  obtain ⟨d, hcreate, hdname, hd⟩ := temp_schema operator.fmter table
  have hne : (t.name == table.temp.name) = false := by
    rw [hname]; simpa using (Operator.temp_name_ne table).symm
  have hcn : (table.schema operator.fmter []).columnNames = table.columnNames := columnNames_described _ _ _ _ _
  have htemp : d.schema.name = table.temp.name := by rw [hd]
  have htempcols : d.schema.columnNames = table.columnNames := by rw [hd]; exact hcn
  have hstep₁ : (table.temp.toCreateSQL operator.fmter).apply support ⟨[t], indexes⟩ = some ⟨[t, d.schema], indexes⟩ := by
    rw [hcreate]
    simp only [Stmt.apply, Database.find, List.find?_cons, hdname, hne, List.find?_nil, isSome_none,
      Bool.false_eq_true, if_false]
    rw [if_pos (by rw [hd]; exact hwf)]; rfl
  have hstep₂ : (Stmt.insertSelect table.temp.name table.name (table.columns.map Column.name)).apply support
      ⟨[t, d.schema], indexes⟩ = some ⟨[t, d.schema], indexes⟩ := by
    have hinto : Database.hasColumns ⟨[t, d.schema], indexes⟩ table.temp.name (table.columns.map Column.name) = true := by
      unfold Database.hasColumns Database.find
      simp only [List.find?_cons, hne, htemp, beq_self_eq_true]
      exact List.all_eq_true.2 (fun c hc => by rw [htempcols]; exact contains_iff_mem.2 hc)
    have hfrom : Database.hasColumns ⟨[t, d.schema], indexes⟩ table.name (table.columns.map Column.name) = true := by
      unfold Database.hasColumns Database.find
      simp only [List.find?_cons, hname, beq_self_eq_true]
      exact List.all_eq_true.2 (fun c hc => by simpa using hcols c hc)
    simp only [Stmt.apply, hinto, hfrom, Bool.and_self, if_true]
  have hstep₃ : (Stmt.dropTable table.name).apply support ⟨[t, d.schema], indexes⟩ = some ⟨[d.schema], []⟩ := by
    have h₁ : (t.name != table.name) = false := by simp [hname]
    have h₂ : (d.schema.name != table.name) = true := by rw [htemp]; simpa using Operator.temp_name_ne table
    have h₃ : indexes.filter (fun i => i.table != table.name) = [] :=
      filter_eq_nil_iff.2 (fun i hi => by simp [hidx i hi])
    simp only [Stmt.apply, filter_cons, h₁, h₂, h₃, filter_nil, if_true, Bool.false_eq_true, if_false]
  have hstep₄ : (Stmt.renameTable table.temp.name table.name).apply support ⟨[d.schema], []⟩ =
      some ⟨[table.schema operator.fmter []], []⟩ := by
    rw [← htemp, apply_renameTable (fun i hi => by cases hi) (by rw [htemp]; exact Operator.temp_name_ne table), hd]; rfl
  unfold Operator.recreateTable Table.toCreateTempInsertDropAlterSQL
  rw [cons_append, runAll_cons, hstep₁, bind_some, cons_append, runAll_cons, hstep₂, bind_some,
    cons_append, runAll_cons, hstep₃, bind_some, cons_append, runAll_cons, hstep₄, bind_some,
    nil_append]
  have hindices : runAll support (us.map (fun u => u.toIndexSQL (table.schema operator.fmter []).name))
      ⟨[table.schema operator.fmter []], []⟩ =
        some ⟨[table.schema operator.fmter []], addIndexes (table.schema operator.fmter []).name us []⟩ :=
    runAll_indices us (fun u hu c hc => by rw [hcn]; exact hus u hu c hc) []
  exact hindices

/-! ## Creating keys -/

namespace Operator

variable {operator : Operator} {us : List UniqueConstraint} {oldTable newTable : Table}

theorem renamed_name : (operator.renamed us newTable oldTable).table.name = newTable.name := by
  unfold renamed
  rw [rename_table]

theorem renamed_primaryKey (hold : oldTable.columnNames.Nodup) (hnew : newTable.columnNames.Nodup) :
    (operator.renamed us newTable oldTable).table.primaryKeyConstraint =
      if keepsPrimaryKey oldTable newTable then oldTable.primaryKeyConstraint else none := by
  unfold renamed
  rw [rename_table, filled_table operator us hold hnew, trimmed_table operator us newTable oldTable]

theorem renamed_foreignKeys (hold : oldTable.columnNames.Nodup) (hnew : newTable.columnNames.Nodup) :
    (operator.renamed us newTable oldTable).table.foreignKeyConstraints =
      (operator.dropped us newTable oldTable).table.foreignKeyConstraints := by
  unfold renamed
  rw [rename_table, filled_table operator us hold hnew, trimmed_table operator us newTable oldTable]

theorem createPrimaryKey_name : (operator.createPrimaryKey us newTable (operator.renamed us newTable oldTable)).table.name =
    newTable.name := by
  rw [createPrimaryKey_table]
  exact renamed_name

theorem createPrimaryKey_foreignKeyDefs (hold : oldTable.columnNames.Nodup) (hnew : newTable.columnNames.Nodup) :
    (operator.createPrimaryKey us newTable (operator.renamed us newTable oldTable)).table.foreignKeyDefs =
      (operator.dropped us newTable oldTable).table.foreignKeyDefs := by
  rw [createPrimaryKey_table]
  unfold Table.foreignKeyDefs
  simp only [renamed_foreignKeys hold hnew]

theorem createPrimaryKey_cases (operator : Operator) (us : List UniqueConstraint)
    (hold : oldTable.columnNames.Nodup) (hnew : newTable.columnNames.Nodup) :
    ((newTable.primaryKeyConstraint = none ∨ keepsPrimaryKey oldTable newTable = true) ∧
      operator.createPrimaryKey us newTable (operator.renamed us newTable oldTable) =
        operator.renamed us newTable oldTable) ∨
    ∃ pk, newTable.primaryKeyConstraint = some pk ∧ keepsPrimaryKey oldTable newTable = false ∧
      (operator.renamed us newTable oldTable).table.primaryKeyConstraint = none ∧
      operator.createPrimaryKey us newTable (operator.renamed us newTable oldTable) =
        (operator.renamed us newTable oldTable).add (operator.createConstraint
          (operator.renamed us newTable oldTable).table us (.primaryKey pk)) := by
  have hpk : (operator.renamed us newTable oldTable).table.primaryKeyConstraint = _ :=
    renamed_primaryKey hold hnew
  unfold createPrimaryKey
  rw [hpk]
  cases hk : keepsPrimaryKey oldTable newTable with
  | true =>
    refine Or.inl ⟨Or.inr rfl, ?_⟩
    unfold keepsPrimaryKey at hk
    cases ho : oldTable.primaryKeyConstraint with
    | none => rw [ho] at hk; cases hk
    | some pk =>
      cases hn : newTable.primaryKeyConstraint with
      | none => rw [ho, hn] at hk; cases hk
      | some newPk =>
        rw [ho, hn] at hk
        simp only [if_true]
        rw [if_pos hk]
  | false =>
    cases hn : newTable.primaryKeyConstraint with
    | none => exact Or.inl ⟨Or.inl rfl, rfl⟩
    | some pk => exact Or.inr ⟨pk, rfl, rfl, rfl, rfl⟩

theorem missing_eq_nil_iff :
    missingForeignKeys (operator.dropped us newTable oldTable).table.foreignKeyDefs newTable.foreignKeyConstraints = [] ↔
      ∀ d ∈ newTable.foreignKeyDefs, d ∈ oldTable.foreignKeyDefs := by
  constructor
  · intro hnil d hd
    by_contra hnot
    have : d ∈ (missingForeignKeys (operator.dropped us newTable oldTable).table.foreignKeyDefs
        newTable.foreignKeyConstraints).map ForeignKeyConstraint.toDefinitionSQL :=
      (mem_missingForeignKeys _ _ d).2 ⟨hd, fun h => hnot (mem_old_of_mem_dropped operator us newTable oldTable h)⟩
    rw [hnil] at this
    cases this
  · intro h
    refine eq_nil_iff_forall_not_mem.2 (fun fk hfk => ?_)
    obtain ⟨hd, hnot⟩ := (mem_missingForeignKeys _ _ fk.toDefinitionSQL).1 (List.mem_map_of_mem hfk)
    exact hnot (mem_dropped_of_stays operator us newTable oldTable (h _ hd) hd)

end Operator

end SqlSchema
end DsApm
