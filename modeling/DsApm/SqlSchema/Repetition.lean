import DsApm.SqlSchema.InMemory
/-!
# Repetition — removing repeated statements changes nothing

`AlterTable` ends by removing neighbouring statements that are the same.  Some statements fail when they are repeated, so
this could hide an error; it does not, for such a statement is only written when the table in memory says that there is
something to do, and afterwards the table says that it is done (`Settled`).
-/
namespace DsApm
namespace SqlSchema

open List

def Settled (table : Table) : Stmt → Prop
  | .renameTable _ newName => newName = table.name
  | .addColumn _ _ column => column.name ∈ table.columnNames
  | .dropColumn _ _ column => column ∉ table.columnNames
  | .addPrimaryKey .. => table.primaryKeyConstraint.isSome = true
  | .addForeignKey _ _ key => key ∈ table.foreignKeyDefs
  | _ => True

/-- Statements that take the table in memory from one state to another: none that counts is repeated, the first has
something to do and the last has done it. -/
structure Follows (table : Table) (r : Table × List Stmt) : Prop where
  quiet : r.2 = [] → r.1 = table
  noRepeat : NoRepeat r.2
  head : ∀ y ∈ r.2.head?, y.repeatable = true ∨ ¬ Settled table y
  last : ∀ x ∈ r.2.getLast?, Settled r.1 x

theorem Follows.refl (table : Table) : Follows table (table, []) where
  quiet _ := rfl
  noRepeat := isChain_nil
  head _ h := by cases h
  last _ h := by cases h

theorem Follows.trans {table : Table} {r r' : Table × List Stmt} (h : Follows table r) (h' : Follows r.1 r') :
    Follows table (r'.1, r.2 ++ r'.2) := by
  by_cases hr : r.2 = []
  · rw [hr, nil_append]
    rw [h.quiet hr] at h'
    exact h'
  · by_cases hr' : r'.2 = []
    · rw [hr', append_nil, h'.quiet hr']
      exact ⟨h.quiet, h.noRepeat, h.head, h.last⟩
    · refine ⟨fun hnil => absurd (append_eq_nil_iff.1 hnil).1 hr, ?_, ?_, ?_⟩
      · refine isChain_append.2 ⟨h.noRepeat, h'.noRepeat, fun x hx y hy hxy => ?_⟩
        subst hxy
        exact (h'.head x hy).resolve_right (fun hn => hn (h.last x hx))
      · intro y hy
        rw [List.head?_append_of_ne_nil _ hr] at hy
        exact h.head y hy
      · intro x hx
        rw [List.getLast?_append_of_ne_nil _ hr'] at hx
        exact h'.last x hx

theorem noRepeat_of_repeatable {l : List Stmt} (h : ∀ x ∈ l, x.repeatable = true) : NoRepeat l := by
  induction l with
  | nil => exact isChain_nil
  | cons a l ih =>
    cases l with
    | nil => exact isChain_singleton a
    | cons b l =>
      exact isChain_cons_cons.2 ⟨fun _ => h a mem_cons_self, ih (fun x hx => h x (mem_cons_of_mem _ hx))⟩

theorem follows_singleton {table table' : Table} {stmt : Stmt} (hhead : stmt.repeatable = true ∨ ¬ Settled table stmt)
    (hlast : Settled table' stmt) : Follows table (table', [stmt]) where
  quiet h := by cases h
  noRepeat := isChain_singleton _
  head y hy := by injection hy with hy; rwa [← hy]
  last x hx := by injection hx with hx; rwa [← hx]

theorem Settled.of_repeatable {stmt : Stmt} (h : stmt.repeatable = true) (table : Table) : Settled table stmt := by
  cases stmt with
  | renameTable | addColumn | dropColumn | addPrimaryKey | addForeignKey => cases h
  | _ => trivial

theorem follows_of_repeatable {table table' : Table} {l : List Stmt} (hne : l ≠ []) (h : ∀ x ∈ l, x.repeatable = true) :
    Follows table (table', l) :=
  ⟨fun hnil => absurd hnil hne, noRepeat_of_repeatable h, fun y hy => Or.inl (h y (mem_of_mem_head? hy)),
    fun x hx => Settled.of_repeatable (h x (mem_of_mem_getLast? hx)) _⟩

namespace Operator

variable (operator : Operator) (us : List UniqueConstraint) (newTable : Table)

theorem temp_name_ne (table : Table) : table.temp.name ≠ table.name := by
  intro h
  have hlen := congrArg String.length h
  simp [Table.temp, String.length_append] at hlen

theorem follows_indices (table : Table) (us : List UniqueConstraint) (name : TableName) :
    Follows table (table, us.map (fun u => u.toIndexSQL name)) := by
  cases us with
  | nil => exact Follows.refl table
  | cons u us =>
    refine follows_of_repeatable (cons_ne_nil _ _) (fun x hx => ?_)
    obtain ⟨v, _, rfl⟩ := List.mem_map.1 hx
    rfl

theorem follows_recreateTable (table table' : Table) (us : List UniqueConstraint) :
    Follows table (table', operator.recreateTable table' us) := by
  have hcopy : Follows table (table'.temp, [table'.temp.toCreateSQL operator.fmter,
      .insertSelect table'.temp.name table'.name (table'.columns.map Column.name), .dropTable table'.name]) :=
    follows_of_repeatable (cons_ne_nil _ _) (fun x hx => by
      simp only [mem_cons, not_mem_nil, or_false] at hx
      rcases hx with rfl | rfl | rfl
      · rfl
      · rfl
      · rfl)
  have hrename : Follows table'.temp (table', [.renameTable table'.temp.name table'.name]) :=
    follows_singleton (Or.inr (fun h => temp_name_ne table' (Eq.symm h))) rfl
  exact (hcopy.trans hrename).trans (follows_indices table' us table'.name)

/-! ## The operations -/

theorem follows_dropConstraint (table : Table) (constraint : Constraint) :
    Follows table (operator.dropConstraint table us constraint) := by
  have hdrop : ∀ (table' : Table) (c : Constraint) (us' : List UniqueConstraint), Follows table (table',
      if operator.support.sCreateAndDropConstraint then [c.toDropSQL table'.name] else operator.recreateTable table' us') := by
    intro table' c us'
    split
    · exact follows_singleton (Or.inl rfl) trivial
    · exact follows_recreateTable operator table table' us'
  have hquiet : ∀ table', table.dropConstraint constraint = (table', none) → table' = table := by
    intro table' h
    unfold Table.dropConstraint at h
    split at h
    · split at h
      · cases h
      · exact (congrArg Prod.fst h).symm
    · split at h
      · split at h
        · cases h
        · exact (congrArg Prod.fst h).symm
      · exact (congrArg Prod.fst h).symm
  unfold dropConstraint
  split
  · exact hdrop _ _ _
  · rename_i table' h
    have htable := hquiet table' h
    subst htable
    split
    · exact Follows.refl _
    · split
      · exact Follows.refl _
      · exact hdrop _ _ _

theorem follows_dropColumn {table : Table} (hnodup : table.columnNames.Nodup) (column : Column) :
    Follows table (operator.dropColumn table column) := by
  have htable := dropColumn_table operator table column
  unfold dropColumn at htable ⊢
  cases h : findColumnByName table column.name with
  | none => exact Follows.refl _
  | some i =>
    have hin : column.name ∈ table.columnNames := by
      by_contra hn
      rw [findColumnByName_eq_none hn] at h
      cases h
    refine follows_singleton (Or.inr (fun hs => hs hin)) ?_
    simp only [Settled, Table.columnNames]
    rw [GoSlice.map_eraseP Column.name (fun x => beq_iff_eq)]
    exact hnodup.not_mem_erase

theorem follows_addColumn {table : Table} {column : Column} (h : column.name ∉ table.columnNames) :
    Follows table (operator.addColumn table us column none) := by
  have hin : column.name ∈ Table.columnNames { table with columns := table.columns ++ [column] } := by
    simp [Table.columnNames]
  rw [addColumn_absent operator us h]
  have hadd : Follows table ({ table with columns := table.columns ++ [column] },
      [column.toAddSQL operator.fmter table.name
        operator.support.sAlterTableAddAndDropColumnIfNotExistsAndExists]) := by
    unfold Column.toAddSQL
    split
    · exact follows_singleton (Or.inr h) hin
    · exact follows_singleton (Or.inr h) hin
  have hupdate : Follows { table with columns := table.columns ++ [column] }
      ({ table with columns := table.columns ++ [column] }, if column.nullable = false ∧ column.default = "" then
        [.update table.name column.name (.zero column.dataType.z)] else []) := by
    split
    · exact follows_singleton (Or.inl rfl) trivial
    · exact Follows.refl _
  have hnull : Follows { table with columns := table.columns ++ [column] }
      ({ table with columns := table.columns ++ [column] }, if column.nullable = false then
        (if operator.support.sAlterTableAlterColumnSetAndDrop then [.setNotNull table.name column.name]
          else operator.recreateTable { table with columns := table.columns ++ [column] } us) else []) := by
    split
    · split
      · exact follows_singleton (Or.inl rfl) trivial
      · exact follows_recreateTable operator _ _ us
    · exact Follows.refl _
  exact (hadd.trans hupdate).trans hnull

theorem name_of_find {table : Table} {name : ColumnName} {i : Nat} {c : Column}
    (h : findColumnByName table name = some i) (hc : table.columns[i]? = some c) : c.name = name := by
  obtain ⟨hlt, hp, _⟩ := List.findIdx?_eq_some_iff_getElem.1 h
  rw [List.getElem?_eq_getElem hlt] at hc
  injection hc with hc
  rw [← hc]
  simpa using hp

theorem differs_of_not_equals {old column : Column} (hname : old.name = column.name) (h : ¬ old.equals column = true) :
    old.dataType ≠ column.dataType ∨ old.nullable ≠ column.nullable ∨ old.default ≠ column.default := by
  by_contra hsame
  simp only [not_or, not_not] at hsame
  refine h (Column.equals_iff.2 ?_)
  cases old; cases column; simp_all

theorem alterColumnSQL_repeatable (name : TableName) (old column : Column) :
    ∀ x ∈ operator.alterColumnSQL name old column, x.repeatable = true := by
  intro x hx
  unfold alterColumnSQL at hx
  simp only [mem_append] at hx
  rcases hx with (hx | hx) | hx
  · split at hx
    · rw [mem_singleton.1 hx]; rfl
    · cases hx
  · split at hx
    · rw [mem_singleton.1 hx]
      split
      · rfl
      · rfl
    · cases hx
  · split at hx
    · rw [mem_singleton.1 hx]
      split
      · rfl
      · rfl
    · cases hx

theorem alterColumnSQL_ne_nil {name : TableName} {old column : Column}
    (h : old.dataType ≠ column.dataType ∨ old.nullable ≠ column.nullable ∨ old.default ≠ column.default) :
    operator.alterColumnSQL name old column ≠ [] := by
  unfold alterColumnSQL
  rcases h with h | h | h
  · rw [if_pos h]; simp
  · rw [if_pos h]; simp
  · rw [if_pos h]; simp

theorem follows_alterColumn (table : Table) (column : Column) :
    Follows table (operator.alterColumn table us column) := by
  unfold alterColumn
  split
  · exact Follows.refl _
  · rename_i i hfind
    split
    · exact Follows.refl _
    · rename_i old hold
      split
      · exact Follows.refl _
      · rename_i hne
        have hdiff := differs_of_not_equals (name_of_find hfind hold) hne
        simp only [if_pos hdiff]
        split
        · exact follows_of_repeatable (alterColumnSQL_ne_nil operator hdiff)
            (alterColumnSQL_repeatable operator table.name old column)
        · exact follows_recreateTable operator _ _ us

theorem follows_createConstraint_primaryKey (table : Table) (pk : PrimaryKeyConstraint) :
    Follows table (operator.createConstraint table us (.primaryKey pk)) := by
  unfold createConstraint
  simp only
  split
  · cases h : table.primaryKeyConstraint with
    | none =>
      refine follows_singleton (Or.inr (fun hs => ?_)) ?_
      · unfold Constraint.toCreateSQL Settled at hs
        simp [h] at hs
      · rfl
    | some old =>
      have hdrop : Follows table ({ table with primaryKeyConstraint := none },
          [(Constraint.primaryKey old).toDropSQL table.name]) := follows_singleton (Or.inl rfl) trivial
      refine hdrop.trans (follows_singleton (Or.inr (fun hs => ?_)) ?_)
      · cases hs
      · rfl
  · exact follows_recreateTable operator _ _ us

theorem follows_createConstraint_foreignKey {table : Table} {fk : ForeignKeyConstraint}
    (h : fk.toDefinitionSQL ∉ table.foreignKeyDefs) :
    Follows table (operator.createConstraint table us (.foreignKey fk)) := by
  rw [createConstraint_foreignKey operator us h]
  split
  · exact follows_singleton (Or.inr h) (by simp [Settled, Table.foreignKeyDefs])
  · exact follows_recreateTable operator _ _ us

/-! ## The stages -/

def Script.Follows (table : Table) (s : Script) : Prop := SqlSchema.Follows table (s.table, s.sql)

theorem Script.Follows.add {table : Table} {s : Script} {r : Table × List Stmt} (h : s.Follows table)
    (h' : SqlSchema.Follows s.table r) : (s.add r).Follows table :=
  SqlSchema.Follows.trans h h'

variable {oldTable newTable : Table}

theorem dropped_follows : (operator.dropped us newTable oldTable).Follows oldTable := by
  have hpk : (operator.dropPrimaryKey us newTable ⟨oldTable, []⟩).Follows oldTable := by
    have hstart : Script.Follows oldTable ⟨oldTable, []⟩ := Follows.refl oldTable
    unfold dropPrimaryKey
    split
    · exact hstart.add (follows_dropConstraint operator us _ _)
    · split
      · exact hstart
      · exact hstart.add (follows_dropConstraint operator us _ _)
    · exact hstart
  have hfk : (operator.dropForeignKeys us newTable (operator.dropPrimaryKey us newTable ⟨oldTable, []⟩)).Follows
      oldTable := by
    unfold dropForeignKeys
    refine GoSlice.rangeOver_inv (P := fun s : Script => s.Follows oldTable) (fun s fk hs => ?_) hpk
    unfold dropForeignKeyPass
    split
    · exact hs.add (follows_dropConstraint operator us _ _)
    · exact hs
  unfold dropped dropUniques
  exact List.foldlRecOn us _ (motive := fun s : Script => s.Follows oldTable) hfk
    (fun s hs u _ => hs.add (follows_dropConstraint operator us _ _))

theorem trimmed_follows (hold : oldTable.columnNames.Nodup) :
    (operator.trimmed us newTable oldTable).Follows oldTable := by
  have hreduce : (operator.reduceDrops (operator.dropped us newTable oldTable)).Follows oldTable := by
    unfold reduceDrops
    split
    · exact follows_recreateTable operator _ _ []
    · exact dropped_follows operator us
  unfold trimmed dropColumns
  have hnodup : (operator.reduceDrops (operator.dropped us newTable oldTable)).table.columnNames.Nodup := by
    rw [reduceDrops_table, dropped_table operator us newTable oldTable]
    exact hold
  refine (GoSlice.rangeOver_inv (P := fun s : Script => s.Follows oldTable ∧ s.table.columnNames.Nodup) (fun s c hs => ?_)
    ⟨hreduce, hnodup⟩).1
  refine ⟨?_, ?_⟩
  · unfold dropColumnPass
    split
    · exact hs.1.add (follows_dropColumn operator hs.2 c)
    · exact hs.1
  · rw [dropColumnPass_table]
    unfold Table.columnNames
    simp only
    split
    · exact hs.2.sublist (eraseP_sublist.map _)
    · exact hs.2

theorem filled_follows (hold : oldTable.columnNames.Nodup) :
    (operator.filled us newTable oldTable).Follows oldTable := by
  have hadd : (operator.addColumns us newTable (operator.trimmed us newTable oldTable)).Follows oldTable := by
    unfold addColumns
    refine List.foldlRecOn newTable.columns _ (motive := fun s : Script => s.Follows oldTable)
      (trimmed_follows operator us hold) (fun s hs c _ => ?_)
    split
    · rename_i hnone
      exact hs.add (follows_addColumn operator us (findColumnByName_isNone.1 hnone))
    · exact hs
  unfold filled modifyColumns
  generalize operator.addColumns us newTable (operator.trimmed us newTable oldTable) = s at hadd
  have halter : Script.Follows s.table (newTable.columns.foldl (fun (s : Script) column =>
      s.add (operator.alterColumn s.table us column)) ⟨s.table, []⟩) :=
    List.foldlRecOn newTable.columns _ (motive := fun s' => Script.Follows s.table s') (Follows.refl s.table)
      (fun s' hs' c _ => hs'.add (follows_alterColumn operator us _ c))
  simp only
  split
  · rename_i hnil
    have hsame := halter.quiet hnil
    simp only at hsame
    rw [hsame]
    exact hadd
  · split
    · exact hadd.add halter
    · exact hadd.add (follows_recreateTable operator _ _ [])

theorem keyed_follows (hold : oldTable.columnNames.Nodup) :
    (operator.keyed us newTable oldTable).Follows oldTable := by
  have hrename : (operator.renamed us newTable oldTable).Follows oldTable := by
    unfold renamed rename
    split
    · rename_i hne
      refine (filled_follows operator us hold).add (follows_singleton (Or.inr ?_) rfl)
      exact fun h => hne h.symm
    · exact filled_follows operator us hold
  have hpk : (operator.createPrimaryKey us newTable (operator.renamed us newTable oldTable)).Follows oldTable := by
    unfold createPrimaryKey
    split
    · exact hrename.add (follows_createConstraint_primaryKey operator us _ _)
    · split
      · exact hrename
      · exact hrename.add (follows_createConstraint_primaryKey operator us _ _)
    · exact hrename
  unfold keyed createForeignKeys
  refine List.foldlRecOn newTable.foreignKeyConstraints _ (motive := fun s : Script => s.Follows oldTable) hpk
    (fun s hs fk _ => ?_)
  split
  · rename_i hnone
    exact hs.add (follows_createConstraint_foreignKey operator us (findForeignKeyConstraint_isNone.1 hnone))
  · exact hs

/-- **The statements as written do what the statements as collected do.** -/
theorem alterTable_runAll (hold : oldTable.columnNames.Nodup) (db : Database) :
    runAll operator.support (operator.alterTable oldTable us newTable).2 db =
      runAll operator.support (createIndices us (operator.keyed us newTable oldTable)).sql db := by
  rw [alterTable_eq]
  refine runAll_destutter ?_ db
  exact (SqlSchema.Follows.trans (keyed_follows operator us hold) (follows_indices _ us _)).noRepeat

end Operator
end SqlSchema
end DsApm
