import DsApm.SqlSchema.Altering
import DsApm.SqlSchema.Recreating
/-!
# Reaching — a migration reaches its table exactly when `Migrates` holds

What the final schema alone shows is the same for both kinds of engine (`asked_of_matches`).  The rest is read off the two
runs: `keyed_exactly` where everything can be altered, `keyed_run` where tables are recreated.
-/
namespace DsApm
namespace SqlSchema

open List

/-! ## What the final schema shows -/

theorem TableSchema.Matches.mem_columnNames {fmter : SQLFormatter} {t : TableSchema} {newTable : Table}
    (h : t.Matches fmter newTable) {c : ColumnName} : c ∈ t.columnNames ↔ c ∈ newTable.columnNames := by
  have hperm := h.2.1.map ColumnDef.name
  rw [List.map_map] at hperm
  exact hperm.mem_iff

theorem asked_of_matches {support : OperatorSupport} {fmter : SQLFormatter} {db : Database} {newTable : Table}
    {us : List UniqueConstraint} (hdb : db.WellFormed support) (h : db.Matches fmter newTable us) :
    (∀ pk ∈ newTable.primaryKeyConstraint, ∀ c ∈ pk.columnNames, c ∈ newTable.columnNames) ∧
      (∀ d ∈ newTable.foreignKeyDefs, d.referencingColumnName ∈ newTable.columnNames) ∧
      (∀ u ∈ us, ∀ c ∈ u.columnNames, c ∈ newTable.columnNames) := by
  obtain ⟨t, ht, hmatch, _, _, hcover⟩ := h
  have hin : t ∈ db.tables := by rw [ht]; exact mem_singleton_self t
  obtain ⟨_, ⟨hp, hf, _⟩, _⟩ := hdb.2.1 t hin
  obtain ⟨_, _, hkey, hfks, _⟩ := id hmatch
  refine ⟨fun pk hpk c hc => ?_, fun d hd => ?_, fun u hu c hc => ?_⟩
  · rw [Option.mem_def.1 hpk] at hkey
    cases htk : t.primaryKey with
    | none => rw [htk] at hkey; exact hkey.elim
    | some p =>
      rw [htk] at hkey
      have hall : pk.columnNames.all (fun column => p.2.contains column) = true := (Bool.and_eq_true_iff.1 hkey).2
      have hcp : c ∈ p.2 := by simpa using List.all_eq_true.1 hall c hc
      exact hmatch.mem_columnNames.1 (hp p htk c hcp)
  · obtain ⟨fk, hfk, rfl⟩ := List.mem_map.1 ((hfks d).2 hd)
    exact hmatch.mem_columnNames.1 (hf fk hfk)
  · obtain ⟨i, hi, hcols⟩ := List.mem_map.1 ((hcover u.columnNames).2 (List.mem_map_of_mem hu))
    obtain ⟨t', ht', _, hown⟩ := hdb.2.2 i hi
    rw [ht, mem_singleton] at ht'
    rw [← hcols] at hc
    exact hmatch.mem_columnNames.1 (ht' ▸ hown c hc)

theorem database_wellFormed {support : OperatorSupport} {fmter : SQLFormatter} {oldTable : Table}
    {us : List UniqueConstraint} (hwf : (oldTable.schema fmter us).WellFormed support) :
    (oldTable.database fmter us).WellFormed support := by
  refine ⟨nodup_singleton _, fun t ht => ?_, fun i hi => by cases hi⟩
  rw [mem_singleton.1 ht]
  exact hwf

namespace Operator

variable {operator : Operator} {us : List UniqueConstraint} {oldTable newTable : Table}

theorem mem_keyed_columnNames (hold : oldTable.columnNames.Nodup) (hnew : newTable.columnNames.Nodup)
    (hmeets : GoSlice.Meets newTable.lacksColumn oldTable.columnNames) {c : ColumnName} :
    c ∈ (operator.keyed us newTable oldTable).table.columnNames ↔ c ∈ newTable.columnNames := by
  rw [keyed_table operator us hold hnew]
  exact (((filled_columns_iff operator us hold hnew).2 hmeets).map Column.name).mem_iff

theorem keyed_nodup (hold : oldTable.columnNames.Nodup) (hnew : newTable.columnNames.Nodup) :
    (operator.keyed us newTable oldTable).table.columnNames.Nodup := by
  rw [keyed_table operator us hold hnew]
  have hnames := filled_columnNames operator us hold hnew
  have hadded := added_nodup operator us hold hnew
  rw [← hnames] at hadded
  exact hadded

theorem keyed_foreignKeyDefs (hold : oldTable.columnNames.Nodup) (hnew : newTable.columnNames.Nodup)
    (hmeets : GoSlice.Meets newTable.lacksColumn oldTable.columnNames)
    (hfks : GoSlice.Meets newTable.lacksForeignKey oldTable.foreignKeyDefs) (d : ForeignKeyDef) :
    d ∈ (operator.keyed us newTable oldTable).table.foreignKeyDefs ↔ d ∈ newTable.foreignKeyDefs :=
  ((alterTable_matches_iff operator us hold hnew).2 ⟨hmeets, hfks⟩).2.2.2 d

theorem indices_run {db : Database} {t : TableSchema} {indexes : List IndexSchema}
    (hrun : runAll operator.support (operator.keyed us newTable oldTable).sql db = some ⟨[t], indexes⟩)
    (hname : t.name = (operator.keyed us newTable oldTable).table.name)
    (hcols : ∀ u ∈ us, ∀ c ∈ u.columnNames, c ∈ t.columnNames) :
    runAll operator.support (createIndices us (operator.keyed us newTable oldTable)).sql db =
      some ⟨[t], addIndexes t.name us indexes⟩ := by
  refine (runAll_append _ _ _).trans ?_
  rw [hrun, Option.bind_some, ← hname]
  exact runAll_indices us hcols indexes

/-! ## Where everything can be altered -/

theorem filter_eraseP {α : Type} {p q : α → Bool} (l : List α) (h : ∀ x ∈ l, q x = true → p x = false) :
    (l.eraseP q).filter p = l.filter p := by
  induction l with
  | nil => rfl
  | cons x l ih =>
    by_cases hq : q x = true
    · rw [eraseP_cons_of_pos hq, filter_cons_of_neg (by simp [h x mem_cons_self hq])]
    · have hl := ih (fun y hy => h y (mem_cons_of_mem _ hy))
      rw [eraseP_cons_of_neg hq, filter_cons, filter_cons, hl]

theorem dropped_foreignKeys (hfks : GoSlice.Meets newTable.lacksForeignKey oldTable.foreignKeyDefs) :
    (operator.dropped us newTable oldTable).table.foreignKeyConstraints =
      oldTable.foreignKeyConstraints.filter (fun fk => !newTable.lacksForeignKey fk.toDefinitionSQL) := by
  have hfilter : (operator.dropped us newTable oldTable).table.foreignKeyConstraints.filter
      (fun fk => !newTable.lacksForeignKey fk.toDefinitionSQL) =
      oldTable.foreignKeyConstraints.filter (fun fk => !newTable.lacksForeignKey fk.toDefinitionSQL) := by
    unfold dropped dropForeignKeys
    rw [dropUniques_table]
    refine GoSlice.rangeOver_inv (P := fun s : Script => s.table.foreignKeyConstraints.filter
      (fun fk => !newTable.lacksForeignKey fk.toDefinitionSQL) =
        oldTable.foreignKeyConstraints.filter (fun fk => !newTable.lacksForeignKey fk.toDefinitionSQL))
      (fun s fk hs => ?_) (by rw [dropPrimaryKey_table])
    rw [dropForeignKeyPass_table]
    simp only
    split
    · rename_i hlacks
      refine (filter_eraseP _ (fun x _ hx => ?_)).trans hs
      rw [← ForeignKeyConstraint.equals_iff.1 hx, hlacks]; rfl
    · exact hs
  rw [← hfilter]
  refine (filter_eq_self.2 (fun fk hfk => ?_)).symm
  have hin := (dropped_defs_iff operator us newTable oldTable).2 hfks _ (List.mem_map_of_mem hfk)
  simpa [Table.lacksForeignKey] using hin

theorem missingForeignKeys_congr (l : List ForeignKeyConstraint) {a b : List ForeignKeyDef}
    (h : ∀ d ∈ l.map ForeignKeyConstraint.toDefinitionSQL, (d ∈ a ↔ d ∈ b)) :
    missingForeignKeys a l = missingForeignKeys b l := by
  induction l generalizing a b with
  | nil => rfl
  | cons fk l ih =>
    have hfk := h fk.toDefinitionSQL mem_cons_self
    have hl : ∀ d ∈ l.map ForeignKeyConstraint.toDefinitionSQL, (d ∈ a ↔ d ∈ b) :=
      fun d hd => h d (mem_cons_of_mem _ hd)
    rw [missingForeignKeys, missingForeignKeys]
    by_cases ha : fk.toDefinitionSQL ∈ a
    · rw [if_pos ha, if_pos (hfk.1 ha)]
      exact ih hl
    · rw [if_neg ha, if_neg (fun hb => ha (hfk.2 hb)), ih (fun d hd => ?_)]
      rw [mem_append, mem_append, hl d hd]

theorem missing_after : missingForeignKeys (operator.dropped us newTable oldTable).table.foreignKeyDefs
    newTable.foreignKeyConstraints = missingForeignKeys oldTable.foreignKeyDefs newTable.foreignKeyConstraints :=
  missingForeignKeys_congr _ (fun _ hd => ⟨mem_old_of_mem_dropped operator us newTable oldTable,
    fun ho => mem_dropped_of_stays operator us newTable oldTable ho hd⟩)

def keyAfter (oldTable newTable : Table) : Option (String × List ColumnName) :=
  namedKey (if keepsPrimaryKey oldTable newTable then oldTable.name else newTable.name) (primaryKeyAfter oldTable newTable)

def altered (operator : Operator) (us : List UniqueConstraint) (oldTable newTable : Table) : TableSchema :=
  described operator.fmter (operator.keyed us newTable oldTable).table (keyAfter oldTable newTable)
    (namedForeignKeys oldTable.name
        (oldTable.foreignKeyConstraints.filter (fun fk => !newTable.lacksForeignKey fk.toDefinitionSQL)) ++
      namedForeignKeys newTable.name (missingForeignKeys oldTable.foreignKeyDefs newTable.foreignKeyConstraints))
    (namedUniques oldTable.name (leftUniques oldTable.name us))

theorem altered_foreignKeys (hold : oldTable.columnNames.Nodup) (hnew : newTable.columnNames.Nodup)
    (hfks : GoSlice.Meets newTable.lacksForeignKey oldTable.foreignKeyDefs) :
    (altered operator us oldTable newTable).foreignKeys.map Prod.snd =
      (operator.keyed us newTable oldTable).table.foreignKeyDefs := by
  have hdefs : (operator.keyed us newTable oldTable).table.foreignKeyConstraints =
      oldTable.foreignKeyConstraints.filter (fun fk => !newTable.lacksForeignKey fk.toDefinitionSQL) ++
        missingForeignKeys oldTable.foreignKeyDefs newTable.foreignKeyConstraints := by
    rw [keyed_table operator us hold hnew, missing_after, dropped_foreignKeys hfks]
  unfold altered described namedForeignKeys Table.foreignKeyDefs
  rw [hdefs]
  simp only [map_append, List.map_map]
  rfl

theorem altered_names (h : leftUniques oldTable.name us = []) :
    (altered operator us oldTable newTable).constraintNames = constraintNamesAfter oldTable newTable := by
  unfold altered TableSchema.constraintNames described constraintNamesAfter keyAfter namedKey namedForeignKeys
  simp only [h, namedUniques, map_nil, append_nil, map_append, List.map_map, ← List.append_assoc]
  cases primaryKeyAfter oldTable newTable with
  | none => rfl
  | some _ => rfl

theorem keyAfter_eq {pk : Option (String × List ColumnName)} (hpk : KeyLeft oldTable newTable pk) :
    (if keepsPrimaryKey oldTable newTable then pk else namedKey newTable.name newTable.primaryKeyConstraint) =
        keyAfter oldTable newTable ∨
      (keepsPrimaryKey oldTable newTable = true ∧ pk = none ∧
        ∃ p ∈ keyAfter oldTable newTable, ∃ c ∈ p.2, c ∉ newTable.columnNames) := by
  unfold keyAfter primaryKeyAfter
  unfold KeyLeft at hpk
  by_cases hk : keepsPrimaryKey oldTable newTable = true
  · simp only [if_pos hk] at hpk ⊢
    exact hpk.imp_right (fun h => ⟨hk, h⟩)
  · simp only [if_neg hk]
    exact Or.inl trivial

section
variable (hold : oldTable.columnNames.Nodup) (hnew : newTable.columnNames.Nodup)
  (hwf : (oldTable.schema operator.fmter us).WellFormed operator.support)
  (hmeets : GoSlice.Meets newTable.lacksColumn oldTable.columnNames)
  (hfks : GoSlice.Meets newTable.lacksForeignKey oldTable.foreignKeyDefs)
  (hrefs : ∀ d ∈ newTable.foreignKeyDefs, d.referencingColumnName ∈ newTable.columnNames)
  (huniques : ∀ u ∈ us, ∀ c ∈ u.columnNames, c ∈ newTable.columnNames)

include hold hnew hmeets in
theorem altered_mem_columnNames {c : ColumnName} :
    c ∈ (altered operator us oldTable newTable).columnNames ↔ c ∈ newTable.columnNames := by
  unfold altered
  rw [columnNames_described]
  exact mem_keyed_columnNames hold hnew hmeets

include hold hnew hmeets hfks hrefs in
theorem altered_wellFormed_iff (hsup : operator.support = .all) (hleft : leftUniques oldTable.name us = []) :
    (altered operator us oldTable newTable).WellFormed operator.support ↔
      (∀ pk ∈ primaryKeyAfter oldTable newTable, ∀ c ∈ pk.columnNames, c ∈ newTable.columnNames) ∧
        (constraintNamesAfter oldTable newTable).Nodup := by
  have hcreate := creates_of_all hsup
  have hmem : ∀ c, c ∈ (altered operator us oldTable newTable).columnNames ↔ c ∈ newTable.columnNames :=
    fun c => altered_mem_columnNames hold hnew hmeets
  have hkey : (∀ p ∈ (altered operator us oldTable newTable).primaryKey, ∀ c ∈ p.2,
        c ∈ (altered operator us oldTable newTable).columnNames) ↔
      ∀ pk ∈ primaryKeyAfter oldTable newTable, ∀ c ∈ pk.columnNames, c ∈ newTable.columnNames := by
    simp only [hmem]
    unfold altered described keyAfter namedKey
    simp only [Option.mem_map, forall_exists_index, and_imp, forall_apply_eq_imp_iff₂]
  constructor
  · rintro ⟨_, ⟨hp, _, _⟩, hnames, _⟩
    rw [altered_names hleft] at hnames
    exact ⟨hkey.1 hp, hnames hcreate⟩
  · rintro ⟨hp, hnames⟩
    refine ⟨?_, ⟨hkey.2 hp, fun fk hfk => ?_, fun u hu => ?_⟩, fun _ => ?_, fun h => ?_⟩
    · unfold altered
      rw [columnNames_described]
      exact keyed_nodup hold hnew
    · have hdef : fk.2 ∈ (altered operator us oldTable newTable).foreignKeys.map Prod.snd := List.mem_map_of_mem hfk
      rw [altered_foreignKeys hold hnew hfks] at hdef
      exact (hmem _).2 (hrefs _ ((keyed_foreignKeyDefs hold hnew hmeets hfks _).1 hdef))
    · unfold altered at hu
      rw [hleft] at hu
      cases hu
    · rw [altered_names hleft]; exact hnames
    · rw [hcreate] at h; cases h

include hold hnew hmeets hfks in
theorem altered_matches_iff : (altered operator us oldTable newTable).Matches operator.fmter newTable ↔
    leftUniques oldTable.name us = [] := by
  have hname : (operator.keyed us newTable oldTable).table.name = newTable.name := by
    rw [keyed_table operator us hold hnew]
  have hcols : (operator.keyed us newTable oldTable).table.columns.Perm newTable.columns := by
    rw [keyed_table operator us hold hnew]
    exact (filled_columns_iff operator us hold hnew).2 hmeets
  have hkey : SameKey ((keyAfter oldTable newTable).map Prod.snd) newTable.primaryKeyConstraint := by
    unfold keyAfter namedKey
    rw [Option.map_map]
    exact sameKey_after
  have hdefs : ∀ d, d ∈ (altered operator us oldTable newTable).foreignKeys.map Prod.snd ↔ d ∈ newTable.foreignKeyDefs := by
    intro d
    rw [altered_foreignKeys hold hnew hfks]
    exact keyed_foreignKeyDefs hold hnew hmeets hfks d
  constructor
  · exact fun h => map_eq_nil_iff.1 h.2.2.2.2
  · exact fun h => ⟨hname, hcols.map _, hkey, hdefs, map_eq_nil_iff.2 h⟩

include hold hnew hwf hfks hrefs huniques in
theorem altered_run (hsup : operator.support = .all) :
    ∃ pk, (pk = keyAfter oldTable newTable ∨ (keepsPrimaryKey oldTable newTable = true ∧ pk = none ∧
        ∃ p ∈ keyAfter oldTable newTable, ∃ c ∈ p.2, c ∉ newTable.columnNames)) ∧
      runAll operator.support (operator.keyed us newTable oldTable).sql (oldTable.database operator.fmter us) =
        if TableSchema.WellFormed operator.support { altered operator us oldTable newTable with primaryKey := pk }
        then some ⟨[{ altered operator us oldTable newTable with primaryKey := pk }], []⟩ else none := by
  obtain ⟨pk, hpk, hexact⟩ := keyed_exactly hsup hold hnew hwf (fun d hd =>
    hrefs d ((dropped_defs_iff operator us newTable oldTable).2 hfks d hd)) huniques
  rw [missing_after, dropped_foreignKeys hfks] at hexact
  refine ⟨if keepsPrimaryKey oldTable newTable then pk else namedKey newTable.name newTable.primaryKeyConstraint, ?_,
    hexact⟩
  refine (keyAfter_eq hpk).imp_right (fun h => ⟨h.1, ?_, h.2.2⟩)
  rw [if_pos h.1]
  exact h.2.1

include hwf in
theorem uniqueNames_nodup (hsup : operator.support = .all) : (us.map (fun u => u.nameIn oldTable.name)).Nodup := by
  have hnames := names_of_wellFormed hsup (schema_eq operator.fmter oldTable us ▸ hwf)
  have hlast := (nodup_append.1 hnames).2.1
  unfold namedUniques at hlast
  rw [List.map_map] at hlast
  exact hlast

include hold hnew hwf in
theorem migrates_of_reaches_all (hsup : operator.support = .all) (h : operator.Reaches oldTable us newTable) :
    operator.Migrates oldTable us newTable := by
  have hcreate := creates_of_all hsup
  have hnot : operator.support.sCreateAndDropConstraint ≠ false := by rw [hcreate]; exact Bool.noConfusion
  obtain ⟨hmem, db, hrun, hmatch⟩ := h
  obtain ⟨hmeets, hfks⟩ := (alterTable_matches_iff operator us hold hnew).1 hmem
  have hdb := runAll_wellFormed (database_wellFormed hwf) hrun
  obtain ⟨_, hrefs, huniques⟩ := asked_of_matches hdb hmatch
  obtain ⟨pk, hpk, hkeyed⟩ := altered_run hold hnew hwf hfks hrefs huniques hsup
  rw [alterTable_runAll operator us hold] at hrun
  by_cases hwf' : TableSchema.WellFormed operator.support { altered operator us oldTable newTable with primaryKey := pk }
  · rw [if_pos hwf'] at hkeyed
    have hfinal := indices_run hkeyed rfl (fun u hu c hc =>
      (altered_mem_columnNames hold hnew hmeets).2 (huniques u hu c hc))
    rw [hrun] at hfinal
    obtain ⟨t, ht, htm, hidx⟩ := hmatch
    rw [Option.some.inj hfinal] at ht hidx
    have ht' : { altered operator us oldTable newTable with primaryKey := pk } = t := by simpa using ht
    -- the key of the final table is the new table's, so it was not dropped on the way
    have hpk' : pk = keyAfter oldTable newTable := by
      refine hpk.resolve_right (fun h => ?_)
      have hkey := htm.2.2.1
      rw [← ht', h.2.1] at hkey
      have hkeep := h.1
      unfold keepsPrimaryKey at hkeep
      split at hkeep
      · rename_i hn
        rw [hn] at hkey
        exact hkey
      · cases hkeep
    subst hpk'
    have htm' : (altered operator us oldTable newTable).Matches operator.fmter newTable := by rw [← ht'] at htm; exact htm
    have hleft := (altered_matches_iff hold hnew hmeets hfks).1 htm'
    obtain ⟨hkey, hnames⟩ := (altered_wellFormed_iff hold hnew hmeets hfks hrefs hsup hleft).1 hwf'
    have hname : (altered operator us oldTable newTable).name = newTable.name := htm'.1
    have hidx' : IndexesMatch (addIndexes newTable.name us []) newTable.name us := hname ▸ hidx
    exact {
      columns := hmeets
      foreignKeys := hfks
      primaryKey := hkey
      references := hrefs
      uniques := huniques
      indexNames := (indexesMatch_fresh _ _).1 hidx'
      apart := fun _ => (leftUniques_eq_nil_iff (uniqueNames_nodup hwf hsup)).1 hleft
      names := fun _ => hnames
      remains := fun h => absurd h hnot
      leaves := fun h => absurd h hnot }
  · rw [if_neg hwf'] at hkeyed
    have hnone : runAll operator.support (createIndices us (operator.keyed us newTable oldTable)).sql
        (oldTable.database operator.fmter us) = none := by
      refine (runAll_append _ _ _).trans ?_
      rw [hkeyed]; rfl
    rw [hnone] at hrun
    cases hrun

include hold hnew hwf in
theorem reaches_of_migrates_all (hsup : operator.support = .all) (h : operator.Migrates oldTable us newTable) :
    operator.Reaches oldTable us newTable := by
  have hcreate := creates_of_all hsup
  refine ⟨(alterTable_matches_iff operator us hold hnew).2 ⟨h.columns, h.foreignKeys⟩, ?_⟩
  have hleft := (leftUniques_eq_nil_iff (uniqueNames_nodup hwf hsup)).2 (h.apart hcreate)
  obtain ⟨pk, hpk, hkeyed⟩ := altered_run hold hnew hwf h.foreignKeys h.references h.uniques hsup
  have hpk' : pk = keyAfter oldTable newTable := by
    refine hpk.resolve_right (fun hgone => ?_)
    obtain ⟨_, _, p, hp, c, hc, hnot⟩ := hgone
    obtain ⟨q, hq, rfl⟩ := Option.mem_map.1 hp
    exact hnot (h.primaryKey q hq c hc)
  subst hpk'
  have hwf' := (altered_wellFormed_iff hold hnew h.columns h.foreignKeys h.references hsup hleft).2
    ⟨h.primaryKey, h.names hcreate⟩
  have htm : (altered operator us oldTable newTable).Matches operator.fmter newTable :=
    (altered_matches_iff hold hnew h.columns h.foreignKeys).2 hleft
  have hkeyed' : runAll operator.support (operator.keyed us newTable oldTable).sql
      (oldTable.database operator.fmter us) = some ⟨[altered operator us oldTable newTable], []⟩ :=
    hkeyed.trans (if_pos hwf')
  have hfinal := indices_run hkeyed' rfl (fun u hu c hc =>
    (altered_mem_columnNames hold hnew h.columns).2 (h.uniques u hu c hc))
  refine ⟨_, (alterTable_runAll operator us hold _).trans hfinal, _, rfl, htm, ?_⟩
  have hname : (altered operator us oldTable newTable).name = newTable.name := htm.1
  have hidx := (indexesMatch_fresh newTable.name us).2 h.indexNames
  rw [← hname] at hidx
  exact hname ▸ hidx

end

/-! ## Where tables are recreated -/

theorem runAll_before {support : OperatorSupport} {first sql : List Stmt} (h : first <+: sql) {db db' : Database}
    (hrun : runAll support sql db = some db') : ∃ db₁, runAll support first db = some db₁ := by
  obtain ⟨rest, rfl⟩ := h
  rw [runAll_append] at hrun
  obtain ⟨db₁, h₁, _⟩ := Option.bind_eq_some_iff.1 hrun
  exact ⟨db₁, h₁⟩

theorem trimmed_before :
    (operator.trimmed us newTable oldTable).sql <+: (createIndices us (operator.keyed us newTable oldTable)).sql := by
  have hadd : ∀ (s : Script) (r : Table × List Stmt), s.sql <+: (s.add r).sql := fun s r => prefix_append _ _
  have hadded : (operator.trimmed us newTable oldTable).sql <+:
      (operator.addColumns us newTable (operator.trimmed us newTable oldTable)).sql := by
    unfold addColumns
    refine List.foldlRecOn newTable.columns _ (motive := fun s : Script =>
      (operator.trimmed us newTable oldTable).sql <+: s.sql) (prefix_refl _) (fun s hs c _ => ?_)
    split
    · exact hs.trans (hadd s _)
    · exact hs
  have hfilled : (operator.trimmed us newTable oldTable).sql <+: (operator.filled us newTable oldTable).sql := by
    unfold filled modifyColumns
    simp only
    split
    · exact hadded
    · split
      · exact hadded.trans (prefix_append _ _)
      · exact hadded.trans (prefix_append _ _)
  have hrenamed : (operator.trimmed us newTable oldTable).sql <+: (operator.renamed us newTable oldTable).sql := by
    unfold renamed rename
    split
    · exact hfilled.trans (hadd _ _)
    · exact hfilled
  have hkey : (operator.trimmed us newTable oldTable).sql <+:
      (operator.createPrimaryKey us newTable (operator.renamed us newTable oldTable)).sql := by
    unfold createPrimaryKey
    split
    · exact hrenamed.trans (hadd _ _)
    · split
      · exact hrenamed
      · exact hrenamed.trans (hadd _ _)
    · exact hrenamed
  have hkeyed : (operator.trimmed us newTable oldTable).sql <+: (operator.keyed us newTable oldTable).sql := by
    unfold keyed createForeignKeys
    refine List.foldlRecOn newTable.foreignKeyConstraints _ (motive := fun s : Script =>
      (operator.trimmed us newTable oldTable).sql <+: s.sql) hkey (fun s hs fk _ => ?_)
    split
    · exact hs.trans (hadd s _)
    · exact hs
  exact hkeyed.trans (prefix_append _ _)

theorem Like.matches (hold : oldTable.columnNames.Nodup) (hnew : newTable.columnNames.Nodup)
    (hmeets : GoSlice.Meets newTable.lacksColumn oldTable.columnNames)
    (hfks : GoSlice.Meets newTable.lacksForeignKey oldTable.foreignKeyDefs) {t : TableSchema}
    (h : Like operator.fmter (operator.keyed us newTable oldTable).table t) : t.Matches operator.fmter newTable := by
  obtain ⟨hname, hcols, hkey, hdefs⟩ := (alterTable_matches_iff operator us hold hnew).2 ⟨hmeets, hfks⟩
  rw [alterTable_eq] at hname hcols hkey hdefs
  refine ⟨h.name.trans hname, ?_, ?_, ?_, h.uniques⟩
  · rw [h.columns]; exact hcols.map _
  · rw [h.primaryKey]; exact hkey
  · rw [h.foreignKeys]; exact hdefs

theorem indexesMatch_iff (oldTable : Table) (us : List UniqueConstraint) (newTable : Table) :
    IndexesMatch (addIndexes newTable.name us (indexesKeyed oldTable us newTable)) newTable.name us ↔
      (∀ u ∈ us, ∀ v ∈ us, "_".intercalate u.columnNames = "_".intercalate v.columnNames → u.columnNames = v.columnNames) ∧
        ¬ leavesIndexes oldTable us newTable := by
  have hfresh : addIndexes newTable.name us (indexesKeyed oldTable us newTable) = addIndexes newTable.name us [] →
      ¬ leavesIndexes oldTable us newTable →
      (IndexesMatch (addIndexes newTable.name us (indexesKeyed oldTable us newTable)) newTable.name us ↔
        (∀ u ∈ us, ∀ v ∈ us, "_".intercalate u.columnNames = "_".intercalate v.columnNames →
          u.columnNames = v.columnNames) ∧ ¬ leavesIndexes oldTable us newTable) := by
    intro heq hleaves
    rw [heq, indexesMatch_fresh]
    exact ⟨fun h => ⟨h, hleaves⟩, And.left⟩
  by_cases hkeys : keepsKeys oldTable newTable
  · have hkeyed : indexesKeyed oldTable us newTable = indexesRenamed oldTable us newTable := if_pos hkeys
    by_cases hmade : keepsColumns oldTable newTable ∧ addsNotNull oldTable newTable
    · have hrenamed : indexesRenamed oldTable us newTable =
          (addIndexes oldTable.name us []).map (fun i => { i with table := newTable.name }) := by
        unfold indexesRenamed indexesFilled
        rw [if_pos hmade]
      by_cases hus : us = []
      · refine hfresh ?_ (fun h => h.1 hus)
        rw [hkeyed, hrenamed, hus]; rfl
      · by_cases hname : oldTable.name = newTable.name
        · refine hfresh ?_ (fun h => h.2.1 hname)
          have hid : (addIndexes oldTable.name us []).map (fun i => ({ i with table := newTable.name } : IndexSchema)) =
              addIndexes newTable.name us [] := by
            rw [hname]
            refine (map_congr_left (fun i hi => ?_)).trans (List.map_id _)
            rw [← addIndexes_table i hi]; rfl
          rw [hkeyed, hrenamed, hid, addIndexes_again]
        · rw [hkeyed, hrenamed]
          constructor
          · exact fun h => absurd h (not_indexesMatch_stale hname hus)
          · exact fun h => absurd ⟨hus, hname, hmade.2, hmade.1, hkeys⟩ h.2
    · refine hfresh ?_ (fun h => hmade ⟨h.2.2.2.1, h.2.2.1⟩)
      rw [hkeyed]
      unfold indexesRenamed indexesFilled
      rw [if_neg hmade]; rfl
  · refine hfresh ?_ (fun h => hkeys h.2.2.2.2)
    have hkeyed : indexesKeyed oldTable us newTable = addIndexes newTable.name us [] := if_neg hkeys
    rw [hkeyed, addIndexes_again]

section
variable (hsup : operator.support = .none) (hold : oldTable.columnNames.Nodup) (hnew : newTable.columnNames.Nodup)
  (hwf : (oldTable.schema operator.fmter us).WellFormed operator.support)
  (hmeets : GoSlice.Meets newTable.lacksColumn oldTable.columnNames)
  (hfks : GoSlice.Meets newTable.lacksForeignKey oldTable.foreignKeyDefs)
  (hrefs : ∀ d ∈ newTable.foreignKeyDefs, d.referencingColumnName ∈ newTable.columnNames)
  (huniques : ∀ u ∈ us, ∀ c ∈ u.columnNames, c ∈ newTable.columnNames)

include hsup hold hwf hmeets hfks hrefs in
theorem trimmed_wellFormed_iff :
    ((operator.trimmed us newTable oldTable).table.schema operator.fmter []).WellFormed operator.support ↔
      (keepsPrimaryKey oldTable newTable = true →
        ∀ pk ∈ oldTable.primaryKeyConstraint, ∀ c ∈ pk.columnNames, c ∈ newTable.columnNames) ∧
      ∃ c ∈ oldTable.columnNames, c ∈ newTable.columnNames := by
  have hcreate := creates_of_none hsup
  have hcn : ((operator.trimmed us newTable oldTable).table.schema operator.fmter []).columnNames =
      (operator.trimmed us newTable oldTable).table.columnNames := columnNames_described _ _ _ _ _
  have hcnold : (oldTable.schema operator.fmter us).columnNames = oldTable.columnNames := columnNames_described _ _ _ _ _
  have hnames := (trimmed_names_iff operator us newTable oldTable).2 hmeets
  have hpk : (operator.trimmed us newTable oldTable).table.primaryKeyConstraint =
      if keepsPrimaryKey oldTable newTable then oldTable.primaryKeyConstraint else none := by
    rw [trimmed_table operator us newTable oldTable]
  obtain ⟨_, ⟨hp, hf, _⟩, _, _⟩ := id hwf
  rw [hcnold] at hp hf
  constructor
  · rintro ⟨_, ⟨hp', _, _⟩, _, hne⟩
    rw [hcn] at hp'
    refine ⟨fun hkeep pk hin c hc => hnames c (hp' (pk.nameIn
      (operator.trimmed us newTable oldTable).table.name, pk.columnNames) ?_ c hc), ?_⟩
    · refine Option.mem_map.2 ⟨pk, ?_, rfl⟩
      rw [hpk, if_pos hkeep]; exact hin
    · obtain ⟨c, hc⟩ := exists_mem_of_ne_nil _ (hne hcreate)
      have hin : c.name ∈ (operator.trimmed us newTable oldTable).table.columnNames := hcn ▸ List.mem_map_of_mem hc
      exact ⟨c.name, mem_old_of_mem_trimmed operator us newTable oldTable hin, hnames _ hin⟩
  · rintro ⟨hkeep, c, hcold, hcnew⟩
    have hstays := mem_trimmed_of_stays operator us newTable oldTable hcold hcnew
    refine ⟨hcn ▸ trimmed_nodup operator us hold, ⟨fun p hin c hc => ?_, fun fk hfk => ?_, fun u hu => by cases hu⟩,
      fun h => ?_, fun _ hnil => ?_⟩
    · rw [hcn]
      obtain ⟨pk, hpk', rfl⟩ := Option.mem_map.1 hin
      rw [hpk] at hpk'
      split at hpk'
      · rename_i hk
        exact mem_trimmed_of_stays operator us newTable oldTable
          (hp _ (Option.mem_map.2 ⟨pk, hpk', rfl⟩) c hc) (hkeep hk pk hpk' c hc)
      · cases hpk'
    · rw [hcn]
      obtain ⟨x, hx, rfl⟩ := List.mem_map.1 hfk
      rw [trimmed_table operator us newTable oldTable] at hx
      have hxold := (dropped_foreignKeys_sublist operator us newTable oldTable).subset hx
      have hxnew := (dropped_defs_iff operator us newTable oldTable).2 hfks _ (List.mem_map_of_mem hx)
      exact mem_trimmed_of_stays operator us newTable oldTable
        (hf (x.nameIn oldTable.name, x.toDefinitionSQL) (List.mem_map.2 ⟨x, hxold, rfl⟩)) (hrefs _ hxnew)
    · rw [hcreate] at h; cases h
    · have hnone : (operator.trimmed us newTable oldTable).table.columnNames = [] := by
        rw [← hcn]
        unfold TableSchema.columnNames
        rw [hnil]; rfl
      rw [hnone] at hstays
      cases hstays

include hsup hold hnew hmeets hfks hrefs in
theorem keyed_wellFormed (hkey : ∀ pk ∈ primaryKeyAfter oldTable newTable, ∀ c ∈ pk.columnNames, c ∈ newTable.columnNames)
    (hremains : ∃ c ∈ oldTable.columnNames, c ∈ newTable.columnNames) :
    ((operator.keyed us newTable oldTable).table.schema operator.fmter []).WellFormed operator.support := by
  have hcreate := creates_of_none hsup
  have hcn : ((operator.keyed us newTable oldTable).table.schema operator.fmter []).columnNames =
      (operator.keyed us newTable oldTable).table.columnNames := columnNames_described _ _ _ _ _
  have hmem : ∀ c, c ∈ (operator.keyed us newTable oldTable).table.columnNames ↔ c ∈ newTable.columnNames :=
    fun c => mem_keyed_columnNames hold hnew hmeets
  obtain ⟨c, _, hcnew⟩ := hremains
  refine ⟨hcn ▸ keyed_nodup hold hnew, ⟨fun p hin c hc => ?_, fun fk hfk => ?_, fun u hu => by cases hu⟩,
    fun h => ?_, fun _ hnil => ?_⟩
  · rw [hcn, hmem]
    obtain ⟨pk, hpk, rfl⟩ := Option.mem_map.1 hin
    rw [keyed_table operator us hold hnew] at hpk
    exact hkey pk hpk c hc
  · rw [hcn, hmem]
    obtain ⟨x, hx, rfl⟩ := List.mem_map.1 hfk
    exact hrefs _ ((keyed_foreignKeyDefs hold hnew hmeets hfks _).1 (List.mem_map_of_mem hx))
  · rw [hcreate] at h; cases h
  · have hin := (hmem c).2 hcnew
    rw [← hcn] at hin
    unfold TableSchema.columnNames at hin
    rw [hnil] at hin
    cases hin

include hsup hold hnew hwf hmeets hfks hrefs huniques in
theorem recreated_run
    (hkey : ∀ pk ∈ primaryKeyAfter oldTable newTable, ∀ c ∈ pk.columnNames, c ∈ newTable.columnNames)
    (hremains : ∃ c ∈ oldTable.columnNames, c ∈ newTable.columnNames) :
    ∃ t, runAll operator.support (createIndices us (operator.keyed us newTable oldTable)).sql
        (oldTable.database operator.fmter us) =
          some ⟨[t], addIndexes newTable.name us (indexesKeyed oldTable us newTable)⟩ ∧
      t.Matches operator.fmter newTable := by
  have hcnold : (oldTable.schema operator.fmter us).columnNames = oldTable.columnNames := columnNames_described _ _ _ _ _
  have hold' : ∀ u ∈ us, ∀ c ∈ u.columnNames, c ∈ oldTable.columnNames :=
    fun u hu c hc => hcnold ▸ hwf.2.1.2.2 _ (List.mem_map_of_mem hu) c hc
  have htrimmed := (trimmed_wellFormed_iff hsup hold hwf hmeets hfks hrefs).2 ⟨fun hk pk hpk c hc =>
    hkey pk (by unfold primaryKeyAfter; rw [if_pos hk]; exact hpk) c hc, hremains⟩
  have hus : ∀ u ∈ us, ∀ c ∈ u.columnNames, c ∈ (operator.trimmed us newTable oldTable).table.columnNames :=
    fun u hu c hc => mem_trimmed_of_stays operator us newTable oldTable (hold' u hu c hc) (huniques u hu c hc)
  obtain ⟨hfilled, _⟩ := filled_run hsup hold hnew hwf htrimmed hus
  obtain ⟨t₁, hrun₁, hlike₁⟩ := renamed_run hold hnew hfilled
  have hrenamed : ∀ u ∈ us, ∀ c ∈ u.columnNames, c ∈ (operator.renamed us newTable oldTable).table.columnNames := by
    intro u hu c hc
    unfold renamed
    rw [rename_table]
    exact (mem_filled_columnNames operator us hold hnew).2 (Or.inr (huniques u hu c hc))
  obtain ⟨t, hrun, hlike⟩ := keyed_run hsup hold hnew hrenamed
    (keyed_wellFormed hsup hold hnew hmeets hfks hrefs hkey hremains) hlike₁ hrun₁
  have hmatch := Like.matches hold hnew hmeets hfks hlike
  refine ⟨t, ?_, hmatch⟩
  rw [← hmatch.1]
  exact indices_run hrun hlike.name (fun u hu c hc => hmatch.mem_columnNames.2 (huniques u hu c hc))

include hsup hold hnew hwf in
theorem migrates_of_reaches_none (h : operator.Reaches oldTable us newTable) : operator.Migrates oldTable us newTable := by
  have hcreate := creates_of_none hsup
  have hnot : operator.support.sCreateAndDropConstraint ≠ true := by rw [hcreate]; exact Bool.noConfusion
  obtain ⟨hmem, db, hrun, hmatch⟩ := h
  obtain ⟨hmeets, hfks⟩ := (alterTable_matches_iff operator us hold hnew).1 hmem
  have hdb := runAll_wellFormed (database_wellFormed hwf) hrun
  obtain ⟨hasked, hrefs, huniques⟩ := asked_of_matches hdb hmatch
  rw [alterTable_runAll operator us hold] at hrun
  -- the statements that drop columns have run, so the key that stays uses none of these
  have htrimmed : ((operator.trimmed us newTable oldTable).table.schema operator.fmter []).WellFormed operator.support := by
    obtain ⟨db₁, h₁⟩ := runAll_before trimmed_before hrun
    rw [trimmed_run hsup hold hwf] at h₁
    by_contra hn
    rw [if_neg hn] at h₁
    cases h₁
  obtain ⟨hkept, hremains⟩ := (trimmed_wellFormed_iff hsup hold hwf hmeets hfks hrefs).1 htrimmed
  have hkey : ∀ pk ∈ primaryKeyAfter oldTable newTable, ∀ c ∈ pk.columnNames, c ∈ newTable.columnNames := by
    unfold primaryKeyAfter
    split
    · rename_i hk; exact hkept hk
    · exact hasked
  obtain ⟨t, hfinal, _⟩ := recreated_run hsup hold hnew hwf hmeets hfks hrefs huniques hkey hremains
  rw [hrun] at hfinal
  obtain ⟨_, _, _, hidx⟩ := hmatch
  rw [Option.some.inj hfinal] at hidx
  obtain ⟨hjoin, hleaves⟩ := (indexesMatch_iff oldTable us newTable).1 hidx
  exact {
    columns := hmeets
    foreignKeys := hfks
    primaryKey := hkey
    references := hrefs
    uniques := huniques
    indexNames := hjoin
    apart := fun h => absurd h hnot
    names := fun h => absurd h hnot
    remains := fun _ => hremains
    leaves := fun _ => hleaves }

include hsup hold hnew hwf in
theorem reaches_of_migrates_none (h : operator.Migrates oldTable us newTable) : operator.Reaches oldTable us newTable := by
  have hcreate := creates_of_none hsup
  refine ⟨(alterTable_matches_iff operator us hold hnew).2 ⟨h.columns, h.foreignKeys⟩, ?_⟩
  obtain ⟨t, hfinal, hmatch⟩ := recreated_run hsup hold hnew hwf h.columns h.foreignKeys h.references h.uniques
    h.primaryKey (h.remains hcreate)
  refine ⟨_, (alterTable_runAll operator us hold _).trans hfinal, t, rfl, hmatch, ?_⟩
  exact (indexesMatch_iff oldTable us newTable).2 ⟨h.indexNames, h.leaves hcreate⟩

end

/-! ## Both kinds of engine -/

/-- **When a migration reaches its table.**  The table in memory is the new one exactly when the two loops meet everything
that is to go; where the engine can hold the old schema, the statements lead to the new one as well exactly when
`Migrates` holds. -/
theorem alterTable_reaches_iff (operator : Operator) (hsup : operator.support = .all ∨ operator.support = .none)
    (oldTable : Table) (us : List UniqueConstraint) (newTable : Table) (hold : oldTable.columnNames.Nodup)
    (hnew : newTable.columnNames.Nodup) :
    ((operator.alterTable oldTable us newTable).1.Matches newTable ↔
      GoSlice.Meets newTable.lacksColumn oldTable.columnNames ∧
        GoSlice.Meets newTable.lacksForeignKey oldTable.foreignKeyDefs) ∧
    ((oldTable.schema operator.fmter us).WellFormed operator.support →
      (operator.Reaches oldTable us newTable ↔ operator.Migrates oldTable us newTable)) := by
  refine ⟨alterTable_matches_iff operator us hold hnew, fun hwf => ?_⟩
  rcases hsup with hall | hnone
  · exact ⟨migrates_of_reaches_all hold hnew hwf hall, reaches_of_migrates_all hold hnew hwf hall⟩
  · exact ⟨migrates_of_reaches_none hnone hold hnew hwf, reaches_of_migrates_none hnone hold hnew hwf⟩

def alteringOperator : Operator := ⟨formatter, .all⟩
def sqliteOperator : Operator := ⟨sqliteFormatter, .none⟩

def users : Table where
  name := "users"
  columns := [⟨"id", dataTypeInteger, false, ""⟩, ⟨"name", dataTypeText, true, ""⟩,
    ⟨"age", dataTypeInteger, true, ""⟩, ⟨"email", dataTypeText, false, ""⟩]
  primaryKeyConstraint := some ⟨["id"], ""⟩
  foreignKeyConstraints := []

def members : Table where
  name := "members"
  columns := [⟨"id", dataTypeInteger, false, ""⟩, ⟨"age", dataTypeInteger, false, "18"⟩,
    ⟨"email", dataTypeText, false, ""⟩, ⟨"org_id", dataTypeText, false, ""⟩]
  primaryKeyConstraint := some ⟨["id"], ""⟩
  foreignKeyConstraints := [⟨"org_id", "organizations", "id", ""⟩]

def uniqueEmail : List UniqueConstraint := [⟨["email"], ""⟩]

theorem users_become_members :
    alteringOperator.Reaches users uniqueEmail members ∧ sqliteOperator.Reaches users uniqueEmail members := by
  constructor
  · refine ((alterTable_reaches_iff alteringOperator (Or.inl rfl) users uniqueEmail members (by decide)
      (by decide)).2 (by decide)).2 ?_
    exact {
      columns := by decide
      foreignKeys := by decide
      primaryKey := by decide
      references := by decide
      uniques := by decide
      indexNames := by decide
      apart := by decide
      names := by decide
      remains := fun h => by cases h
      leaves := fun h => by cases h }
  · refine ((alterTable_reaches_iff sqliteOperator (Or.inr rfl) users uniqueEmail members (by decide)
      (by decide)).2 (by decide)).2 ?_
    exact {
      columns := by decide
      foreignKeys := by decide
      primaryKey := by decide
      references := by decide
      uniques := by decide
      indexNames := by decide
      apart := fun h => by cases h
      names := fun h => by cases h
      remains := by decide
      leaves := fun _ h => absurd h.2.2.2.1 (by decide) }

def contacts : Table where
  name := "users"
  columns := [⟨"id", dataTypeInteger, false, ""⟩, ⟨"email", dataTypeText, false, ""⟩]
  primaryKeyConstraint := some ⟨["id"], ""⟩
  foreignKeyConstraints := []

theorem users_keep_their_age :
    users.columnNames.Nodup ∧ contacts.columnNames.Nodup ∧
      (users.schema alteringOperator.fmter []).WellFormed alteringOperator.support ∧
      (users.schema sqliteOperator.fmter []).WellFormed sqliteOperator.support ∧
      (alteringOperator.alterTable users [] contacts).1.columnNames = ["id", "age", "email"] ∧
      (sqliteOperator.alterTable users [] contacts).1.columnNames = ["id", "age", "email"] ∧
      ¬ alteringOperator.Reaches users [] contacts ∧ ¬ sqliteOperator.Reaches users [] contacts := by
  have hall : (alteringOperator.alterTable users [] contacts).1.columnNames = ["id", "age", "email"] := by decide
  have hnone : (sqliteOperator.alterTable users [] contacts).1.columnNames = ["id", "age", "email"] := by decide
  refine ⟨by decide, by decide, by decide, by decide, hall, hnone, fun h => ?_, fun h => ?_⟩
  · have hperm := h.1.2.1.map Column.name
    rw [show (alteringOperator.alterTable users [] contacts).1.columns.map Column.name = _ from hall] at hperm
    exact absurd hperm.length_eq (by decide)
  · have hperm := h.1.2.1.map Column.name
    rw [show (sqliteOperator.alterTable users [] contacts).1.columns.map Column.name = _ from hnone] at hperm
    exact absurd hperm.length_eq (by decide)

end Operator
end SqlSchema
end DsApm
