import DsApm.SqlSchema.OneTable
/-!
# Recreating — a migration where the engine can alter next to nothing

Constraints and columns are changed by recreating the table, which drops its indexes.  `trimmed_run` says when the columns
can be dropped at all; the rest of the run is exact: `keyed_run` gives the table and the indexes that are there before the
last ones are made.
-/
namespace DsApm
namespace SqlSchema
namespace Operator

open List Option

variable {operator : Operator} {us : List UniqueConstraint} {oldTable newTable : Table}

/-! ## Dropping constraints -/

theorem recreateTable_ne_nil (operator : Operator) (table : Table) (us : List UniqueConstraint) :
    operator.recreateTable table us ≠ [] := by
  unfold recreateTable Table.toCreateTempInsertDropAlterSQL
  exact append_ne_nil_of_left_ne_nil (cons_ne_nil _ _) _

theorem dropUniques_ne_nil (s : Script) (h : us ≠ [] ∨ s.sql ≠ []) : (operator.dropUniques us s).sql ≠ [] := by
  unfold dropUniques
  have hone : ∀ u ∈ us, ∀ s : Script, (s.add (operator.dropConstraint s.table us (.unique u))).sql ≠ [] := by
    intro u hu s
    obtain ⟨i, hi, hfound⟩ := findIdx?_foundIn hu
    rw [dropConstraint_unique operator us hi hfound]
    refine append_ne_nil_of_right_ne_nil _ ?_
    simp only
    split
    · exact cons_ne_nil _ _
    · exact recreateTable_ne_nil _ _ _
  have hfold : ∀ l : List UniqueConstraint, (∀ u ∈ l, u ∈ us) → ∀ s : Script, (l ≠ [] ∨ s.sql ≠ []) →
      (l.foldl (fun s u => s.add (operator.dropConstraint s.table us (.unique u))) s).sql ≠ [] := by
    intro l
    induction l with
    | nil => exact fun _ s hs => hs.resolve_left (fun h => h rfl)
    | cons u l ih =>
      intro hl s _
      exact ih (fun v hv => hl v (mem_cons_of_mem _ hv)) _ (Or.inr (hone u (hl u mem_cons_self) s))
  exact hfold us (fun _ hu => hu) s h

theorem wellFormed_dropped (h : (oldTable.schema operator.fmter us).WellFormed operator.support) :
    ((operator.dropped us newTable oldTable).table.schema operator.fmter []).WellFormed operator.support := by
  have htable := dropped_table operator us newTable oldTable
  have hsub := dropped_foreignKeys_sublist operator us newTable oldTable
  refine h.of_keys ?_ ?_ (nil_sublist _) ?_
  · rw [htable]
    unfold Table.schema Table.schemaNamed
    simp only
    split
    · exact Or.inl rfl
    · exact Or.inr rfl
  · rw [htable]
    exact hsub.map _
  · rw [htable]; rfl

theorem reduced_run (hsup : operator.support = .none)
    (hwf : (oldTable.schema operator.fmter us).WellFormed operator.support) :
    runAll operator.support (operator.reduceDrops (operator.dropped us newTable oldTable)).sql
        (oldTable.database operator.fmter us) =
      some ⟨[(operator.dropped us newTable oldTable).table.schema operator.fmter []], []⟩ := by
  have htable := dropped_table operator us newTable oldTable
  have hcreate := creates_of_none hsup
  unfold reduceDrops
  by_cases hsql : (operator.dropped us newTable oldTable).sql = []
  · rw [if_neg (fun h => h.2 hsql), hsql, runAll]
    have hus : us = [] := by
      by_contra hne
      exact dropUniques_ne_nil _ (Or.inl hne) hsql
    have hsame : (operator.dropped us newTable oldTable).table = oldTable :=
      (dropped_follows operator us).quiet hsql
    rw [hsame]
    unfold Table.database
    rw [hus]
  · rw [if_pos ⟨hcreate, hsql⟩]
    refine runAll_recreateTable operator ?_ (fun i hi => by cases hi) (fun c hc => ?_) (wellFormed_dropped hwf)
      (fun u hu => by cases hu)
    · rw [htable]; rfl
    · rw [htable] at hc
      rw [schema_eq, columnNames_described]
      exact hc

/-! ## Dropping columns -/

theorem apply_dropColumn (hsup : operator.support = .none) {table : Table} (hnodup : table.columnNames.Nodup)
    {name : ColumnName} (h : name ∈ table.columnNames) :
    (Stmt.dropColumn table.name operator.support.sAlterTableAddAndDropColumnIfNotExistsAndExists name).apply
        operator.support ⟨[table.schema operator.fmter []], []⟩ =
      if (Table.schema operator.fmter { table with columns := table.columns.eraseP (fun c => c.name == name) } []).WellFormed
          operator.support
      then some ⟨[Table.schema operator.fmter
        { table with columns := table.columns.eraseP (fun c => c.name == name) } []], []⟩ else none := by
  have hwithout : (table.schema operator.fmter []).withoutColumn operator.support name =
      Table.schema operator.fmter { table with columns := table.columns.eraseP (fun c => c.name == name) } [] := by
    unfold TableSchema.withoutColumn
    rw [if_neg (by rw [hsup]; exact Bool.false_ne_true), eraseP_eq_filter hnodup]
    unfold Table.schema Table.schemaNamed
    simp only [map_filter_name]
  have hin : name ∈ (table.schema operator.fmter []).columnNames := by
    rw [schema_eq, columnNames_described]; exact h
  have halter : Database.alter operator.support ⟨[table.schema operator.fmter []], []⟩ table.name
      (fun t => if name ∈ t.columnNames then some (t.withoutColumn operator.support name)
        else (if operator.support.sAlterTableAddAndDropColumnIfNotExistsAndExists then some t else none)) =
      if (Table.schema operator.fmter { table with columns := table.columns.eraseP (fun c => c.name == name) } []).WellFormed
          operator.support
      then some ⟨[Table.schema operator.fmter
        { table with columns := table.columns.eraseP (fun c => c.name == name) } []], []⟩ else none := by
    refine (alter_single (table.schema operator.fmter []) [] _).trans ?_
    rw [if_pos hin, bind_some, hwithout]
  have hindexed : Database.indexed ⟨[table.schema operator.fmter []], []⟩ table.name name = false := rfl
  simp only [Stmt.apply, hindexed, Bool.and_not_self, Bool.false_and, Bool.false_eq_true, if_false]
  rw [halter]
  split
  · rfl
  · rfl

theorem trimmed_run (hsup : operator.support = .none) (hold : oldTable.columnNames.Nodup)
    (hwf : (oldTable.schema operator.fmter us).WellFormed operator.support) :
    runAll operator.support (operator.trimmed us newTable oldTable).sql (oldTable.database operator.fmter us) =
      if ((operator.trimmed us newTable oldTable).table.schema operator.fmter []).WellFormed operator.support
      then some ⟨[(operator.trimmed us newTable oldTable).table.schema operator.fmter []], []⟩ else none := by
  have hstart : (operator.reduceDrops (operator.dropped us newTable oldTable)).table.columnNames.Nodup ∧
      runAll operator.support (operator.reduceDrops (operator.dropped us newTable oldTable)).sql
        (oldTable.database operator.fmter us) =
      if ((operator.reduceDrops (operator.dropped us newTable oldTable)).table.schema operator.fmter []).WellFormed
          operator.support
      then some ⟨[(operator.reduceDrops (operator.dropped us newTable oldTable)).table.schema operator.fmter []], []⟩
      else none := by
    rw [reduceDrops_table, if_pos (wellFormed_dropped hwf)]
    refine ⟨?_, reduced_run hsup hwf⟩
    rw [dropped_table operator us newTable oldTable]; exact hold
  unfold trimmed dropColumns
  refine (GoSlice.rangeOver_inv (P := fun s : Script => s.table.columnNames.Nodup ∧
    runAll operator.support s.sql (oldTable.database operator.fmter us) =
      if (s.table.schema operator.fmter []).WellFormed operator.support
      then some ⟨[s.table.schema operator.fmter []], []⟩ else none) (fun s c hs => ?_) hstart).2
  obtain ⟨hnodup, hrun⟩ := hs
  unfold dropColumnPass
  split
  · cases hfind : findColumnByName s.table c.name with
    | none =>
      have hnothing : operator.dropColumn s.table c = (s.table, []) := by unfold dropColumn; rw [hfind]
      rw [hnothing]
      refine ⟨hnodup, ?_⟩
      simp only [Script.add, append_nil]
      exact hrun
    | some i =>
      have hin : c.name ∈ s.table.columnNames := by
        by_contra hn
        rw [findColumnByName_eq_none hn] at hfind; cases hfind
      have hdrop : operator.dropColumn s.table c =
          ({ s.table with columns := s.table.columns.eraseP (fun d => d.name == c.name) },
            [.dropColumn s.table.name operator.support.sAlterTableAddAndDropColumnIfNotExistsAndExists c.name]) := by
        unfold dropColumn; rw [hfind]
      rw [hdrop]
      refine ⟨hnodup.sublist (eraseP_sublist.map _), (runAll_append _ _ _).trans ?_⟩
      rw [hrun]
      by_cases hw : (s.table.schema operator.fmter []).WellFormed operator.support
      · rw [if_pos hw, bind_some, runAll_singleton, apply_dropColumn hsup hnodup hin]
        rfl
      · rw [if_neg hw, bind_none]
        refine (if_neg ?_).symm
        -- a table with fewer columns that the engine can hold shows that this one could be held
        intro hw'
        refine hw (hw'.of_columns rfl rfl rfl (fun d hd => ?_) ?_ (fun hnil => ?_))
        · rw [schema_eq, columnNames_described] at hd ⊢
          exact (eraseP_sublist.map _).subset hd
        · rw [schema_eq, columnNames_described]; exact hnodup
        · have hempty : s.table.columns = [] := map_eq_nil_iff.1 hnil
          unfold Table.columnNames at hin
          rw [hempty] at hin; cases hin
  · exact ⟨hnodup, hrun⟩

/-! ## Adding and modifying columns -/

theorem wellFormed_addColumn {table : Table} {column : Column} (hwf : (table.schema operator.fmter []).WellFormed operator.support)
    (h : column.name ∉ table.columnNames) :
    (Table.schema operator.fmter { table with columns := table.columns ++ [column] } []).WellFormed operator.support := by
  have hcn : (table.schema operator.fmter []).columnNames = table.columnNames := columnNames_described _ _ _ _ _
  have hcn' : (Table.schema operator.fmter { table with columns := table.columns ++ [column] } []).columnNames =
      table.columnNames ++ [column.name] := by
    rw [schema_eq, columnNames_described]
    unfold Table.columnNames
    rw [map_append, map_singleton]
  refine hwf.of_columns rfl rfl rfl (fun c hc => ?_) ?_ ?_
  · rw [hcn']; rw [hcn] at hc; exact mem_append_left _ hc
  · rw [hcn', nodup_append]
    refine ⟨hcn ▸ hwf.1, nodup_singleton _, fun a ha b hb hab => h ?_⟩
    rw [mem_singleton] at hb
    rw [← hb, ← hab]; exact ha
  · unfold Table.schema Table.schemaNamed
    simp

theorem addColumn_run (hsup : operator.support = .none) {table : Table} {column : Column}
    (hwf : (table.schema operator.fmter []).WellFormed operator.support) (h : column.name ∉ table.columnNames)
    {indexes : List IndexSchema} (hidx : ∀ i ∈ indexes, i.table = table.name)
    (hus : ∀ u ∈ us, ∀ c ∈ u.columnNames, c ∈ table.columnNames) :
    runAll operator.support (operator.addColumn table us column none).2 ⟨[table.schema operator.fmter []], indexes⟩ =
      some ⟨[Table.schema operator.fmter { table with columns := table.columns ++ [column] } []],
        if column.nullable = false then addIndexes table.name us [] else indexes⟩ := by
  obtain ⟨d, hname, hsql, hplain, _⟩ := toAddSQL_eq operator.fmter column table.name
    operator.support.sAlterTableAddAndDropColumnIfNotExistsAndExists
  have hcn : (table.schema operator.fmter []).columnNames = table.columnNames := columnNames_described _ _ _ _ _
  have hnot : d.name ∉ (table.schema operator.fmter []).columnNames := by rw [hcn, hname]; exact h
  have hadd := (apply_addColumn hwf indexes hnot).1
  have halter : operator.support.sAlterTableAlterColumnSetAndDrop = false := by rw [hsup]; rfl
  rw [addColumn_absent operator us h, hsql]
  simp only
  rw [List.append_assoc, runAll_append, runAll_singleton]
  refine (congrArg (fun x => Option.bind x _) hadd).trans ?_
  rw [bind_some, runAll_append]
  by_cases hn : column.nullable = false
  · -- the column is there, whether it was filled or not; then the table is made anew
    have hin : column.name ∈ (TableSchema.columnNames
        { table.schema operator.fmter [] with columns := (table.schema operator.fmter []).columns ++ [d] }) := by
      unfold TableSchema.columnNames; simp [hname]
    have hupdate : runAll operator.support (if column.nullable = false ∧ column.default = "" then
        [.update table.name column.name (.zero column.dataType.z)] else [])
        ⟨[{ table.schema operator.fmter [] with columns := (table.schema operator.fmter []).columns ++ [d] }], indexes⟩ =
        some ⟨[{ table.schema operator.fmter [] with columns := (table.schema operator.fmter []).columns ++ [d] }],
          indexes⟩ := by
      split
      · rw [runAll_singleton]; exact apply_update hin _
      · rfl
    rw [hupdate, bind_some, if_pos hn, if_neg (by rw [halter]; exact Bool.false_ne_true), if_pos hn]
    refine runAll_recreateTable operator rfl hidx (fun c hc => ?_) (wellFormed_addColumn hwf h) (fun u hu c hc => ?_)
    · unfold Table.columnNames at hc
      rw [map_append, map_singleton, mem_append, mem_singleton] at hc
      unfold TableSchema.columnNames
      rw [map_append, map_singleton, mem_append, mem_singleton, hname]
      exact hc.imp_left (fun hc => (hcn ▸ hc : c ∈ (table.schema operator.fmter []).columnNames))
    · unfold Table.columnNames
      rw [map_append]
      exact mem_append_left _ (hus u hu c hc)
  · have hn' : column.nullable = true := by simpa using hn
    rw [if_neg (fun hand => hn hand.1), if_neg hn, if_neg hn, hplain (Or.inl hn')]
    unfold Table.schema Table.schemaNamed
    simp only [map_append, map_singleton]
    rfl

theorem addColumns_run (hsup : operator.support = .none) (db : Database) (l : List Column)
    (hl : (l.map Column.name).Nodup) : ∀ (s : Script) (indexes : List IndexSchema),
    runAll operator.support s.sql db = some ⟨[s.table.schema operator.fmter []], indexes⟩ →
    (s.table.schema operator.fmter []).WellFormed operator.support → (∀ i ∈ indexes, i.table = s.table.name) →
    (∀ u ∈ us, ∀ c ∈ u.columnNames, c ∈ s.table.columnNames) →
    let s' := l.foldl (fun s column => if (findColumnByName s.table column.name).isNone then
      s.add (operator.addColumn s.table us column none) else s) s
    runAll operator.support s'.sql db = some ⟨[s'.table.schema operator.fmter []],
        if ∃ c ∈ l, c.nullable = false ∧ c.name ∉ s.table.columnNames then addIndexes s.table.name us [] else indexes⟩ ∧
      (s'.table.schema operator.fmter []).WellFormed operator.support ∧ s'.table.name = s.table.name := by
  induction l with
  | nil =>
    intro s indexes hrun hwf _ _
    refine ⟨?_, hwf, rfl⟩
    rw [if_neg (by simp)]
    exact hrun
  | cons c l ih =>
    intro s indexes hrun hwf hidx hus
    rw [map_cons, nodup_cons] at hl
    simp only [foldl_cons]
    by_cases hc : c.name ∈ s.table.columnNames
    · have hex : (∃ d ∈ c :: l, d.nullable = false ∧ d.name ∉ s.table.columnNames) ↔
          (∃ d ∈ l, d.nullable = false ∧ d.name ∉ s.table.columnNames) := by
        constructor
        · rintro ⟨d, hd, hdn⟩
          rcases mem_cons.1 hd with rfl | hd
          · exact absurd hc hdn.2
          · exact ⟨d, hd, hdn⟩
        · rintro ⟨d, hd, hdn⟩
          exact ⟨d, mem_cons_of_mem _ hd, hdn⟩
      rw [if_neg (fun hn => findColumnByName_isNone.1 hn hc)]
      simp only [hex]
      exact ih hl.2 s indexes hrun hwf hidx hus
    · rw [if_pos (findColumnByName_isNone.2 hc)]
      have htable : (s.add (operator.addColumn s.table us c none)).table =
          { s.table with columns := s.table.columns ++ [c] } := addColumn_table operator us hc
      have hstep : runAll operator.support (s.add (operator.addColumn s.table us c none)).sql db =
          some ⟨[(s.add (operator.addColumn s.table us c none)).table.schema operator.fmter []],
            if c.nullable = false then addIndexes s.table.name us [] else indexes⟩ := by
        refine (runAll_append _ _ _).trans ?_
        rw [hrun, bind_some, htable]
        exact addColumn_run hsup hwf hc hidx hus
      have hmade : ∀ i ∈ addIndexes s.table.name us [], i.table = s.table.name := by
        intro i hi
        obtain ⟨_, u, _, rfl⟩ := (mem_addIndexes.1 hi).resolve_left not_mem_nil
        rfl
      obtain ⟨hrun', hwf', hname'⟩ := ih hl.2 (s.add (operator.addColumn s.table us c none)) _ hstep
        (by rw [htable]; exact wellFormed_addColumn hwf hc)
        (by rw [htable]; split
            · exact hmade
            · exact hidx)
        (by
          rw [htable]
          intro u hu d hd
          unfold Table.columnNames
          rw [map_append]
          exact mem_append_left _ (hus u hu d hd))
      refine ⟨?_, hwf', hname'.trans (by rw [htable])⟩
      rw [hrun']
      have hnames : ∀ d ∈ l, d.name ∉ (s.add (operator.addColumn s.table us c none)).table.columnNames ↔
          d.name ∉ s.table.columnNames := by
        intro d hd
        have hdc : d.name ≠ c.name := fun hdc => hl.1 (List.mem_map.2 ⟨d, hd, hdc⟩)
        rw [htable]
        simp [Table.columnNames, hdc]
      congr 2
      by_cases hex : ∃ d ∈ l, d.nullable = false ∧ d.name ∉ s.table.columnNames
      · obtain ⟨d, hd, hdn, hdnot⟩ := hex
        rw [if_pos ⟨d, hd, hdn, (hnames d hd).2 hdnot⟩, if_pos ⟨d, mem_cons_of_mem _ hd, hdn, hdnot⟩, htable]
      · have hex' : ¬∃ d ∈ l, d.nullable = false ∧
            d.name ∉ (s.add (operator.addColumn s.table us c none)).table.columnNames := by
          rintro ⟨d, hd, hdn, hdnot⟩
          exact hex ⟨d, hd, hdn, (hnames d hd).1 hdnot⟩
        rw [if_neg hex']
        by_cases hn : c.nullable = false
        · rw [if_pos hn, if_pos ⟨c, mem_cons_self, hn, hc⟩]
        · rw [if_neg hn, if_neg]
          rintro ⟨d, hd, hdn, hdnot⟩
          rcases mem_cons.1 hd with rfl | hd
          · exact hn hdn
          · exact hex ⟨d, hd, hdn, hdnot⟩

theorem alterColumn_quiet_iff (operator : Operator) (us : List UniqueConstraint) {table : Table} (hnodup : table.columnNames.Nodup) (c : Column) :
    (operator.alterColumn table us c).2 = [] ↔ (c.name ∈ table.columnNames → c ∈ table.columns) := by
  unfold alterColumn
  cases hfind : findColumnByName table c.name with
  | none =>
    have hnot : c.name ∉ table.columnNames := findColumnByName_isNone.1 (by rw [hfind]; rfl)
    exact ⟨fun _ h => absurd h hnot, fun _ => rfl⟩
  | some i =>
    have hlt : i < table.columns.length := (List.findIdx?_eq_some_iff_findIdx_eq.1 hfind).1
    have hget : table.columns[i]? = some table.columns[i] := List.getElem?_eq_getElem hlt
    have hmem : table.columns[i] ∈ table.columns := getElem_mem hlt
    have hname : table.columns[i].name = c.name := name_of_find hfind hget
    simp only [hget]
    by_cases heq : table.columns[i].equals c = true
    · rw [if_pos heq]
      have := Column.equals_iff.1 heq
      exact ⟨fun _ _ => this ▸ hmem, fun _ => rfl⟩
    · rw [if_neg heq]
      refine ⟨fun hnil => ?_, fun h => ?_⟩
      · exfalso
        simp only [if_pos (differs_of_not_equals hname heq)] at hnil
        split at hnil
        · exact alterColumnSQL_ne_nil operator (differs_of_not_equals hname heq) hnil
        · exact recreateTable_ne_nil _ _ _ hnil
      · refine absurd (Column.equals_iff.2 ?_) heq
        exact inj_on_of_nodup_map hnodup hmem (h (hname ▸ List.mem_map_of_mem hmem)) hname

theorem alterColumns_quiet_iff (operator : Operator) (us : List UniqueConstraint) (l : List Column) (s : Script) (hnodup : s.table.columnNames.Nodup) :
    (l.foldl (fun (s : Script) column => s.add (operator.alterColumn s.table us column)) s).sql = [] ↔
      s.sql = [] ∧ ∀ c ∈ l, c.name ∈ s.table.columnNames → c ∈ s.table.columns := by
  induction l generalizing s with
  | nil => simp
  | cons c l ih =>
    have hnames := alterColumn_columnNames operator us hnodup c
    have hsql : (s.add (operator.alterColumn s.table us c)).sql = [] ↔
        s.sql = [] ∧ (operator.alterColumn s.table us c).2 = [] := append_eq_nil_iff
    rw [foldl_cons, ih _ (show (s.add (operator.alterColumn s.table us c)).table.columnNames.Nodup by
      rw [show (s.add (operator.alterColumn s.table us c)).table.columnNames = _ from hnames]; exact hnodup), hsql]
    constructor
    · rintro ⟨⟨hs, hc⟩, hl⟩
      have hsame : (operator.alterColumn s.table us c).1 = s.table := (follows_alterColumn operator us s.table c).quiet hc
      refine ⟨hs, fun d hd => ?_⟩
      rcases mem_cons.1 hd with rfl | hd
      · exact (alterColumn_quiet_iff operator us hnodup d).1 hc
      · have := hl d hd
        rw [show (s.add (operator.alterColumn s.table us c)).table = s.table from hsame] at this
        exact this
    · rintro ⟨hs, hl⟩
      have hc := (alterColumn_quiet_iff operator us hnodup c).2 (hl c mem_cons_self)
      have hsame : (operator.alterColumn s.table us c).1 = s.table := (follows_alterColumn operator us s.table c).quiet hc
      refine ⟨⟨hs, hc⟩, fun d hd => ?_⟩
      rw [show (s.add (operator.alterColumn s.table us c)).table = s.table from hsame]
      exact hl d (mem_cons_of_mem _ hd)

theorem modifyColumns_run (us : List UniqueConstraint) (hsup : operator.support = .none) (hnew : newTable.columnNames.Nodup) {db : Database} {s : Script}
    {indexes : List IndexSchema}
    (hrun : runAll operator.support s.sql db = some ⟨[s.table.schema operator.fmter []], indexes⟩)
    (hwf : (s.table.schema operator.fmter []).WellFormed operator.support) (hidx : ∀ i ∈ indexes, i.table = s.table.name) :
    runAll operator.support (operator.modifyColumns us newTable s).sql db =
        some ⟨[(operator.modifyColumns us newTable s).table.schema operator.fmter []],
          if ∀ c ∈ newTable.columns, c.name ∈ s.table.columnNames → c ∈ s.table.columns then indexes else []⟩ ∧
      ((operator.modifyColumns us newTable s).table.schema operator.fmter []).WellFormed operator.support := by
  have hcn : (s.table.schema operator.fmter []).columnNames = s.table.columnNames := columnNames_described _ _ _ _ _
  have hnodup : s.table.columnNames.Nodup := hcn ▸ hwf.1
  have hquiet := alterColumns_quiet_iff operator us newTable.columns ⟨s.table, []⟩ hnodup
  have hfold := alterColumns_fold operator us newTable.columns hnew ⟨s.table, []⟩ hnodup
  have halter : operator.support.sAlterTableAlterColumnSetAndDrop = false := by rw [hsup]; rfl
  unfold modifyColumns
  simp only
  by_cases hsql : (newTable.columns.foldl (fun (s : Script) column =>
      s.add (operator.alterColumn s.table us column)) ⟨s.table, []⟩).sql = []
  · have hsame : (newTable.columns.foldl (fun (s : Script) column =>
        s.add (operator.alterColumn s.table us column)) ⟨s.table, []⟩).table = s.table := by
      rw [hfold]
      refine congrArg (fun columns => { s.table with columns := columns }) ?_
      refine (map_congr_left (fun c hc => ?_)).trans (List.map_id _)
      unfold updated
      cases hfind : newTable.columns.find? (fun d => d.name == c.name) with
      | none => rfl
      | some d =>
        have hdn : d.name = c.name := by simpa using List.find?_some hfind
        have hd := (hquiet.1 hsql).2 d (mem_of_find?_eq_some hfind) (hdn ▸ List.mem_map_of_mem hc)
        exact inj_on_of_nodup_map hnodup hd hc hdn
    rw [if_pos hsql, if_pos (hquiet.1 hsql).2, hsame]
    exact ⟨hrun, hwf⟩
  · have hmod : ¬ ∀ c ∈ newTable.columns, c.name ∈ s.table.columnNames → c ∈ s.table.columns :=
      fun h => hsql (hquiet.2 ⟨rfl, h⟩)
    rw [if_neg hsql, if_neg (by rw [halter]; exact Bool.false_ne_true), if_neg hmod]
    generalize (newTable.columns.foldl (fun (s : Script) column =>
      s.add (operator.alterColumn s.table us column)) ⟨s.table, []⟩).table = t at hfold
    have hnames : t.columnNames = s.table.columnNames := by
      rw [hfold]
      unfold Table.columnNames
      rw [List.map_map]
      exact map_congr_left (fun c _ => updated_name _ c)
    have hwf' : (t.schema operator.fmter []).WellFormed operator.support := by
      have hcn' : (t.schema operator.fmter []).columnNames = t.columnNames := columnNames_described _ _ _ _ _
      refine hwf.of_columns ?_ ?_ rfl (fun c hc => ?_) ?_ (fun hnil => ?_)
      · rw [hfold]; rfl
      · rw [hfold]; rfl
      · rw [hcn', hnames, ← hcn]; exact hc
      · rw [hcn', hnames]; exact hnodup
      · refine hwf.2.2.2 (by rw [hsup]; rfl) ?_
        have ht : t.columns = [] := map_eq_nil_iff.1 hnil
        rw [hfold] at ht
        exact map_eq_nil_iff.2 (map_eq_nil_iff.1 ht)
    refine ⟨(runAll_append _ _ _).trans ?_, hwf'⟩
    rw [hrun, bind_some]
    refine runAll_recreateTable operator ?_ ?_ ?_ hwf' (fun u hu => by cases hu)
    · rw [hfold]; rfl
    · rw [hfold]; exact hidx
    · intro c hc
      rw [hcn, ← hnames]; exact hc

def indexesFilled (oldTable : Table) (us : List UniqueConstraint) (newTable : Table) : List IndexSchema :=
  if keepsColumns oldTable newTable ∧ addsNotNull oldTable newTable then addIndexes oldTable.name us [] else []

section
variable (operator us) (hold : oldTable.columnNames.Nodup) (hnew : newTable.columnNames.Nodup)

theorem mem_trimmed_iff {n : ColumnName} (hn : n ∈ newTable.columnNames) :
    n ∈ (operator.trimmed us newTable oldTable).table.columnNames ↔ n ∈ oldTable.columnNames :=
  ⟨mem_old_of_mem_trimmed operator us newTable oldTable, fun h => mem_trimmed_of_stays operator us newTable oldTable h hn⟩

include hold in
theorem mem_trimmed_column {c : Column} (hc : c ∈ oldTable.columns) (hn : c.name ∈ newTable.columnNames) :
    c ∈ (operator.trimmed us newTable oldTable).table.columns := by
  obtain ⟨d, hd, hdn⟩ := List.mem_map.1 (mem_trimmed_of_stays operator us newTable oldTable (List.mem_map_of_mem hc) hn)
  have hdold := (trimmed_columns_sublist operator us newTable oldTable).subset hd
  rw [← inj_on_of_nodup_map hold hdold hc hdn]
  exact hd

include hold hnew in
theorem keepsColumns_added :
    keepsColumns (operator.addColumns us newTable (operator.trimmed us newTable oldTable)).table newTable ↔
      keepsColumns oldTable newTable := by
  unfold keepsColumns
  rw [addColumns_table operator us hnew]
  refine forall₂_congr (fun c hc => ?_)
  have hcn : c.name ∈ newTable.columnNames := List.mem_map_of_mem hc
  have htrim : c.name ∈ (operator.trimmed us newTable oldTable).table.columnNames ↔ c.name ∈ oldTable.columnNames :=
    mem_trimmed_iff operator us hcn
  have hmem : ∀ {t : Table}, c.name ∈ t.columnNames →
      c.name ∈ Table.columnNames { t with columns := t.columns ++ newTable.columns.filter (fun c => c.name ∉ t.columnNames) } :=
    fun h => by
      unfold Table.columnNames at h ⊢
      rw [map_append]
      exact mem_append_left _ h
  constructor
  · intro h hold'
    rcases mem_append.1 (h (hmem (htrim.2 hold'))) with hin | hin
    · exact (trimmed_columns_sublist operator us newTable oldTable).subset hin
    · exact absurd (htrim.2 hold') (by simpa using (mem_filter.1 hin).2)
  · intro h _
    by_cases hin : c.name ∈ (operator.trimmed us newTable oldTable).table.columnNames
    · exact mem_append_left _ (mem_trimmed_column operator us hold (h (htrim.1 hin)) hcn)
    · exact mem_append_right _ (mem_filter.2 ⟨hc, by simpa using hin⟩)

theorem addsNotNull_trimmed : addsNotNull (operator.trimmed us newTable oldTable).table newTable ↔
    addsNotNull oldTable newTable := by
  unfold addsNotNull
  refine exists_congr (fun c => and_congr_right (fun hc => and_congr_right (fun _ => not_congr ?_)))
  exact mem_trimmed_iff operator us (List.mem_map_of_mem hc)

end

theorem filled_run (hsup : operator.support = .none) (hold : oldTable.columnNames.Nodup)
    (hnew : newTable.columnNames.Nodup) (hwf : (oldTable.schema operator.fmter us).WellFormed operator.support)
    (hwf' : ((operator.trimmed us newTable oldTable).table.schema operator.fmter []).WellFormed operator.support)
    (hus : ∀ u ∈ us, ∀ c ∈ u.columnNames, c ∈ (operator.trimmed us newTable oldTable).table.columnNames) :
    runAll operator.support (operator.filled us newTable oldTable).sql (oldTable.database operator.fmter us) =
        some ⟨[(operator.filled us newTable oldTable).table.schema operator.fmter []],
          indexesFilled oldTable us newTable⟩ ∧
      ((operator.filled us newTable oldTable).table.schema operator.fmter []).WellFormed operator.support := by
  have hname : (operator.trimmed us newTable oldTable).table.name = oldTable.name := by
    rw [trimmed_table operator us newTable oldTable]
  have hstart : runAll operator.support (operator.trimmed us newTable oldTable).sql (oldTable.database operator.fmter us) =
      some ⟨[(operator.trimmed us newTable oldTable).table.schema operator.fmter []], []⟩ := by
    rw [trimmed_run hsup hold hwf, if_pos hwf']
  obtain ⟨hadd, hwfadd, hnameadd⟩ := addColumns_run hsup (oldTable.database operator.fmter us) newTable.columns hnew
    (operator.trimmed us newTable oldTable) [] hstart hwf' (fun i hi => by cases hi) hus
  have hidx : ∀ i ∈ (if ∃ c ∈ newTable.columns, c.nullable = false ∧
      c.name ∉ (operator.trimmed us newTable oldTable).table.columnNames
      then addIndexes (operator.trimmed us newTable oldTable).table.name us [] else []),
      i.table = (operator.trimmed us newTable oldTable).table.name := by
    intro i hi
    split at hi
    · obtain ⟨_, u, _, rfl⟩ := (mem_addIndexes.1 hi).resolve_left not_mem_nil
      rfl
    · cases hi
  obtain ⟨hmod, hwfmod⟩ := modifyColumns_run us hsup hnew hadd hwfadd (fun i hi => (hidx i hi).trans hnameadd.symm)
  refine ⟨?_, hwfmod⟩
  unfold filled
  refine hmod.trans ?_
  congr 2
  have hinner : (if ∃ c ∈ newTable.columns, c.nullable = false ∧
      c.name ∉ (operator.trimmed us newTable oldTable).table.columnNames
      then addIndexes (operator.trimmed us newTable oldTable).table.name us [] else []) =
      if addsNotNull oldTable newTable then addIndexes oldTable.name us [] else [] :=
    if_congr (addsNotNull_trimmed operator us) (by rw [hname]) rfl
  refine (if_congr (keepsColumns_added operator us hold hnew) hinner rfl).trans ?_
  unfold indexesFilled
  by_cases hk : keepsColumns oldTable newTable
  · by_cases ha : addsNotNull oldTable newTable
    · rw [if_pos hk, if_pos ha, if_pos ⟨hk, ha⟩]
    · rw [if_pos hk, if_neg ha, if_neg (fun h => ha h.2)]
  · rw [if_neg hk, if_neg (fun h => hk h.1)]

/-! ## The keys -/

/-- The table of the database is the one in memory, whatever its constraints are called. -/
structure Like (fmter : SQLFormatter) (table : Table) (t : TableSchema) : Prop where
  name : t.name = table.name
  columns : t.columns = table.columns.map (Column.toDefinitionSQL fmter)
  primaryKey : t.primaryKey.map Prod.snd = table.primaryKeyConstraint.map PrimaryKeyConstraint.columnNames
  foreignKeys : t.foreignKeys.map Prod.snd = table.foreignKeyDefs
  uniques : t.uniques = []

theorem Like.columnNames {fmter : SQLFormatter} {table : Table} {t : TableSchema} (h : Like fmter table t) :
    t.columnNames = table.columnNames := by
  unfold TableSchema.columnNames Table.columnNames
  rw [h.columns, List.map_map]
  rfl

theorem like_described (fmter : SQLFormatter) (table : Table) (base : TableName) :
    Like fmter table (described fmter table (namedKey base table.primaryKeyConstraint)
      (namedForeignKeys base table.foreignKeyConstraints) []) where
  name := rfl
  columns := rfl
  primaryKey := by
    unfold described namedKey
    rw [Option.map_map]; rfl
  foreignKeys := by
    unfold described namedForeignKeys Table.foreignKeyDefs
    rw [List.map_map]; rfl
  uniques := rfl

theorem indexesFilled_table : ∀ i ∈ indexesFilled oldTable us newTable, i.table = oldTable.name := by
  intro i hi
  unfold indexesFilled at hi
  split at hi
  · obtain ⟨_, u, _, rfl⟩ := (mem_addIndexes.1 hi).resolve_left not_mem_nil
    rfl
  · cases hi

def indexesRenamed (oldTable : Table) (us : List UniqueConstraint) (newTable : Table) : List IndexSchema :=
  (indexesFilled oldTable us newTable).map (fun i => { i with table := newTable.name })

theorem renamed_run (hold : oldTable.columnNames.Nodup) (hnew : newTable.columnNames.Nodup)
    (hfilled : runAll operator.support (operator.filled us newTable oldTable).sql
      (oldTable.database operator.fmter us) =
        some ⟨[(operator.filled us newTable oldTable).table.schema operator.fmter []],
          indexesFilled oldTable us newTable⟩) :
    ∃ t, runAll operator.support (operator.renamed us newTable oldTable).sql (oldTable.database operator.fmter us) =
        some ⟨[t], indexesRenamed oldTable us newTable⟩ ∧
      Like operator.fmter (operator.renamed us newTable oldTable).table t := by
  have hname : (operator.filled us newTable oldTable).table.name = oldTable.name := by
    rw [filled_table operator us hold hnew, trimmed_table operator us newTable oldTable]
  unfold renamed
  rw [rename_table]
  unfold rename indexesRenamed
  by_cases hne : (operator.filled us newTable oldTable).table.name = newTable.name
  · rw [if_neg (fun h => h hne)]
    refine ⟨(operator.filled us newTable oldTable).table.schema operator.fmter [], ?_, ?_⟩
    · rw [hfilled]
      congr 2
      refine ((map_congr_left (fun i hi => ?_)).trans (List.map_id _)).symm
      rw [← hne, hname, ← indexesFilled_table i hi]; rfl
    · rw [← hne]
      exact like_described _ _ _
  · rw [if_pos hne]
    refine ⟨described operator.fmter { (operator.filled us newTable oldTable).table with name := newTable.name }
      (namedKey (operator.filled us newTable oldTable).table.name
        (operator.filled us newTable oldTable).table.primaryKeyConstraint)
      (namedForeignKeys (operator.filled us newTable oldTable).table.name
        (operator.filled us newTable oldTable).table.foreignKeyConstraints) [], ?_, like_described _ _ _⟩
    refine (runAll_append _ _ _).trans ?_
    rw [hfilled, bind_some]
    refine (runAll_singleton _ _).trans ?_
    exact apply_renameTable (t := (operator.filled us newTable oldTable).table.schema operator.fmter [])
      (fun i hi => (indexesFilled_table i hi).trans hname.symm) hne

theorem recreate_like {table table' : Table} {t : TableSchema} {indexes : List IndexSchema}
    (hlike : Like operator.fmter table t) (hidx : ∀ i ∈ indexes, i.table = table.name)
    (hname : table'.name = table.name) (hcols : table'.columns = table.columns)
    (hwf : (table'.schema operator.fmter []).WellFormed operator.support)
    (hus : ∀ u ∈ us, ∀ c ∈ u.columnNames, c ∈ table.columnNames) :
    runAll operator.support (operator.recreateTable table' us) ⟨[t], indexes⟩ =
      some ⟨[table'.schema operator.fmter []], addIndexes table.name us []⟩ := by
  have hcn : table'.columnNames = table.columnNames := by unfold Table.columnNames; rw [hcols]
  rw [← hname]
  refine runAll_recreateTable operator (hlike.name.trans hname.symm) (fun i hi => (hidx i hi).trans hname.symm)
    (fun c hc => ?_) hwf (fun u hu c hc => ?_)
  · rw [hlike.columnNames, ← hcn]; exact hc
  · rw [hcn]; exact hus u hu c hc

theorem createForeignKeys_run (hsup : operator.support = .none) (db : Database) (l : List ForeignKeyConstraint) :
    ∀ (s : Script) (t : TableSchema) (indexes : List IndexSchema),
    runAll operator.support s.sql db = some ⟨[t], indexes⟩ → Like operator.fmter s.table t →
    (∀ i ∈ indexes, i.table = s.table.name) → (∀ u ∈ us, ∀ c ∈ u.columnNames, c ∈ s.table.columnNames) →
    (Table.schema operator.fmter { s.table with foreignKeyConstraints :=
      s.table.foreignKeyConstraints ++ missingForeignKeys s.table.foreignKeyDefs l } []).WellFormed operator.support →
    let s' := l.foldl (fun s fk => if (findForeignKeyConstraint s.table fk).isNone then
      s.add (operator.createConstraint s.table us (.foreignKey fk)) else s) s
    ∃ t', runAll operator.support s'.sql db = some ⟨[t'],
        if missingForeignKeys s.table.foreignKeyDefs l = [] then indexes else addIndexes s.table.name us []⟩ ∧
      Like operator.fmter s'.table t' := by
  have hcreate := creates_of_none hsup
  induction l with
  | nil =>
    intro s t indexes hrun hlike _ _ _
    refine ⟨t, ?_, hlike⟩
    rw [if_pos (by rfl)]
    exact hrun
  | cons fk l ih =>
    intro s t indexes hrun hlike hidx hus hwf
    simp only [foldl_cons]
    by_cases hfk : fk.toDefinitionSQL ∈ s.table.foreignKeyDefs
    · have hmiss : missingForeignKeys s.table.foreignKeyDefs (fk :: l) = missingForeignKeys s.table.foreignKeyDefs l := by
        rw [missingForeignKeys, if_pos hfk]
      rw [hmiss] at hwf ⊢
      rw [if_neg (fun hn => findForeignKeyConstraint_isNone.1 hn hfk)]
      exact ih s t indexes hrun hlike hidx hus hwf
    · have hmiss : missingForeignKeys s.table.foreignKeyDefs (fk :: l) =
          fk :: missingForeignKeys (s.table.foreignKeyDefs ++ [fk.toDefinitionSQL]) l := by
        rw [missingForeignKeys, if_neg hfk]
      rw [hmiss] at hwf ⊢
      rw [if_pos (findForeignKeyConstraint_isNone.2 hfk), if_neg (cons_ne_nil _ _)]
      have hcon := createConstraint_foreignKey operator us hfk
      rw [if_neg (by rw [hcreate]; exact Bool.false_ne_true)] at hcon
      rw [hcon]
      have hdefs : Table.foreignKeyDefs { s.table with foreignKeyConstraints := s.table.foreignKeyConstraints ++ [fk] } =
          s.table.foreignKeyDefs ++ [fk.toDefinitionSQL] := by
        unfold Table.foreignKeyDefs
        rw [map_append, map_singleton]
      have hwf₁ : (Table.schema operator.fmter
          { s.table with foreignKeyConstraints := s.table.foreignKeyConstraints ++ [fk] } []).WellFormed
          operator.support := by
        refine hwf.of_keys (Or.inl rfl) (List.Sublist.map _ ?_) (List.Sublist.refl _) rfl
        exact (List.Sublist.refl _).append (singleton_sublist.2 mem_cons_self)
      have hrun₁ : runAll operator.support (operator.recreateTable
            { s.table with foreignKeyConstraints := s.table.foreignKeyConstraints ++ [fk] } us) ⟨[t], indexes⟩ =
          some ⟨[Table.schema operator.fmter
            { s.table with foreignKeyConstraints := s.table.foreignKeyConstraints ++ [fk] } []],
            addIndexes s.table.name us []⟩ :=
        recreate_like hlike hidx rfl rfl hwf₁ hus
      obtain ⟨t', hrun', hlike'⟩ := ih
        (s.add ({ s.table with foreignKeyConstraints := s.table.foreignKeyConstraints ++ [fk] },
          operator.recreateTable { s.table with foreignKeyConstraints := s.table.foreignKeyConstraints ++ [fk] } us)) _ _
        ((runAll_append _ _ _).trans (by rw [hrun, bind_some]; exact hrun₁)) (like_described _ _ _)
        (fun i hi => by
          obtain ⟨_, u, _, rfl⟩ := (mem_addIndexes.1 hi).resolve_left not_mem_nil
          rfl)
        hus
        (by
          simp only [Script.add, hdefs, List.append_assoc, singleton_append]
          exact hwf)
      refine ⟨t', hrun'.trans ?_, hlike'⟩
      congr 2
      exact ite_self _

def indexesKeyed (oldTable : Table) (us : List UniqueConstraint) (newTable : Table) : List IndexSchema :=
  if keepsKeys oldTable newTable then indexesRenamed oldTable us newTable else addIndexes newTable.name us []

theorem addIndexes_table {name : TableName} : ∀ i ∈ addIndexes name us [], i.table = name := by
  intro i hi
  obtain ⟨_, u, _, rfl⟩ := (mem_addIndexes.1 hi).resolve_left not_mem_nil
  rfl

theorem indexesRenamed_table : ∀ i ∈ indexesRenamed oldTable us newTable, i.table = newTable.name := by
  intro i hi
  obtain ⟨j, _, rfl⟩ := List.mem_map.1 hi
  rfl

section
variable (hsup : operator.support = .none) (hold : oldTable.columnNames.Nodup) (hnew : newTable.columnNames.Nodup)
  (hus : ∀ u ∈ us, ∀ c ∈ u.columnNames, c ∈ (operator.renamed us newTable oldTable).table.columnNames)
  (hkeyed : ((operator.keyed us newTable oldTable).table.schema operator.fmter []).WellFormed operator.support)

include hsup hold hnew hus hkeyed

theorem createPrimaryKey_run {db : Database} {t : TableSchema} (hlike : Like operator.fmter (operator.renamed us newTable oldTable).table t)
    (hrun : runAll operator.support (operator.renamed us newTable oldTable).sql db =
      some ⟨[t], indexesRenamed oldTable us newTable⟩) :
    ∃ t, runAll operator.support (operator.createPrimaryKey us newTable (operator.renamed us newTable oldTable)).sql db =
        some ⟨[t], if newTable.primaryKeyConstraint = none ∨ keepsPrimaryKey oldTable newTable = true
          then indexesRenamed oldTable us newTable else addIndexes newTable.name us []⟩ ∧
      Like operator.fmter (operator.createPrimaryKey us newTable (operator.renamed us newTable oldTable)).table t := by
  rcases createPrimaryKey_cases operator us hold hnew with ⟨hkeep, hsame⟩ | ⟨pk, hpk, hkeep, _, hadd⟩
  · rw [hsame, if_pos hkeep]
    exact ⟨t, hrun, hlike⟩
  · have hnot : ¬ (newTable.primaryKeyConstraint = none ∨ keepsPrimaryKey oldTable newTable = true) := by
      rw [hpk, hkeep]; simp
    have hcon : operator.createConstraint (operator.renamed us newTable oldTable).table us (.primaryKey pk) =
        ({ (operator.renamed us newTable oldTable).table with primaryKeyConstraint := some pk },
          operator.recreateTable
            { (operator.renamed us newTable oldTable).table with primaryKeyConstraint := some pk } us) := by
      have hcreate := creates_of_none hsup
      unfold createConstraint
      simp only [hcreate, Bool.false_eq_true, if_false]
    have hfinal := createForeignKeys_table operator us newTable
      (operator.createPrimaryKey us newTable (operator.renamed us newTable oldTable))
    unfold keyed at hkeyed
    rw [hadd, hcon] at hfinal hkeyed ⊢
    rw [if_neg hnot]
    refine ⟨Table.schema operator.fmter
      { (operator.renamed us newTable oldTable).table with primaryKeyConstraint := some pk } [],
      (runAll_append _ _ _).trans ?_, like_described _ _ _⟩
    have hname : (operator.renamed us newTable oldTable).table.name = newTable.name := renamed_name
    rw [hrun, bind_some, ← hname]
    refine recreate_like hlike (fun i hi => (indexesRenamed_table i hi).trans renamed_name.symm) rfl rfl ?_ hus
    refine hkeyed.of_keys ?_ ?_ (List.Sublist.refl _) ?_
    · rw [hfinal]; exact Or.inl rfl
    · rw [hfinal]; exact List.Sublist.map _ (sublist_append_left _ _)
    · rw [hfinal]; rfl

/-- **The run without the last indexes**, once the columns are those asked for. -/
theorem keyed_run {db : Database} {t : TableSchema} (hlike : Like operator.fmter (operator.renamed us newTable oldTable).table t)
    (hrun : runAll operator.support (operator.renamed us newTable oldTable).sql db =
      some ⟨[t], indexesRenamed oldTable us newTable⟩) :
    ∃ t, runAll operator.support (operator.keyed us newTable oldTable).sql db =
        some ⟨[t], indexesKeyed oldTable us newTable⟩ ∧
      Like operator.fmter (operator.keyed us newTable oldTable).table t := by
  obtain ⟨t₁, hrun₁, hlike₁⟩ := createPrimaryKey_run hsup hold hnew hus hkeyed hlike hrun
  have hidx : ∀ i ∈ (if newTable.primaryKeyConstraint = none ∨ keepsPrimaryKey oldTable newTable = true
      then indexesRenamed oldTable us newTable else addIndexes newTable.name us []), i.table = newTable.name := by
    intro i hi
    split at hi
    · exact indexesRenamed_table i hi
    · exact addIndexes_table i hi
  obtain ⟨t', hrun', hlike'⟩ := createForeignKeys_run hsup db newTable.foreignKeyConstraints _ t₁ _ hrun₁ hlike₁
    (fun i hi => (hidx i hi).trans createPrimaryKey_name.symm)
    (by rw [createPrimaryKey_table]; exact hus)
    (by
      unfold keyed at hkeyed
      rw [createForeignKeys_table] at hkeyed
      exact hkeyed)
  refine ⟨t', ?_, hlike'⟩
  unfold keyed createForeignKeys
  refine hrun'.trans ?_
  congr 2
  rw [createPrimaryKey_foreignKeyDefs hold hnew, createPrimaryKey_name]
  unfold indexesKeyed
  by_cases hfk : ∀ d ∈ newTable.foreignKeyDefs, d ∈ oldTable.foreignKeyDefs
  · refine (if_pos (missing_eq_nil_iff.2 hfk)).trans ?_
    by_cases hpk : newTable.primaryKeyConstraint = none ∨ keepsPrimaryKey oldTable newTable = true
    · have hkeys : keepsKeys oldTable newTable := ⟨hpk, hfk⟩
      rw [if_pos hpk, if_pos hkeys]
    · have hkeys : ¬ keepsKeys oldTable newTable := fun h => hpk h.1
      rw [if_neg hpk, if_neg hkeys]
  · have hkeys : ¬ keepsKeys oldTable newTable := fun h => hfk h.2
    refine (if_neg (fun h => hfk (missing_eq_nil_iff.1 h))).trans ?_
    rw [if_neg hkeys]

end

end Operator
end SqlSchema
end DsApm
