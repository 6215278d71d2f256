import DsApm.SqlSchema.InMemory
import Mathlib.Data.Finset.Max
/-!
# UniqueIndexes — the indexes that take the place of unique constraints

An index is named after the table and its columns, and one whose name is taken is not made.  Two constraints whose columns
join to the same text therefore share an index (`indexesMatch_fresh`), and indexes made before the table was renamed stay
beside the ones made after it (`not_indexesMatch_stale`).
-/
namespace DsApm
namespace SqlSchema

open List

def UniqueConstraint.index (name : TableName) (u : UniqueConstraint) : IndexSchema :=
  ⟨uniqueName name u.columnNames, name, u.columnNames⟩

def addIndexes (name : TableName) : List UniqueConstraint → List IndexSchema → List IndexSchema
  | [], indexes => indexes
  | u :: us, indexes => addIndexes name us
      (if uniqueName name u.columnNames ∈ indexes.map IndexSchema.name then indexes else indexes ++ [u.index name])

theorem runAll_indices {support : OperatorSupport} {t : TableSchema} (us : List UniqueConstraint)
    (hcols : ∀ u ∈ us, ∀ c ∈ u.columnNames, c ∈ t.columnNames) (indexes : List IndexSchema) :
    runAll support (us.map (fun u => u.toIndexSQL t.name)) ⟨[t], indexes⟩ = some ⟨[t], addIndexes t.name us indexes⟩ := by
  induction us generalizing indexes with
  | nil => rfl
  | cons u us ih =>
    have hhas : Database.hasColumns ⟨[t], indexes⟩ t.name u.columnNames = true :=
      hasColumns_single (hcols u mem_cons_self)
    have happly : (u.toIndexSQL t.name).apply support ⟨[t], indexes⟩ = some ⟨[t],
        if uniqueName t.name u.columnNames ∈ indexes.map IndexSchema.name then indexes
        else indexes ++ [u.index t.name]⟩ := by
      unfold UniqueConstraint.toIndexSQL
      simp only [Stmt.apply, hhas, if_true]
      by_cases hin : uniqueName t.name u.columnNames ∈ indexes.map IndexSchema.name
      · have hany : indexes.any (fun i => i.name == uniqueName t.name u.columnNames) = true := by
          obtain ⟨i, hi, hn⟩ := List.mem_map.1 hin
          exact List.any_eq_true.2 ⟨i, hi, by simpa using hn⟩
        rw [if_pos hany, if_pos hin]
      · have hany : ¬ indexes.any (fun i => i.name == uniqueName t.name u.columnNames) = true := by
          intro hany
          obtain ⟨i, hi, hn⟩ := List.any_eq_true.1 hany
          exact hin (List.mem_map.2 ⟨i, hi, by simpa using hn⟩)
        rw [if_neg hany, if_neg hin]; rfl
    rw [map_cons, runAll_cons, happly, Option.bind_some,
      ih (fun v hv => hcols v (mem_cons_of_mem _ hv)), addIndexes]

variable {name : TableName}

theorem uniqueName_inj {a b : List ColumnName} :
    uniqueName name a = uniqueName name b ↔ "_".intercalate a = "_".intercalate b := by
  unfold uniqueName
  exact String.append_right_inj _

variable {us : List UniqueConstraint}

theorem mem_addIndexes {indexes : List IndexSchema} {i : IndexSchema} :
    i ∈ addIndexes name us indexes ↔ i ∈ indexes ∨ (i.name ∉ indexes.map IndexSchema.name ∧
      ∃ u, us.find? (fun v => uniqueName name v.columnNames == i.name) = some u ∧ i = u.index name) := by
  induction us generalizing indexes with
  | nil => simp [addIndexes]
  | cons u us ih =>
    rw [addIndexes, ih, List.find?_cons]
    by_cases hin : uniqueName name u.columnNames ∈ indexes.map IndexSchema.name
    · rw [if_pos hin]
      by_cases hi : uniqueName name u.columnNames = i.name
      · rw [← hi]
        simp [hin]
      · have hne : (uniqueName name u.columnNames == i.name) = false := by simpa using hi
        rw [hne]
    · rw [if_neg hin]
      by_cases hi : uniqueName name u.columnNames = i.name
      · have heq : (uniqueName name u.columnNames == i.name) = true := by simpa using hi
        simp only [heq, mem_append, mem_singleton, map_append, map_singleton]
        constructor
        · rintro ((h | h) | ⟨hn, _⟩)
          · exact Or.inl h
          · exact Or.inr ⟨hi ▸ hin, u, rfl, h⟩
          · exact absurd (Or.inr hi.symm) hn
        · rintro (h | ⟨_, v, hv, h⟩)
          · exact Or.inl (Or.inl h)
          · injection hv with hv
            exact Or.inl (Or.inr (hv ▸ h))
      · have hne : (uniqueName name u.columnNames == i.name) = false := by simpa using hi
        simp only [hne, mem_append, mem_singleton, map_append, map_singleton]
        constructor
        · rintro ((h | h) | ⟨hn, h⟩)
          · exact Or.inl h
          · exact absurd (by rw [h]; rfl) hi
          · exact Or.inr ⟨fun h' => hn (Or.inl h'), h⟩
        · rintro (h | ⟨hn, h⟩)
          · exact Or.inl (Or.inl h)
          · exact Or.inr ⟨fun h' => h'.elim hn (fun h' => hi h'.symm), h⟩

theorem nodup_addIndexes {indexes : List IndexSchema}
    (h : (indexes.map IndexSchema.name).Nodup) : ((addIndexes name us indexes).map IndexSchema.name).Nodup := by
  induction us generalizing indexes with
  | nil => exact h
  | cons u us ih =>
    rw [addIndexes]
    refine ih ?_
    split
    · exact h
    · rename_i hin
      rw [map_append, nodup_append]
      refine ⟨h, nodup_singleton _, fun a ha b hb hab => ?_⟩
      rw [map_singleton, mem_singleton] at hb
      exact hin (by rw [hab, hb] at ha; exact ha)

theorem exists_index (indexes : List IndexSchema) {u : UniqueConstraint}
    (hu : u ∈ us) : ∃ i ∈ addIndexes name us indexes, i.name = uniqueName name u.columnNames := by
  by_cases hin : uniqueName name u.columnNames ∈ indexes.map IndexSchema.name
  · obtain ⟨i, hi, hn⟩ := List.mem_map.1 hin
    exact ⟨i, mem_addIndexes.2 (Or.inl hi), hn⟩
  · cases hfind : us.find? (fun v => uniqueName name v.columnNames == uniqueName name u.columnNames) with
    | none => exact absurd (beq_self_eq_true _) (List.find?_eq_none.1 hfind u hu)
    | some v =>
      have hv : uniqueName name v.columnNames = uniqueName name u.columnNames := by simpa using List.find?_some hfind
      refine ⟨v.index name, mem_addIndexes.2 (Or.inr ⟨?_, v, ?_, rfl⟩), hv⟩
      · exact fun h => hin (hv ▸ h)
      · exact (congrArg (fun n => us.find? (fun v => uniqueName name v.columnNames == n)) hv).trans hfind

theorem addIndexes_again (name : TableName) (us : List UniqueConstraint) (indexes : List IndexSchema) :
    addIndexes name us (addIndexes name us indexes) = addIndexes name us indexes := by
  have hall : ∀ (l : List UniqueConstraint) (indexes : List IndexSchema),
      (∀ u ∈ l, uniqueName name u.columnNames ∈ indexes.map IndexSchema.name) → addIndexes name l indexes = indexes := by
    intro l
    induction l with
    | nil => exact fun _ _ => rfl
    | cons u l ih =>
      intro indexes h
      rw [addIndexes, if_pos (h u mem_cons_self)]
      exact ih indexes (fun v hv => h v (mem_cons_of_mem _ hv))
  refine hall us _ (fun u hu => ?_)
  obtain ⟨i, hi, hn⟩ := exists_index indexes hu
  exact List.mem_map.2 ⟨i, hi, hn⟩

theorem indexesMatch_fresh (name : TableName) (us : List UniqueConstraint) :
    IndexesMatch (addIndexes name us []) name us ↔ ∀ u ∈ us, ∀ v ∈ us,
      "_".intercalate u.columnNames = "_".intercalate v.columnNames → u.columnNames = v.columnNames := by
  have hmade : ∀ i ∈ addIndexes name us [], ∃ u ∈ us, i = u.index name := by
    intro i hi
    obtain ⟨_, u, hu, rfl⟩ := (mem_addIndexes.1 hi).resolve_left not_mem_nil
    exact ⟨u, mem_of_find?_eq_some hu, rfl⟩
  have hnames : ((addIndexes name us []).map IndexSchema.name).Nodup := nodup_addIndexes nodup_nil
  constructor
  · rintro ⟨_, _, hcover⟩ u hu v hv huv
    obtain ⟨i, hi, hiu⟩ := List.mem_map.1 ((hcover u.columnNames).2 (List.mem_map_of_mem hu))
    obtain ⟨j, hj, hjv⟩ := List.mem_map.1 ((hcover v.columnNames).2 (List.mem_map_of_mem hv))
    obtain ⟨u', _, rfl⟩ := hmade i hi
    obtain ⟨v', _, rfl⟩ := hmade j hj
    have hsame : u'.index name = v'.index name := by
      refine inj_on_of_nodup_map hnames hi hj ?_
      simp only [UniqueConstraint.index] at hiu hjv ⊢
      rw [hiu, hjv]
      exact uniqueName_inj.2 huv
    rw [← hiu, ← hjv, hsame]
  · intro hjoin
    refine ⟨fun i hi => ?_, ?_, fun columns => ⟨fun h => ?_, fun h => ?_⟩⟩
    · obtain ⟨u, _, rfl⟩ := hmade i hi; rfl
    · refine (nodup_map_iff_inj_on (List.Nodup.of_map _ hnames)).2 (fun i hi j hj hij => ?_)
      obtain ⟨u, hu, rfl⟩ := hmade i hi
      obtain ⟨v, hv, rfl⟩ := hmade j hj
      simp only [UniqueConstraint.index] at hij ⊢
      rw [hij]
    · obtain ⟨i, hi, rfl⟩ := List.mem_map.1 h
      obtain ⟨u, hu, rfl⟩ := hmade i hi
      exact List.mem_map_of_mem hu
    · obtain ⟨u, hu, rfl⟩ := List.mem_map.1 h
      obtain ⟨i, hi, hn⟩ := exists_index [] hu
      obtain ⟨v, hv, rfl⟩ := hmade i hi
      exact List.mem_map.2 ⟨_, hi, hjoin v hv u hu (uniqueName_inj.1 hn)⟩

def UniqueConstraint.joined (u : UniqueConstraint) : String := "_".intercalate u.columnNames

theorem length_uniqueName (name : TableName) (u : UniqueConstraint) :
    (uniqueName name u.columnNames).length = 4 + name.length + u.joined.length := by
  unfold uniqueName UniqueConstraint.joined
  rw [String.length_append, String.length_append, String.length_append]
  have h₁ : "uq_".length = 3 := rfl
  have h₂ : "_".length = 1 := rfl
  omega

variable {old new : TableName}

theorem table_of_uniqueName (hlen : old.length = new.length) {a b : List ColumnName}
    (h : uniqueName new a = uniqueName old b) : new = old := by
  unfold uniqueName at h
  have hlist := congrArg String.toList h
  simp only [String.toList_append, List.append_assoc, append_cancel_left_eq] at hlist
  refine String.toList_injective (append_inj_left hlist ?_)
  rw [String.length_toList, String.length_toList, hlen]

/-- A constraint whose index under the new name takes no name made under the old one: the longest when the name grows,
the shortest when it shrinks. -/
theorem exists_unmatched (hne : old ≠ new) (hus : us ≠ []) :
    ∃ u ∈ us, ∀ v ∈ us, uniqueName new u.columnNames ≠ uniqueName old v.columnNames := by
  have hnonempty : us.toFinset.Nonempty := toFinset_nonempty_iff us |>.2 hus
  have hlen : ∀ u v : UniqueConstraint, uniqueName new u.columnNames = uniqueName old v.columnNames →
      new.length + u.joined.length = old.length + v.joined.length := by
    intro u v h
    have := congrArg String.length h
    rw [length_uniqueName, length_uniqueName] at this
    omega
  rcases Nat.lt_trichotomy old.length new.length with hlt | heq | hgt
  · obtain ⟨u, hu, hmax⟩ := Finset.exists_max_image us.toFinset (fun u => u.joined.length) hnonempty
    refine ⟨u, List.mem_toFinset.1 hu, fun v hv h => ?_⟩
    have hle := hmax v (List.mem_toFinset.2 hv)
    have hl := hlen u v h
    omega
  · obtain ⟨u, hu⟩ := exists_mem_of_ne_nil us hus
    exact ⟨u, hu, fun v _ h => hne (table_of_uniqueName heq h).symm⟩
  · obtain ⟨u, hu, hmin⟩ := Finset.exists_min_image us.toFinset (fun u => u.joined.length) hnonempty
    refine ⟨u, List.mem_toFinset.1 hu, fun v hv h => ?_⟩
    have hle := hmin v (List.mem_toFinset.2 hv)
    have hl := hlen u v h
    omega

theorem not_indexesMatch_stale (hne : old ≠ new) (hus : us ≠ []) :
    ¬ IndexesMatch (addIndexes new us ((addIndexes old us []).map (fun i => { i with table := new }))) new us := by
  rintro ⟨_, hnodup, _⟩
  obtain ⟨u, hu, hfree⟩ := exists_unmatched hne hus
  have hold : ∀ i ∈ (addIndexes old us []).map (fun i => ({ i with table := new } : IndexSchema)),
      ∃ v ∈ us, i.name = uniqueName old v.columnNames := by
    intro i hi
    obtain ⟨j, hj, rfl⟩ := List.mem_map.1 hi
    obtain ⟨_, v, hv, rfl⟩ := (mem_addIndexes.1 hj).resolve_left not_mem_nil
    exact ⟨v, mem_of_find?_eq_some hv, rfl⟩
  obtain ⟨i, hi, hn⟩ := exists_index ((addIndexes old us []).map (fun i => ({ i with table := new } : IndexSchema))) hu
  rcases mem_addIndexes.1 hi with hstale | ⟨hnot, v, hv, rfl⟩
  · obtain ⟨v, hv, hname⟩ := hold i hstale
    exact hfree v hv (hn.symm.trans hname)
  · -- the first constraint of the name had an index made for it before, too
    have hv' : us.find? (fun w => uniqueName old w.columnNames == (v.index old).name) = some v := by
      rw [← hv]
      congr 1
      funext w
      rw [Bool.eq_iff_iff, beq_iff_eq, beq_iff_eq]
      exact uniqueName_inj.trans uniqueName_inj.symm
    have hj : v.index old ∈ addIndexes old us [] := mem_addIndexes.2 (Or.inr ⟨not_mem_nil, v, hv', rfl⟩)
    have hj' : ({ v.index old with table := new } : IndexSchema) ∈
        (addIndexes old us []).map (fun i => ({ i with table := new } : IndexSchema)) := List.mem_map_of_mem hj
    have hsame := inj_on_of_nodup_map hnodup hi (mem_addIndexes.2 (Or.inl hj')) rfl
    exact hnot (List.mem_map.2 ⟨_, hj', by rw [← hsame]⟩)

end SqlSchema
end DsApm
