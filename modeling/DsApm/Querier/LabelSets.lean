import DsApm.Querier.Formula
/-!
# LabelSets — containment of label sets, and the greatest of them

One list of labels is contained in another when the other has an equal value for each of its names.  Where no list has a
name twice and every value is equal to itself, containment agrees with the number of labels, and the scan of
`findUniqueLabelSets` gives one of each greatest label set whatever order the series are ranged over.
-/
namespace DsApm
namespace Querier

open List

/-! ## Equality of values -/

theorem LabelValue.equal_symm {a b : LabelValue} (h : a.equal b = true) : b.equal a = true := by
  match a, b with
  | .text a, .text b =>
    unfold LabelValue.equal at h ⊢
    rw [beq_iff_eq] at h ⊢
    exact h.symm
  | .number a, .number b =>
    unfold LabelValue.equal at h ⊢
    simp only [Bool.and_eq_true, Bool.or_eq_true, bne_iff_ne, beq_iff_eq] at h ⊢
    obtain ⟨hne, rfl | ⟨ha, hb⟩⟩ := h
    · exact ⟨hne, Or.inl rfl⟩
    · refine ⟨?_, Or.inr ⟨hb, ha⟩⟩
      rcases hb with rfl | rfl <;> decide
  | .text _, .number _ => cases h
  | .number _, .text _ => cases h

theorem LabelValue.equal_trans {a b c : LabelValue} (h : a.equal b = true) (h' : b.equal c = true) : a.equal c = true := by
  match a, b, c with
  | .text a, .text b, .text c =>
    unfold LabelValue.equal at h h' ⊢
    rw [beq_iff_eq] at h h' ⊢
    exact h.trans h'
  | .number a, .number b, .number c =>
    unfold LabelValue.equal at h h' ⊢
    simp only [Bool.and_eq_true, Bool.or_eq_true, bne_iff_ne, beq_iff_eq] at h h' ⊢
    refine ⟨h.1, ?_⟩
    obtain ⟨_, rfl | ⟨ha, hb⟩⟩ := h
    · exact h'.2
    · obtain ⟨_, rfl | ⟨_, hc⟩⟩ := h'
      · exact Or.inr ⟨ha, hb⟩
      · exact Or.inr ⟨ha, hc⟩
  | .text _, .number _, _ => cases h
  | .number _, .text _, _ => cases h
  | .text _, .text _, .number _ => cases h'
  | .number _, .number _, .text _ => cases h'

/-! ## Containment -/

def Contained (l l' : List Label) : Prop :=
  ∀ k v, labelSet l k = some v → ∃ w, labelSet l' k = some w ∧ w.equal v = true

def SameLabels (l l' : List Label) : Prop := Contained l l' ∧ Contained l' l

theorem labelSet_isSome_iff {l : List Label} {k : String} : (∃ v, labelSet l k = some v) ↔ k ∈ l.map Label.name := by
  unfold labelSet
  constructor
  · rintro ⟨v, hv⟩
    obtain ⟨x, hx, rfl⟩ := Option.map_eq_some_iff.1 hv
    have hname : x.name = k := by simpa using List.find?_some hx
    exact List.mem_map.2 ⟨x, mem_reverse.1 (mem_of_find?_eq_some hx), hname⟩
  · intro hk
    obtain ⟨x, hx, hname⟩ := List.mem_map.1 hk
    cases hf : l.reverse.find? (fun l => decide (l.name = k)) with
    | some y => exact ⟨y.value, rfl⟩
    | none => exact absurd (decide_eq_true hname) (List.find?_eq_none.1 hf x (mem_reverse.2 hx))

theorem exists_label_of_labelSet {l : List Label} {k : String} {v : LabelValue} (h : labelSet l k = some v) :
    ∃ x ∈ l, x.value = v := by
  unfold labelSet at h
  obtain ⟨x, hx, rfl⟩ := Option.map_eq_some_iff.1 h
  exact ⟨x, mem_reverse.1 (mem_of_find?_eq_some hx), rfl⟩

theorem isSubset_iff {l l' : List Label} : isSubset l' l = true ↔ Contained l l' := by
  unfold isSubset Contained
  rw [List.all_eq_true]
  constructor
  · intro h k v hv
    have hk := h k (labelSet_isSome_iff.1 ⟨v, hv⟩)
    rw [hv] at hk
    cases hw : labelSet l' k with
    | none => rw [hw] at hk; cases hk
    | some w => rw [hw] at hk; exact ⟨w, rfl, hk⟩
  · intro h k hk
    obtain ⟨v, hv⟩ := labelSet_isSome_iff.2 hk
    obtain ⟨w, hw, heq⟩ := h k v hv
    rw [hv, hw]
    exact heq

theorem Contained.refl {l : List Label} (h : ∀ x ∈ l, x.value.equal x.value = true) : Contained l l := by
  intro k v hv
  obtain ⟨x, hx, rfl⟩ := exists_label_of_labelSet hv
  exact ⟨_, hv, h x hx⟩

theorem Contained.trans {a b c : List Label} (h : Contained a b) (h' : Contained b c) : Contained a c := by
  intro k v hv
  obtain ⟨w, hw, heq⟩ := h k v hv
  obtain ⟨x, hx, heq'⟩ := h' k w hw
  exact ⟨x, hx, LabelValue.equal_trans heq' heq⟩

theorem Contained.names_subset {a b : List Label} (h : Contained a b) : a.map Label.name ⊆ b.map Label.name := by
  intro k hk
  obtain ⟨v, hv⟩ := labelSet_isSome_iff.2 hk
  obtain ⟨w, hw, _⟩ := h k v hv
  exact labelSet_isSome_iff.1 ⟨w, hw⟩

theorem Contained.length_le {a b : List Label} (h : Contained a b) (ha : (a.map Label.name).Nodup) : a.length ≤ b.length := by
  have hle := (subperm_of_subset ha h.names_subset).length_le
  rwa [List.length_map, List.length_map] at hle

theorem Contained.back {a b : List Label} (h : Contained a b) (ha : (a.map Label.name).Nodup)
    (hlen : a.length = b.length) : Contained b a := by
  have hperm : (a.map Label.name).Perm (b.map Label.name) := by
    refine (subperm_of_subset ha h.names_subset).perm_of_length_le ?_
    rw [List.length_map, List.length_map, hlen]
  intro k v hv
  obtain ⟨u, hu⟩ := labelSet_isSome_iff.2 (hperm.mem_iff.2 (labelSet_isSome_iff.1 ⟨v, hv⟩))
  obtain ⟨w, hw, heq⟩ := h k u hu
  rw [hv] at hw
  rw [Option.some.inj hw]
  exact ⟨u, hu, LabelValue.equal_symm heq⟩

/-! ## The greatest label sets -/

/-- Every label has one value, and a value equal to itself. -/
structure ProperLabels (l : List Label) : Prop where
  names : (l.map Label.name).Nodup
  values : ∀ x ∈ l, x.value.equal x.value = true

section
variable {V : Type} (o : Orders V) (lookup : SeriesLookup V)

/-- What the scan keeps: label sets of the series, each series contained in one of them, no two of them comparable, and
nothing strictly above any of them. -/
structure Greatest (series : List (TimeSeries V)) (sets : List (List Label)) : Prop where
  from_series : ∀ l ∈ sets, ∃ s ∈ series, s.labels = l
  covered : ∀ s ∈ series, ∃ l ∈ sets, Contained s.labels l
  apart : sets.Pairwise (fun l l' => ¬ Contained l l' ∧ ¬ Contained l' l)
  maximal : ∀ l ∈ sets, ∀ s ∈ series, Contained l s.labels → Contained s.labels l

theorem greatest_uniqueLabelSets (h : ∀ s ∈ GoMap.values lookup.seriesMetadata, ProperLabels s.labels) :
    Greatest (GoMap.values lookup.seriesMetadata) (findUniqueLabelSets o lookup) := by
  have hperm : ((o.metadata.order lookup.seriesMetadata.entries).map (fun e => e.2.labels)).Perm
      ((GoMap.values lookup.seriesMetadata).map TimeSeries.labels) := by
    unfold GoMap.values
    rw [List.map_map]
    exact (o.metadata.perm _).map _
  unfold findUniqueLabelSets
  simp only
  generalize (o.metadata.order lookup.seriesMetadata.entries).map (fun e => e.2.labels) = all at hperm
  have hsorted := pairwise_insertionSort (fun a b : List Label => b.length ≤ a.length) all
  have hmem : ∀ l, l ∈ all.insertionSort (fun a b => b.length ≤ a.length) ↔
      ∃ s ∈ GoMap.values lookup.seriesMetadata, s.labels = l := by
    intro l
    rw [(perm_insertionSort _ all).mem_iff, hperm.mem_iff, List.mem_map]
  have hproper : ∀ l ∈ all.insertionSort (fun a b => b.length ≤ a.length), ProperLabels l := by
    intro l hl
    obtain ⟨s, hs, rfl⟩ := (hmem l).1 hl
    exact h s hs
  generalize all.insertionSort (fun a b => b.length ≤ a.length) = sorted at hsorted hmem hproper
  have hranked : Maxima.Ranked (fun labelSet uniqueSet => isSubset uniqueSet labelSet) List.length sorted := by
    refine ⟨fun a ha => isSubset_iff.2 (Contained.refl (hproper a ha).values), fun a b c hab hbc => ?_,
      fun a ha b _ hab => (isSubset_iff.1 hab).length_le (hproper a ha).names,
      fun a ha b _ hab hlen => isSubset_iff.2 ((isSubset_iff.1 hab).back (hproper a ha).names hlen)⟩
    exact isSubset_iff.2 ((isSubset_iff.1 hab).trans (isSubset_iff.1 hbc))
  constructor
  · exact fun l hl => (hmem l).1 (Maxima.mem_of_mem_scan hl)
  · intro s hs
    obtain ⟨l, hl, hsub⟩ := hranked.covered ((hmem s.labels).2 ⟨s, hs, rfl⟩)
    exact ⟨l, hl, isSubset_iff.1 hsub⟩
  · refine (hranked.pairwise_scan hsorted).imp (fun {l l'} hp => ?_)
    rw [← isSubset_iff, ← isSubset_iff]
    exact ⟨by rw [hp.2]; exact Bool.false_ne_true, by rw [hp.1]; exact Bool.false_ne_true⟩
  · intro l hl s hs hsub
    exact isSubset_iff.1 (hranked.maximal_of_mem_scan hsorted hl ((hmem _).2 ⟨s, hs, rfl⟩) (isSubset_iff.2 hsub))

end

end Querier
end DsApm
