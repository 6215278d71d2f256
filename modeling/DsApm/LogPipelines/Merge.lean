import DsApm.LogPipelines.CollectorConfig
import DsApm.Lib.Weave
import Mathlib.Data.List.Induction
/-!
# Merge — the walk is a weave

The walk keeps for the names that are left their positions in the list, as long as these are not passed (`Ahead`).  So it
puts the names into the list as a plan is woven into it (`walk_refines`), and the list that is built is the weave if no name
is there twice (`built_of_nodup`), and the list without what is not wanted otherwise (`built_of_twice`).
-/
namespace DsApm
namespace LogPipelines

open List

open Weave (weave)

/-! ## The maps -/

theorem lookup_positions {pipeline : List String} (hnd : pipeline.Nodup) {p : String} {i : Nat} :
    (positions pipeline).lookup p = some i ↔ pipeline[i]? = some p := by
  have hkeys : (pipeline.zipIdx.map Prod.fst).Nodup := by
    rw [zipIdx_map_fst]
    exact hnd
  have hget : ∀ {i : Nat}, pipeline[i]? = some p → (positions pipeline).lookup p = some i := fun h =>
    GoMap.lookup_foldl_put_of_mem (fun b _ => b) _ ∅ hkeys (mk_mem_zipIdx_iff_getElem?.2 h)
  refine ⟨fun h => ?_, hget⟩
  by_cases hp : p ∈ pipeline
  · obtain ⟨j, hj⟩ := mem_iff_getElem?.1 hp
    have heq := (hget hj).symm.trans h
    rwa [Option.some.inj heq] at hj
  · have hnone := GoMap.lookup_foldl_put_of_not_mem (fun b (_ : Option Nat) => b) pipeline.zipIdx ∅ (k := p)
      (by rw [zipIdx_map_fst]; exact hp)
    rw [positions, hnone, AList.lookup_empty] at h
    cases h

theorem mappings_snoc (existing : GoMap String Nat) (names : List String) (m : String) :
    mappings existing (names ++ [m]) = match existing.lookup m with
      | some loc => ((mappings existing names).1.insert names.length loc, (mappings existing names).2.insert loc names.length)
      | none => mappings existing names := by
  rw [mappings, zipIdx_append, foldl_append, Nat.zero_add]
  rfl

theorem lookup_specVsExistingMap (existing : GoMap String Nat) (names : List String) (i : Nat) :
    (mappings existing names).1.lookup i = names[i]?.bind existing.lookup := by
  refine names.reverseRecOn (by rw [List.getElem?_nil]; rfl) fun names m ih => ?_
  have hlast : ∀ {i : Nat}, i ≠ names.length → (names ++ [m])[i]? = names[i]? := fun hi => by
    rcases Nat.lt_or_gt_of_ne hi with hlt | hgt
    · rw [List.getElem?_append_left hlt]
    · rw [List.getElem?_eq_none (by simp; omega), List.getElem?_eq_none (by omega)]
  rw [mappings_snoc]
  by_cases hi : i = names.length
  · subst hi
    rw [List.getElem?_concat_length, Option.bind_some]
    cases hm : existing.lookup m with
    | some loc => exact AList.lookup_insert _
    | none =>
      rw [List.getElem?_eq_none (Nat.le_refl _)] at ih
      exact ih
  · rw [hlast hi, ← ih]
    cases existing.lookup m with
    | some loc => exact AList.lookup_insert_ne hi
    | none => rfl

theorem lookup_existingVsSpec {existing : GoMap String Nat}
    (hinj : ∀ {m m' loc}, existing.lookup m = some loc → existing.lookup m' = some loc → m = m') (names : List String) :
    names.Nodup → ∀ {i m loc}, names[i]? = some m → existing.lookup m = some loc →
      (mappings existing names).2.lookup loc = some i := by
  refine names.reverseRecOn (fun _ i m loc hi _ => by rw [List.getElem?_nil] at hi; cases hi) fun names m ih hnd i m' loc hi hloc => ?_
  have hnd' := nodup_append.1 hnd
  rw [mappings_snoc]
  by_cases hlt : i < names.length
  · rw [List.getElem?_append_left hlt] at hi
    have hne : m' ≠ m := hnd'.2.2 m' (mem_of_getElem? hi) m (mem_singleton.2 rfl)
    have hold := ih hnd'.1 hi hloc
    cases hm : existing.lookup m with
    | some loc' => exact (AList.lookup_insert_ne fun heq => hne (hinj (heq ▸ hloc) hm)).trans hold
    | none => exact hold
  · have hlen := (List.getElem?_eq_some_iff.1 hi).1
    rw [List.length_append, List.length_singleton] at hlen
    obtain rfl : i = names.length := by omega
    rw [List.getElem?_concat_length, Option.some.injEq] at hi
    rw [hi, hloc]
    exact AList.lookup_insert _

/-! ## What is passed over -/

theorem passOver_part (pipeline : List String) (existingVsSpec : GoMap Nat Nat) : ∀ (d k : Nat) (w : Walk), k + d ≤ pipeline.length →
    let w' := (List.range' k d).foldl (passOver pipeline existingVsSpec) w
    w'.newPipeline = w.newPipeline ++ ((pipeline.drop k).take d).filter (fun x => !hasSignozPipelineProcessorPrefix x) ∧
    ∀ i loc, w'.specVsExistingMap.lookup i = some loc ↔ w.specVsExistingMap.lookup i = some loc ∧
      ∀ j, k ≤ j → j < k + d → hasSignozPipelineProcessorPrefix (pipeline.getD j "") = true → (existingVsSpec.lookup j).getD 0 ≠ i
  | 0, k, w, _ => by
    refine ⟨(append_nil _).symm, fun i loc => ⟨fun h => ⟨h, fun j _ _ => by omega⟩, fun h => h.1⟩⟩
  | d + 1, k, w, hlen => by
    have hk : k < pipeline.length := by omega
    have hget : pipeline.getD k "" = pipeline[k] := by rw [getD_eq_getElem?_getD, List.getElem?_eq_getElem hk]; rfl
    obtain ⟨hnew, hmap⟩ := passOver_part pipeline existingVsSpec d (k + 1) (passOver pipeline existingVsSpec w k) (by omega)
    rw [range'_succ, foldl_cons, drop_eq_getElem_cons hk, take_succ_cons]
    refine ⟨hnew.trans ?_, fun i loc => (hmap i loc).trans ?_⟩
    · by_cases hp : hasSignozPipelineProcessorPrefix pipeline[k] = true
      · rw [passOver, hget, if_pos hp, filter_cons_of_neg (by rw [hp]; exact Bool.false_ne_true)]
      · rw [passOver, hget, if_neg hp, filter_cons_of_pos (by rw [Bool.not_eq_true] at hp; rw [hp]; rfl), List.append_assoc]
        rfl
    · -- the first place of the part, and the rest of it
      have hsplit : ∀ {Q : Nat → Prop}, (∀ j, k ≤ j → j < k + (d + 1) → Q j) ↔ Q k ∧ ∀ j, k + 1 ≤ j → j < k + 1 + d → Q j := by
        intro Q
        refine ⟨fun h => ⟨h k (Nat.le_refl _) (by omega), fun j h1 h2 => h j (by omega) (by omega)⟩, fun h j h1 h2 => ?_⟩
        rcases Nat.eq_or_lt_of_le h1 with rfl | hlt
        · exact h.1
        · exact h.2 j hlt (by omega)
      rw [hsplit, ← and_assoc]
      refine and_congr_left fun _ => ?_
      by_cases hp : hasSignozPipelineProcessorPrefix (pipeline.getD k "") = true
      · rw [passOver, if_pos hp]
        by_cases hi : (existingVsSpec.lookup k).getD 0 = i
        · simp only [hi, AList.lookup_erase, ne_eq, not_true, imp_false, hp, and_false, reduceCtorEq]
        · simp only [AList.lookup_erase_ne (Ne.symm hi), ne_eq, hi, not_false_eq_true, implies_true, and_true]
      · rw [passOver, if_neg hp]
        exact ⟨fun h => ⟨h, fun h' => absurd h' hp⟩, fun h => h.1⟩

/-! ## The walk -/

/-- Before the names from `i` on: those in the list have their positions, unless these are passed. -/
def Ahead (names pipeline : List String) (i : Nat) (w : Walk) : Prop :=
  ∀ i', i ≤ i' → ∀ loc, w.specVsExistingMap.lookup i' = some loc ↔
    (∃ m, names[i']? = some m ∧ pipeline[loc]? = some m) ∧ w.lastMatched ≤ loc

theorem place_unique {l : List String} (hnd : l.Nodup) {i j : Nat} {m : String} (hi : l[i]? = some m) (hj : l[j]? = some m) : i = j :=
  (List.getElem?_inj (List.getElem?_eq_some_iff.1 hi).1 hnd).1 (hi.trans hj.symm)

theorem getD_of_getElem? {l : List String} {i : Nat} {m : String} (h : l[i]? = some m) : l.getD i "" = m := by
  rw [getD_eq_getElem?_getD, h]
  rfl

theorem drop_at {l : List String} {k loc : Nat} {m : String} (hk : k ≤ loc) (h : l[loc]? = some m) :
    l.drop k = (l.drop k).take (loc - k) ++ m :: l.drop (loc + 1) := by
  obtain ⟨hlt, rfl⟩ := List.getElem?_eq_some_iff.1 h
  have hrest : (l.drop k).drop (loc - k) = l[loc] :: l.drop (loc + 1) := by
    rw [drop_drop, Nat.add_sub_cancel' hk, drop_eq_getElem_cons hlt]
  rw [← hrest, take_append_drop]

section
variable {names pipeline : List String} {existingVsSpec : GoMap Nat Nat} (hnames : names.Nodup) (hpipeline : pipeline.Nodup)
  (hours : ∀ m ∈ names, hasSignozPipelineProcessorPrefix m = true)
  (hin : ∀ x ∈ pipeline, hasSignozPipelineProcessorPrefix x = true → x ∈ names)
  (hspec : ∀ {i m loc}, names[i]? = some m → pipeline[loc]? = some m → existingVsSpec.lookup loc = some i)
include hnames hpipeline hours hin hspec

theorem walkStep_refines {i : Nat} {m : String} {w : Walk} (hm : names[i]? = some m) (h : Ahead names pipeline i w) (rest : List String) :
    let w' := walkStep pipeline existingVsSpec w (m, i)
    Ahead names pipeline (i + 1) w' ∧
    w'.newPipeline ++ weave hasSignozPipelineProcessorPrefix rest (pipeline.drop w'.lastMatched) =
      w.newPipeline ++ weave hasSignozPipelineProcessorPrefix (m :: rest) (pipeline.drop w.lastMatched) := by
  unfold walkStep
  cases hl : w.specVsExistingMap.lookup i with
  | none =>
    -- it does not stand further on
    have hmiss : m ∉ pipeline.drop w.lastMatched := by
      intro hmem
      obtain ⟨d, hd⟩ := mem_iff_getElem?.1 hmem
      rw [List.getElem?_drop] at hd
      have := (h i (Nat.le_refl i) _).2 ⟨⟨m, hm, hd⟩, Nat.le_add_right _ _⟩
      rw [hl] at this
      cases this
    refine ⟨fun i' hi' => h i' (by omega), ?_⟩
    simp only [Weave.weave_missing hmiss, List.append_assoc, cons_append, nil_append]
  | some loc =>
    obtain ⟨⟨m', hm', hloc⟩, hle⟩ := (h i (Nat.le_refl i) loc).1 hl
    obtain rfl : m' = m := Option.some.inj (hm'.symm.trans hm)
    have hlt := (List.getElem?_eq_some_iff.1 hloc).1
    obtain ⟨hnew, hmap⟩ := passOver_part pipeline existingVsSpec (loc - w.lastMatched) w.lastMatched w (by omega)
    have hnot : m' ∉ (pipeline.drop w.lastMatched).take (loc - w.lastMatched) := by
      have hnd := hpipeline.sublist (drop_sublist w.lastMatched pipeline)
      rw [drop_at hle hloc] at hnd
      exact fun hmem => (nodup_append.1 hnd).2.2 m' hmem m' mem_cons_self rfl
    constructor
    · intro i' hi' loc'
      refine (hmap i' loc').trans ?_
      rw [h i' (by omega) loc']
      change _ ↔ _ ∧ loc + 1 ≤ loc'
      constructor
      · -- a name that stands between the two matches is not matched any more
        rintro ⟨⟨⟨n, hn, hloc'⟩, hle'⟩, hkept⟩
        refine ⟨⟨n, hn, hloc'⟩, ?_⟩
        by_contra hpassed
        rcases Nat.lt_or_ge loc' loc with hlt' | hge
        · refine hkept loc' hle' (by omega) ?_ ?_
          · rw [getD_of_getElem? hloc']
            exact hours n (mem_of_getElem? hn)
          · rw [hspec hn hloc']
            rfl
        · obtain rfl : loc' = loc := by omega
          have := place_unique hnames hm (Option.some.inj (hloc.symm.trans hloc') ▸ hn)
          omega
      · rintro ⟨⟨n, hn, hloc'⟩, hle'⟩
        refine ⟨⟨⟨n, hn, hloc'⟩, by omega⟩, fun j _ hj hp heq => ?_⟩
        have hjl : j < pipeline.length := by omega
        have hget : pipeline[j]? = some pipeline[j] := List.getElem?_eq_getElem hjl
        rw [getD_of_getElem? hget] at hp
        obtain ⟨i'', hi''⟩ := mem_iff_getElem?.1 (hin _ (getElem_mem hjl) hp)
        rw [hspec hi'' hget, Option.getD_some] at heq
        have := place_unique hpipeline hget (Option.some.inj (hn.symm.trans (heq ▸ hi'')) ▸ hloc')
        omega
    · simp only [hnew, getD_of_getElem? hloc]
      conv => rhs; rw [drop_at hle hloc, Weave.weave_found hnot]
      simp only [List.append_assoc, cons_append, nil_append]

/-- **The walk is the weave.** -/
theorem walk_refines : ∀ (rest : List String) (i : Nat) (w : Walk), names.drop i = rest → Ahead names pipeline i w →
    let w' := (rest.zipIdx i).foldl (walkStep pipeline existingVsSpec) w
    w'.newPipeline ++ pipeline.drop w'.lastMatched =
      w.newPipeline ++ weave hasSignozPipelineProcessorPrefix rest (pipeline.drop w.lastMatched)
  | [], _, _, _, _ => rfl
  | m :: rest, i, w, hrest, h => by
    have hm : names[i]? = some m := by
      have hfirst : (names.drop i)[0]? = some m := by
        rw [hrest]
        rfl
      rwa [List.getElem?_drop] at hfirst
    have hnext : names.drop (i + 1) = rest := by
      rw [← tail_drop, hrest]
      rfl
    obtain ⟨hahead, hstep⟩ := walkStep_refines hnames hpipeline hours hin hspec hm h rest
    exact (walk_refines rest (i + 1) _ hnext hahead).trans hstep

end

theorem passOver_keeps (pipeline : List String) (existingVsSpec : GoMap Nat Nat) : ∀ (js : List Nat) (w : Walk),
    let w' := js.foldl (passOver pipeline existingVsSpec) w
    (∃ t, w'.newPipeline = w.newPipeline ++ t) ∧
    ∀ i loc, w'.specVsExistingMap.lookup i = some loc → w.specVsExistingMap.lookup i = some loc
  | [], w => ⟨⟨[], (append_nil _).symm⟩, fun _ _ h => h⟩
  | j :: js, w => by
    obtain ⟨⟨t, ht⟩, hmap⟩ := passOver_keeps pipeline existingVsSpec js (passOver pipeline existingVsSpec w j)
    rw [foldl_cons]
    by_cases hp : hasSignozPipelineProcessorPrefix (pipeline.getD j "") = true
    · rw [passOver, if_pos hp] at ht hmap ⊢
      refine ⟨⟨t, ht⟩, fun i loc h => ?_⟩
      have h := hmap i loc h
      by_cases hi : i = (existingVsSpec.lookup j).getD 0
      · rw [hi, AList.lookup_erase] at h
        cases h
      · rwa [AList.lookup_erase_ne hi] at h
    · rw [passOver, if_neg hp] at ht hmap ⊢
      exact ⟨⟨_, ht.trans (List.append_assoc _ _ _)⟩, hmap⟩

/-- **The walk puts every one of the names**, also where one is there twice. -/
theorem names_sublist {names pipeline : List String} (existingVsSpec : GoMap Nat Nat) : ∀ (rest : List String) (i : Nat) (w : Walk),
    names.drop i = rest →
    (∀ i loc, w.specVsExistingMap.lookup i = some loc → ∃ m, names[i]? = some m ∧ pipeline[loc]? = some m) →
    ∃ t, ((rest.zipIdx i).foldl (walkStep pipeline existingVsSpec) w).newPipeline = w.newPipeline ++ t ∧ rest.Sublist t
  | [], _, _, _, _ => ⟨[], (append_nil _).symm, List.Sublist.refl _⟩
  | m :: rest, i, w, hrest, h => by
    have hm : names[i]? = some m := by
      have hfirst : (names.drop i)[0]? = some m := by
        rw [hrest]
        rfl
      rwa [List.getElem?_drop] at hfirst
    have hnext : names.drop (i + 1) = rest := by
      rw [← tail_drop, hrest]
      rfl
    rw [zipIdx_cons, foldl_cons, walkStep]
    cases hl : w.specVsExistingMap.lookup i with
    | none =>
      obtain ⟨t, ht, hsub⟩ := names_sublist existingVsSpec rest (i + 1) { w with newPipeline := w.newPipeline ++ [m] } hnext h
      exact ⟨m :: t, ht.trans (List.append_assoc _ _ _), hsub.cons_cons m⟩
    | some loc =>
      obtain ⟨m', hm', hloc⟩ := h i loc hl
      obtain rfl : m' = m := Option.some.inj (hm'.symm.trans hm)
      obtain ⟨⟨t₀, ht₀⟩, hmap⟩ := passOver_keeps pipeline existingVsSpec (List.range' w.lastMatched (loc - w.lastMatched)) w
      obtain ⟨t, ht, hsub⟩ := names_sublist existingVsSpec rest (i + 1)
        { (List.range' w.lastMatched (loc - w.lastMatched)).foldl (passOver pipeline existingVsSpec) w with
          newPipeline := ((List.range' w.lastMatched (loc - w.lastMatched)).foldl (passOver pipeline existingVsSpec) w).newPipeline ++ [m'],
          lastMatched := loc + 1 }
        hnext fun i loc hi => h i loc (hmap i loc hi)
      refine ⟨t₀ ++ m' :: t, ?_, (hsub.cons_cons m').trans (sublist_append_right _ _)⟩
      simp only [getD_of_getElem? hloc]
      rw [ht]
      simp only [ht₀, List.append_assoc, cons_append, nil_append]

/-! ## The list -/

def wanted (names current : List String) : List String :=
  current.filter fun procName => decide (procName ∈ names) || !hasSignozPipelineProcessorPrefix procName

theorem buildCollectorPipelineProcessorsList_eq (current names : List String) :
    buildCollectorPipelineProcessorsList current names =
      let m := mappings (positions (wanted names current)) names
      let w := names.zipIdx.foldl (walkStep (wanted names current) m.2) ⟨m.1, 0, []⟩
      let newPipeline := w.newPipeline ++ (wanted names current).drop w.lastMatched
      if checkDuplicateString newPipeline then (wanted names current, true) else (newPipeline, false) := rfl

section
variable {names current : List String}

theorem nodup_wanted (names : List String) {current : List String} (hcurrent : current.Nodup) : (wanted names current).Nodup := hcurrent.filter _

theorem mem_names_of_wanted {x : String} (h : x ∈ wanted names current) (hours : hasSignozPipelineProcessorPrefix x = true) : x ∈ names := by
  simpa [hours] using (mem_filter.1 h).2

theorem others_wanted : (wanted names current).filter (fun x => !hasSignozPipelineProcessorPrefix x) =
    current.filter fun x => !hasSignozPipelineProcessorPrefix x := by
  rw [wanted, List.filter_filter]
  exact filter_congr fun x _ => by cases hasSignozPipelineProcessorPrefix x <;> simp

variable (hcurrent : current.Nodup)
include hcurrent

theorem lookup_start (i loc : Nat) : (mappings (positions (wanted names current)) names).1.lookup i = some loc ↔
    ∃ m, names[i]? = some m ∧ (wanted names current)[loc]? = some m := by
  rw [lookup_specVsExistingMap, Option.bind_eq_some_iff]
  exact exists_congr fun m => and_congr_right fun _ => lookup_positions (nodup_wanted names hcurrent)

variable (hours : ∀ m ∈ names, hasSignozPipelineProcessorPrefix m = true)

include hours in
/-- **Without a name twice, the list is the weave.** -/
theorem built_of_nodup (hnames : names.Nodup) :
    (buildCollectorPipelineProcessorsList current names).1 = weave hasSignozPipelineProcessorPrefix names (wanted names current) := by
  have hpos : ∀ {m loc}, (positions (wanted names current)).lookup m = some loc ↔ (wanted names current)[loc]? = some m :=
    lookup_positions (nodup_wanted names hcurrent)
  have hspec : ∀ {i m loc}, names[i]? = some m → (wanted names current)[loc]? = some m →
      (mappings (positions (wanted names current)) names).2.lookup loc = some i := fun hi hloc =>
    lookup_existingVsSpec (fun h h' => Option.some.inj ((hpos.1 h).symm.trans (hpos.1 h'))) names hnames hi (hpos.2 hloc)
  have hin : ∀ x ∈ wanted names current, hasSignozPipelineProcessorPrefix x = true → x ∈ names := fun x => mem_names_of_wanted
  have hwalk := walk_refines hnames (nodup_wanted names hcurrent) hours hin hspec names 0
    ⟨(mappings (positions (wanted names current)) names).1, 0, []⟩ rfl fun i _ loc =>
      (lookup_start hcurrent i loc).trans ⟨fun h => ⟨h, Nat.zero_le _⟩, fun h => h.1⟩
  rw [nil_append, drop_zero] at hwalk
  rw [buildCollectorPipelineProcessorsList_eq]
  dsimp only at hwalk ⊢
  rw [hwalk, checkDuplicateString, decide_eq_true (Weave.nodup_weave hours hnames (nodup_wanted names hcurrent) hin)]
  rfl

omit hours in
/-- **With a name twice, the list is only rid of what is not wanted.** -/
theorem built_of_twice (hnames : ¬names.Nodup) : (buildCollectorPipelineProcessorsList current names).1 = wanted names current := by
  obtain ⟨t, ht, hsub⟩ := names_sublist (mappings (positions (wanted names current)) names).2 names 0
    ⟨(mappings (positions (wanted names current)) names).1, 0, []⟩ rfl fun i loc => (lookup_start hcurrent i loc).1
  rw [buildCollectorPipelineProcessorsList_eq]
  dsimp only at ht ⊢
  rw [if_pos]
  rw [ht, checkDuplicateString, Bool.not_eq_true', decide_eq_false_iff_not]
  exact fun hnd => hnames (((nodup_append.1 hnd).1).sublist (hsub.trans (sublist_append_right _ _)))

end

end LogPipelines
end DsApm
