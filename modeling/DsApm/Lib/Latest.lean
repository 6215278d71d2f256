import Mathlib.Data.List.MinMax
import Mathlib.Data.List.Sort
/-!
# Latest — the greatest entry of each group, and sorting by a key

A list is folded into a map that keeps, of each group, the first entry of the greatest version.  Each kept entry is the
`argmax` of its group, so where no two entries of a group share a version the kept entries do not depend on the order of
the list; and entries sorted by a key that tells them apart are one list whatever order they came in.
-/
namespace Latest

open List

variable {α κ ν : Type*} [DecidableEq κ] [LinearOrder ν] (group : α → κ) (version : α → ν)

/-- One entry into the map: it takes its group over when the group is new or its version is greater. -/
def put : List α → α → List α
  | [], a => [a]
  | x :: m, a => if group x = group a then (if version x < version a then a else x) :: m else x :: put m a

def latest (l : List α) : List α := l.foldl (put group version) []

def members (l : List α) (k : κ) : List α := l.filter (fun a => decide (group a = k))

theorem latest_concat (l : List α) (a : α) : latest group version (l ++ [a]) = put group version (latest group version l) a := by
  rw [latest, foldl_append]
  rfl

theorem map_group_put (m : List α) (a : α) :
    (put group version m a).map group = if group a ∈ m.map group then m.map group else m.map group ++ [group a] := by
  induction m with
  | nil => simp [put]
  | cons x m ih =>
    rw [put]
    by_cases h : group x = group a
    · have hin : group a ∈ group x :: m.map group := by simp [h]
      rw [if_pos h, map_cons, map_cons, if_pos hin]
      by_cases hv : version x < version a <;> simp [hv, h]
    · rw [if_neg h, map_cons, ih, map_cons]
      have hm : group a ∈ group x :: m.map group ↔ group a ∈ m.map group := by
        simp [Ne.symm h]
      simp only [hm]
      split_ifs <;> rfl

theorem nodup_latest (l : List α) : ((latest group version l).map group).Nodup := by
  induction l using List.reverseRecOn with
  | nil => exact nodup_nil
  | append_singleton l a ih =>
    rw [latest_concat, map_group_put]
    split_ifs with h
    · exact ih
    · exact nodup_append.2 ⟨ih, nodup_singleton _, by
        intro x hx y hy
        rw [mem_singleton] at hy
        rintro rfl
        exact h (hy ▸ hx)⟩

theorem find?_put (m : List α) (a : α) (k : κ) :
    (put group version m a).find? (fun x => decide (group x = k)) =
      if group a = k then
        some (match m.find? (fun x => decide (group x = k)) with
          | none => a
          | some c => if version c < version a then a else c)
      else m.find? (fun x => decide (group x = k)) := by
  induction m with
  | nil =>
    by_cases h : group a = k <;> simp [put, h]
  | cons x m ih =>
    rw [put]
    by_cases h : group x = group a
    · rw [if_pos h]
      by_cases hk : group a = k
      · simp only [hk, if_true, List.find?_cons, h, decide_true]
        split_ifs <;> simp [h, hk]
      · simp only [hk, if_false, List.find?_cons, h, decide_false]
        split_ifs <;> simp [h, hk]
    · rw [if_neg h, List.find?_cons, ih]
      by_cases hk : group x = k
      · have hak : group a ≠ k := fun e => h (hk.trans e.symm)
        simp [hk, hak]
      · simp [hk]

theorem find?_latest (l : List α) (k : κ) :
    (latest group version l).find? (fun x => decide (group x = k)) = (members group l k).argmax version := by
  induction l using List.reverseRecOn with
  | nil => rfl
  | append_singleton l a ih =>
    rw [latest_concat, find?_put, ih, members, members, filter_append]
    by_cases h : group a = k
    · rw [if_pos h, filter_cons_of_pos (by simpa using h), filter_nil, argmax_concat]
      cases (List.filter (fun x => decide (group x = k)) l).argmax version with
      | none => rfl
      | some c =>
        simp only
        split_ifs <;> rfl
    · rw [if_neg h, filter_cons_of_neg (by simpa using h), filter_nil, append_nil]

theorem mem_latest {l : List α} {a : α} :
    a ∈ latest group version l ↔ (members group l (group a)).argmax version = some a := by
  rw [← find?_latest]
  constructor
  · intro h
    have hs : ((latest group version l).find? (fun x => decide (group x = group a))).isSome := by
      rw [List.find?_isSome]
      exact ⟨a, h, by simp⟩
    obtain ⟨b, hb⟩ := Option.isSome_iff_exists.1 hs
    have hg : group b = group a := by simpa using List.find?_some hb
    rw [hb, inj_on_of_nodup_map (nodup_latest group version l) (mem_of_find?_eq_some hb) h hg]
  · exact mem_of_find?_eq_some

section
variable {group version}

theorem argmax_perm {l l' : List α} (h : l.Perm l') (hinj : ∀ a ∈ l, ∀ b ∈ l, version a = version b → a = b) :
    l.argmax version = l'.argmax version := by
  cases hl : l.argmax version with
  | none =>
    rw [argmax_eq_none] at hl
    subst hl
    rw [nil_perm.1 h]
    rfl
  | some a =>
    cases hl' : l'.argmax version with
    | none =>
      rw [argmax_eq_none] at hl'
      subst hl'
      rw [perm_nil.1 h] at hl
      cases hl
    | some b =>
      have ha : a ∈ l := argmax_mem hl
      have hb : b ∈ l := h.mem_iff.2 (argmax_mem hl')
      have hba := le_of_mem_argmax hb hl
      have hab := le_of_mem_argmax (h.mem_iff.1 ha) hl'
      rw [hinj a ha b hb (le_antisymm hab hba)]

theorem latest_perm {l l' : List α} (h : l.Perm l')
    (hinj : ∀ a ∈ l, ∀ b ∈ l, group a = group b → version a = version b → a = b) :
    (latest group version l).Perm (latest group version l') := by
  refine (perm_ext_iff_of_nodup (List.Nodup.of_map _ (nodup_latest group version l))
    (List.Nodup.of_map _ (nodup_latest group version l'))).2 (fun a => ?_)
  rw [mem_latest, mem_latest]
  have hm : (members group l (group a)).Perm (members group l' (group a)) := h.filter _
  have hm' : ∀ x ∈ members group l (group a), x ∈ l ∧ group x = group a := fun x hx => by
    simpa [members] using hx
  rw [argmax_perm hm]
  intro x hx y hy hv
  exact hinj x (hm' x hx).1 y (hm' y hy).1 ((hm' x hx).2.trans (hm' y hy).2.symm) hv

end

structure Visit (α : Type*) where
  order : List α → List α
  perm : ∀ l, (order l).Perm l

def Visit.asStored {α : Type*} : Visit α := ⟨id, fun _ => List.Perm.refl _⟩

theorem Visit.findSome?_eq_some_iff {α β : Type*} (visit : Visit α) {l : List α} {f : α → Option β}
    (h : ∀ a ∈ l, ∀ b ∈ l, ∀ x y, f a = some x → f b = some y → x = y) {x : β} :
    (visit.order l).findSome? f = some x ↔ ∃ a ∈ l, f a = some x := by
  constructor
  · intro hx
    obtain ⟨a, ha, hfa⟩ := exists_of_findSome?_eq_some hx
    exact ⟨a, (visit.perm l).mem_iff.1 ha, hfa⟩
  · rintro ⟨a, ha, hfa⟩
    have ha' := (visit.perm l).mem_iff.2 ha
    cases hf : (visit.order l).findSome? f with
    | none => rw [List.findSome?_eq_none_iff.1 hf a ha'] at hfa; cases hfa
    | some y =>
      obtain ⟨b, hb, hfb⟩ := exists_of_findSome?_eq_some hf
      rw [h b ((visit.perm l).mem_iff.1 hb) a ha y x hfb hfa]

/-! ## Sorting by a key -/

section
variable {β : Type*} [LinearOrder β]

def sortBy (key : α → β) (l : List α) : List α := l.insertionSort (fun a b => key a ≤ key b)

variable {key : α → β}

instance totalBy : Std.Total (fun a b : α => key a ≤ key b) := ⟨fun a b => le_total (key a) (key b)⟩

instance transBy : IsTrans α (fun a b : α => key a ≤ key b) := ⟨fun _ _ _ => le_trans⟩

theorem sortBy_perm (key : α → β) (l : List α) : (sortBy key l).Perm l := perm_insertionSort _ l

theorem pairwise_sortBy (key : α → β) (l : List α) : (sortBy key l).Pairwise (fun a b => key a ≤ key b) :=
  pairwise_insertionSort _ l

theorem sortBy_eq {l l' : List α} (h : l.Perm l') (hinj : ∀ a ∈ l, ∀ b ∈ l, key a = key b → a = b) :
    sortBy key l = sortBy key l' := by
  have hp := (sortBy_perm key l).trans (h.trans (sortBy_perm key l').symm)
  refine hp.eq_of_pairwise (fun a b ha hb hab hba => ?_) (pairwise_sortBy key l) (pairwise_sortBy key l')
  have ha' := (sortBy_perm key l).mem_iff.1 ha
  have hb' := h.mem_iff.2 ((sortBy_perm key l').mem_iff.1 hb)
  exact hinj a ha' b hb' (le_antisymm hab hba)

omit [DecidableEq κ] [LinearOrder ν] [LinearOrder β] in
/-- Lists of two parts that a predicate tells apart are permutations of each other part by part. -/
theorem perm_append_iff {l₁ l₂ l₁' l₂' : List α} (p : α → Bool) (h₁ : ∀ a ∈ l₁, p a = false) (h₁' : ∀ a ∈ l₁', p a = false)
    (h₂ : ∀ a ∈ l₂, p a = true) (h₂' : ∀ a ∈ l₂', p a = true) :
    (l₁ ++ l₂).Perm (l₁' ++ l₂') ↔ l₁.Perm l₁' ∧ l₂.Perm l₂' := by
  have hsecond : ∀ {l l' : List α}, (∀ a ∈ l, p a = false) → (∀ a ∈ l', p a = true) → (l ++ l').filter p = l' := by
    intro l l' h h'
    rw [filter_append, filter_eq_nil_iff.2 (fun a ha => by rw [h a ha]; exact Bool.false_ne_true),
      filter_eq_self.2 h', nil_append]
  constructor
  · intro h
    have hperm := h.filter p
    rw [hsecond h₁ h₂, hsecond h₁' h₂'] at hperm
    exact ⟨(perm_append_right_iff l₂).1 (h.trans (hperm.symm.append_left l₁')), hperm⟩
  · exact fun h => h.1.append h.2

omit [DecidableEq κ] [LinearOrder ν] [LinearOrder β] in
theorem forall_zip_tail {R : α → α → Prop} : ∀ l : List α, (∀ p ∈ l.zip l.tail, R p.1 p.2) ↔ l.IsChain R
  | [] => by simp
  | [a] => by simp
  | a :: b :: l => by
    rw [tail_cons, zip_cons_cons, forall_mem_cons, isChain_cons_cons, ← forall_zip_tail (b :: l)]
    rfl

/-- **Each sorted order of a list by one key steps along another key exactly when the first key decides the second.**
Equal keys may come in either order, so they need equal values of the second. -/
theorem sorted_steps_iff {μ : Type*} [Preorder μ] (key : α → β) (g : α → μ) (l : List α) :
    (∀ l' : List α, l'.Perm l → l'.Pairwise (fun a b => key a ≤ key b) → ∀ p ∈ l'.zip l'.tail, g p.1 ≤ g p.2) ↔
      ∀ a ∈ l, ∀ b ∈ l, key a ≤ key b → g a ≤ g b := by
  classical
  have htrans : Trans (fun a b => g a ≤ g b) (fun a b => g a ≤ g b) (fun a b => g a ≤ g b) := ⟨le_trans⟩
  have hall : ∀ l' : List α, (∀ p ∈ l'.zip l'.tail, g p.1 ≤ g p.2) ↔ l'.Pairwise (fun a b => g a ≤ g b) :=
    fun l' => (forall_zip_tail (R := fun a b => g a ≤ g b) l').trans isChain_iff_pairwise
  constructor
  · intro h a ha b hb hab
    by_cases hne : a = b
    · rw [hne]
    · -- a stable sort of an order that has `a` before `b` keeps it there
      have hb' : b ∈ l.erase a := (mem_erase_of_ne (Ne.symm hne)).2 hb
      have hperm : (a :: b :: (l.erase a).erase b).Perm l :=
        ((perm_cons_erase hb').symm.cons a).trans (perm_cons_erase ha).symm
      have hsteps := (hall _).1 (h _ ((sortBy_perm key _).trans hperm) (pairwise_sortBy key _))
      have hpair : [a, b].Sublist (sortBy key (a :: b :: (l.erase a).erase b)) :=
        pair_sublist_insertionSort hab (by simp)
      have hkept : [a, b].Pairwise (fun a b => g a ≤ g b) := hsteps.sublist hpair
      simpa using hkept
  · intro h l' hperm hsorted
    exact (hall l').2 (hsorted.imp_of_mem (fun ha hb => h _ (hperm.mem_iff.1 ha) _ (hperm.mem_iff.1 hb)))

end

end Latest
