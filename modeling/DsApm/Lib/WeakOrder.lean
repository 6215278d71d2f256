import Mathlib.Data.List.Perm.Basic
import Mathlib.Order.Lattice
/-!
# WeakOrder — orders in which different elements may tie, and stable sorting by one

An order by a key is a strict weak order, and so is one order refined by another where it ties.  Sorted by such an order, stably, a
list has its elements, none before a lesser one, and those that tie as they were.
-/
namespace WeakOrder

open List

variable {α β : Type}

section
variable {lt lt' : α → α → Prop}

theorem of_key [LinearOrder β] (key : α → β) : IsStrictWeakOrder α (fun a b => key a < key b) where
  irrefl a := lt_irrefl (key a)
  trans _ _ _ := lt_trans
  incomp_trans a b c hab hbc := by
    have hab := le_antisymm (not_lt.1 hab.2) (not_lt.1 hab.1)
    have hbc := le_antisymm (not_lt.1 hbc.2) (not_lt.1 hbc.1)
    exact ⟨(hab.trans hbc).not_lt, (hab.trans hbc).not_gt⟩

def Tied (lt : α → α → Prop) (a b : α) : Prop := ¬lt a b ∧ ¬lt b a

theorem Tied.symm {a b : α} (h : Tied lt a b) : Tied lt b a := ⟨h.2, h.1⟩

theorem Tied.trans [IsStrictWeakOrder α lt] {a b c : α} (hab : Tied lt a b) (hbc : Tied lt b c) : Tied lt a c :=
  IsStrictWeakOrder.incomp_trans a b c hab hbc

theorem lt_of_lt_of_tied [h : IsStrictWeakOrder α lt] {a b c : α} (hab : lt a b) (hbc : Tied lt b c) : lt a c := by
  by_contra hac
  have hca : ¬lt c a := fun hca => hbc.2 (h.trans c a b hca hab)
  exact (Tied.trans ⟨hac, hca⟩ hbc.symm).1 hab

theorem lt_of_tied_of_lt [h : IsStrictWeakOrder α lt] {a b c : α} (hab : Tied lt a b) (hbc : lt b c) : lt a c := by
  by_contra hac
  have hca : ¬lt c a := fun hca => hab.2 (h.trans b c a hbc hca)
  exact (Tied.trans hab.symm ⟨hac, hca⟩).1 hbc

theorem not_lt_trans [h : IsStrictWeakOrder α lt] {a b c : α} (hba : ¬lt b a) (hcb : ¬lt c b) : ¬lt c a := by
  intro hca
  by_cases hab : lt a b
  · exact hcb (h.trans c a b hca hab)
  · exact hcb (lt_of_lt_of_tied hca ⟨hab, hba⟩)

def Refined (lt lt' : α → α → Prop) (a b : α) : Prop := lt a b ∨ Tied lt a b ∧ lt' a b

theorem refined_key [LinearOrder β] (key : α → β) (a b : α) :
    Refined (fun a b => key a < key b) lt' a b ↔ key a < key b ∨ key a = key b ∧ lt' a b := by
  have htied : Tied (fun a b => key a < key b) a b ↔ key a = key b :=
    ⟨fun h => le_antisymm (not_lt.1 h.2) (not_lt.1 h.1), fun h => ⟨h.not_lt, h.not_gt⟩⟩
  unfold Refined
  rw [htied]

theorem tied_refined {a b : α} : Tied (Refined lt lt') a b ↔ Tied lt a b ∧ Tied lt' a b := by
  unfold Refined Tied
  tauto

theorem refined [h : IsStrictWeakOrder α lt] [h' : IsStrictWeakOrder α lt'] : IsStrictWeakOrder α (Refined lt lt') where
  irrefl a := by
    rintro (ha | ⟨_, ha⟩)
    · exact h.irrefl a ha
    · exact h'.irrefl a ha
  trans a b c := by
    rintro (hab | ⟨hab, hab'⟩) (hbc | ⟨hbc, hbc'⟩)
    · exact Or.inl (h.trans a b c hab hbc)
    · exact Or.inl (lt_of_lt_of_tied hab hbc)
    · exact Or.inl (lt_of_tied_of_lt hab hbc)
    · exact Or.inr ⟨hab.trans hbc, h'.trans a b c hab' hbc'⟩
  incomp_trans a b c hab hbc := by
    have hab := tied_refined.1 hab
    have hbc := tied_refined.1 hbc
    exact tied_refined.2 ⟨hab.1.trans hbc.1, hab.2.trans hbc.2⟩

end

/-! ## Sorting -/

variable (lt : α → α → Bool)

/-- `slices.SortStableFunc`, by a function that is negative where the first comes before. -/
def sortStableFunc (cmp : α → α → Int) (l : List α) : List α := l.mergeSort (fun a b => decide (cmp a b ≤ 0))

/-- Negative where the first comes before, positive where the second does. -/
def threeWay (a b : α) : Int := if lt a b then -1 else if lt b a then 1 else 0

def ties (a b : α) : Bool := !lt a b && !lt b a

structure StablySorted (l l' : List α) : Prop where
  perm : l'.Perm l
  sorted : l'.Pairwise (fun a b => lt b a = false)
  stable : ∀ a, l'.filter (ties lt a) = l.filter (ties lt a)

variable {lt}

theorem ties_iff (a b : α) : ties lt a b = true ↔ Tied (fun a b => lt a b = true) a b := by simp [ties, Tied]

theorem threeWay_le_zero [h : IsStrictWeakOrder α (fun a b => lt a b = true)] (a b : α) : threeWay lt a b ≤ 0 ↔ lt b a = false := by
  unfold threeWay
  cases hab : lt a b with
  | true =>
    have hba : lt b a = false := Bool.eq_false_iff.2 fun hba => h.irrefl a (h.trans a b a hab hba)
    simp [hba]
  | false => cases hba : lt b a <;> simp

theorem stablySorted [h : IsStrictWeakOrder α (fun a b => lt a b = true)] (l : List α) :
    StablySorted lt l (sortStableFunc (threeWay lt) l) := by
  have hle : (fun a b => decide (threeWay lt a b ≤ 0)) = fun a b => !lt b a := by
    funext a b
    rw [Bool.eq_iff_iff, decide_eq_true_eq, threeWay_le_zero, Bool.not_eq_true']
  have htrans : ∀ a b c : α, (!lt b a) = true → (!lt c b) = true → (!lt c a) = true := by
    intro a b c hab hbc
    simp only [Bool.not_eq_true', Bool.eq_false_iff] at hab hbc ⊢
    exact not_lt_trans (h := h) hab hbc
  have htotal : ∀ a b : α, (!lt b a || !lt a b) = true := by
    intro a b
    cases hab : lt a b with
    | true =>
      have hba : lt b a = false := Bool.eq_false_iff.2 fun hba => h.irrefl a (h.trans a b a hab hba)
      rw [hba]
      rfl
    | false => simp
  unfold sortStableFunc
  rw [hle]
  have hperm := mergeSort_perm l (fun a b => !lt b a)
  refine ⟨hperm, ?_, ?_⟩
  · exact (pairwise_mergeSort htrans htotal l).imp fun hab => by simpa using hab
  · intro a
    have hsub : (l.filter (ties lt a)).Sublist (l.mergeSort (fun a b => !lt b a)) := by
      refine sublist_mergeSort htrans htotal (pairwise_of_forall_mem_list fun b hb c hc => ?_) filter_sublist
      have hb := (ties_iff a b).1 (mem_filter.1 hb).2
      have hc := (ties_iff a c).1 (mem_filter.1 hc).2
      rw [Bool.not_eq_true', Bool.eq_false_iff]
      exact (hb.symm.trans hc).2
    have hsub := hsub.filter (ties lt a)
    rw [List.filter_filter] at hsub
    simp only [Bool.and_self] at hsub
    exact (hsub.eq_of_length (hperm.filter _).length_eq.symm).symm

theorem StablySorted.rest {l l' : List α} (h : StablySorted lt l l') (n : Nat) :
    ∀ a ∈ l'.take n, ∀ b ∈ l'.drop (l'.take n).length, lt b a = false := by
  rw [take_eq_take_min, length_take, Nat.min_eq_left (Nat.min_le_right _ _)]
  have hsorted := h.sorted
  rw [← take_append_drop (min n l'.length) l'] at hsorted
  exact (pairwise_append.1 hsorted).2.2

end WeakOrder
