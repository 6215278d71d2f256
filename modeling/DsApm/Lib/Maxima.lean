import Mathlib.Data.List.Basic
import Mathlib.Data.List.Induction
import Mathlib.Data.List.Pairwise
/-!
# Maxima — the greatest elements by one scan in the order of a rank

A list is scanned and an element kept unless it lies below one that is kept.  Where the elements come in descending order of
a rank that agrees with the comparison, what is kept is one of each greatest class: everything lies below something kept
(`Ranked.covered`), nothing kept lies below anything else kept (`Ranked.pairwise_scan`), and what lies above a kept element
lies below it too (`Ranked.maximal_of_mem_scan`).
-/
namespace Maxima

open List

variable {α : Type*} (below : α → α → Bool)

def keep (kept : List α) (a : α) : List α := if kept.any (fun u => below a u) then kept else kept ++ [a]

def scan (l : List α) : List α := l.foldl (keep below) []

theorem scan_concat (l : List α) (a : α) : scan below (l ++ [a]) = keep below (scan below l) a := by
  unfold scan
  rw [foldl_append]
  rfl

/-- The rank of an element is at most that of one it lies below, and less unless that one lies below it too. -/
structure Ranked (rank : α → Nat) (l : List α) : Prop where
  refl : ∀ a ∈ l, below a a = true
  trans : ∀ a b c, below a b = true → below b c = true → below a c = true
  le : ∀ a ∈ l, ∀ b ∈ l, below a b = true → rank a ≤ rank b
  back : ∀ a ∈ l, ∀ b ∈ l, below a b = true → rank a = rank b → below b a = true

variable {below} {rank : α → Nat} {l : List α}

theorem scan_sublist (l : List α) : (scan below l).Sublist l := by
  induction l using List.reverseRecOn with
  | nil => exact List.Sublist.refl _
  | append_singleton l b ih =>
    rw [scan_concat, keep]
    split
    · exact ih.trans (sublist_append_left l [b])
    · exact ih.append (List.Sublist.refl _)

theorem mem_of_mem_scan {a : α} (h : a ∈ scan below l) : a ∈ l := (scan_sublist l).subset h

theorem mem_keep {kept : List α} {a u : α} (h : u ∈ kept) : u ∈ keep below kept a := by
  unfold keep
  split
  · exact h
  · exact mem_append.2 (Or.inl h)

theorem Ranked.covered (h : Ranked below rank l) {a : α} (ha : a ∈ l) : ∃ u ∈ scan below l, below a u = true := by
  have hrefl := h.refl
  clear h
  induction l using List.reverseRecOn with
  | nil => cases ha
  | append_singleton l b ih =>
    rw [scan_concat]
    rcases mem_append.1 ha with ha | ha
    · obtain ⟨u, hu, hau⟩ := ih ha (fun c hc => hrefl c (mem_append.2 (Or.inl hc)))
      exact ⟨u, mem_keep hu, hau⟩
    · rw [mem_singleton.1 ha]
      unfold keep
      split
      · rename_i hany
        obtain ⟨u, hu, hbu⟩ := List.any_eq_true.1 hany
        exact ⟨u, hu, hbu⟩
      · exact ⟨b, mem_append.2 (Or.inr (mem_singleton_self b)), hrefl b (by simp)⟩

theorem later_not_below (l : List α) : (scan below l).Pairwise (fun u a => below a u = false) := by
  induction l using List.reverseRecOn with
  | nil => exact List.Pairwise.nil
  | append_singleton l b ih =>
    rw [scan_concat, keep]
    split
    · exact ih
    · rename_i hany
      refine pairwise_append.2 ⟨ih, pairwise_singleton _ _, fun u hu a ha => ?_⟩
      rw [mem_singleton.1 ha]
      by_contra hbu
      exact hany (List.any_eq_true.2 ⟨u, hu, by simpa using hbu⟩)

theorem Ranked.pairwise_scan (h : Ranked below rank l) (hsorted : l.Pairwise (fun a b => rank b ≤ rank a)) :
    (scan below l).Pairwise (fun u a => below a u = false ∧ below u a = false) := by
  refine (List.Pairwise.and_mem.1 (List.Pairwise.and (later_not_below l) (hsorted.sublist (scan_sublist l)))).imp ?_
  rintro u a ⟨hu, ha, hau, hrank⟩
  refine ⟨hau, ?_⟩
  by_contra hua
  rw [Bool.not_eq_false] at hua
  have hle := h.le u (mem_of_mem_scan hu) a (mem_of_mem_scan ha) hua
  have hback := h.back u (mem_of_mem_scan hu) a (mem_of_mem_scan ha) hua (Nat.le_antisymm hle hrank)
  rw [hau] at hback
  cases hback

theorem Ranked.maximal_of_mem_scan (h : Ranked below rank l) (hsorted : l.Pairwise (fun a b => rank b ≤ rank a)) {u a : α}
    (hu : u ∈ scan below l) (ha : a ∈ l) (hua : below u a = true) : below a u = true := by
  obtain ⟨u', hu', hau'⟩ := h.covered ha
  have huu' := h.trans u a u' hua hau'
  by_cases heq : u = u'
  · rw [heq]; exact hau'
  · have : Std.Symm (fun u a => below a u = false ∧ below u a = false) := ⟨fun _ _ h => ⟨h.2, h.1⟩⟩
    have hapart := (h.pairwise_scan hsorted).forall hu hu' heq
    rw [hapart.2] at huu'
    cases huu'

end Maxima
