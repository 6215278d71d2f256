import Mathlib.Algebra.Order.BigOperators.Group.Finset
import Mathlib.Order.Interval.Finset.Nat
/-!
# Cover — how much a list of intervals covers

An interval is a pair of a start and an end that it does not reach.  A sweep over intervals in the order of their starts keeps the one
it is in: the next interval extends it, or is the first that starts past it.  What the sweep adds up is the size of the union.
-/
namespace Cover

def cover (l : List (Nat × Nat)) : Finset Nat := l.toFinset.biUnion fun i => Finset.Ico i.1 i.2

theorem mem_cover {l : List (Nat × Nat)} {n : Nat} : n ∈ cover l ↔ ∃ i ∈ l, i.1 ≤ n ∧ n < i.2 := by
  simp [cover]

theorem cover_cons (i : Nat × Nat) (l : List (Nat × Nat)) : cover (i :: l) = Finset.Ico i.1 i.2 ∪ cover l := by
  ext n
  rw [Finset.mem_union, mem_cover, mem_cover, List.exists_mem_cons_iff, Finset.mem_Ico]

theorem cover_perm {l l' : List (Nat × Nat)} (h : l.Perm l') : cover l = cover l' := by
  ext n
  rw [mem_cover, mem_cover]
  simp only [h.mem_iff]

def sweep : Nat × Nat → List (Nat × Nat) → Nat
  | current, [] => current.2 - current.1
  | current, i :: l => if i.1 ≤ current.2 then sweep (current.1, max current.2 i.2) l else current.2 - current.1 + sweep i l

theorem cover_meet {c i : Nat × Nat} {l : List (Nat × Nat)} (hstart : c.1 ≤ i.1) (hmeet : i.1 ≤ c.2) :
    cover (c :: i :: l) = cover ((c.1, max c.2 i.2) :: l) := by
  rw [cover_cons, cover_cons, cover_cons, ← Finset.union_assoc]
  congr 1
  ext n
  simp only [Finset.mem_union, Finset.mem_Ico]
  omega

theorem card_cover_apart {c : Nat × Nat} {l : List (Nat × Nat)} (h : ∀ i ∈ l, c.2 < i.1) :
    (cover (c :: l)).card = c.2 - c.1 + (cover l).card := by
  rw [cover_cons, Finset.card_union_of_disjoint, Nat.card_Ico]
  rw [Finset.disjoint_left]
  intro n hn hin
  obtain ⟨i, hi, hle, _⟩ := mem_cover.1 hin
  have hlt := h i hi
  rw [Finset.mem_Ico] at hn
  omega

/-- **The sweep measures the union.** -/
theorem sweep_eq : ∀ {c : Nat × Nat} {l : List (Nat × Nat)}, (c :: l).Pairwise (fun i j => i.1 ≤ j.1) → sweep c l = (cover (c :: l)).card
  | c, [], _ => by rw [sweep, cover_cons, cover, List.toFinset_nil, Finset.biUnion_empty, Finset.union_empty, Nat.card_Ico]
  | c, i :: l, h => by
    obtain ⟨hc, hil⟩ := List.pairwise_cons.1 h
    obtain ⟨hi, hl⟩ := List.pairwise_cons.1 hil
    rw [sweep]
    split
    · rename_i hmeet
      rw [cover_meet (hc i List.mem_cons_self) hmeet]
      apply sweep_eq
      exact List.pairwise_cons.2 ⟨fun j hj => hc j (List.mem_cons_of_mem i hj), hl⟩
    · rename_i hpast
      rw [card_cover_apart, sweep_eq hil]
      intro j hj
      rcases List.mem_cons.1 hj with rfl | hj
      · omega
      · have := hi j hj
        omega

theorem card_cover_le {l : List (Nat × Nat)} {b : Nat} (h : ∀ i ∈ l, i.2 ≤ b) : (cover l).card ≤ b := by
  have hsub : cover l ⊆ Finset.range b := by
    intro n hn
    obtain ⟨i, hi, _, hlt⟩ := mem_cover.1 hn
    exact Finset.mem_range.2 (hlt.trans_le (h i hi))
  simpa using Finset.card_le_card hsub

end Cover
