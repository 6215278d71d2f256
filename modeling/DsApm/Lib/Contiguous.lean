import Mathlib.Data.List.Chain
import Mathlib.Order.Lattice
/-!
# Contiguous — intervals that follow one another downwards

A list of half-open intervals in which each ends where the one before it starts.  When none is empty they are what the
interval from the last start to the first end is cut into, and a list sorted by time is the elements of one interval after
those of another.
-/
namespace Contiguous

open List

variable {ι α : Type*} [LinearOrder α] {bot top : ι → α} {lo hi : α} {xs : List ι}

inductive Down (bot top : ι → α) (lo : α) : α → List ι → Prop
  | last {x : ι} (h : bot x = lo) : Down bot top lo (top x) [x]
  | cons {x : ι} {xs : List ι} (h : Down bot top lo (bot x) xs) : Down bot top lo (top x) (x :: xs)

namespace Down

omit [LinearOrder α] in
theorem head_top {x : ι} (h : Down bot top lo hi (x :: xs)) : top x = hi := by
  cases h <;> rfl

omit [LinearOrder α] in
theorem isChain : ∀ {xs : List ι} {hi : α}, Down bot top lo hi xs → xs.IsChain (fun x y => top y = bot x)
  | _, _, .last _ => isChain_singleton _
  | [_], _, .cons _ => isChain_singleton _
  | _ :: _ :: _, _, .cons h => isChain_cons_cons.2 ⟨h.head_top, h.isChain⟩

theorem lt : ∀ {xs : List ι} {hi : α}, Down bot top lo hi xs → (∀ x ∈ xs, bot x < top x) → lo < hi
  | _, _, .last h, hpos => h ▸ hpos _ mem_cons_self
  | _, _, .cons h, hpos =>
    (h.lt (fun x hx => hpos x (mem_cons_of_mem _ hx))).trans (hpos _ mem_cons_self)

theorem bounds : ∀ {xs : List ι} {hi : α}, Down bot top lo hi xs → (∀ x ∈ xs, bot x < top x) → ∀ x ∈ xs,
    lo ≤ bot x ∧ top x ≤ hi
  | _, _, .last h, _, y, hy => by
    rw [mem_singleton.1 hy]
    exact ⟨h.ge, le_rfl⟩
  | x :: xs, _, .cons h, hpos, y, hy => by
    have hrest := fun y hy => hpos y (mem_cons_of_mem _ hy)
    have hx := hpos x mem_cons_self
    rcases mem_cons.1 hy with rfl | hy
    · exact ⟨(h.lt hrest).le, le_rfl⟩
    · exact ⟨(h.bounds hrest y hy).1, (h.bounds hrest y hy).2.trans hx.le⟩

/-- **The union of the intervals.** -/
theorem union : ∀ {xs : List ι} {hi : α}, Down bot top lo hi xs → (∀ x ∈ xs, bot x < top x) → ∀ t,
    (∃ x ∈ xs, bot x ≤ t ∧ t < top x) ↔ lo ≤ t ∧ t < hi
  | _, _, .last h, _, t => by simp [h]
  | x :: xs, _, .cons h, hpos, t => by
    have hrest := fun y hy => hpos y (mem_cons_of_mem _ hy)
    have hx := hpos x mem_cons_self
    rw [exists_mem_cons_iff, h.union hrest t]
    constructor
    · rintro (⟨hbot, htop⟩ | ⟨hlo, hbot⟩)
      · exact ⟨(h.lt hrest).le.trans hbot, htop⟩
      · exact ⟨hlo, hbot.trans hx⟩
    · rintro ⟨hlo, htop⟩
      rcases le_or_gt (bot x) t with hle | hlt
      · exact .inl ⟨hle, htop⟩
      · exact .inr ⟨hlo, hlt⟩

end Down

theorem ends_unique {lo hi lo' hi' : α} (h : lo < hi) (hsame : ∀ t, lo ≤ t ∧ t < hi ↔ lo' ≤ t ∧ t < hi') :
    lo = lo' ∧ hi = hi' := by
  have hlo : lo' ≤ lo ∧ lo < hi' := (hsame lo).1 ⟨le_rfl, h⟩
  have hlo' : lo ≤ lo' ∧ lo' < hi := (hsame lo').2 ⟨le_rfl, hlo.1.trans_lt hlo.2⟩
  have heq : lo = lo' := le_antisymm hlo'.1 hlo.1
  refine ⟨heq, le_antisymm ?_ ?_⟩
  · by_contra hc
    exact lt_irrefl _ ((hsame hi').1 ⟨hlo.2.le, not_le.1 hc⟩).2
  · by_contra hc
    exact lt_irrefl _ ((hsame hi).2 ⟨heq ▸ h.le, not_le.1 hc⟩).2

/-! ## Sorted lists -/

section Sorted

variable {β : Type*} {time : β → α} {bs : List β}

def between (time : β → α) (lo hi : α) (bs : List β) : List β := bs.filter (fun b => decide (lo ≤ time b ∧ time b < hi))

theorem mem_between {b : β} : b ∈ between time lo hi bs ↔ b ∈ bs ∧ lo ≤ time b ∧ time b < hi := by
  simp [between]

theorem between_cons (b : β) (bs : List β) : between time lo hi (b :: bs) =
    if lo ≤ time b ∧ time b < hi then b :: between time lo hi bs else between time lo hi bs := by
  simp [between, filter_cons]

theorem between_eq_nil (h : hi ≤ lo) : between time lo hi bs = [] :=
  filter_eq_nil_iff.2 (fun _ _ hb => absurd (of_decide_eq_true hb) (fun hc => absurd (hc.1.trans_lt hc.2) h.not_gt))

theorem between_append {mid : α} (hlo : lo ≤ mid) (hhi : mid ≤ hi) : ∀ {bs : List β},
    bs.Pairwise (fun b c => time c ≤ time b) → between time mid hi bs ++ between time lo mid bs = between time lo hi bs
  | [], _ => rfl
  | b :: bs, hs => by
    obtain ⟨hb, hs⟩ := pairwise_cons.1 hs
    have ih := between_append hlo hhi hs
    simp only [between_cons]
    by_cases hmid : mid ≤ time b
    · have hout : ¬ (lo ≤ time b ∧ time b < mid) := fun h => absurd h.2 hmid.not_gt
      rw [if_neg hout]
      by_cases htop : time b < hi
      · rw [if_pos ⟨hmid, htop⟩, if_pos ⟨hlo.trans hmid, htop⟩, cons_append, ih]
      · rw [if_neg (fun h => htop h.2), if_neg (fun h => htop h.2), ih]
    · -- nothing of the upper part is left
      have hnil : between time mid hi bs = [] :=
        filter_eq_nil_iff.2 (fun c hc h => hmid ((of_decide_eq_true h).1.trans (hb c hc)))
      have hlow : time b < mid := not_le.1 hmid
      rw [hnil, nil_append] at ih
      rw [if_neg (fun h => hmid h.1), hnil, nil_append, ih]
      simp [hlow, hlow.trans_le hhi]

/-- **One interval after another, downwards.** -/
theorem Down.flatMap_between (hs : bs.Pairwise (fun b c => time c ≤ time b)) : ∀ {xs : List ι} {hi : α},
    Down bot top lo hi xs → (∀ x ∈ xs, bot x < top x) →
    xs.flatMap (fun x => between time (bot x) (top x) bs) = between time lo hi bs
  | _, _, .last h, _ => by simp [h]
  | x :: xs, _, .cons h, hpos => by
    have hrest := fun y hy => hpos y (mem_cons_of_mem _ hy)
    rw [flatMap_cons, h.flatMap_between hs hrest]
    exact between_append (h.lt hrest).le (hpos x mem_cons_self).le hs

/-- **One interval after another, upwards.** -/
theorem Down.flatMap_between_reverse (hs : bs.Pairwise (fun b c => time b ≤ time c)) (h : Down bot top lo hi xs)
    (hpos : ∀ x ∈ xs, bot x < top x) :
    xs.reverse.flatMap (fun x => between time (bot x) (top x) bs) = between time lo hi bs := by
  have hturn : ∀ lo hi, between time lo hi bs.reverse = (between time lo hi bs).reverse := fun _ _ => filter_reverse
  have hdown := h.flatMap_between (pairwise_reverse.2 hs) hpos
  simp only [hturn] at hdown
  rw [← reverse_inj, ← hdown, reverse_flatMap, reverse_reverse]
  rfl

end Sorted

end Contiguous
