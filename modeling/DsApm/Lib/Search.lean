import Mathlib.Data.List.Infix
/-!
# Search — where a text occurs in another

`strings.Index` and `strings.LastIndex`, as what is before the occurrence and what is after it.  An occurrence is the first, or
the last, when there is none that starts before it, or after it (`cut_first`, `cutLast_last`).
-/
namespace Search

open List

variable {α : Type*} [DecidableEq α]

def cut (sub : List α) : List α → Option (List α × List α)
  | [] => if sub = [] then some ([], []) else none
  | c :: s =>
    if sub.isPrefixOf (c :: s) then some ([], (c :: s).drop sub.length)
    else (cut sub s).map fun r => (c :: r.1, r.2)

def cutLast (sub : List α) : List α → Option (List α × List α)
  | [] => if sub = [] then some ([], []) else none
  | c :: s =>
    match cutLast sub s with
    | some r => some (c :: r.1, r.2)
    | none => if sub.isPrefixOf (c :: s) then some ([], (c :: s).drop sub.length) else none

def span (a b : α) (s : List α) : Option (List α) :=
  match cut [a] s with
  | none => none
  | some (_, rest) => (cutLast [b] rest).map fun r => a :: r.1 ++ [b]

theorem cutLast_eq_none {sub : List α} : ∀ {s : List α}, cutLast sub s = none ↔ ¬sub <:+: s
  | [] => by by_cases h : sub = [] <;> simp [cutLast, h]
  | c :: s => by
    rw [cutLast, infix_cons_iff, not_or, ← cutLast_eq_none (s := s), ← isPrefixOf_iff_prefix]
    cases cutLast sub s with
    | some r => simp
    | none => by_cases h : sub.isPrefixOf (c :: s) = true <;> simp [h]

/-- **The first occurrence** is one before whose end there is no other. -/
theorem cut_first {sub b : List α} (hne : sub ≠ []) : ∀ {a : List α}, ¬sub <:+: a ++ sub.dropLast →
    cut sub (a ++ (sub ++ b)) = some (a, b)
  | [], _ => by
    obtain ⟨c, s, rfl⟩ := exists_cons_of_ne_nil hne
    have hpre : (c :: s).isPrefixOf (c :: (s ++ b)) = true := isPrefixOf_iff_prefix.2 (prefix_append (c :: s) b)
    rw [nil_append, cons_append, cut, if_pos hpre, ← cons_append, drop_left]
  | c :: a, h => by
    have hnot : ¬sub.isPrefixOf (c :: (a ++ (sub ++ b))) = true := by
      rw [ isPrefixOf_iff_prefix]
      intro hpre
      have hwhole : (c :: a) ++ sub.dropLast <+: (c :: a) ++ (sub ++ b) :=
        (prefix_append_right_inj _).2 (( dropLast_prefix sub).trans (prefix_append _ _))
      have hlen : sub.length ≤ ((c :: a) ++ sub.dropLast).length := by
        have := length_pos_of_ne_nil hne
        rw [List.length_append, length_cons, length_dropLast]
        omega
      exact h (prefix_of_prefix_length_le hpre hwhole hlen).isInfix
    have htail : ¬sub <:+: a ++ sub.dropLast := fun hi => h (hi.trans (suffix_cons c _).isInfix)
    rw [cons_append, cut, if_neg hnot, cut_first hne htail]
    rfl

/-- **The last occurrence** is one after whose start there is no other. -/
theorem cutLast_last {sub b : List α} (hne : sub ≠ []) (h : ¬sub <:+: (sub ++ b).tail) : ∀ a : List α,
    cutLast sub (a ++ (sub ++ b)) = some (a, b)
  | [] => by
    obtain ⟨c, s, rfl⟩ := exists_cons_of_ne_nil hne
    have hpre : (c :: s).isPrefixOf (c :: (s ++ b)) = true := isPrefixOf_iff_prefix.2 (prefix_append (c :: s) b)
    have hnone : cutLast (c :: s) (s ++ b) = none := cutLast_eq_none.2 h
    rw [nil_append, cons_append, cutLast, hnone]
    dsimp only
    rw [if_pos hpre, ← cons_append, drop_left]
  | c :: a => by rw [cons_append, cutLast, cutLast_last hne h a]

omit [DecidableEq α] in
theorem prefix_of_append_cons {sub a b : List α} {c : α} (hc : c ∉ sub) (h : sub <+: a ++ c :: b) : sub <+: a := by
  rcases prefix_or_prefix_of_prefix h (prefix_append a (c :: b)) with hsub | ⟨t, rfl⟩
  · exact hsub
  · rw [prefix_append_right_inj] at h
    cases t with
    | nil => exact (append_nil a).symm ▸ prefix_rfl
    | cons d t =>
      have hd : d = c := (cons_prefix_cons.1 h).1
      exact absurd (mem_append_right a (hd ▸ mem_cons_self)) hc

omit [DecidableEq α] in
/-- **What has no separator in it occurs on one side of it.** -/
theorem infix_append_cons {sub b : List α} {c : α} (hne : sub ≠ []) (hc : c ∉ sub) : ∀ {a : List α},
    sub <:+: a ++ c :: b ↔ sub <:+: a ∨ sub <:+: b
  | [] => by
    rw [nil_append, infix_cons_iff]
    refine or_congr ?_ Iff.rfl
    constructor
    · intro h
      exact absurd (prefix_nil.1 (prefix_of_append_cons (a := []) hc h)) hne
    · intro h
      exact absurd (infix_nil.1 h) hne
  | d :: a => by
    rw [cons_append, infix_cons_iff, infix_cons_iff, infix_append_cons hne hc (a := a), or_assoc]
    refine or_congr ?_ Iff.rfl
    constructor
    · exact prefix_of_append_cons (a := d :: a) hc
    · intro h
      exact h.trans (prefix_append (d :: a) (c :: b))

end Search
