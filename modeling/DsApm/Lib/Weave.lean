import Mathlib.Data.List.Nodup
/-!
# Weave — a plan put into a list that has other entries

Some entries of a list are ours and the others are not.  A plan says which of ours shall be there, and in which order.  The
plan goes into the list name by name: before one that still stands further on go the others up to it, and what is ours and
is passed over comes later.  The others keep their order, ours are the plan, and a list that follows the plan stays as it is.
-/
namespace Weave

open List

variable {α : Type} [DecidableEq α] (ours : α → Bool)

def weave : List α → List α → List α
  | [], cur => cur
  | m :: plan, cur =>
    if m ∈ cur then (cur.takeWhile fun x => decide (x ≠ m)).filter (fun x => !ours x) ++ m :: weave plan (cur.dropWhile fun x => decide (x ≠ m)).tail
    else m :: weave plan cur

variable {ours}

theorem split_at {m : α} {a b : List α} (ha : m ∉ a) :
    ((a ++ m :: b).takeWhile fun x => decide (x ≠ m)) = a ∧ ((a ++ m :: b).dropWhile fun x => decide (x ≠ m)).tail = b := by
  have hall : ∀ x ∈ a, decide (x ≠ m) = true := fun x hx => decide_eq_true fun h => ha (h ▸ hx)
  constructor
  · rw [takeWhile_append_of_pos hall, takeWhile_cons_of_neg (by simp), append_nil]
  · rw [dropWhile_append_of_pos hall, dropWhile_cons_of_neg (by simp), tail_cons]

theorem weave_found {m : α} {plan a b : List α} (ha : m ∉ a) :
    weave ours (m :: plan) (a ++ m :: b) = a.filter (fun x => !ours x) ++ m :: weave ours plan b := by
  obtain ⟨htake, hdrop⟩ := split_at (b := b) ha
  rw [weave, if_pos (by simp), htake, hdrop]

theorem weave_missing {m : α} {plan cur : List α} (h : m ∉ cur) : weave ours (m :: plan) cur = m :: weave ours plan cur := by
  rw [weave, if_neg h]

/-- **The others keep their order.** -/
theorem others_weave : ∀ (plan cur : List α), (∀ m ∈ plan, ours m = true) →
    (weave ours plan cur).filter (fun x => !ours x) = cur.filter (fun x => !ours x)
  | [], _, _ => rfl
  | m :: plan, cur, hours => by
    have hm := hours m mem_cons_self
    have ih := fun cur => others_weave plan cur fun x hx => hours x (mem_cons_of_mem _ hx)
    by_cases h : m ∈ cur
    · obtain ⟨a, b, rfl, ha⟩ := eq_append_cons_of_mem h
      rw [weave_found ha, filter_append, List.filter_filter, filter_append, filter_cons_of_neg (by simp [hm]),
        filter_cons_of_neg (by simp [hm]), ih]
      simp
    · rw [weave_missing h, filter_cons_of_neg (by simp [hm]), ih]

/-- **Ours are the plan**, if what is ours in the list is planned. -/
theorem ours_weave : ∀ (plan cur : List α), (∀ m ∈ plan, ours m = true) → cur.Nodup → (∀ x ∈ cur, ours x = true → x ∈ plan) →
    (weave ours plan cur).filter ours = plan
  | [], cur, _, _, hin => filter_eq_nil_iff.2 fun x hx ho => by cases hin x hx ho
  | m :: plan, cur, hours, hnd, hin => by
    have hm := hours m mem_cons_self
    have ih := fun cur => ours_weave plan cur fun x hx => hours x (mem_cons_of_mem _ hx)
    by_cases h : m ∈ cur
    · obtain ⟨a, b, rfl, ha⟩ := eq_append_cons_of_mem h
      have hb : (m :: b).Nodup := (nodup_append.1 hnd).2.1
      have hnone : (a.filter fun x => !ours x).filter ours = [] := by
        rw [List.filter_filter, filter_eq_nil_iff]
        simp
      rw [weave_found ha, filter_append, hnone, nil_append, filter_cons_of_pos hm,
        ih b (nodup_cons.1 hb).2 fun x hx ho => ?_]
      refine (mem_cons.1 (hin x (mem_append_right _ (mem_cons_of_mem _ hx)) ho)).resolve_left fun heq => ?_
      exact (nodup_cons.1 hb).1 (heq ▸ hx)
    · rw [weave_missing h, filter_cons_of_pos hm, ih cur hnd fun x hx ho => ?_]
      exact (mem_cons.1 (hin x hx ho)).resolve_left fun heq => h (heq ▸ hx)

/-- **A list that follows the plan stays.** -/
theorem weave_self : ∀ (plan cur : List α), cur.Nodup → cur.filter ours = plan → weave ours plan cur = cur
  | [], _, _, _ => rfl
  | m :: plan, cur, hnd, h => by
    have hmem : m ∈ cur.filter ours := by rw [h]; exact mem_cons_self
    obtain ⟨hin, hm⟩ := mem_filter.1 hmem
    obtain ⟨a, b, rfl, ha⟩ := eq_append_cons_of_mem hin
    rw [filter_append, filter_cons_of_pos hm] at h
    -- nothing before the first of the plan is ours
    have hnone : a.filter ours = [] := by
      cases hf : a.filter ours with
      | nil => rfl
      | cons x l =>
        rw [hf, cons_append, List.cons.injEq] at h
        exact absurd (h.1 ▸ (mem_filter.1 (hf ▸ mem_cons_self : x ∈ a.filter ours)).1) ha
    rw [hnone, nil_append, List.cons.injEq] at h
    have hother : a.filter (fun x => !ours x) = a := by
      rw [filter_eq_self]
      intro x hx
      have := filter_eq_nil_iff.1 hnone x hx
      simpa using this
    have hb : b.Nodup := (nodup_cons.1 (nodup_append.1 hnd).2.1).2
    rw [weave_found ha, hother, weave_self plan b hb h.2]

omit [DecidableEq α] in
theorem nodup_of_parts (ours : α → Bool) {l : List α} (hours : (l.filter ours).Nodup) (hothers : (l.filter fun x => !ours x).Nodup) : l.Nodup := by
  refine (filter_append_perm ours l).nodup_iff.1 (nodup_append.2 ⟨hours, hothers, fun a ha b hb heq => ?_⟩)
  have hb := (mem_filter.1 hb).2
  rw [← heq, (mem_filter.1 ha).2] at hb
  cases hb

theorem nodup_weave {plan cur : List α} (hours : ∀ m ∈ plan, ours m = true) (hplan : plan.Nodup) (hcur : cur.Nodup)
    (hin : ∀ x ∈ cur, ours x = true → x ∈ plan) : (weave ours plan cur).Nodup := by
  refine nodup_of_parts ours ?_ ?_
  · rw [ours_weave plan cur hours hcur hin]
    exact hplan
  · rw [others_weave plan cur hours]
    exact hcur.filter _

end Weave
