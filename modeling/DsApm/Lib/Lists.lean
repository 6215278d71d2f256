import Mathlib.Data.List.Sort
/-!
# Lists — a property of few elements, traversals that may fail, and the members of a list, each once

A traversal into `Option` gives a list exactly when every element gives its place of it.  Of `eraseDups`: no member twice, and once
sorted nothing but the members counts.
-/
open List

namespace Listed

theorem forall_mem {α : Type*} {p : α → Prop} [DecidablePred p] {l : List α} (h : l.all (fun x => decide (p x)) = true) :
    ∀ x ∈ l, p x :=
  fun x hx => of_decide_eq_true (List.all_eq_true.1 h x hx)

end Listed

namespace MapM

variable {α β : Type} {f : α → Option β}

theorem mapM_eq_some : ∀ {l : List α} {l' : List β}, l.mapM f = some l' ↔ List.Forall₂ (fun x y => f x = some y) l l'
  | [], l' => by
    rw [mapM_nil, List.forall₂_nil_left_iff]
    exact ⟨fun h => (Option.some_inj.1 h).symm, fun h => by rw [h]; rfl⟩
  | x :: l, l' => by
    rw [mapM_cons, List.forall₂_cons_left_iff]
    constructor
    · intro h
      obtain ⟨y, hy, h⟩ := Option.bind_eq_some_iff.1 h
      obtain ⟨ys, hys, h⟩ := Option.bind_eq_some_iff.1 h
      exact ⟨y, ys, hy, mapM_eq_some.1 hys, (Option.some_inj.1 h).symm⟩
    · rintro ⟨y, ys, hy, hys, rfl⟩
      rw [hy, mapM_eq_some.2 hys]
      rfl

theorem mapM_eq_some_iff_map {l : List α} {l' : List β} : l.mapM f = some l' ↔ l.map f = l'.map some := by
  rw [mapM_eq_some, ← List.forall₂_eq_eq_eq, List.forall₂_map_left_iff, List.forall₂_map_right_iff]

theorem mem_of_mapM {l : List α} {l' : List β} (h : l.mapM f = some l') {y : β} (hy : y ∈ l') : ∃ x ∈ l, f x = some y := by
  have hmap := mapM_eq_some_iff_map.1 h
  have hmem : some y ∈ l.map f := by
    rw [hmap]
    exact List.mem_map_of_mem hy
  exact List.mem_map.1 hmem

theorem mapM_self {f : α → Option α} {l : List α} (h : ∀ x ∈ l, f x = some x) : l.mapM f = some l :=
  mapM_eq_some.2 (List.forall₂_same.2 h)

theorem exists_left {R : α → β → Prop} : ∀ {l : List α} {l' : List β}, List.Forall₂ R l l' → ∀ y ∈ l', ∃ x ∈ l, R x y
  | _, _, .nil, _, hy => by cases hy
  | x :: _, _, .cons hxy hrest, z, hz => by
    rcases mem_cons.1 hz with rfl | hz
    · exact ⟨x, mem_cons_self, hxy⟩
    · obtain ⟨w, hw, h⟩ := exists_left hrest z hz
      exact ⟨w, mem_cons_of_mem _ hw, h⟩

end MapM

namespace Dedup

variable {α : Type*}

theorem nodup_eraseDups [DecidableEq α] (xs : List α) : xs.eraseDups.Nodup := by
  match xs with
  | [] => exact nodup_nil
  | x :: xs =>
    rw [eraseDups_cons]
    refine nodup_cons.2 ⟨?_, nodup_eraseDups _⟩
    rw [mem_eraseDups, mem_filter]
    simp
termination_by xs.length
decreasing_by
  have := length_filter_le (fun b => !b == x) xs
  simp only [length_cons]
  omega

theorem sort_perm [LinearOrder α] {xs ys : List α} (h : xs.Perm ys) :
    xs.insertionSort (· ≤ ·) = ys.insertionSort (· ≤ ·) :=
  ((perm_insertionSort _ _).trans (h.trans (perm_insertionSort _ _).symm)).eq_of_pairwise'
    (pairwise_insertionSort _ _) (pairwise_insertionSort _ _)

/-- **Sorted, lists of the same members are the same.** -/
theorem sort_eraseDups_congr [LinearOrder α] {xs ys : List α} (h : ∀ x, x ∈ xs ↔ x ∈ ys) :
    xs.eraseDups.insertionSort (· ≤ ·) = ys.eraseDups.insertionSort (· ≤ ·) := by
  refine sort_perm ((perm_ext_iff_of_nodup (nodup_eraseDups _) (nodup_eraseDups _)).2 (fun x => ?_))
  rw [mem_eraseDups, mem_eraseDups, h x]

end Dedup
