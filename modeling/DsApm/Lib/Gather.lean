import Mathlib.Data.List.Induction
import Mathlib.Data.List.Nodup
/-!
# Gather — putting elements together under their keys

A map filled in one pass: the first element of a key starts its value and every later one is absorbed into it.  The map
is a list in the order of insertion.  What it holds for a key depends on the elements of that key alone.
-/
namespace Gather

open List

variable {α β κ : Type*} [DecidableEq κ] (key : α → κ) (start : α → β) (absorb : β → α → β)

def add (a : α) : List (κ × β) → List (κ × β)
  | [] => [(key a, start a)]
  | (k, b) :: m => if k = key a then (k, absorb b a) :: m else (k, b) :: add a m

def gather (as : List α) : List (κ × β) := as.foldl (fun m a => add key start absorb a m) []

def collected : List α → Option β
  | [] => none
  | a :: rest => some (rest.foldl absorb (start a))

variable {key start absorb}

omit [DecidableEq κ] in
theorem collected_eq_none {as : List α} : collected start absorb as = none ↔ as = [] := by
  cases as <;> simp [collected]

omit [DecidableEq κ] in
theorem collected_concat (a : α) : ∀ as : List α,
    collected start absorb (as ++ [a]) = some ((collected start absorb as).elim (start a) (fun b => absorb b a))
  | [] => rfl
  | x :: rest => by simp [collected]

omit [DecidableEq κ] in
theorem collected_list {γ : Type*} (f : α → γ) (a : α) (rest : List α) :
    collected (fun a => [f a]) (fun l a => l ++ [f a]) (a :: rest) = some ((a :: rest).map f) := by
  have hfold : ∀ (l : List α) (acc : List γ), l.foldl (fun l a => l ++ [f a]) acc = acc ++ l.map f := by
    intro l
    induction l with
    | nil => simp
    | cons x l ih => simp [ih]
  simp [collected, hfold]

theorem gather_concat (as : List α) (a : α) :
    gather key start absorb (as ++ [a]) = add key start absorb a (gather key start absorb as) := by
  simp [gather]

theorem keys_add (a : α) : ∀ m : List (κ × β), (add key start absorb a m).map Prod.fst =
    if key a ∈ m.map Prod.fst then m.map Prod.fst else m.map Prod.fst ++ [key a]
  | [] => by simp [add]
  | (k, b) :: m => by
    rw [add]
    by_cases hk : k = key a
    · simp [hk]
    · have hk' : key a ≠ k := fun h => hk h.symm
      simp only [if_neg hk, map_cons, keys_add a m, mem_cons, hk', false_or]
      split
      · rfl
      · rw [cons_append]

theorem nodup_keys (as : List α) : ((gather key start absorb as).map Prod.fst).Nodup := by
  induction as using List.reverseRecOn with
  | nil => exact nodup_nil
  | append_singleton as a ih =>
    rw [gather_concat, keys_add]
    split
    · exact ih
    · rename_i hnew
      exact nodup_append.2 ⟨ih, nodup_singleton _, fun k hk k' hk' heq =>
        hnew (by rwa [← mem_singleton.1 hk', ← heq])⟩

theorem mem_add_of_ne {a : α} {k : κ} {b : β} (hk : k ≠ key a) : ∀ m : List (κ × β),
    (k, b) ∈ add key start absorb a m ↔ (k, b) ∈ m
  | [] => by simp [add, hk]
  | (k', b') :: m => by
    rw [add]
    split
    · rename_i heq
      have hne : k ≠ k' := heq ▸ hk
      simp [hne]
    · rw [mem_cons, mem_cons, mem_add_of_ne hk m]

theorem mem_add_self {a : α} {b : β} : ∀ {m : List (κ × β)}, (m.map Prod.fst).Nodup →
    ((key a, b) ∈ add key start absorb a m ↔
      (∃ b', (key a, b') ∈ m ∧ b = absorb b' a) ∨ (key a ∉ m.map Prod.fst ∧ b = start a))
  | [], _ => by simp [add]
  | (k', b') :: m, hnd => by
    rw [map_cons, nodup_cons] at hnd
    rw [add]
    by_cases heq : k' = key a
    · have hout : ∀ c, (key a, c) ∉ m := fun c hc => hnd.1 (heq ▸ List.mem_map.2 ⟨_, hc, rfl⟩)
      rw [if_pos heq]
      simp [heq, hout]
    · have hne : key a ≠ k' := fun h => heq h.symm
      rw [if_neg heq, mem_cons, mem_add_self hnd.2]
      simp [hne]

theorem mem_keys_iff {as : List α} {k : κ} : k ∈ (gather key start absorb as).map Prod.fst ↔ ∃ a ∈ as, key a = k := by
  induction as using List.reverseRecOn with
  | nil => simp [gather]
  | append_singleton as a ih =>
    have hsplit : (∃ x ∈ as ++ [a], key x = k) ↔ (∃ x ∈ as, key x = k) ∨ key a = k := by simp [or_and_right, exists_or]
    rw [gather_concat, keys_add, hsplit, ← ih]
    split
    · rename_i hold
      exact ⟨.inl, fun h => h.elim id (fun h => h ▸ hold)⟩
    · rw [mem_append, mem_singleton, eq_comm (a := k)]

/-- **What the map holds for a key**: the value of the elements of that key, in their order. -/
theorem mem_gather {as : List α} {k : κ} {b : β} : (k, b) ∈ gather key start absorb as ↔
    collected start absorb (as.filter (fun a => decide (key a = k))) = some b := by
  induction as using List.reverseRecOn generalizing b with
  | nil => simp [gather, collected]
  | append_singleton as a ih =>
    rw [gather_concat, filter_append]
    by_cases hk : key a = k
    · subst hk
      have hlast : [a].filter (fun x => decide (key x = key a)) = [a] := by simp
      rw [mem_add_self (nodup_keys as), hlast, collected_concat, mem_keys_iff]
      have hkeys : (∃ x ∈ as, key x = key a) ↔ collected start absorb (as.filter (fun x => decide (key x = key a))) ≠ none := by
        rw [ne_eq, collected_eq_none, filter_eq_nil_iff]
        simp
      rw [hkeys]
      simp only [ih]
      cases collected start absorb (as.filter (fun x => decide (key x = key a))) with
      | none => simp [eq_comm]
      | some c => simp [eq_comm]
    · have hlast : [a].filter (fun x => decide (key x = k)) = [] := by simp [hk]
      rw [mem_add_of_ne (fun h => hk h.symm), ih, hlast, append_nil]

theorem gather_of_nodup {as : List α} (h : (as.map key).Nodup) :
    gather key start absorb as = as.map (fun a => (key a, start a)) := by
  have hnew : ∀ (a : α) (m : List (κ × β)), key a ∉ m.map Prod.fst → add key start absorb a m = m ++ [(key a, start a)] := by
    intro a m
    induction m with
    | nil => intro _; rfl
    | cons e m ih =>
      intro hout
      rw [map_cons, mem_cons, not_or] at hout
      rw [add, if_neg (fun h => hout.1 h.symm), ih hout.2, cons_append]
  induction as using List.reverseRecOn with
  | nil => rfl
  | append_singleton as a ih =>
    rw [map_append, map_singleton, nodup_append] at h
    rw [gather_concat, ih h.1, map_append, hnew]
    · rfl
    · rw [List.map_map]
      exact fun hmem => h.2.2 _ hmem _ mem_cons_self rfl

/-- Where a value holds a piece of each of its elements, the map holds one of every element. -/
theorem perm_gather {γ : Type*} (pieces : β → List γ) {f : α → γ} (hstart : ∀ a, pieces (start a) = [f a])
    (habsorb : ∀ b a, pieces (absorb b a) = pieces b ++ [f a]) (as : List α) :
    ((gather key start absorb as).flatMap fun e => pieces e.2).Perm (as.map f) := by
  have hadd (a : α) (m : List (κ × β)) :
      ((add key start absorb a m).flatMap fun e => pieces e.2).Perm ((m.flatMap fun e => pieces e.2) ++ [f a]) := by
    induction m with
    | nil => simp [add, hstart]
    | cons e m ih =>
      rw [add]
      split_ifs
      · simp only [flatMap_cons, habsorb, append_assoc]
        exact perm_append_comm.append_left _
      · simpa only [flatMap_cons, append_assoc] using ih.append_left _
  induction as using List.reverseRecOn with
  | nil => exact .nil
  | append_singleton as a ih =>
    rw [gather_concat, map_append, map_singleton]
    exact (hadd a _).trans (ih.append_right _)

theorem range_filter_perm (index : α → Nat) (m : List α) (n : Nat) :
    ((range n).flatMap fun i => m.filter fun e => decide (index e = i)).Perm (m.filter fun e => decide (index e < n)) := by
  induction n with
  | zero => simp
  | succ n ih =>
    rw [range_succ, flatMap_append, flatMap_singleton]
    refine (ih.append_right _).trans (Perm.trans ?_ (filter_append_perm (fun e => decide (index e < n)) _))
    simp only [filter_filter]
    refine .append (.of_eq ?_) (.of_eq ?_) <;> refine filter_congr fun e _ => ?_ <;> grind

/-! ## Elements with what comes before them -/

theorem exists_prefix_of_filter {p : α → Bool} {a : α} {pre : List α} : ∀ {as : List α},
    pre ++ [a] <+: as.filter p → ∃ pre', pre' ++ [a] <+: as ∧ pre'.filter p = pre ∧ p a = true := by
  intro as h
  obtain ⟨rest, hrest⟩ := h
  rw [List.append_assoc, singleton_append] at hrest
  obtain ⟨l₁, l₂, rfl, rfl, h₂⟩ := filter_eq_append_iff.1 hrest.symm
  obtain ⟨m₁, m₂, rfl, hm₁, ha, -⟩ := filter_eq_cons_iff.1 h₂
  refine ⟨l₁ ++ m₁, ⟨m₂, by simp⟩, ?_, ha⟩
  rw [filter_append, filter_eq_nil_iff.2 hm₁, append_nil]

end Gather
