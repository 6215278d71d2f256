import Mathlib.Data.List.Count
import Mathlib.Data.List.Infix
import Mathlib.Data.List.Nodup
/-!
# GoSlice — a range loop whose body deletes from the slice it ranges over

`append(s[:j], s[j+1:]...)` moves the elements after `j` one place to the front of the array that `s` stands on and makes
`s` one shorter; the array keeps its size, so its last places hold what they held.  `for _, x := range s` reads the length
of `s` once and then the array, place by place.  A body that deletes the element it was given therefore makes the loop
step over the next one, and at the end read the array's stale places.

`survivors` is what the stepping over leaves; `mem_rangeOver` adds what the stale places do, which all hold the last
element: it is deleted after all, and nothing else is.
-/
open List

namespace GoSlice

variable {α κ σ : Type}

def writeBack (array live : List α) : List α := live ++ array.drop live.length

/-- The passes of a range loop from place `i` on: `live` is the slice in the state, `array` the array it stands on. -/
def rangeFrom (live : σ → List α) (body : σ → α → σ) : Nat → Nat → List α → σ → σ
  | 0, _, _, s => s
  | n + 1, i, array, s =>
    match array[i]? with
    | none => s
    | some x => rangeFrom live body n (i + 1) (writeBack array (live (body s x))) (body s x)

/-- `for _, x := range s.live { body }`. -/
def rangeOver (live : σ → List α) (body : σ → α → σ) (s : σ) : σ := rangeFrom live body (live s).length 0 (live s) s

theorem rangeFrom_inv {live : σ → List α} {body : σ → α → σ} {P : σ → Prop} (hstep : ∀ s x, P s → P (body s x)) :
    ∀ (n i : Nat) (array : List α) (s : σ), P s → P (rangeFrom live body n i array s)
  | 0, _, _, _, h => h
  | n + 1, i, array, s, h => by
    unfold rangeFrom
    split
    · exact h
    · exact rangeFrom_inv hstep n (i + 1) _ _ (hstep s _ h)

theorem rangeOver_inv {live : σ → List α} {body : σ → α → σ} {P : σ → Prop} (hstep : ∀ s x, P s → P (body s x))
    {s : σ} (h : P s) : P (rangeOver live body s) :=
  rangeFrom_inv hstep _ _ _ _ h

/-! ## Deleting by key -/

/-- The pass of a loop that deletes the first element with the key it was given, when that key is to go. -/
def erasing [DecidableEq κ] (drop : κ → Bool) (l : List κ) (x : κ) : List κ := if drop x then l.erase x else l

/-- What a loop leaves that steps over the element after each one it deletes. -/
def survivors (drop : κ → Bool) : List κ → List κ
  | [] => []
  | [a] => if drop a then [] else [a]
  | a :: b :: rest => if drop a then b :: survivors drop rest else a :: survivors drop (b :: rest)

/-- Every element that is to go is met by the loop: one that is stepped over is the last, which the stale places show
again. -/
def Meets (drop : κ → Bool) (l : List κ) : Prop := ∀ x ∈ survivors drop l, drop x = true → l.getLast? = some x

instance [DecidableEq κ] (drop : κ → Bool) (l : List κ) : Decidable (Meets drop l) :=
  inferInstanceAs (Decidable (∀ x ∈ survivors drop l, drop x = true → l.getLast? = some x))

variable {drop : κ → Bool}

theorem mem_survivors_of_stays (l : List κ) : ∀ x ∈ l, drop x = false → x ∈ survivors drop l := by
  induction l using survivors.induct drop with
  | case1 => simp
  | case2 a h => intro x hx hd; simp only [mem_singleton] at hx; rw [hx, h] at hd; cases hd
  | case3 a h => simp [survivors, h]
  | case4 a b rest h ih =>
    intro x hx hd
    rw [survivors, if_pos h]
    rcases mem_cons.1 hx with rfl | hx
    · rw [h] at hd; cases hd
    · rcases mem_cons.1 hx with rfl | hx
      · exact mem_cons_self
      · exact mem_cons_of_mem _ (ih x hx hd)
  | case5 a b rest h ih =>
    intro x hx hd
    rw [survivors, if_neg h]
    rcases mem_cons.1 hx with rfl | hx
    · exact mem_cons_self
    · exact mem_cons_of_mem _ (ih x hx hd)

section
variable [DecidableEq κ]

theorem length_erasing_le (l : List κ) (x : κ) : (erasing drop l x).length ≤ l.length := by
  unfold erasing
  split
  · exact length_erase_le
  · exact Nat.le_refl _

/-! ## The stale places -/

omit [DecidableEq κ] in
theorem drop_writeBack {array live : List κ} {i : Nat} (h : live.length ≤ i) :
    (writeBack array live).drop i = array.drop i := by
  unfold writeBack
  rw [drop_append, drop_eq_nil_of_le h, nil_append, drop_drop]
  congr 1; omega

theorem rangeFrom_stale (z : κ) : ∀ (m i : Nat) (array live : List κ), array.drop i = List.replicate m z →
    live.length ≤ i →
    rangeFrom id (erasing drop) m i array live = (fun l => erasing drop l z)^[m] live
  | 0, _, _, _, _, _ => rfl
  | m + 1, i, array, live, hd, hi => by
    have hz : array[i]? = some z := by
      rw [← List.head?_drop, hd]; rfl
    have hle : (erasing drop live z).length ≤ i := Nat.le_trans (length_erasing_le live z) hi
    have hrest : (writeBack array (erasing drop live z)).drop (i + 1) = List.replicate m z := by
      rw [drop_writeBack (Nat.le_succ_of_le hle), Nat.succ_eq_add_one, ← drop_drop, hd]; rfl
    rw [rangeFrom, hz, Function.iterate_succ_apply]
    exact rangeFrom_stale z m (i + 1) _ _ hrest (Nat.le_succ_of_le hle)

theorem count_iterate_erase (z x : κ) (m : Nat) (l : List κ) :
    ((fun l : List κ => l.erase z)^[m] l).count x = if x = z then l.count x - m else l.count x := by
  induction m generalizing l with
  | zero => simp
  | succ m ih =>
    rw [Function.iterate_succ_apply, ih, count_erase]
    by_cases h : x = z
    · subst h; simp only [beq_self_eq_true, if_true]; omega
    · have h' : (z == x) = false := by simpa using fun h' => h h'.symm
      simp [h, h']

/-! ## The whole loop -/

omit [DecidableEq κ] in
theorem writeBack_append (live tail : List κ) : writeBack (live ++ tail) live = live ++ tail := by
  unfold writeBack; rw [drop_left]

/-- Deleting at place `P.length` or before it: the next place holds what came two after, the array's end is the last
element once more. -/
theorem writeBack_erase {P S : List κ} {a z : κ} (k : Nat) (hz : ∀ y ∈ (a :: S).getLast?, y = z) :
    writeBack (P ++ a :: S ++ List.replicate k z) ((P ++ a :: S).erase a) =
      (P ++ a :: S).erase a ++ List.replicate (k + 1) z := by
  have hmem : a ∈ P ++ a :: S := mem_append_right _ mem_cons_self
  have hlen : ((P ++ a :: S).erase a).length = (P ++ (a :: S).dropLast).length := by
    rw [length_erase_of_mem hmem]; simp
  have hlast : a :: S = (a :: S).dropLast ++ [z] := by
    have hne : a :: S ≠ [] := cons_ne_nil _ _
    rw [← hz _ (List.getLast?_eq_getLast_of_ne_nil hne), dropLast_append_getLast hne]
  have harr : P ++ a :: S ++ List.replicate k z = (P ++ (a :: S).dropLast) ++ List.replicate (k + 1) z := by
    calc P ++ a :: S ++ List.replicate k z
        = P ++ ((a :: S).dropLast ++ [z]) ++ List.replicate k z := by rw [← hlast]
      _ = (P ++ (a :: S).dropLast) ++ List.replicate (k + 1) z := by simp [replicate_succ]
  unfold writeBack
  rw [hlen, harr, drop_left]

theorem rangeFrom_stays {a z : κ} (h : drop a = false) (P S : List κ) (k : Nat) :
    rangeFrom id (erasing drop) ((a :: S).length + k) P.length (P ++ a :: S ++ List.replicate k z) (P ++ a :: S) =
      rangeFrom id (erasing drop) (S.length + k) (P ++ [a]).length (P ++ [a] ++ S ++ List.replicate k z)
        (P ++ [a] ++ S) := by
  have hget : (P ++ a :: S ++ List.replicate k z)[P.length]? = some a := by simp
  have hbody : erasing drop (P ++ a :: S) a = P ++ a :: S := by unfold erasing; rw [h]; rfl
  have hn : (a :: S).length + k = (S.length + k) + 1 := by rw [length_cons]; omega
  rw [hn, rangeFrom, hget]
  simp only [id, hbody, writeBack_append]
  simp

theorem rangeFrom_goes {a z : κ} (h : drop a = true) (P S : List κ) (k : Nat) (hz : ∀ y ∈ (a :: S).getLast?, y = z) :
    rangeFrom id (erasing drop) ((a :: S).length + k) P.length (P ++ a :: S ++ List.replicate k z) (P ++ a :: S) =
      rangeFrom id (erasing drop) (S.length + k) (P.length + 1)
        ((P ++ a :: S).erase a ++ List.replicate (k + 1) z) ((P ++ a :: S).erase a) := by
  have hget : (P ++ a :: S ++ List.replicate k z)[P.length]? = some a := by simp
  have hbody : erasing drop (P ++ a :: S) a = (P ++ a :: S).erase a := by unfold erasing; rw [h]; rfl
  have hn : (a :: S).length + k = (S.length + k) + 1 := by rw [length_cons]; omega
  rw [hn, rangeFrom, hget]
  simp only [id, hbody, writeBack_erase k hz]

theorem erase_steps_over (P rest : List κ) (a b : κ) :
    ∃ P' : List κ, P'.length = P.length + 1 ∧ P'.Perm (P ++ [b]) ∧ (P ++ a :: b :: rest).erase a = P' ++ rest := by
  by_cases ha : a ∈ P
  · refine ⟨P.erase a ++ [a, b], ?_, ?_, ?_⟩
    · have := length_pos_of_mem ha
      simp only [List.length_append, length_erase_of_mem ha, length_cons, length_nil]; omega
    · have hp : (P.erase a ++ [a]).Perm P := (perm_append_singleton a _).trans (perm_cons_erase ha).symm
      simpa using hp.append_right [b]
    · rw [erase_append_left _ ha]; simp
  · refine ⟨P ++ [b], by simp, List.Perm.refl _, ?_⟩
    rw [erase_append_right _ ha, erase_cons_head]; simp

/-- The passes from place `P.length` on, where `S` is still to come: what stays of `S` are its survivors, and then the
last element is deleted as often as there are stale places, which is often enough. -/
theorem rangeFrom_erasing (drop : κ → Bool) (z : κ) (S : List κ) : ∀ (P : List κ) (k : Nat), (∀ y ∈ S.getLast?, y = z) →
    (drop z = true → P.count z ≤ k) →
    ∃ Q m, Q.Perm (P ++ survivors drop S) ∧ (drop z = true → Q.count z ≤ m) ∧
      rangeFrom id (erasing drop) (S.length + k) P.length (P ++ S ++ List.replicate k z) (P ++ S) =
        (fun l => erasing drop l z)^[m] Q := by
  induction S using survivors.induct drop with
  | case1 =>
    intro P k _ hc
    refine ⟨P, k, by simp [survivors], hc, ?_⟩
    simp only [length_nil, Nat.zero_add, append_nil]
    exact rangeFrom_stale z k P.length _ P drop_left (Nat.le_refl _)
  | case2 a h =>
    intro P k hz hc
    have ha : a = z := hz a rfl
    subst ha
    have hp : ((P ++ [a]).erase a).Perm P := by
      simpa using (perm_append_singleton a P).erase a
    refine ⟨(P ++ [a]).erase a, k, ?_, ?_, ?_⟩
    · rw [survivors, if_pos h, append_nil]; exact hp
    · intro hd; rw [hp.count_eq]; exact hc hd
    · -- one stale place lies before the place that is read next
      rw [rangeFrom_goes h P [] k hz, length_nil, Nat.zero_add]
      refine rangeFrom_stale a k _ _ _ ?_ (by rw [hp.length_eq]; exact Nat.le_succ _)
      rw [← hp.length_eq, ← drop_drop, drop_left]; rfl
  | case3 a h =>
    intro P k hz hc
    have h' : drop a = false := by simpa using h
    have ha : a = z := hz a rfl
    refine ⟨P ++ [a], k, by rw [survivors, if_neg h], ?_, ?_⟩
    · intro hd; rw [← ha, h'] at hd; cases hd
    · rw [rangeFrom_stays h', append_nil, length_nil, Nat.zero_add]
      exact rangeFrom_stale z k _ _ _ drop_left (Nat.le_refl _)
  | case4 a b rest h ih =>
    intro P k hz hc
    obtain ⟨P', hlen, hp, he⟩ := erase_steps_over P rest a b
    have hz' : ∀ y ∈ rest.getLast?, y = z := by
      intro y hy
      refine hz y ?_
      cases rest with
      | nil => cases hy
      | cons c r => simpa using hy
    have hc' : drop z = true → P'.count z ≤ k + 1 := by
      intro hd
      have := hc hd
      rw [hp.count_eq, count_append]
      have h1 : List.count z [b] ≤ 1 := by rw [count_singleton]; split <;> omega
      omega
    obtain ⟨Q, m, hQ, hm, hrun⟩ := ih P' (k + 1) hz' hc'
    refine ⟨Q, m, ?_, hm, ?_⟩
    · rw [survivors, if_pos h]
      refine hQ.trans ((hp.append_right _).trans ?_)
      simp
    · rw [rangeFrom_goes h P (b :: rest) k hz, he, ← hlen, ← hrun, length_cons]
      congr 1; omega
  | case5 a b rest h ih =>
    intro P k hz hc
    have h' : drop a = false := by simpa using h
    have hc' : drop z = true → (P ++ [a]).count z ≤ k := by
      intro hd
      have haz : a ≠ z := fun e => by rw [e, hd] at h'; cases h'
      rw [count_append, count_singleton]
      simpa [haz] using hc hd
    obtain ⟨Q, m, hQ, hm, hrun⟩ := ih (P ++ [a]) k (fun y hy => hz y (by simpa using hy)) hc'
    refine ⟨Q, m, ?_, hm, ?_⟩
    · rw [survivors, if_neg h]; simpa using hQ
    · rw [rangeFrom_stays h', hrun]

/-- **What a deleting range loop leaves**: of the elements it does not step over the ones that are to stay, and of those it
steps over all but the last element. -/
theorem mem_rangeOver_erasing (l : List κ) (x : κ) :
    x ∈ rangeOver id (erasing drop) l ↔ x ∈ survivors drop l ∧ ¬ (drop x = true ∧ l.getLast? = some x) := by
  cases hl : l.getLast? with
  | none =>
    have hnil : l = [] := List.getLast?_eq_none_iff.1 hl
    subst hnil
    simp [rangeOver, rangeFrom, survivors]
  | some z =>
    obtain ⟨Q, m, hQ, hm, hrun⟩ := rangeFrom_erasing drop z l [] 0 (fun y hy => by
      rw [hl] at hy; exact (Option.some.inj hy).symm) (fun _ => Nat.le_refl _)
    have hrun' : rangeOver id (erasing drop) l = (fun l => erasing drop l z)^[m] Q := by
      simpa [rangeOver] using hrun
    have hmem : x ∈ survivors drop l ↔ x ∈ Q := by rw [hQ.mem_iff, nil_append]
    rw [hrun', hmem]
    cases hd : drop z with
    | false =>
      have hstay : (fun l : List κ => erasing drop l z) = id := by
        funext l; unfold erasing; rw [hd]; rfl
      rw [hstay, Function.iterate_id, id]
      refine ⟨fun h => ⟨h, fun ⟨hx, he⟩ => ?_⟩, fun h => h.1⟩
      rw [← Option.some.inj he, hd] at hx; cases hx
    | true =>
      have hgo : (fun l : List κ => erasing drop l z) = fun l => l.erase z := by
        funext l; unfold erasing; rw [hd]; rfl
      rw [hgo, ← count_pos_iff, ← count_pos_iff, count_iterate_erase]
      by_cases hx : x = z
      · subst hx
        have := hm hd
        rw [if_pos rfl]
        simp only [hd, true_and, not_true_eq_false, and_false, iff_false]
        omega
      · rw [if_neg hx]
        exact ⟨fun h => ⟨h, fun ⟨_, he⟩ => hx (Option.some.inj he).symm⟩, fun h => h.1⟩

theorem rangeOver_erasing_iff (l : List κ) :
    (∀ x ∈ rangeOver id (erasing drop) l, drop x = false) ↔ Meets drop l := by
  constructor
  · intro h x hx hd
    by_contra hne
    have := h x ((mem_rangeOver_erasing l x).2 ⟨hx, fun hlast => hne hlast.2⟩)
    rw [hd] at this; cases this
  · intro h x hx
    obtain ⟨hs, hlast⟩ := (mem_rangeOver_erasing l x).1 hx
    by_contra hd
    have hd' : drop x = true := by simpa using hd
    exact hlast ⟨hd', h x hs hd'⟩

theorem mem_rangeOver_of_stays {l : List κ} {x : κ} (hx : x ∈ l) (hd : drop x = false) :
    x ∈ rangeOver id (erasing drop) l :=
  (mem_rangeOver_erasing l x).2 ⟨mem_survivors_of_stays l x hx hd, fun h => by rw [hd] at h; cases h.1⟩

theorem map_eraseP {p : α → Bool} {k : κ} (key : α → κ) (hp : ∀ x, p x = true ↔ key x = k) (l : List α) :
    (l.eraseP p).map key = (l.map key).erase k := by
  induction l with
  | nil => rfl
  | cons x l ih =>
    by_cases hx : key x = k
    · rw [eraseP_cons_of_pos ((hp x).2 hx), map_cons, hx, erase_cons_head]
    · rw [eraseP_cons_of_neg (fun h => hx ((hp x).1 h)), map_cons, map_cons, ih,
        erase_cons_tail (by simpa using hx)]

theorem map_rangeFrom (drop : κ → Bool) (live : σ → List α) {body : σ → α → σ} (key : α → κ)
    (hbody : ∀ s x, (live (body s x)).map key = erasing drop ((live s).map key) (key x)) :
    ∀ (n i : Nat) (array : List α) (s : σ), (live (rangeFrom live body n i array s)).map key =
      rangeFrom id (erasing drop) n i (array.map key) ((live s).map key)
  | 0, _, _, _ => rfl
  | n + 1, i, array, s => by
    unfold rangeFrom
    rw [List.getElem?_map]
    cases array[i]? with
    | none => rfl
    | some x =>
      have hw : (writeBack array (live (body s x))).map key =
          writeBack (array.map key) (erasing drop ((live s).map key) (key x)) := by
        unfold writeBack
        rw [map_append, hbody, map_drop, ← hbody, List.length_map]
      simp only [Option.map_some, id]
      rw [map_rangeFrom drop live key hbody n (i + 1), hw, hbody]

theorem map_rangeOver (drop : κ → Bool) (live : σ → List α) {body : σ → α → σ} (key : α → κ)
    (hbody : ∀ s x, (live (body s x)).map key = erasing drop ((live s).map key) (key x)) (s : σ) :
    (live (rangeOver live body s)).map key = rangeOver id (erasing drop) ((live s).map key) := by
  unfold rangeOver
  rw [map_rangeFrom drop live key hbody, id, List.length_map]

end
end GoSlice

/-!
## Refs — values that are shared by reference

A heap is the values that were allocated, and a reference a place in it.  What was there before stays as it is while only new
places are written (`New`).
-/
namespace Refs

variable {α : Type*}

def alloc (h : List α) (a : α) : List α × Nat := (h ++ [a], h.length)

/-- A reference that is new since a heap, and what it holds now. -/
structure New (base h : List α) (r : Nat) (a : α) : Prop where
  kept : base <+: h
  fresh : base.length ≤ r
  holds : h[r]? = some a

theorem new_alloc {base h : List α} (hbase : base <+: h) (a : α) : New base (alloc h a).1 (alloc h a).2 a :=
  ⟨hbase.trans (prefix_append h [a]), hbase.length_le, by simp [alloc]⟩

/-- **Writing at a new reference** leaves what was there before. -/
theorem New.modify {base h : List α} {r : Nat} {a : α} (hr : New base h r a) (f : α → α) : New base (h.modify r f) r (f a) := by
  refine ⟨?_, hr.fresh, by simp [hr.holds]⟩
  obtain ⟨more, rfl⟩ := hr.kept
  obtain ⟨k, rfl⟩ := Nat.exists_eq_add_of_le hr.fresh
  rw [List.modify, modifyTailIdx_add]
  exact prefix_append base _

end Refs
