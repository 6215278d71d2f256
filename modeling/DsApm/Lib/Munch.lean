import Mathlib.Data.List.Basic
/-!
# Munch — lexing by maximal munch

A lexer knows of which kind a whole word is.  It takes the longest word at the start of its input and leaves out the words
of some kinds; it gives nothing when no word starts at a character.  `lex_append`: a word is read as itself before everything
that makes no longer word of it.  `run` is a partial automaton, in which a character without a step rules out everything that
follows.
-/
namespace Munch

open List Option

section
variable {κ : Type} (kindOf : List Char → Option κ) (skipped : κ → Bool)

/-- The longest word of at most so many characters at the start of a text, as its kind and its length. -/
def longest (s : List Char) : Nat → Option (κ × Nat)
  | 0 => none
  | n + 1 =>
    match kindOf (s.take (n + 1)) with
    | some k => some (k, n + 1)
    | none => longest s n

def lexWith : Nat → List Char → Option (List (κ × List Char))
  | _, [] => some []
  | 0, _ :: _ => none
  | fuel + 1, c :: s => do
    let (k, n) ← longest kindOf (c :: s) (c :: s).length
    let words ← lexWith fuel ((c :: s).drop n)
    some (if skipped k then words else (k, (c :: s).take n) :: words)

def lex (s : List Char) : Option (List (κ × List Char)) := lexWith kindOf skipped s.length s

variable {kindOf skipped}

theorem longest_pos {s : List Char} : ∀ {m : Nat} {k : κ} {n : Nat}, longest kindOf s m = some (k, n) → 0 < n
  | m + 1, k, n, h => by
    unfold longest at h
    split at h
    · simp only [Option.some.injEq, Prod.mk.injEq] at h
      omega
    · exact longest_pos h

theorem lexWith_eq : ∀ (f g : Nat) (s : List Char), s.length ≤ f → s.length ≤ g →
    lexWith kindOf skipped f s = lexWith kindOf skipped g s
  | f, g, [], _, _ => by rw [lexWith, lexWith]
  | f + 1, g + 1, c :: s, hf, hg => by
    rw [length_cons] at hf hg
    rw [lexWith, lexWith]
    cases hl : longest kindOf (c :: s) (c :: s).length with
    | none => rfl
    | some p =>
      have hn := longest_pos (k := p.1) (n := p.2) hl
      have hd : ((c :: s).drop p.2).length = s.length + 1 - p.2 := by rw [length_drop, length_cons]
      simp only [bind_eq_bind, bind_some, lexWith_eq f g ((c :: s).drop p.2) (by omega) (by omega)]

theorem longest_eq {w rest : List Char} {k : κ} (hk : kindOf w = some k) (hne : w ≠ [])
    (hstop : ∀ v, v ≠ [] → v <+: rest → kindOf (w ++ v) = none) :
    ∀ m, w.length ≤ m → m ≤ (w ++ rest).length → longest kindOf (w ++ rest) m = some (k, w.length)
  | 0, hm, _ => absurd (List.length_eq_zero_iff.1 (Nat.le_zero.1 hm)) hne
  | m + 1, hm, hle => by
    rw [longest]
    by_cases heq : w.length = m + 1
    · rw [← heq, take_left, hk]
    · have htake : (w ++ rest).take (m + 1) = w ++ rest.take (m + 1 - w.length) := by
        rw [take_append, take_of_length_le hm]
      have hv : rest.take (m + 1 - w.length) ≠ [] := by
        rw [List.length_append] at hle
        rw [Ne, take_eq_nil_iff, not_or]
        exact ⟨by omega, by rintro rfl; rw [length_nil] at hle; omega⟩
      rw [htake, hstop _ hv ( take_prefix _ _)]
      exact longest_eq hk hne hstop m (by omega) (by omega)

/-- **A word before something that makes no longer word of it.** -/
theorem lex_append {w rest : List Char} {k : κ} (hk : kindOf w = some k) (hne : w ≠ [])
    (hstop : ∀ v, v ≠ [] → v <+: rest → kindOf (w ++ v) = none) :
    lex kindOf skipped (w ++ rest) =
      (lex kindOf skipped rest).map (fun words => if skipped k then words else (k, w) :: words) := by
  have hl := longest_eq hk hne hstop _ (by rw [List.length_append]; omega) (Nat.le_refl _)
  unfold lex
  cases w with
  | nil => exact absurd rfl hne
  | cons c w =>
    have htake : (c :: (w ++ rest)).take (w.length + 1) = c :: w := @take_left _ (c :: w) rest
    have hdrop : (c :: (w ++ rest)).drop (w.length + 1) = rest := @drop_left _ (c :: w) rest
    rw [cons_append] at hl ⊢
    rw [length_cons, lexWith, hl]
    simp only [length_cons, bind_eq_bind, bind_some, htake, hdrop]
    rw [lexWith_eq (w ++ rest).length rest.length rest (by rw [List.length_append]; omega) (Nat.le_refl _)]
    cases lexWith kindOf skipped rest.length rest <;> rfl

end

/-! ## Automata -/

section
variable {σ : Type} (step : σ → Char → Option σ)

def run (q : Option σ) (s : List Char) : Option σ := s.foldl (fun q c => q.bind (step · c)) q

@[simp] theorem run_nil (q : Option σ) : run step q [] = q := rfl

@[simp] theorem run_cons (q : Option σ) (c : Char) (s : List Char) : run step q (c :: s) = run step (q.bind (step · c)) s := rfl

@[simp] theorem run_none : ∀ s : List Char, run step none s = none
  | [] => rfl
  | _ :: s => run_none s

theorem run_append (q : Option σ) (s t : List Char) : run step q (s ++ t) = run step (run step q s) t := by
  unfold run
  rw [foldl_append]

theorem run_stuck {q : Option σ} {s : List Char} {c : Char} (h : ∀ p, run step q s = some p → step p c = none) (t : List Char) :
    run step q (s ++ c :: t) = none := by
  rw [run_append, run_cons]
  cases hq : run step q s with
  | none => rw [bind_none, run_none]
  | some p => rw [bind_some, h p hq, run_none]

theorem run_of_mem {c : Char} (h : ∀ p, step p c = none) {q : Option σ} {s : List Char} (hc : c ∈ s) : run step q s = none := by
  obtain ⟨before, after, rfl⟩ := append_of_mem hc
  exact run_stuck step (fun p _ => h p) after

end

end Munch
