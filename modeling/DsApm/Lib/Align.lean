import Mathlib.Tactic.Ring
/-!
# Align — multiples of a step

Rounding to multiples of a step, and the two facts about multiples that interval arithmetic over them needs: a multiple
below another is below it by a whole step, and rounding gives the nearest one on its side.
-/
namespace Align

variable {step : Nat}

def roundDown (step n : Nat) : Nat := n / step * step

def roundUp (step n : Nat) : Nat := if n % step = 0 then n else (n / step + 1) * step

theorem add_le_of_lt {a b : Nat} (ha : a % step = 0) (hb : b % step = 0) (h : a < b) : a + step ≤ b := by
  obtain ⟨i, rfl⟩ := Nat.dvd_of_mod_eq_zero ha
  obtain ⟨j, rfl⟩ := Nat.dvd_of_mod_eq_zero hb
  have hij : i < j := Nat.lt_of_mul_lt_mul_left h
  calc step * i + step = step * (i + 1) := by ring
    _ ≤ step * j := Nat.mul_le_mul_left step hij

theorem le_of_lt_add {a b : Nat} (ha : a % step = 0) (hb : b % step = 0) (h : a < b + step) : a ≤ b := by
  by_contra hc
  have := add_le_of_lt hb ha (by omega)
  omega

@[simp] theorem add_mod_zero {a : Nat} (ha : a % step = 0) : (a + step) % step = 0 := by
  rw [Nat.add_mod_right, ha]

theorem roundDown_mod (step n : Nat) : roundDown step n % step = 0 := Nat.mul_mod_left _ _

theorem roundDown_le (step n : Nat) : roundDown step n ≤ n := Nat.div_mul_le_self n step

theorem roundDown_eq (step n : Nat) : roundDown step n = n - n % step := by
  have := Nat.div_add_mod n step
  unfold roundDown
  rw [Nat.mul_comm] at this
  omega

theorem lt_roundDown_add (hs : 0 < step) (n : Nat) : n < roundDown step n + step := by
  have h := Nat.mod_lt n hs
  rw [roundDown_eq]
  omega

theorem roundDown_of_mod {n : Nat} (h : n % step = 0) : roundDown step n = n := by
  rw [roundDown_eq, h, Nat.sub_zero]

theorem le_roundDown {a n : Nat} (ha : a % step = 0) (h : a ≤ n) : a ≤ roundDown step n := by
  rcases Nat.eq_zero_or_pos step with rfl | hs
  · rw [Nat.mod_zero] at ha
    omega
  · exact le_of_lt_add ha (roundDown_mod step n) (lt_of_le_of_lt h (lt_roundDown_add hs n))

theorem roundUp_mod (step n : Nat) : roundUp step n % step = 0 := by
  unfold roundUp
  split
  · assumption
  · exact Nat.mul_mod_left _ _

theorem roundUp_of_mod {n : Nat} (h : n % step = 0) : roundUp step n = n := if_pos h

theorem roundUp_eq {n : Nat} (h : n % step ≠ 0) : roundUp step n = n - n % step + step := by
  unfold roundUp
  rw [if_neg h, Nat.add_mul, Nat.one_mul]
  exact congrArg (· + step) (roundDown_eq step n)

theorem le_roundUp (hs : 0 < step) (n : Nat) : n ≤ roundUp step n := by
  by_cases h : n % step = 0
  · rw [roundUp_of_mod h]
  · have := Nat.mod_lt n hs
    rw [roundUp_eq h]
    omega

theorem roundUp_le_add (step n : Nat) : roundUp step n ≤ n + step := by
  by_cases h : n % step = 0
  · rw [roundUp_of_mod h]
    omega
  · rw [roundUp_eq h]
    omega

theorem roundUp_le (hs : 0 < step) {a n : Nat} (ha : a % step = 0) (h : n ≤ a) : roundUp step n ≤ a := by
  refine le_of_lt_add (roundUp_mod step n) ha ?_
  by_cases hn : n % step = 0
  · rw [roundUp_of_mod hn]
    omega
  · have := Nat.pos_of_ne_zero hn
    rw [roundUp_eq hn]
    have := Nat.mod_le n step
    omega

theorem roundUp_le_iff (hs : 0 < step) {a n : Nat} (ha : a % step = 0) : roundUp step n ≤ a ↔ n ≤ a :=
  ⟨(le_roundUp hs n).trans, roundUp_le hs ha⟩

end Align
