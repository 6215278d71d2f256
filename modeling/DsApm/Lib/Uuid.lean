import Mathlib.Data.List.Basic
import Mathlib.Algebra.Group.Nat.Defs
/-!
# Uuid — 128-bit identifiers and their text

An identifier is read by its text: eight, four, four, four and twelve hexadecimal digits between dashes.
-/
structure UUID where
  val : BitVec 128
  deriving DecidableEq

namespace UUID

def isZero (u : UUID) : Bool := u.val == 0

def hexDigit (n : Nat) : Char := if n < 10 then Char.ofNat (48 + n) else Char.ofNat (87 + n)

def hex : Nat → Nat → List Char
  | 0, _ => []
  | k + 1, n => hex k (n / 16) ++ [hexDigit (n % 16)]

def chars (u : UUID) : List Char :=
  hex 8 (u.val.toNat / 2 ^ 96) ++ '-' :: hex 4 (u.val.toNat / 2 ^ 80) ++ '-' :: hex 4 (u.val.toNat / 2 ^ 64) ++
    '-' :: hex 4 (u.val.toNat / 2 ^ 48) ++ '-' :: hex 12 u.val.toNat

@[irreducible] def text (u : UUID) : String := String.ofList u.chars

def isDigit (c : Char) : Bool := c == '-' || ('0' ≤ c && c ≤ '9') || ('a' ≤ c && c ≤ 'f')

theorem isDigit_hexDigit {n : Nat} (h : n < 16) : isDigit (hexDigit n) = true := by
  have hall : ∀ m < 16, isDigit (hexDigit m) = true := by decide
  exact hall n h

@[simp] theorem length_hex : ∀ k n : Nat, (hex k n).length = k
  | 0, _ => rfl
  | k + 1, n => by
    rw [hex, List.length_append, length_hex k, List.length_singleton]

theorem isDigit_of_mem_hex : ∀ {k n : Nat} {c : Char}, c ∈ hex k n → isDigit c = true
  | k + 1, n, c, h => by
    rw [hex, List.mem_append, List.mem_singleton] at h
    rcases h with h | rfl
    · exact isDigit_of_mem_hex h
    · exact isDigit_hexDigit (Nat.mod_lt n (by decide))

@[simp] theorem length_chars (u : UUID) : u.chars.length = 36 := by
  simp [chars]

theorem isDigit_of_mem_chars {u : UUID} {c : Char} (h : c ∈ u.chars) : isDigit c = true := by
  simp only [chars, List.mem_append, List.mem_cons] at h
  have hdash : isDigit '-' = true := by decide
  rcases h with (((h | rfl | h) | rfl | h) | rfl | h) | rfl | h
  all_goals first | exact isDigit_of_mem_hex h | exact hdash

theorem toList_text (u : UUID) : u.text.toList = u.chars := by
  rw [text, String.toList_ofList]

theorem text_ne_empty (u : UUID) : u.text ≠ "" := fun h => by
  have hlen : u.text.toList.length = 0 := by rw [h]; rfl
  simp [toList_text] at hlen

end UUID
