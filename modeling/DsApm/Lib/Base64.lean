import Mathlib.Data.List.Basic
/-!
# Base64 — bytes as text

The standard alphabet with padding.  The decoder skips line ends, takes padding only in the last quantum, and does not
look at the bits that the padding leaves over.
-/
namespace Base64

def alphabet : List Char :=
  ['A', 'B', 'C', 'D', 'E', 'F', 'G', 'H', 'I', 'J', 'K', 'L', 'M',
   'N', 'O', 'P', 'Q', 'R', 'S', 'T', 'U', 'V', 'W', 'X', 'Y', 'Z',
   'a', 'b', 'c', 'd', 'e', 'f', 'g', 'h', 'i', 'j', 'k', 'l', 'm',
   'n', 'o', 'p', 'q', 'r', 's', 't', 'u', 'v', 'w', 'x', 'y', 'z',
   '0', '1', '2', '3', '4', '5', '6', '7', '8', '9', '+', '/']

def digit (n : Nat) : Char := alphabet.getD n 'A'

def value (c : Char) : Option Nat := alphabet.idxOf? c

def encode : List Nat → List Char
  | [] => []
  | [a] => [digit (a / 4), digit (a % 4 * 16), '=', '=']
  | [a, b] => [digit (a / 4), digit (a % 4 * 16 + b / 16), digit (b % 16 * 4), '=']
  | a :: b :: c :: rest =>
    digit (a / 4) :: digit (a % 4 * 16 + b / 16) :: digit (b % 16 * 4 + c / 64) :: digit (c % 64) :: encode rest

/-- The bytes of a quantum, of which the last ones may be missing. -/
def quantum (w x : Nat) : Option Nat → Option Nat → List Nat
  | some y, some z => [w * 4 + x / 16, x % 16 * 16 + y / 4, y % 4 * 64 + z]
  | some y, none => [w * 4 + x / 16, x % 16 * 16 + y / 4]
  | none, _ => [w * 4 + x / 16]

def quanta : List Char → Option (List Nat)
  | [] => some []
  | w :: x :: y :: z :: rest =>
    (value w).bind (fun w => (value x).bind (fun x =>
      if rest = [] ∧ z = '=' then
        if y = '=' then some (quantum w x none none) else (value y).map (fun y => quantum w x (some y) none)
      else (value y).bind (fun y => (value z).bind (fun z =>
        (quanta rest).map (quantum w x (some y) (some z) ++ ·)))))
  | _ => none

def decode (cs : List Char) : Option (List Nat) := quanta (cs.filter (fun c => c ≠ '\r' && c ≠ '\n'))

@[simp] theorem value_digit {n : Nat} (h : n < 64) : value (digit n) = some n := by
  have hall : ∀ n < 64, value (digit n) = some n := by decide
  exact hall n h

theorem lt_of_mem_alphabet {c : Char} (h : c ∈ alphabet) : 32 < c.toNat ∧ c.toNat < 128 := by
  have hall : alphabet.all (fun c => decide (32 < c.toNat ∧ c.toNat < 128)) = true := rfl
  exact of_decide_eq_true (List.all_eq_true.1 hall c h)

theorem digit_mem (n : Nat) : digit n ∈ alphabet := by
  rw [digit, List.getD_eq_getElem?_getD]
  cases h : alphabet[n]? with
  | none => decide
  | some c => exact List.mem_of_getElem? h

theorem digit_ne_pad (n : Nat) : digit n ≠ '=' := by
  intro h
  have hmem := digit_mem n
  rw [h] at hmem
  revert hmem
  decide

theorem mem_encode {c : Char} : ∀ {bs : List Nat}, c ∈ encode bs → c ∈ alphabet ∨ c = '='
  | [], h => by simp [encode] at h
  | [a], h => by
    simp only [encode, List.mem_cons, List.not_mem_nil, or_false] at h
    rcases h with rfl | rfl | rfl | rfl <;> simp [digit_mem]
  | [a, b], h => by
    simp only [encode, List.mem_cons, List.not_mem_nil, or_false] at h
    rcases h with rfl | rfl | rfl | rfl <;> simp [digit_mem]
  | a :: b :: c' :: rest, h => by
    simp only [encode, List.mem_cons] at h
    rcases h with rfl | rfl | rfl | rfl | h
    · simp [digit_mem]
    · simp [digit_mem]
    · simp [digit_mem]
    · simp [digit_mem]
    · exact mem_encode h

theorem encode_eq_nil {bs : List Nat} : encode bs = [] ↔ bs = [] := by
  rcases bs with _ | ⟨a, _ | ⟨b, _ | ⟨c, rest⟩⟩⟩ <;> simp [encode]

theorem quanta_encode : ∀ {bs : List Nat}, (∀ b ∈ bs, b < 256) → quanta (encode bs) = some bs
  | [], _ => rfl
  | [a], h => by
    have ha := h a (by simp)
    rw [encode, quanta, value_digit (by omega), value_digit (by omega)]
    simp [quantum]
    omega
  | [a, b], h => by
    have ha := h a (by simp)
    have hb := h b (by simp)
    rw [encode, quanta, value_digit (by omega), value_digit (by omega), value_digit (by omega)]
    simp [quantum, digit_ne_pad]
    omega
  | a :: b :: c :: rest, h => by
    have ha := h a (by simp)
    have hb := h b (by simp)
    have hc := h c (by simp)
    have hrest := quanta_encode (fun x hx => h x (by simp [hx]) : ∀ x ∈ rest, x < 256)
    rw [encode, quanta, value_digit (by omega), value_digit (by omega), value_digit (by omega), value_digit (by omega),
      hrest]
    simp [quantum, digit_ne_pad]
    omega

/-- **What is written is read back.** -/
theorem decode_encode {bs : List Nat} (h : ∀ b ∈ bs, b < 256) : decode (encode bs) = some bs := by
  have hplain : (encode bs).filter (fun c => c ≠ '\r' && c ≠ '\n') = encode bs := by
    refine List.filter_eq_self.2 (fun c hc => ?_)
    have hlt : 32 < c.toNat := by
      rcases mem_encode hc with hc | rfl
      · exact (lt_of_mem_alphabet hc).1
      · decide
    have hreturn : c ≠ '\r' := fun h => absurd hlt (by rw [h]; decide)
    have hnewline : c ≠ '\n' := fun h => absurd hlt (by rw [h]; decide)
    simp [hreturn, hnewline]
  rw [decode, hplain, quanta_encode h]

end Base64
