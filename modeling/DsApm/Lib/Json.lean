import DsApm.Lib.Lists
/-!
# Json — strings and bytes as `encoding/json` writes them

A string is written between double quotes with escapes for what would end it, for control characters and for what HTML
reads, and bytes are written in base64.  What is written is read back (`string_quoted`, `bytes_base64`), and has no line
break in it (`quoted_oneLine`).
-/
namespace Json

open List

def hex (n : Nat) : Char := Nat.digitChar n

def unhex (c : Char) : Option Nat :=
  if '0' ≤ c ∧ c ≤ '9' then some (c.toNat - 48)
  else if 'a' ≤ c ∧ c ≤ 'f' then some (c.toNat - 87)
  else if 'A' ≤ c ∧ c ≤ 'F' then some (c.toNat - 55)
  else none

/-! ## Strings -/

def escape (c : Char) : List Char :=
  if c = '"' then ['\\', '"']
  else if c = '\\' then ['\\', '\\']
  else if c = '\x08' then ['\\', 'b']
  else if c = '\x0c' then ['\\', 'f']
  else if c = '\n' then ['\\', 'n']
  else if c = '\r' then ['\\', 'r']
  else if c = '\t' then ['\\', 't']
  else if c < ' ' ∨ c = '<' ∨ c = '>' ∨ c = '&' then ['\\', 'u', '0', '0', hex (c.toNat / 16), hex (c.toNat % 16)]
  else if c = '\u2028' then ['\\', 'u', '2', '0', '2', '8']
  else if c = '\u2029' then ['\\', 'u', '2', '0', '2', '9']
  else [c]

def quoted (s : List Char) : List Char := '"' :: s.flatMap escape ++ ['"']

/-- A character of a string as it is read, or the number of an escape. -/
inductive Piece
  | char (c : Char)
  | code (n : Nat)
  deriving DecidableEq

def number (a b c d : Char) : Option Nat :=
  match unhex a, unhex b, unhex c, unhex d with
  | some a, some b, some c, some d => some (16 * (16 * (16 * a + b) + c) + d)
  | _, _, _, _ => none

def unescape : Char → Option Char
  | '"' => some '"'
  | '\\' => some '\\'
  | '/' => some '/'
  | 'b' => some '\x08'
  | 'f' => some '\x0c'
  | 'n' => some '\n'
  | 'r' => some '\r'
  | 't' => some '\t'
  | _ => none

def push (p : Option Piece) (r : Option (List Piece × List Char)) : Option (List Piece × List Char) :=
  match p, r with
  | some p, some (ps, rest) => some (p :: ps, rest)
  | _, _ => none

/-- What is between an opening quote and the closing one, and what comes after. -/
def body : List Char → Option (List Piece × List Char)
  | [] => none
  | '"' :: rest => some ([], rest)
  | '\\' :: 'u' :: a :: b :: c :: d :: rest => push ((number a b c d).map .code) (body rest)
  | '\\' :: c :: rest => push ((unescape c).map .char) (body rest)
  | c :: rest => if c < ' ' ∨ c = '\\' then none else push (some (.char c)) (body rest)

def isHigh (n : Nat) : Bool := decide (0xd800 ≤ n ∧ n < 0xdc00)

def isLow (n : Nat) : Bool := decide (0xdc00 ≤ n ∧ n < 0xe000)

def character (n : Nat) : Char := if n.isValidChar then Char.ofNat n else '\ufffd'

/-- The characters of a string: two numbers may be a pair of surrogates. -/
def join : List Piece → List Char
  | .code m :: .code n :: ps =>
    if isHigh m && isLow n then Char.ofNat (0x10000 + (m - 0xd800) * 0x400 + (n - 0xdc00)) :: join ps
    else character m :: join (.code n :: ps)
  | .code m :: ps => character m :: join ps
  | .char c :: ps => c :: join ps
  | [] => []

def string : List Char → Option (List Char × List Char)
  | '"' :: rest => (body rest).map fun r => (join r.1, r.2)
  | _ => none

theorem unhex_hex : ∀ n, n < 16 → unhex (hex n) = some n := by decide

theorem join_code {m : Nat} (h : isHigh m = false) : ∀ ps : List Piece, join (.code m :: ps) = character m :: join ps
  | [] => rfl
  | .char c :: ps => rfl
  | .code n :: ps => by rw [join, h, Bool.false_and, if_neg Bool.false_ne_true]

theorem body_u {a b c d : Char} {n : Nat} (h : number a b c d = some n) (rest : List Char) :
    body ('\\' :: 'u' :: a :: b :: c :: d :: rest) = push (some (.code n)) (body rest) := by
  rw [body, h]; rfl

theorem body_escape {c c' : Char} (h : unescape c = some c') (rest : List Char) :
    body ('\\' :: c :: rest) = push (some (.char c')) (body rest) := by
  have hu : c ≠ 'u' := fun hc => by rw [hc] at h; cases h
  rw [body, h]
  · rfl
  · intro a b c' d rest' hc; simp_all

theorem body_char {c : Char} (hq : c ≠ '"') (hb : c ≠ '\\') (hc : ¬c < ' ') (rest : List Char) :
    body (c :: rest) = push (some (.char c)) (body rest) := by
  rw [body, if_neg (fun h => h.elim hc hb)]
  all_goals simp_all

theorem character_toNat (c : Char) : character c.toNat = c := by
  unfold character
  rw [if_pos (show c.toNat.isValidChar from c.valid), Char.ofNat_toNat]

theorem lt_of_special {c : Char} (h : c < ' ' ∨ c = '<' ∨ c = '>' ∨ c = '&') : c.toNat < 256 := by
  rcases h with h | rfl | rfl | rfl
  · exact Nat.lt_trans (Char.lt_def.1 h) (by decide)
  all_goals decide

theorem body_number {c : Char} (h : c.toNat < 256) (rest : List Char) :
    body ('\\' :: 'u' :: '0' :: '0' :: hex (c.toNat / 16) :: hex (c.toNat % 16) :: rest) = push (some (.code c.toNat)) (body rest) ∧
      ∀ ps, join (.code c.toNat :: ps) = c :: join ps := by
  have hnumber : number '0' '0' (hex (c.toNat / 16)) (hex (c.toNat % 16)) = some c.toNat := by
    have hzero : unhex '0' = some 0 := rfl
    simp only [number, hzero, unhex_hex _ (show c.toNat / 16 < 16 by omega), unhex_hex _ (show c.toNat % 16 < 16 by omega)]
    exact congrArg some (by omega)
  refine ⟨body_u hnumber rest, fun ps => ?_⟩
  rw [join_code (decide_eq_false (by omega)), character_toNat]

inductive Escaped (c : Char) : List Char → Prop
  | short {d : Char} (h : unescape d = some c) : Escaped c ['\\', d]
  | byte (h : c.toNat < 256) : Escaped c ['\\', 'u', '0', '0', hex (c.toNat / 16), hex (c.toNat % 16)]
  | line (h : c = '\u2028') : Escaped c ['\\', 'u', '2', '0', '2', '8']
  | paragraph (h : c = '\u2029') : Escaped c ['\\', 'u', '2', '0', '2', '9']
  | self (hq : c ≠ '"') (hb : c ≠ '\\') (hc : ¬c < ' ') : Escaped c [c]

/-- **Every character is written in one of them.** -/
theorem escaped (c : Char) : Escaped c (escape c) := by
  unfold escape
  by_cases hq : c = '"'
  · rw [if_pos hq]; exact .short (by rw [hq]; rfl)
  by_cases hb : c = '\\'
  · rw [if_neg hq, if_pos hb]; exact .short (by rw [hb]; rfl)
  rw [if_neg hq, if_neg hb]
  split
  · rename_i h; exact .short (by rw [h]; rfl)
  split
  · rename_i h; exact .short (by rw [h]; rfl)
  split
  · rename_i h; exact .short (by rw [h]; rfl)
  split
  · rename_i h; exact .short (by rw [h]; rfl)
  split
  · rename_i h; exact .short (by rw [h]; rfl)
  split
  · rename_i h; exact .byte (lt_of_special h)
  rename_i hspecial
  split
  · rename_i h; exact .line h
  split
  · rename_i h; exact .paragraph h
  · exact .self hq hb (fun h => hspecial (Or.inl h))

theorem body_escaped (c : Char) (rest : List Char) :
    ∃ p, body (escape c ++ rest) = push (some p) (body rest) ∧ ∀ ps, join (p :: ps) = c :: join ps := by
  have hescaped := escaped c
  generalize escape c = w at hescaped ⊢
  cases hescaped with
  | short h => exact ⟨.char c, body_escape h rest, fun _ => rfl⟩
  | byte h => exact ⟨.code c.toNat, body_number h rest⟩
  | line h => exact ⟨.code 0x2028, body_u rfl rest, fun ps => h ▸ join_code rfl ps⟩
  | paragraph h => exact ⟨.code 0x2029, body_u rfl rest, fun ps => h ▸ join_code rfl ps⟩
  | self hq hb hc => exact ⟨.char c, body_char hq hb hc rest, fun _ => rfl⟩

theorem body_flatMap (rest : List Char) : ∀ s : List Char,
    (body (s.flatMap escape ++ '"' :: rest)).map (fun r => (join r.1, r.2)) = some (s, rest)
  | [] => rfl
  | c :: s => by
    rw [flatMap_cons, List.append_assoc]
    obtain ⟨p, hp, hjoin⟩ := body_escaped c (s.flatMap escape ++ '"' :: rest)
    obtain ⟨r, hr, hrs⟩ := Option.map_eq_some_iff.1 (body_flatMap rest s)
    cases hrs
    rw [hp, hr]
    exact congrArg some (Prod.ext (hjoin r.1) rfl)

/-- **A string that is written is read back**, whatever comes after it. -/
theorem string_quoted (s rest : List Char) : string (quoted s ++ rest) = some (s, rest) := by
  have := body_flatMap rest s
  simpa [string, quoted] using this

def escapeChars : List Char :=
  ['\\', '"', '/', 'b', 'f', 'n', 'r', 't', 'u', '0', '1', '2', '3', '4', '5', '6', '7', '8', '9', 'a', 'b', 'c', 'd', 'e', 'f']

theorem hex_mem : ∀ n, n < 16 → hex n ∈ escapeChars := by decide

theorem mem_of_unescape {c d : Char} (h : unescape d = some c) : d ∈ escapeChars := by
  unfold unescape at h
  split at h
  case h_9 => cases h
  all_goals decide

theorem mem_escape {c d : Char} (h : d ∈ escape c) : d ∈ escapeChars ∨ d = c ∧ escape c = [c] := by
  have hescaped := escaped c
  generalize escape c = w at h hescaped
  cases hescaped with
  | self => exact .inr ⟨mem_singleton.1 h, rfl⟩
  | short hd =>
    refine .inl ?_
    rcases mem_cons.1 h with rfl | h
    · decide
    · exact mem_singleton.1 h ▸ mem_of_unescape hd
  | byte hc =>
    refine .inl (forall_mem_cons.2 ⟨by decide, ?_⟩ d h)
    refine forall_mem_cons.2 ⟨by decide, forall_mem_cons.2 ⟨by decide, forall_mem_cons.2 ⟨by decide, ?_⟩⟩⟩
    exact forall_mem_cons.2 ⟨hex_mem _ (by omega), forall_mem_singleton.2 (hex_mem _ (by omega))⟩
  | line => exact .inl ((Listed.forall_mem (by decide) : ∀ d ∈ ['\\', 'u', '2', '0', '2', '8'], d ∈ escapeChars) d h)
  | paragraph => exact .inl ((Listed.forall_mem (by decide) : ∀ d ∈ ['\\', 'u', '2', '0', '2', '9'], d ∈ escapeChars) d h)

theorem escape_oneLine (c : Char) : '\n' ∉ escape c := fun h => by
  rcases mem_escape h with h | ⟨rfl, h⟩
  · exact absurd h (by decide)
  · exact absurd h (by decide)

theorem quoted_oneLine (s : List Char) : '\n' ∉ quoted s := by
  unfold quoted
  simp [escape_oneLine]

/-! ## Bytes -/

def alphabet : List Char := "ABCDEFGHIJKLMNOPQRSTUVWXYZabcdefghijklmnopqrstuvwxyz0123456789+/".toList

def sextet (n : Nat) : Char := alphabet.getD n '='

def unsextet (c : Char) : Option Nat := alphabet.idxOf? c

def base64 : List UInt8 → List Char
  | [] => []
  | [a] => [sextet (a.toNat / 4), sextet (a.toNat % 4 * 16), '=', '=']
  | [a, b] => [sextet (a.toNat / 4), sextet (a.toNat % 4 * 16 + b.toNat / 16), sextet (b.toNat % 16 * 4), '=']
  | a :: b :: c :: s => [sextet (a.toNat / 4), sextet (a.toNat % 4 * 16 + b.toNat / 16), sextet (b.toNat % 16 * 4 + c.toNat / 64),
      sextet (c.toNat % 64)] ++ base64 s

/-- The bytes of groups of four characters, the last of which may be filled up. -/
def unbase64 : List Char → Option (List UInt8)
  | [] => some []
  | [a, b, '=', '='] =>
    match unsextet a, unsextet b with
    | some a, some b => some [UInt8.ofNat (a * 4 + b / 16)]
    | _, _ => none
  | [a, b, c, '='] =>
    match unsextet a, unsextet b, unsextet c with
    | some a, some b, some c => some [UInt8.ofNat (a * 4 + b / 16), UInt8.ofNat (b % 16 * 16 + c / 4)]
    | _, _, _ => none
  | a :: b :: c :: d :: s =>
    match unsextet a, unsextet b, unsextet c, unsextet d, unbase64 s with
    | some a, some b, some c, some d, some bytes =>
      some (UInt8.ofNat (a * 4 + b / 16) :: UInt8.ofNat (b % 16 * 16 + c / 4) :: UInt8.ofNat (c % 4 * 64 + d) :: bytes)
    | _, _, _, _, _ => none
  | _ => none

theorem unsextet_sextet : ∀ n, n < 64 → unsextet (sextet n) = some n := by decide

theorem sextet_ne : ∀ n, n < 64 → sextet n ≠ '=' := by decide +kernel

theorem unbase64_group {a b c d : Nat} (ha : a < 64) (hb : b < 64) (hc : c < 64) (hd : d < 64) {s : List Char} {bytes : List UInt8}
    (h : unbase64 s = some bytes) : unbase64 (sextet a :: sextet b :: sextet c :: sextet d :: s) =
      some (UInt8.ofNat (a * 4 + b / 16) :: UInt8.ofNat (b % 16 * 16 + c / 4) :: UInt8.ofNat (c % 4 * 64 + d) :: bytes) := by
  rw [unbase64]
  · simp only [unsextet_sextet, ha, hb, hc, hd, h]
  · intro _ hd' _; exact sextet_ne d hd hd'
  · intro hd' _; exact sextet_ne d hd hd'

/-- **Bytes that are written in base64 are read back.** -/
theorem bytes_base64 : ∀ s : List UInt8, unbase64 (base64 s) = some s
  | [] => rfl
  | [a] => by
    have ha := a.toNat_lt
    have h1 := unsextet_sextet (a.toNat / 4) (by omega)
    have h2 := unsextet_sextet (a.toNat % 4 * 16) (by omega)
    simp only [base64, unbase64, h1, h2]
    rw [show a.toNat / 4 * 4 + a.toNat % 4 * 16 / 16 = a.toNat by omega, UInt8.ofNat_toNat]
  | [a, b] => by
    have ha := a.toNat_lt
    have hb := b.toNat_lt
    have h1 := unsextet_sextet (a.toNat / 4) (by omega)
    have h2 := unsextet_sextet (a.toNat % 4 * 16 + b.toNat / 16) (by omega)
    have h3 := unsextet_sextet (b.toNat % 16 * 4) (by omega)
    rw [base64, unbase64]
    · simp only [h1, h2, h3]
      rw [show a.toNat / 4 * 4 + (a.toNat % 4 * 16 + b.toNat / 16) / 16 = a.toNat by omega,
        show (a.toNat % 4 * 16 + b.toNat / 16) % 16 * 16 + b.toNat % 16 * 4 / 4 = b.toNat by omega, UInt8.ofNat_toNat, UInt8.ofNat_toNat]
    · exact sextet_ne _ (by omega)
  | a :: b :: c :: s => by
    have ha := a.toNat_lt
    have hb := b.toNat_lt
    have hc := c.toNat_lt
    rw [base64]
    refine (unbase64_group (by omega) (by omega) (by omega) (by omega) (bytes_base64 s)).trans ?_
    rw [show a.toNat / 4 * 4 + (a.toNat % 4 * 16 + b.toNat / 16) / 16 = a.toNat by omega,
      show (a.toNat % 4 * 16 + b.toNat / 16) % 16 * 16 + (b.toNat % 16 * 4 + c.toNat / 64) / 4 = b.toNat by omega,
      show (b.toNat % 16 * 4 + c.toNat / 64) % 4 * 64 + c.toNat % 64 = c.toNat by omega,
      UInt8.ofNat_toNat, UInt8.ofNat_toNat, UInt8.ofNat_toNat]

end Json
