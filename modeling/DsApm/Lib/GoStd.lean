import Mathlib.Data.List.Basic
import Mathlib.Data.List.TakeWhile
import Mathlib.Algebra.Group.Nat.Defs
/-!
# GoStd — instants and strings of Go's standard library

An instant is its number of nanoseconds, `time.Time.Unix` its whole seconds, and `Format(time.RFC3339)` keeps just
those.  The string functions work on the characters of a string.
-/
namespace GoStd

open List

abbrev Time := Int

abbrev Duration := Int

def second : Duration := 1000000000

def unix (t : Time) : Int := t / second

/-- `time.Duration(secs) * time.Second`, in 64 bits. -/
def seconds (secs : Int) : Duration := (secs * second).bmod (2 ^ 64)

theorem unix_mono {t t' : Time} (h : t ≤ t') : unix t ≤ unix t' := Int.ediv_le_ediv (by decide) h

def isSpace (c : Char) : Bool :=
  c == ' ' || ('\t' ≤ c && c ≤ '\r') || c == '\u0085' || c == '\u00a0' || c == '\u1680' ||
    ('\u2000' ≤ c && c ≤ '\u200a') || c == '\u2028' || c == '\u2029' || c == '\u202f' || c == '\u205f' || c == '\u3000'

theorem toNat_of_isAlphanum {c : Char} (h : c.isAlphanum = true) : c.toNat < 128 := by
  delta Char.isAlphanum Char.isAlpha Char.isUpper Char.isLower Char.isDigit at h
  simp only [Bool.or_eq_true, Bool.and_eq_true, decide_eq_true_eq] at h
  rcases h with (⟨_, h⟩ | ⟨_, h⟩) | ⟨_, h⟩
  · have : c.toNat ≤ 90 := h
    omega
  · have : c.toNat ≤ 122 := h
    omega
  · have : c.toNat ≤ 57 := h
    omega

theorem isSpace_of_isAlphanum {c : Char} (h : c.isAlphanum = true) : isSpace c = false := by
  have hall : ∀ n : Fin 128, (Char.ofNat n.val).isAlphanum = true → isSpace (Char.ofNat n.val) = false := by decide
  have hc := hall ⟨c.toNat, toNat_of_isAlphanum h⟩
  rw [Char.ofNat_toNat] at hc
  exact hc h

def trimSpace (s : String) : String :=
  String.ofList ((s.toList.dropWhile isSpace).reverse.dropWhile isSpace).reverse

def isBlank (s : String) : Bool := s.toList.all isSpace

/-- `unicode.ToLower`, as far as it yields an ASCII letter. -/
def toLower (c : Char) : Char :=
  if c == '\u212a' then 'k' else if c == '\u0130' then 'i' else c.toLower

/-- `strings.EqualFold`; `fold` gives a representative of a character's class under case folding. -/
def equalFold (fold : Char → Char) (s t : String) : Bool := s.toList.map fold == t.toList.map fold

def atoi (s : List Char) : Option Int :=
  let digits (cs : List Char) (limit : Nat) : Option Nat :=
    if cs ≠ [] ∧ cs.all Char.isDigit ∧ Nat.ofDigitChars 10 cs 0 < limit then some (Nat.ofDigitChars 10 cs 0) else none
  match s with
  | '-' :: cs => (digits cs (2 ^ 63 + 1)).map (fun n => -(n : Int))
  | '+' :: cs => (digits cs (2 ^ 63)).map (fun n => (n : Int))
  | cs => (digits cs (2 ^ 63)).map (fun n => (n : Int))

def contains (s sub : List Char) : Bool :=
  s.tails.any (fun t => sub.isPrefixOf t)

/-- `if len(s) > n { s = s[:n] + "..." }` on bytes, up to a rune that the cut would split. -/
def truncate (s : String) (n : Nat) : String :=
  if n < s.utf8ByteSize then
    String.ofList ((s.toList.foldl (fun (acc : Nat × List Char) c =>
      if acc.1 + c.utf8Size ≤ n then (acc.1 + c.utf8Size, c :: acc.2) else (n + 1, acc.2)) (0, [])).2.reverse) ++ "..."
  else s

/-- `%q` of a text: the escapes of ASCII; every other character is taken as printable. -/
def quote (s : String) : String :=
  let esc := fun (c : Char) => match c with
    | '"' => "\\\""
    | '\\' => "\\\\"
    | '\n' => "\\n"
    | '\r' => "\\r"
    | '\t' => "\\t"
    | '\x07' => "\\a"
    | '\x08' => "\\b"
    | '\x0b' => "\\v"
    | '\x0c' => "\\f"
    | c => if c < ' ' || c == '\x7f' then
        "\\x" ++ String.ofList [Nat.digitChar (c.toNat / 16), Nat.digitChar (c.toNat % 16)]
      else String.singleton c
  "\"" ++ String.join (s.toList.map esc) ++ "\""

/-! ## Numbers as they are written -/

theorem toDigits_inj {m n : Nat} (h : Nat.toDigits 10 m = Nat.toDigits 10 n) : m = n := by
  rw [← Nat.ofDigitChars_toDigits (b := 10) (n := m) (by decide) (by decide), h, Nat.ofDigitChars_toDigits (by decide) (by decide)]

theorem not_mem_toDigits {c : Char} (hc : c.isDigit = false) (n : Nat) : c ∉ Nat.toDigits 10 n := fun h => by
  rw [Nat.isDigit_of_mem_toDigits (by decide) (by decide) h] at hc
  cases hc

theorem atoi_toDigits {n : Nat} (hn : n < 2 ^ 63) : atoi (Nat.toDigits 10 n) = some (n : Int) := by
  have hdigits : Nat.toDigits 10 n ≠ [] ∧ (Nat.toDigits 10 n).all Char.isDigit ∧
      Nat.ofDigitChars 10 (Nat.toDigits 10 n) 0 < 2 ^ 63 := by
    refine ⟨Nat.toDigits_ne_nil, List.all_eq_true.2 (fun c hc => Nat.isDigit_of_mem_toDigits (by decide) (by decide) hc), ?_⟩
    rwa [Nat.ofDigitChars_toDigits (by decide) (by decide)]
  unfold atoi
  split
  · rename_i cs heq
    exact absurd (heq ▸ mem_cons_self) (not_mem_toDigits (by decide) n)
  · rename_i cs heq
    exact absurd (heq ▸ mem_cons_self) (not_mem_toDigits (by decide) n)
  · dsimp only
    rw [if_pos hdigits, Nat.ofDigitChars_toDigits (by decide) (by decide)]
    rfl

/-! ## Texts without blanks -/

theorem dropWhile_eq_self {p : Char → Bool} : ∀ {cs : List Char}, (∀ c ∈ cs, p c = false) → cs.dropWhile p = cs
  | [], _ => rfl
  | c :: cs, h => dropWhile_cons_of_neg (by simp [h c mem_cons_self])

theorem trimSpace_eq_self {s : String} (h : ∀ c ∈ s.toList, isSpace c = false) : trimSpace s = s := by
  rw [trimSpace, dropWhile_eq_self h, dropWhile_eq_self (fun c hc => h c (mem_reverse.1 hc)), reverse_reverse,
    String.ofList_toList]

/-! ## Blank texts -/

theorem isBlank_iff {s : String} : isBlank s = true ↔ ∀ c ∈ s.toList, isSpace c = true := List.all_eq_true

theorem trimSpace_eq_empty {s : String} : trimSpace s = "" ↔ isBlank s = true := by
  have hempty : trimSpace s = "" ↔ ((s.toList.dropWhile isSpace).reverse.dropWhile isSpace).reverse = [] := by
    rw [trimSpace, ← String.toList_inj, String.toList_ofList]
    rfl
  rw [hempty, reverse_eq_nil_iff, dropWhile_eq_nil_iff, isBlank_iff]
  constructor
  · intro h c hc
    rw [← List.takeWhile_append_dropWhile (p := isSpace) (l := s.toList), mem_append] at hc
    rcases hc with hc | hc
    · exact mem_takeWhile_imp hc
    · exact h c (mem_reverse.2 hc)
  · intro h c hc
    exact h c ((dropWhile_suffix isSpace).subset (mem_reverse.1 hc))

end GoStd
