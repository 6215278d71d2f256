import DsApm.Lib.JsonValue
import Mathlib.Data.List.DropRight
/-!
# Texts — the values that are stored as texts

`string.go` and `text_duration.go` of `valuer`.  A `String` is lower-case and trimmed, a `TextDuration` keeps the text it was read
from beside the duration.  Both are read back from what they are written as.
-/
namespace DsApm
namespace Valuer

open GoStd Json List

/-! ## String -/

def newString (val : String) : String := String.ofList ((trimSpace val).toList.map toLower)

theorem toLower_of_not_ascii {c : Char} (h : ¬c.toNat < 128) :
    toLower c = if c == '\u212a' then 'k' else if c == '\u0130' then 'i' else c := by
  have hc : c.toLower = c := by
    unfold Char.toLower
    rw [dif_neg]
    rintro ⟨-, hle⟩
    have : c.toNat ≤ 90 := hle
    omega
  rw [toLower, hc]

theorem isSpace_toLower (c : Char) : isSpace (toLower c) = isSpace c := by
  by_cases h : c.toNat < 128
  · have hall : ∀ n : Fin 128, isSpace (toLower (Char.ofNat n.val)) = isSpace (Char.ofNat n.val) := by decide
    have hc := hall ⟨c.toNat, h⟩
    rwa [Char.ofNat_toNat] at hc
  · rw [toLower_of_not_ascii h]
    split_ifs with hk hi
    · rw [beq_iff_eq.1 hk]
      decide
    · rw [beq_iff_eq.1 hi]
      decide
    · rfl

theorem toLower_toLower (c : Char) : toLower (toLower c) = toLower c := by
  by_cases h : c.toNat < 128
  · have hall : ∀ n : Fin 128, toLower (toLower (Char.ofNat n.val)) = toLower (Char.ofNat n.val) := by decide
    have hc := hall ⟨c.toNat, h⟩
    rwa [Char.ofNat_toNat] at hc
  · rw [toLower_of_not_ascii h]
    split_ifs with hk hi
    · decide
    · decide
    · rw [toLower_of_not_ascii h, if_neg hk, if_neg hi]

def trim (s : List Char) : List Char := (s.dropWhile isSpace).rdropWhile isSpace

theorem toList_newString (s : String) : (newString s).toList = (trim s.toList).map toLower := by
  rw [newString, trimSpace, String.toList_ofList, String.toList_ofList]
  rfl

theorem trim_trim (s : List Char) : trim (trim s) = trim s := by
  have hhead : (trim s).dropWhile isSpace = trim s := by
    rw [dropWhile_eq_self_iff]
    intro hpos
    have hpre : trim s <+: s.dropWhile isSpace := rdropWhile_prefix isSpace _
    have hlen := length_pos_of_ne_nil fun hnil : s.dropWhile isSpace = [] => by
      rw [hnil, prefix_nil] at hpre
      rw [hpre] at hpos
      exact absurd hpos (Nat.lt_irrefl 0)
    rw [hpre.getElem hpos]
    exact dropWhile_get_zero_not isSpace s hlen
  have htail : (trim s).rdropWhile isSpace = trim s := rdropWhile_idempotent isSpace _
  rw [trim, hhead, htail]

theorem trim_map {f : Char → Char} (hf : ∀ c, isSpace (f c) = isSpace c) (s : List Char) : trim (s.map f) = (trim s).map f := by
  have hcomp : isSpace ∘ f = isSpace := funext hf
  rw [trim, dropWhile_map, hcomp, List.rdropWhile, ← map_reverse, dropWhile_map, hcomp, ← map_reverse]
  rfl

/-- **A text that is made normal is normal.** -/
theorem newString_newString (s : String) : newString (newString s) = newString s := by
  rw [← String.toList_inj, toList_newString, toList_newString, trim_map isSpace_toLower, trim_trim, List.map_map]
  congr 1
  funext c
  exact toLower_toLower c

structure Enum where
  val : String
  normal : newString val = val
  deriving DecidableEq

namespace Enum

def new (val : String) : Enum := ⟨newString val, newString_newString val⟩

theorem new_val (e : Enum) : new e.val = e := by
  obtain ⟨val, normal⟩ := e
  unfold new
  congr

def marshal (e : Enum) : Value := .string e.val.toList

/-- `UnmarshalJSON`; `null` is read as an empty text. -/
def decoder : Decoder Enum
  | _, .null => some (new "")
  | _, .string s => some (new (String.ofList s))
  | _, _ => none

theorem decoder_marshal (old e : Enum) : decoder old e.marshal = some e := by
  rw [marshal, decoder, String.ofList_toList, new_val]

end Enum

/-! ## TextDuration -/

/-- `time.ParseDuration`, `Duration.String` and the conversion of a JSON number to nanoseconds, which compute with floating-point
numbers. -/
structure DurationText where
  parse : String → Option Int
  write : Int → String
  ofNumber : List Char → Int
  parse_write : ∀ d, parse (write d) = some d

variable {D : DurationText}

structure TextDuration (D : DurationText) where
  text : String
  value : Int
  parsed : text = "" ∨ D.parse text = some value

namespace TextDuration

def zero : TextDuration D := ⟨"", 0, .inl rfl⟩

def string (d : TextDuration D) : String := if d.text = "" then D.write d.value else d.text

theorem parse_string (d : TextDuration D) : D.parse d.string = some d.value := by
  unfold string
  split
  · exact D.parse_write d.value
  · rename_i hne
    exact d.parsed.resolve_left hne

def reread (d : TextDuration D) : TextDuration D := ⟨d.string, d.value, .inr d.parse_string⟩

def marshal (d : TextDuration D) : Value := .string d.string.toList

def ofText (text : String) : Option (TextDuration D) :=
  match h : D.parse text with
  | none => none
  | some value => some ⟨text, value, .inr h⟩

def decoder : Decoder (TextDuration D)
  | _, .number t => some ⟨"", D.ofNumber t, .inl rfl⟩
  | _, .string s => ofText (String.ofList s)
  | _, _ => none

theorem ofText_string (d : TextDuration D) : ofText d.string = some d.reread := by
  unfold ofText
  split
  · rename_i h
    rw [parse_string] at h
    cases h
  · rename_i value h
    have hvalue : d.value = value := Option.some.inj (d.parse_string.symm.trans h)
    subst hvalue
    rfl

theorem decoder_marshal (old d : TextDuration D) : decoder old d.marshal = some d.reread := by
  rw [marshal, decoder, String.ofList_toList, ofText_string]

end TextDuration

end Valuer
end DsApm
