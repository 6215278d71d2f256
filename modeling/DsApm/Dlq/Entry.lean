import DsApm.Lib.Json
import DsApm.Lib.Separated
/-!
# Entry — a dead letter and its line

A dead-letter entry is written as one line of JSON, and its line is read back as the entry (`unmarshal_marshal`).  Texts are
Unicode, and the time of the failure is kept as it is written.
-/
namespace DsApm
namespace Dlq

structure Entry where
  eventID : String
  channel : String
  payload : Option (List UInt8)
  failedAt : String
  reason : String
  deriving DecidableEq, Repr

/-! ## Its JSON -/

def text (s : String) : List Char := Json.quoted s.toList

def bytes : Option (List UInt8) → List Char
  | none => "null".toList
  | some b => Json.quoted (Json.base64 b)

def key (c : Char) (name : String) : List Char := c :: (text name ++ [':'])

def ending (reason : String) : List Char := if reason = "" then ['}'] else key ',' "reason" ++ (text reason ++ ['}'])

def Entry.marshal (e : Entry) : List Char :=
  key '{' "event_id" ++ (text e.eventID ++ (key ',' "channel" ++ (text e.channel ++ (key ',' "payload" ++ (bytes e.payload ++
    (key ',' "failed_at" ++ (text e.failedAt ++ ending e.reason)))))))

def expect (p s : List Char) : Option (List Char) := if p.isPrefixOf s then some (s.drop p.length) else none

def readText (s : List Char) : Option (String × List Char) := (Json.string s).map fun r => (String.ofList r.1, r.2)

def readBytes (s : List Char) : Option (Option (List UInt8) × List Char) :=
  match expect "null".toList s with
  | some rest => some (none, rest)
  | none =>
    match Json.string s with
    | none => none
    | some (t, s) => (Json.unbase64 (t.filter fun c => c ≠ '\r' ∧ c ≠ '\n')).map fun b => (some b, s)

def readEnding (s : List Char) : Option String :=
  if s = ['}'] then some ""
  else match expect (key ',' "reason") s with
    | none => none
    | some s =>
      match readText s with
      | some (reason, ['}']) => some reason
      | _ => none

/-- `json.Unmarshal` into an entry, of the fields in their order. -/
def unmarshal (s : List Char) : Option Entry := do
  let s ← expect (key '{' "event_id") s
  let (eventID, s) ← readText s
  let s ← expect (key ',' "channel") s
  let (channel, s) ← readText s
  let s ← expect (key ',' "payload") s
  let (payload, s) ← readBytes s
  let s ← expect (key ',' "failed_at") s
  let (failedAt, s) ← readText s
  let reason ← readEnding s
  return ⟨eventID, channel, payload, failedAt, reason⟩

theorem expect_append (p s : List Char) : expect p (p ++ s) = some s := by simp [expect]

theorem readText_text (t : String) (s : List Char) : readText (text t ++ s) = some (t, s) := by
  simp [readText, text, Json.string_quoted]

theorem sextet_plain : ∀ n, n < 64 → Json.sextet n ≠ '\r' ∧ Json.sextet n ≠ '\n' := by decide +kernel

theorem filter_base64 : ∀ b : List UInt8, ((Json.base64 b).filter fun c => c ≠ '\r' ∧ c ≠ '\n') = Json.base64 b
  | [] => rfl
  | [a] => by
    have ha := a.toNat_lt
    simp [Json.base64, sextet_plain (a.toNat / 4) (by omega), sextet_plain (a.toNat % 4 * 16) (by omega)]
  | [a, b] => by
    have ha := a.toNat_lt
    have hb := b.toNat_lt
    simp [Json.base64, sextet_plain (a.toNat / 4) (by omega), sextet_plain (a.toNat % 4 * 16 + b.toNat / 16) (by omega),
      sextet_plain (b.toNat % 16 * 4) (by omega)]
  | a :: b :: c :: s => by
    have ha := a.toNat_lt
    have hb := b.toNat_lt
    have hc := c.toNat_lt
    have h := filter_base64 s
    simp [Json.base64, sextet_plain (a.toNat / 4) (by omega), sextet_plain (a.toNat % 4 * 16 + b.toNat / 16) (by omega),
      sextet_plain (b.toNat % 16 * 4 + c.toNat / 64) (by omega), sextet_plain (c.toNat % 64) (by omega)]
    simpa using h

theorem readBytes_bytes (b : Option (List UInt8)) (s : List Char) : readBytes (bytes b ++ s) = some (b, s) := by
  cases b with
  | none => unfold readBytes bytes; rw [expect_append]
  | some b =>
    have hnull : expect "null".toList (bytes (some b) ++ s) = none := by simp [expect, bytes, Json.quoted]
    unfold readBytes
    rw [hnull]
    simp only [bytes, Json.string_quoted, filter_base64, Json.bytes_base64, Option.map_some]

theorem readEnding_ending (reason : String) : readEnding (ending reason) = some reason := by
  unfold ending readEnding
  by_cases h : reason = ""
  · rw [if_pos h, h]; rfl
  · rw [if_neg h, if_neg (by simp [key]), expect_append]
    dsimp only
    rw [readText_text]
    rfl

/-- **The line of an entry is read back as the entry.** -/
theorem unmarshal_marshal (e : Entry) : unmarshal e.marshal = some e := by
  unfold unmarshal Entry.marshal
  simp only [expect_append, readText_text, readBytes_bytes, readEnding_ending, Option.bind_eq_bind, Option.bind_some, Option.pure_def]

theorem text_oneLine (s : String) : '\n' ∉ text s := Json.quoted_oneLine s.toList

theorem key_oneLine {c : Char} (hc : c ≠ '\n') (name : String) : '\n' ∉ key c name := by
  simp [key, text_oneLine, hc.symm]

theorem marshal_oneLine (e : Entry) : '\n' ∉ e.marshal := by
  have hbytes : '\n' ∉ bytes e.payload := by
    cases e.payload with
    | none => simp [bytes]
    | some b => exact Json.quoted_oneLine (Json.base64 b)
  have hending : '\n' ∉ ending e.reason := by
    unfold ending
    split_ifs <;> simp [text_oneLine, key_oneLine]
  simp [Entry.marshal, text_oneLine, key_oneLine, hbytes, hending]

theorem marshal_last (e : Entry) : e.marshal.getLast? = some '}' := by
  have hending : (ending e.reason).getLast? = some '}' := by
    unfold ending
    split_ifs <;> simp [List.getLast?_append]
  simp [Entry.marshal, List.getLast?_append, hending]

end Dlq
end DsApm
