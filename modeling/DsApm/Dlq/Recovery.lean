import DsApm.Dlq.Sink
import DsApm.Lib.StepRun
/-!
# Recovery — the sink when operations on its files fail

Closing, renaming, opening and writing may fail in any write.  A rotation closes the active file before it renames it; where
closing fails, or the file is not opened again, the sink keeps a closed handle, and no later write opens another.  So a run
leaves the sink usable exactly if none of its rotations failed in one of these two (`recovers_iff`).
-/
namespace DsApm
namespace Dlq

open GoStd (Time)
open StepRun

/-- `s.f`: nil after `Close`, else a handle that is open or was closed. -/
inductive Handle where
  | nil | opened | closed
  deriving DecidableEq, Repr

/-- What the operations on the files come to in one write; `write` is what was written before an error. -/
structure Outcomes where
  close : Bool := true
  rename : Bool := true
  openFile : Bool := true
  stat : Bool := true
  write : Option Nat := none
  deriving DecidableEq, Repr

def Outcomes.Sound (o : Outcomes) : Prop :=
  o.close = true ∧ o.rename = true ∧ o.openFile = true ∧ o.stat = true ∧ o.write = none

structure JSONLDeadLetterSink where
  rotated : GoMap String (List UInt8)
  primary : List UInt8
  f : Handle
  written : Nat

inductive RotateError where
  | closeActive | rename | reopenPrimary
  deriving DecidableEq, Repr

inductive WriteError where
  | nilEntry | sinkClosed | rotate (err : RotateError) | write
  deriving DecidableEq, Repr

structure Call where
  entry : Option Entry
  now : Time
  outcomes : Outcomes

def Entry.line (e : Entry) : List UInt8 := (e.marshal ++ ['\n']).flatMap String.utf8EncodeChar

namespace JSONLDeadLetterSink

/-- `NewJSONLDeadLetterSink`, on the file as it is found. -/
def new (rotated : GoMap String (List UInt8)) (primary : List UInt8) : JSONLDeadLetterSink :=
  ⟨rotated, primary, .opened, primary.length⟩

def rotateLocked (s : JSONLDeadLetterSink) (now : Time) (o : Outcomes) : JSONLDeadLetterSink × Option RotateError :=
  -- a handle is closed also where closing it gives an error, and closing it again is one
  if s.f ≠ .opened ∨ o.close = false then ({ s with f := .closed }, some .closeActive)
  else if o.rename = false then
    if o.openFile then
      ({ s with written := if o.stat then s.primary.length else s.written }, some .rename)
    else ({ s with f := .closed }, some .rename)
  else
    let s := { s with rotated := s.rotated.insert (stamp now) s.primary, primary := [] }
    if o.openFile then ({ s with written := 0 }, none) else ({ s with f := .closed }, some .reopenPrimary)

def Rotates (rotateBytes : Nat) (s : JSONLDeadLetterSink) (e : Entry) : Prop :=
  0 < s.written ∧ rotateBytes < s.written + e.line.length

instance (rotateBytes : Nat) (s : JSONLDeadLetterSink) (e : Entry) : Decidable (s.Rotates rotateBytes e) :=
  inferInstanceAs (Decidable (_ ∧ _))

/-- `s.f.Write(line)`, and the count of what was written. -/
def append (s : JSONLDeadLetterSink) (line : List UInt8) (o : Outcomes) : JSONLDeadLetterSink × Option WriteError :=
  if s.f ≠ .opened then (s, some .write)
  else match o.write with
    | some n => ({ s with primary := s.primary ++ line.take n }, some .write)
    | none => ({ s with primary := s.primary ++ line, written := s.written + line.length }, none)

def write (rotateBytes : Nat) (s : JSONLDeadLetterSink) (c : Call) : JSONLDeadLetterSink × Option WriteError :=
  match c.entry with
  | none => (s, some .nilEntry)
  | some e =>
    if s.f = .nil then (s, some .sinkClosed)
    else if s.Rotates rotateBytes e then
      match s.rotateLocked c.now c.outcomes with
      | (s, some err) => (s, some (.rotate err))
      | (s, none) => s.append e.line c.outcomes
    else s.append e.line c.outcomes

/-! ## What one write does to the handle -/

def Strands (rotateBytes : Nat) (s : JSONLDeadLetterSink) (c : Call) : Prop :=
  (∃ e ∈ c.entry, s.Rotates rotateBytes e) ∧ (c.outcomes.close = false ∨ c.outcomes.openFile = false)

theorem append_f (s : JSONLDeadLetterSink) (line : List UInt8) (o : Outcomes) : (s.append line o).1.f = s.f := by
  unfold append
  split_ifs
  · rfl
  · cases o.write <;> rfl

theorem rotateLocked_f {s : JSONLDeadLetterSink} (h : s.f = .opened) (now : Time) (o : Outcomes) :
    (s.rotateLocked now o).1.f = .opened ↔ o.close = true ∧ o.openFile = true := by
  unfold rotateLocked
  cases hclose : o.close <;> cases hopen : o.openFile <;> cases hrename : o.rename <;> simp [h]

theorem rotateLocked_closed {s : JSONLDeadLetterSink} (h : s.f ≠ .opened) (now : Time) (o : Outcomes) :
    s.rotateLocked now o = ({ s with f := .closed }, some .closeActive) := by
  rw [rotateLocked, if_pos (Or.inl h)]

theorem write_opened_iff {rotateBytes : Nat} {s : JSONLDeadLetterSink} (h : s.f = .opened) (c : Call) :
    (s.write rotateBytes c).1.f = .opened ↔ ¬ s.Strands rotateBytes c := by
  have hnil : s.f ≠ .nil := by rw [h]; decide
  unfold write Strands
  cases hentry : c.entry with
  | none => simpa using h
  | some e =>
    dsimp only
    rw [if_neg hnil]
    by_cases hrot : s.Rotates rotateBytes e
    · have hf := rotateLocked_f h c.now c.outcomes
      rw [if_pos hrot]
      have hstep : (match s.rotateLocked c.now c.outcomes with
          | (s, some err) => (s, some (WriteError.rotate err))
          | (s, none) => s.append e.line c.outcomes).1.f = (s.rotateLocked c.now c.outcomes).1.f := by
        rcases s.rotateLocked c.now c.outcomes with ⟨s', _ | err⟩
        · exact append_f s' _ _
        · rfl
      rw [hstep, hf]
      simp [hrot]
    · rw [if_neg hrot, append_f]
      simp [h, hrot]

/-- **A closed handle stays**, and nothing is written through it. -/
theorem write_closed {rotateBytes : Nat} {s : JSONLDeadLetterSink} (h : s.f ≠ .opened) (c : Call) :
    (s.write rotateBytes c).1.f ≠ .opened ∧ (s.write rotateBytes c).2 ≠ none := by
  unfold write
  cases c.entry with
  | none => exact ⟨h, by simp⟩
  | some e =>
    dsimp only
    split_ifs
    · exact ⟨h, by simp⟩
    · rw [rotateLocked_closed h]
      simp
    · rw [append, if_pos h]
      exact ⟨h, by simp⟩

/-- The entry's line is at the end of the active file, and nothing that was written is lost: what stood before it still
does, or was renamed. -/
def Appended (s : JSONLDeadLetterSink) (e : Entry) (s' : JSONLDeadLetterSink) : Prop :=
  (s'.rotated = s.rotated ∧ s'.primary = s.primary ++ e.line) ∨
    ∃ name, s'.rotated = s.rotated.insert name s.primary ∧ s'.primary = e.line

theorem write_appended {rotateBytes : Nat} {s : JSONLDeadLetterSink} (h : s.f = .opened) {c : Call} {e : Entry}
    (hentry : c.entry = some e) (hc : c.outcomes.Sound) :
    (s.write rotateBytes c).2 = none ∧ s.Appended e (s.write rotateBytes c).1 := by
  obtain ⟨hclose, hrename, hopen, -, hwrite⟩ := hc
  have hnil : s.f ≠ .nil := by rw [h]; decide
  unfold write
  rw [hentry]
  dsimp only
  rw [if_neg hnil]
  split_ifs with hrot
  · have hrotated : s.rotateLocked c.now c.outcomes =
        (⟨s.rotated.insert (stamp c.now) s.primary, [], s.f, 0⟩, none) := by
      simp [rotateLocked, h, hclose, hrename, hopen]
    rw [hrotated]
    simp only [append, h, hwrite, ne_eq, not_true, if_false, true_and]
    exact Or.inr ⟨stamp c.now, rfl, List.nil_append _⟩
  · simp only [append, h, hwrite, ne_eq, not_true, if_false, true_and]
    exact Or.inl ⟨rfl, rfl⟩

end JSONLDeadLetterSink

open JSONLDeadLetterSink

/-! ## Runs -/

/-- Every later write of an entry succeeds and appends it, if all operations on valid handles do from now on. -/
def Recovers (rotateBytes : Nat) (s : JSONLDeadLetterSink) : Prop :=
  ∀ later : List Call, (∀ c ∈ later, c.outcomes.Sound) → ∀ x ∈ trace (write rotateBytes) s later,
    ∀ e ∈ x.2.1.entry, x.2.2 = none ∧ x.1.Appended e (x.1.write rotateBytes x.2.1).1

theorem recovers_iff_opened (rotateBytes : Nat) (s : JSONLDeadLetterSink) : Recovers rotateBytes s ↔ s.f = .opened := by
  constructor
  · intro h
    by_contra hf
    have hfails := (@write_closed rotateBytes s hf ⟨some (letter "a"), 0, {}⟩).2
    exact hfails (h [⟨some (letter "a"), 0, {}⟩] (by simp [Outcomes.Sound]) _ List.mem_cons_self _ rfl).1
  · intro h later hlater x hx e he
    obtain ⟨pre, post, rfl, hstate, hout⟩ := (mem_trace (write rotateBytes) later s x).1 hx
    have hpre : ∀ y ∈ trace (write rotateBytes) s pre, y.2.1.outcomes.Sound :=
      (forall_mem_trace_action (write rotateBytes) (fun c => c.outcomes.Sound) pre s).2
        (fun c hc => hlater c (List.mem_append_left _ hc))
    have hopened : x.1.f = .opened := by
      rw [hstate]
      refine final_inv (write rotateBytes) (fun s => s.f = .opened) (fun _ c => c.outcomes.Sound)
        (fun s c hc hf => (write_opened_iff hf c).2 fun hs => ?_) pre s hpre h
      rcases hs.2 with hclose | hopen
      · rw [hc.1] at hclose; cases hclose
      · rw [hc.2.2.1] at hopen; cases hopen
    rw [hout]
    exact write_appended hopened he (hlater _ (List.mem_append_right _ List.mem_cons_self))

namespace JSONLDeadLetterSink

/-- The bytes of a line stand together in one of the files. -/
def Holds (s : JSONLDeadLetterSink) (line : List UInt8) : Prop :=
  line <:+: s.primary ∨ ∃ name content, s.rotated.lookup name = some content ∧ line <:+: content

/-- A rotation does not rename the active file over one that is there. -/
def Fresh (rotateBytes : Nat) (s : JSONLDeadLetterSink) (c : Call) : Prop :=
  (∃ e ∈ c.entry, s.Rotates rotateBytes e) → s.rotated.lookup (stamp c.now) = none

theorem append_written {s : JSONLDeadLetterSink} {line : List UInt8} {o : Outcomes} (h : (s.append line o).2 = none) :
    (s.append line o).1.Holds line := by
  unfold append at h ⊢
  split_ifs at h ⊢
  cases hwrite : o.write with
  | none => exact Or.inl (List.suffix_append _ _).isInfix
  | some n => simp [hwrite] at h

variable {s : JSONLDeadLetterSink} {line : List UInt8}

theorem append_holds (h : s.Holds line) (other : List UInt8) (o : Outcomes) : (s.append other o).1.Holds line := by
  unfold append
  split_ifs
  · exact h
  · have hmore (more : List UInt8) (n : Nat) : ({ s with primary := s.primary ++ more, written := n }).Holds line :=
      h.imp_left fun h => h.trans (List.prefix_append _ _).isInfix
    cases o.write with
    | none => exact hmore _ _
    | some n => exact hmore _ _

theorem rotateLocked_holds (h : s.Holds line) {now : Time} (hfree : s.rotated.lookup (stamp now) = none) (o : Outcomes) :
    (s.rotateLocked now o).1.Holds line := by
  have hrenamed (f : Handle) (n : Nat) : (⟨s.rotated.insert (stamp now) s.primary, [], f, n⟩ : JSONLDeadLetterSink).Holds line := by
    rcases h with h | ⟨name, content, hname, h⟩
    · exact Or.inr ⟨stamp now, s.primary, AList.lookup_insert _, h⟩
    · have hne : name ≠ stamp now := by
        rintro rfl
        rw [hfree] at hname
        cases hname
      exact Or.inr ⟨name, content, by rw [AList.lookup_insert_ne hne, hname], h⟩
  unfold rotateLocked
  split_ifs
  any_goals exact h
  all_goals exact hrenamed _ _

theorem write_holds {rotateBytes : Nat} {c : Call} (hfresh : s.Fresh rotateBytes c) (h : s.Holds line) :
    (s.write rotateBytes c).1.Holds line := by
  unfold write
  cases hentry : c.entry with
  | none => exact h
  | some e =>
    dsimp only
    split_ifs with hnil hrot
    · exact h
    · have hrotated := rotateLocked_holds h (hfresh ⟨e, hentry, hrot⟩) c.outcomes
      split
      · rename_i s' err heq
        rwa [heq] at hrotated
      · rename_i s' heq
        rw [heq] at hrotated
        exact append_holds hrotated _ _
    · exact append_holds h _ _

theorem write_written {rotateBytes : Nat} {c : Call} {e : Entry} (hentry : c.entry = some e)
    (h : (s.write rotateBytes c).2 = none) : (s.write rotateBytes c).1.Holds e.line := by
  unfold write at h ⊢
  rw [hentry] at h ⊢
  dsimp only at h ⊢
  split_ifs at h ⊢
  · split at h
    · cases h
    · exact append_written h
  · exact append_written h

end JSONLDeadLetterSink

/-- **What was written without an error is kept**, whatever fails later, while no rotation meets a name that is taken. -/
theorem written_kept {rotateBytes : Nat} {s : JSONLDeadLetterSink} {calls : List Call}
    (hfresh : ∀ x ∈ trace (write rotateBytes) s calls, x.1.Fresh rotateBytes x.2.1) :
    ∀ x ∈ trace (write rotateBytes) s calls, ∀ e ∈ x.2.1.entry, x.2.2 = none →
      (final (write rotateBytes) s calls).Holds e.line := by
  intro x hx e he hnone
  obtain ⟨pre, post, rfl, hstate, hout⟩ := (mem_trace (write rotateBytes) calls s x).1 hx
  rw [final_append, final_cons, ← hstate]
  rw [trace_append, trace_cons, ← hstate] at hfresh
  refine final_inv (write rotateBytes) (fun s => s.Holds e.line) (fun s c => s.Fresh rotateBytes c)
    (fun s c hg h => write_holds hg h) post _ (fun y hy => hfresh y ?_) (write_written he (hout ▸ hnone))
  exact List.mem_append_right _ (List.mem_cons_of_mem _ hy)

theorem renamed_kept : (final (write 1) (new ∅ [])
    [⟨some (letter "a"), 0, {}⟩, ⟨some (letter "b"), 7, { openFile := false }⟩]).Holds (letter "a").line := by
  refine written_kept ?_ (new ∅ [], ⟨some (letter "a"), 0, {}⟩, none) (List.mem_cons.2 (Or.inl ?_)) (letter "a") rfl rfl
  · rw [trace_cons, trace_cons, trace_nil, List.forall_mem_cons, List.forall_mem_singleton]
    exact ⟨fun _ => rfl, fun _ => by decide⟩
  · exact Prod.ext rfl (Prod.ext rfl (by decide))

end Dlq
end DsApm
