import DsApm.Lib.GoMap
import DsApm.Lib.StepRun
import DsApm.Remediation.Proposal
/-!
# Runbooks — the runbooks of one version of an SOP document

The handlers of `runbook_handler.go` over the SOP store, and the upsert of the document that holds the runbooks.  A handler
that updates a runbook checks the change of its status against a copy it has read, and writes in a later transaction; an
upsert of the document writes its own list of runbooks.  The requests of a run are interleaved as they may be: a request that
is refused for its organisation or role, or that the database fails, changes nothing and is left out.

A run is lawful as long as each write still finds what it was checked against (`lifecycle_iff`).
-/
namespace DsApm
namespace Runbooks

open GoStd StepRun List Option
open Remediation (pilotRequireNonEmpty pilotRequireAllowed pilotAppendSecretLikeStringErrors)

structure Runbook where
  id : String
  title : String
  description : String
  executableScript : String
  status : String
  confidence : Rat
  aiDraftedBy : String
  sourceErrorExamples : List String
  createdAt : String
  updatedAt : String
  updatedBy : String
  deriving DecidableEq, Repr

def runbookStatusDraft : String := "draft"
def runbookStatusApproved : String := "approved"
def runbookStatusDeprecated : String := "deprecated"

def allowedRunbookStatuses : List String := [runbookStatusDraft, runbookStatusApproved, runbookStatusDeprecated]

def runbookMaxTitleLen : Nat := 200
def runbookMaxDescriptionLen : Nat := 50000
def runbookMaxScriptLen : Nat := 65536
def runbookMaxSourceExampleLen : Nat := 4096
def runbookMaxSourceExampleCount : Nat := 3

def isHexDigit (c : Char) : Bool := ('0' ≤ c && c ≤ '9') || ('a' ≤ c && c ≤ 'f') || ('A' ≤ c && c ≤ 'F')

def matchesUUID (s : String) : Bool :=
  let parts := s.toList.splitOn '-'
  parts.map List.length == [8, 4, 4, 4, 12] && parts.all (fun part => part.all isHexDigit)

def tooLong (field value : String) (limit : Nat) : List String :=
  if limit < value.utf8ByteSize then
    [field ++ ": exceeds " ++ toString limit ++ "-byte limit (got " ++ toString value.utf8ByteSize ++ ")"]
  else []

section
variable (sprint : Rat → String)

def validateRunbook (r : Runbook) : List String :=
  (if matchesUUID (trimSpace r.id) then [] else ["id: must be UUID v4 (got " ++ quote r.id ++ ")"]) ++
  pilotRequireNonEmpty "title" r.title ++
  tooLong "title" (trimSpace r.title) runbookMaxTitleLen ++
  tooLong "description" r.description runbookMaxDescriptionLen ++
  tooLong "executableScript" r.executableScript runbookMaxScriptLen ++
  (if r.executableScript.toList.contains '\x00' then ["executableScript: must not contain NUL byte"] else []) ++
  pilotRequireAllowed "status" r.status allowedRunbookStatuses ++
  (if r.confidence < 0 ∨ 1 < r.confidence then ["confidence: " ++ sprint r.confidence ++ " out of range [0.0, 1.0]"]
    else []) ++
  (if runbookMaxSourceExampleCount < r.sourceErrorExamples.length then
    ["sourceErrorExamples: at most " ++ toString runbookMaxSourceExampleCount ++ " entries (got " ++
      toString r.sourceErrorExamples.length ++ ")"] else []) ++
  r.sourceErrorExamples.zipIdx.flatMap (fun e => if runbookMaxSourceExampleLen < e.1.utf8ByteSize then
    ["sourceErrorExamples[" ++ toString e.2 ++ "]: exceeds " ++ toString runbookMaxSourceExampleLen ++ "-byte limit"]
    else []) ++
  pilotAppendSecretLikeStringErrors "title" r.title ++
  pilotAppendSecretLikeStringErrors "description" r.description ++
  pilotAppendSecretLikeStringErrors "aiDraftedBy" r.aiDraftedBy ++
  pilotAppendSecretLikeStringErrors "updatedBy" r.updatedBy

end

def validateRunbookStatusTransition (source target : String) : Option String :=
  if source ∉ allowedRunbookStatuses then some ("status transition: from " ++ quote source ++ " invalid")
  else if target ∉ allowedRunbookStatuses then some ("status transition: to " ++ quote target ++ " invalid")
  else if source = target then
    some ("status transition: " ++ quote source ++ " → " ++ quote target ++ " is a no-op")
  else if source = runbookStatusDeprecated ∧ target = runbookStatusApproved then
    some "status transition: deprecated → approved forbidden (transit through draft first)"
  else none

/-! ## The store -/

def findRunbook (runbooks : List Runbook) (id : String) : Option Runbook := runbooks.find? (fun r => r.id == id)

/-- What `UpsertRunbook` makes of the list: the first of that id is replaced, or the runbook comes last. -/
def upsertRunbook : List Runbook → Runbook → List Runbook
  | [], rb => [rb]
  | r :: rs, rb => if r.id = rb.id then rb :: rs else r :: upsertRunbook rs rb

def deleteRunbook (runbooks : List Runbook) (id : String) : Option (List Runbook) :=
  if (findRunbook runbooks id).isNone then none else some (runbooks.filter (fun r => r.id != id))

inductive Change where
  | stored (rb : Runbook)
  | deleted (id : String)
  deriving DecidableEq, Repr

def Change.id : Change → String
  | .stored rb => rb.id
  | .deleted id => id

def Change.value : Change → Option Runbook
  | .stored rb => some rb
  | .deleted _ => none

@[simp] theorem Change.id_stored (rb : Runbook) : (Change.stored rb).id = rb.id := rfl
@[simp] theorem Change.id_deleted (id : String) : (Change.deleted id).id = id := rfl
@[simp] theorem Change.value_stored (rb : Runbook) : (Change.stored rb).value = some rb := rfl
@[simp] theorem Change.value_deleted (id : String) : (Change.deleted id).value = none := rfl

/-- The runbooks of the stored document, once there is one; the updates that have passed their checks, by request; and the
changes so far. -/
structure State where
  stored : Option (List Runbook)
  pending : GoMap Nat Runbook
  log : List Change

def State.init : State := { stored := none, pending := ∅, log := [] }

def State.find (s : State) (id : String) : Option Runbook := s.stored.bind (fun runbooks => findRunbook runbooks id)

inductive Response where
  | success
  | notFound
  | invalid (errs : List String)
  | checked
  deriving DecidableEq, Repr

/-- `now` is the clock's text and `user` the display name of the request.  `valid` is what `ValidateSOPDocument` finds of the
document besides its runbooks. -/
inductive Action where
  | upsertDocument (runbooks : List Runbook) (valid : Bool)
  | createRunbook (newID now user : String) (incoming : Runbook)
  | checkUpdate (req : Nat) (runbookID now user : String) (incoming : Runbook)
  | writeUpdate (req : Nat)
  | deleteRunbook (runbookID : String)

/-! ## The handlers -/

section
variable (sprint : Rat → String)

def acceptsDocument (runbooks : List Runbook) (valid : Bool) : Bool :=
  valid && runbooks.all (fun r => (validateRunbook sprint r).isEmpty)

def State.upsert (s : State) (rb : Runbook) : State × Response :=
  match s.stored with
  | none => (s, .notFound)
  | some runbooks => ({ s with stored := some (upsertRunbook runbooks rb), log := s.log ++ [.stored rb] }, .success)

def created (newID now user : String) (incoming : Runbook) : Runbook :=
  { incoming with
    id := newID, createdAt := now, updatedAt := now
    updatedBy := if incoming.updatedBy = "" then user else incoming.updatedBy
    status := if incoming.status = "" then runbookStatusApproved else incoming.status }

def updated (existing : Runbook) (now user : String) (incoming : Runbook) : Runbook :=
  { incoming with
    createdAt := existing.createdAt, updatedAt := now
    updatedBy := if incoming.updatedBy = "" then user else incoming.updatedBy }

/-- `UpdateRunbook` up to its write: the checks against the document as it is read. -/
def State.check (s : State) (req : Nat) (runbookID now user : String) (incoming : Runbook) : State × Response :=
  let incoming := { incoming with id := trimSpace runbookID }
  match s.find incoming.id with
  | none => (s, .notFound)
  | some existing =>
    match validateRunbookStatusTransition existing.status incoming.status with
    | some err => (s, .invalid [err])
    | none =>
      let rb := updated existing now user incoming
      match validateRunbook sprint rb with
      | [] => ({ s with pending := s.pending.insert req rb }, .checked)
      | errs => (s, .invalid errs)

def step (s : State) : Action → State × Response
  | .upsertDocument runbooks valid =>
    if acceptsDocument sprint runbooks valid then ({ s with stored := some runbooks }, .success) else (s, .invalid [])
  | .createRunbook newID now user incoming =>
    match validateRunbook sprint (created newID now user incoming) with
    | [] => s.upsert (created newID now user incoming)
    | errs => (s, .invalid errs)
  | .checkUpdate req runbookID now user incoming => s.check sprint req runbookID now user incoming
  | .writeUpdate req =>
    match s.pending.lookup req with
    | none => (s, .notFound)
    | some rb => ({ s with pending := s.pending.erase req } : State).upsert rb
  | .deleteRunbook runbookID =>
    match s.stored.bind (fun runbooks => deleteRunbook runbooks (trimSpace runbookID)) with
    | none => (s, .notFound)
    | some runbooks =>
      ({ s with stored := some runbooks, log := s.log ++ [.deleted (trimSpace runbookID)] }, .success)

end

/-! ## What a run should keep -/

def AllowedChange (r r' : Runbook) : Prop :=
  r.status ≠ r'.status → validateRunbookStatusTransition r.status r'.status = none

def lastChange (log : List Change) (id : String) : Option Change := log.reverse.find? (fun c => c.id == id)

/-- Every runbook that was changed is as its latest change left it, and those deleted are gone. -/
structure State.Kept (s : State) : Prop where
  last : ∀ id c, lastChange s.log id = some c → s.find id = c.value
  gone : ∀ id, Change.deleted id ∈ s.log → s.find id = none

structure Lawful (s s' : State) : Prop where
  transitions : ∀ id r r', s.find id = some r → s'.find id = some r' → AllowedChange r r'
  kept : s'.Kept

def Fresh (s : State) : Action → Prop
  | .createRunbook newID _ _ _ => s.find newID = none ∧ ∀ c ∈ s.log, c.id ≠ newID
  | _ => True

/-- A write finds the runbook there, with a status from which its own may follow; a document brings the runbooks that were
changed as they are, and changes the statuses of others as they may be changed. -/
def Undisturbed (sprint : Rat → String) (s : State) : Action → Prop
  | .upsertDocument runbooks valid => acceptsDocument sprint runbooks valid = true →
    (∀ c ∈ s.log, findRunbook runbooks c.id = s.find c.id) ∧
      ∀ id r r', s.find id = some r → findRunbook runbooks id = some r' → AllowedChange r r'
  | .writeUpdate req => ∀ rb, s.pending.lookup req = some rb → s.stored ≠ none →
    Change.deleted rb.id ∉ s.log ∧ ∀ r, s.find rb.id = some r → AllowedChange r rb
  | _ => True

/-! ## One change -/

theorem findRunbook_upsert (rb : Runbook) (id : String) : ∀ runbooks : List Runbook,
    findRunbook (upsertRunbook runbooks rb) id = if id = rb.id then some rb else findRunbook runbooks id
  | [] => by
    rw [upsertRunbook, findRunbook, List.find?_cons, List.find?_nil]
    by_cases h : id = rb.id
    · rw [if_pos h, h, beq_self_eq_true]
    · rw [if_neg h, beq_eq_false_iff_ne.2 (Ne.symm h)]
      rfl
  | r :: rs => by
    have ih := findRunbook_upsert rb id rs
    unfold findRunbook at ih ⊢
    rw [upsertRunbook]
    by_cases hr : r.id = rb.id
    · rw [if_pos hr, List.find?_cons, List.find?_cons, hr]
      by_cases h : id = rb.id
      · rw [if_pos h, h, beq_self_eq_true]
      · rw [if_neg h, beq_eq_false_iff_ne.2 (Ne.symm h)]
    · rw [if_neg hr, List.find?_cons, List.find?_cons, ih]
      by_cases hk : r.id = id
      · rw [hk, beq_self_eq_true]
        exact (if_neg (fun h => hr (hk.trans h))).symm
      · rw [beq_eq_false_iff_ne.2 hk]

theorem findRunbook_delete {runbooks left : List Runbook} {gone : String} (h : deleteRunbook runbooks gone = some left)
    (id : String) : findRunbook left id = if id = gone then none else findRunbook runbooks id := by
  unfold deleteRunbook at h
  split_ifs at h
  rw [← Option.some.inj h]
  unfold findRunbook
  by_cases hid : id = gone
  · rw [if_pos hid, List.find?_eq_none]
    intro r hr
    have hne := (mem_filter.1 hr).2
    rw [hid]
    simpa using hne
  · rw [if_neg hid, List.find?_filter]
    refine congrArg (fun p => runbooks.find? p) (funext fun r => ?_)
    by_cases hr : r.id = id
    · have hgone : r.id ≠ gone := fun h => hid (hr.symm.trans h)
      simp [hr, hid]
    · simp [hr]

theorem lastChange_append (log : List Change) (c : Change) (id : String) :
    lastChange (log ++ [c]) id = if c.id = id then some c else lastChange log id := by
  unfold lastChange
  rw [reverse_append, reverse_singleton, singleton_append, List.find?_cons]
  by_cases h : c.id = id
  · rw [if_pos h, h, beq_self_eq_true]
  · rw [if_neg h, beq_eq_false_iff_ne.2 h]

theorem lastChange_mem {log : List Change} {id : String} {c : Change} (h : lastChange log id = some c) : c ∈ log ∧ c.id = id :=
  ⟨mem_reverse.1 (mem_of_find?_eq_some h), by simpa using List.find?_some h⟩

theorem exists_lastChange {log : List Change} {c : Change} (h : c ∈ log) : ∃ c', lastChange log c.id = some c' := by
  cases hl : lastChange log c.id with
  | some c' => exact ⟨c', rfl⟩
  | none => exact absurd (beq_self_eq_true _) (List.find?_eq_none.1 hl c (mem_reverse.2 h))

theorem allowedChange_refl (r : Runbook) : AllowedChange r r := fun h => absurd rfl h

theorem lawful_of_same {s s' : State} (hk : s.Kept) (hfind : ∀ id, s'.find id = s.find id) (hlog : s'.log = s.log) :
    Lawful s s' := by
  refine ⟨fun id r r' hr hr' => ?_, ⟨fun id c hc => ?_, fun id hgone => ?_⟩⟩
  · rw [hfind, hr] at hr'
    rw [Option.some.inj hr']
    exact allowedChange_refl r'
  · rw [hfind]
    exact hk.last id c (hlog ▸ hc)
  · rw [hfind]
    exact hk.gone id (hlog ▸ hgone)

theorem lawful_upsert_iff {s s' : State} (hk : s.Kept) {rb : Runbook}
    (hfind : ∀ id, s'.find id = if id = rb.id then some rb else s.find id) (hlog : s'.log = s.log ++ [.stored rb]) :
    Lawful s s' ↔ Change.deleted rb.id ∉ s.log ∧ ∀ r, s.find rb.id = some r → AllowedChange r rb := by
  have hself : s'.find rb.id = some rb := by rw [hfind, if_pos rfl]
  constructor
  · intro h
    refine ⟨fun hgone => ?_, fun r hr => h.transitions rb.id r rb hr hself⟩
    have hnone := h.kept.gone rb.id (by rw [hlog]; exact mem_append_left _ hgone)
    rw [hself] at hnone
    cases hnone
  · rintro ⟨hgone, hallowed⟩
    refine ⟨fun id r r' hr hr' => ?_, ⟨fun id c hc => ?_, fun id hid => ?_⟩⟩
    · rw [hfind] at hr'
      split_ifs at hr' with hid
      · rw [← Option.some.inj hr']
        exact hallowed r (hid ▸ hr)
      · rw [hr] at hr'
        rw [Option.some.inj hr']
        exact allowedChange_refl r'
    · rw [hlog, lastChange_append, Change.id_stored] at hc
      rw [hfind]
      split_ifs at hc with hid
      · rw [← Option.some.inj hc, if_pos hid.symm, Change.value_stored]
      · rw [if_neg (Ne.symm hid)]
        exact hk.last id c hc
    · rw [hlog, mem_append, mem_singleton] at hid
      rcases hid with hid | hid
      · have hne : id ≠ rb.id := by
          rintro rfl
          exact hgone hid
        rw [hfind, if_neg hne]
        exact hk.gone id hid
      · cases hid

theorem lawful_delete {s s' : State} (hk : s.Kept) {gone : String}
    (hfind : ∀ id, s'.find id = if id = gone then none else s.find id) (hlog : s'.log = s.log ++ [.deleted gone]) :
    Lawful s s' := by
  refine ⟨fun id r r' hr hr' => ?_, ⟨fun id c hc => ?_, fun id hid => ?_⟩⟩
  · rw [hfind] at hr'
    split_ifs at hr'
    rw [hr] at hr'
    rw [Option.some.inj hr']
    exact allowedChange_refl r'
  · rw [hlog, lastChange_append, Change.id_deleted] at hc
    rw [hfind]
    split_ifs at hc with hid
    · rw [← Option.some.inj hc, if_pos hid.symm, Change.value_deleted]
    · rw [if_neg (Ne.symm hid)]
      exact hk.last id c hc
  · rw [hfind]
    split_ifs with h
    · rfl
    · rw [hlog, mem_append, mem_singleton] at hid
      rcases hid with hid | hid
      · exact hk.gone id hid
      · exact absurd (Change.deleted.inj hid) h

theorem lawful_document_iff {s : State} (hk : s.Kept) (runbooks : List Runbook) :
    Lawful s { s with stored := some runbooks } ↔ (∀ c ∈ s.log, findRunbook runbooks c.id = s.find c.id) ∧
      ∀ id r r', s.find id = some r → findRunbook runbooks id = some r' → AllowedChange r r' := by
  have hfind : ∀ id, State.find { s with stored := some runbooks } id = findRunbook runbooks id := fun _ => rfl
  constructor
  · intro h
    refine ⟨fun c hc => ?_, fun id r r' hr hr' => h.transitions id r r' hr hr'⟩
    obtain ⟨c', hc'⟩ := exists_lastChange hc
    rw [← hfind, h.kept.last c.id c' hc', hk.last c.id c' hc']
  · rintro ⟨hsame, hallowed⟩
    refine ⟨hallowed, ⟨fun id c hc => ?_, fun id hid => ?_⟩⟩
    · obtain ⟨hmem, rfl⟩ := lastChange_mem hc
      rw [hfind, hsame c hmem]
      exact hk.last c.id c hc
    · have hsame' := hsame _ hid
      rw [Change.id_deleted] at hsame'
      rw [hfind, hsame']
      exact hk.gone id hid

/-! ## A run -/

section
variable (sprint : Rat → String)

theorem find_upsert {s : State} {runbooks : List Runbook} (hs : s.stored = some runbooks) (rb : Runbook) (id : String) :
    (s.upsert rb).1.find id = if id = rb.id then some rb else s.find id := by
  unfold State.upsert State.find
  rw [hs]
  exact findRunbook_upsert rb id runbooks

/-- **One step is lawful exactly when it is undisturbed.** -/
theorem lawful_step_iff (s : State) (a : Action) (hf : Fresh s a) (hk : s.Kept) :
    Lawful s (step sprint s a).1 ↔ Undisturbed sprint s a := by
  have hsame : Lawful s s := lawful_of_same hk (fun _ => rfl) rfl
  cases a with
  | upsertDocument runbooks valid =>
    rw [step, Undisturbed]
    split_ifs with hok
    · rw [lawful_document_iff hk]
      exact ⟨fun h _ => h, fun h => h hok⟩
    · exact iff_of_true hsame (fun h => absurd h hok)
  | createRunbook newID now user incoming =>
    refine iff_of_true ?_ trivial
    rw [step]
    cases validateRunbook sprint (created newID now user incoming) with
    | cons err errs => exact hsame
    | nil =>
      cases hs : s.stored with
      | none =>
        unfold State.upsert
        rw [hs]
        exact hsame
      | some runbooks =>
        have hlog : (s.upsert (created newID now user incoming)).1.log = s.log ++ [.stored (created newID now user incoming)] := by
          unfold State.upsert
          rw [hs]
        refine (lawful_upsert_iff hk (find_upsert hs _) hlog).2 ⟨fun hgone => hf.2 _ hgone rfl, fun r hr => ?_⟩
        rw [show (created newID now user incoming).id = newID from rfl, hf.1] at hr
        cases hr
  | checkUpdate req runbookID now user incoming =>
    refine iff_of_true (lawful_of_same hk (fun id => ?_) ?_) trivial
    all_goals
      rw [step, State.check]
      simp only
      split
      · rfl
      · split
        · rfl
        · split <;> rfl
  | writeUpdate req =>
    rw [step, Undisturbed]
    cases hp : s.pending.lookup req with
    | none => exact iff_of_true hsame (fun rb hrb => by cases hrb)
    | some rb =>
      simp only
      rcases eq_none_or_eq_some s.stored with hs | ⟨runbooks, hs⟩
      · refine iff_of_true (lawful_of_same hk (fun id => ?_) ?_) (fun _ _ h => absurd hs h)
        · unfold State.upsert State.find
          simp only [hs]
        · unfold State.upsert
          simp only [hs]
      · have hlog : (({ s with pending := s.pending.erase req } : State).upsert rb).1.log = s.log ++ [.stored rb] := by
          unfold State.upsert
          simp only [hs]
        have hfind : ∀ id, (({ s with pending := s.pending.erase req } : State).upsert rb).1.find id =
            if id = rb.id then some rb else s.find id := find_upsert (s := { s with pending := s.pending.erase req }) hs rb
        rw [lawful_upsert_iff hk hfind hlog]
        constructor
        · rintro h _ ⟨⟩ -
          exact h
        · exact fun h => h rb rfl (by rw [hs]; exact some_ne_none _)
  | deleteRunbook runbookID =>
    refine iff_of_true ?_ trivial
    rw [step]
    cases hd : s.stored.bind (fun runbooks => deleteRunbook runbooks (trimSpace runbookID)) with
    | none => exact hsame
    | some left =>
      obtain ⟨runbooks, hs, hleft⟩ := bind_eq_some_iff.1 hd
      refine lawful_delete hk (fun id => ?_) rfl
      unfold State.find
      rw [hs]
      exact findRunbook_delete hleft id

theorem kept_init : State.init.Kept := by
  constructor
  · intro id c h
    cases h
  · intro id h
    cases h

/-- **A run changes statuses only as they may be changed, brings no deleted runbook back and loses no change of a runbook
exactly when every write still finds what it was checked against and every document brings the changed runbooks as they
are.** -/
theorem lifecycle_iff (as : List Action) (hfresh : ∀ x ∈ trace (step sprint) State.init as, Fresh x.1 x.2.1) :
    (∀ x ∈ trace (step sprint) State.init as, Lawful x.1 (step sprint x.1 x.2.1).1) ↔
      ∀ x ∈ trace (step sprint) State.init as, Undisturbed sprint x.1 x.2.1 :=
  forall_trace_iff (step sprint) State.Kept Fresh (fun s a => Lawful s (step sprint s a).1) (Undisturbed sprint)
    (lawful_step_iff sprint) (fun _ _ _ _ h => h.kept) as State.init hfresh kept_init

end

/-! ## Two updates of one runbook -/

def restartID : String := "6b1f7a52-0c7e-4d0f-9a55-2f4f3c1d8e90"

def restart (status : String) : Runbook :=
  { id := restartID, title := "Restart", description := "", executableScript := "systemctl restart api", status
    confidence := 1, aiDraftedBy := "", sourceErrorExamples := [], createdAt := "", updatedAt := "", updatedBy := "" }

def now : String := "2026-01-05T09:00:00Z"

def oneByOne : List Action :=
  [.upsertDocument [restart "draft"] true, .checkUpdate 1 restartID now "eve" (restart "approved"), .writeUpdate 1,
    .checkUpdate 2 restartID now "ann" (restart "deprecated"), .writeUpdate 2]

def archivedMeanwhile : List Action :=
  [.upsertDocument [restart "draft"] true, .checkUpdate 1 restartID now "eve" (restart "approved"),
    .checkUpdate 2 restartID now "ann" (restart "deprecated"), .writeUpdate 2, .writeUpdate 1]

def sprintRat (r : Rat) : String := toString r.num

/-- What an update finds as it writes: its runbook and the status it writes, and the status that is stored. -/
def atWrite (as : List Action) (req : Nat) : Option (String × String) × Option String × List Change :=
  let s := final (step sprintRat) State.init as
  ((s.pending.lookup req).map (fun rb => (rb.id, rb.status)), (s.find restartID).map Runbook.status, s.log)

theorem undisturbed_writeUpdate {as : List Action} {req : Nat} {source target : String} {log : List Change}
    (h : atWrite as req = (some (restartID, target), some source, log)) (hgone : Change.deleted restartID ∉ log)
    (hallowed : validateRunbookStatusTransition source target = none) :
    Undisturbed sprintRat (final (step sprintRat) State.init as) (.writeUpdate req) := by
  unfold atWrite at h
  simp only [Prod.mk.injEq] at h
  obtain ⟨hp, hs, hlog⟩ := h
  intro rb hrb _
  rw [hrb, map_some, Option.some.injEq, Prod.mk.injEq] at hp
  obtain ⟨hid, rfl⟩ := hp
  rw [hid, hlog]
  refine ⟨hgone, fun r hr _ => ?_⟩
  rw [hr, map_some, Option.some.injEq] at hs
  rwa [hs]

theorem oneByOne_lawful : (∀ x ∈ trace (step sprintRat) State.init oneByOne, Fresh x.1 x.2.1) ∧
    ∀ x ∈ trace (step sprintRat) State.init oneByOne, Lawful x.1 (step sprintRat x.1 x.2.1).1 := by
  have hnil : ∀ {P : State × Action × Response → Prop}, ∀ x ∈ ([] : List (State × Action × Response)), P x :=
    fun _ h => absurd h not_mem_nil
  have hfresh : ∀ x ∈ trace (step sprintRat) State.init oneByOne, Fresh x.1 x.2.1 := by
    simp only [oneByOne, trace_cons, trace_nil, forall_mem_cons]
    exact ⟨trivial, trivial, trivial, trivial, trivial, hnil⟩
  have hdocument : Undisturbed sprintRat State.init (.upsertDocument [restart "draft"] true) :=
    fun _ => ⟨fun c hc => absurd hc not_mem_nil, fun id r r' hr => by cases hr⟩
  have hwrites : atWrite (oneByOne.take 2) 1 = (some (restartID, "approved"), some "draft", []) ∧
      atWrite (oneByOne.take 4) 2 = (some (restartID, "deprecated"), some "approved",
        [.stored { restart "approved" with updatedAt := now, updatedBy := "eve" }]) := by
    decide +kernel
  have hupdate := undisturbed_writeUpdate hwrites.1 not_mem_nil (by decide)
  have hupdate' := undisturbed_writeUpdate hwrites.2 (by decide) (by decide)
  refine ⟨hfresh, (lifecycle_iff sprintRat oneByOne hfresh).2 ?_⟩
  simp only [oneByOne, take_succ_cons, take_zero, final_cons, final_nil] at hupdate hupdate'
  simp only [oneByOne, trace_cons, trace_nil, forall_mem_cons]
  exact ⟨hdocument, trivial, hupdate, trivial, hupdate', hnil⟩

/-- The archived script comes back approved. -/
theorem archived_approved : ¬ ∀ x ∈ trace (step sprintRat) State.init archivedMeanwhile,
    Lawful x.1 (step sprintRat x.1 x.2.1).1 := by
  intro h
  have hstatuses : ((final (step sprintRat) State.init (archivedMeanwhile.take 4)).find restartID).map Runbook.status =
        some "deprecated" ∧
      ((step sprintRat (final (step sprintRat) State.init (archivedMeanwhile.take 4)) (.writeUpdate 1)).1.find
        restartID).map Runbook.status = some "approved" := by
    decide +kernel
  obtain ⟨r, hr, hstatus⟩ := map_eq_some_iff.1 hstatuses.1
  obtain ⟨r', hr', hstatus'⟩ := map_eq_some_iff.1 hstatuses.2
  have hlast := h (final (step sprintRat) State.init (archivedMeanwhile.take 4), .writeUpdate 1, _)
    ((mem_trace _ _ _ _).2 ⟨archivedMeanwhile.take 4, [], rfl, rfl, rfl⟩)
  have hallowed := hlast.transitions restartID r r' hr hr'
  unfold AllowedChange at hallowed
  rw [hstatus, hstatus'] at hallowed
  exact absurd (hallowed (by decide)) (by decide)

end Runbooks
end DsApm
