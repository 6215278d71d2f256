import DsApm.Remediation.Execution
import DsApm.Remediation.ScriptGate
/-!
# Proposal — from an SOP document to a proposed execution

The pure part of `selector.go`, `propose.go`, `target_freeze.go` and `runbook_selection.go`: which runbook or generated
script is proposed, and the execution that carries it.  What the model answered is the decoded JSON of its response, or
nothing when the provider, the call or the decoding failed; which target the labels resolve to is the target store's
answer.
-/
namespace DsApm
namespace Remediation

open GoStd

inductive RunbookStatus where
  | draft | approved | deprecated
  deriving DecidableEq, Repr

structure Runbook where
  id : String
  title : String
  executableScript : String
  status : RunbookStatus
  deriving DecidableEq, Repr

structure SOPDocument where
  sopID : String
  version : String
  runbooks : List Runbook
  deriving DecidableEq, Repr

def Runbook.usable (rb : Runbook) : Bool := decide (rb.status = .approved) && !isBlank rb.executableScript

def approvedRunbooks (doc : SOPDocument) : List Runbook := doc.runbooks.filter Runbook.usable

def firstApprovedRunbook (doc : SOPDocument) : Option Runbook := doc.runbooks.find? Runbook.usable

def findRunbook (rbs : List Runbook) (id : String) : Option Runbook := rbs.find? (fun rb => decide (rb.id = id))

/-! ## The model's decision -/

structure RunbookSelectionDecision where
  outcome : String
  chosenRunbookID : String := ""
  confidence : String
  rationale : String := ""
  fallbackScript : String := ""
  fallbackSummary : String := ""
  deriving DecidableEq, Repr

def pilotRequireAllowed (field value : String) (allowed : List String) : List String :=
  if isBlank value then [field ++ ": field is required"]
  else if allowed.contains (trimSpace value) then []
  else [field ++ ": unsupported value " ++ quote (trimSpace value)]

def fallbackErrors (s : String) : List String :=
  if isBlank s then ["fallbackScript: required when outcome=fallback"]
  else if remediationMaxScriptLen < s.utf8ByteSize then
    ["fallbackScript: exceeds 65536-byte limit (got " ++ toString s.utf8ByteSize ++ ")"]
  else if s.toList.contains '\x00' then ["fallbackScript: must not contain NUL byte"]
  else []

/-- `ValidateRunbookSelectionDecision`: the decision, demoted when it names no approved runbook, or the errors. -/
def validateRunbookSelectionDecision (d : RunbookSelectionDecision) (approvedRunbookIDs : List String) :
    Except (List String) RunbookSelectionDecision :=
  let errs := pilotRequireAllowed "outcome" d.outcome ["selected", "fallback", "none"] ++
    pilotRequireAllowed "confidence" d.confidence ["high", "medium", "low"]
  let texts := fun (d : RunbookSelectionDecision) =>
    let errs := pilotAppendSecretLikeStringErrors "rationale" d.rationale ++
      pilotAppendSecretLikeStringErrors "fallbackSummary" d.fallbackSummary
    if errs = [] then .ok d else .error errs
  if errs ≠ [] then .error errs
  else if d.outcome = "selected" then
    if isBlank d.chosenRunbookID then .error ["chosenRunbookId: required when outcome=selected"]
    else if approvedRunbookIDs.contains (trimSpace d.chosenRunbookID) then texts d
    else texts { d with outcome := "none", chosenRunbookID := "", fallbackScript := "", rationale := "",
                        fallbackSummary := "" }
  else if d.outcome = "fallback" then
    if fallbackErrors d.fallbackScript ≠ [] then .error (fallbackErrors d.fallbackScript) else texts d
  else texts d

def RunbookSelectionDecision.isActionable (d : RunbookSelectionDecision) : Bool :=
  if d.outcome = "selected" then !isBlank d.chosenRunbookID
  else if d.outcome = "fallback" then !isBlank d.fallbackScript
  else false

def actionable (approved : List Runbook) (answer : Option RunbookSelectionDecision) : Option RunbookSelectionDecision :=
  match answer with
  | none => none
  | some d => match validateRunbookSelectionDecision d (approved.map Runbook.id) with
    | .error _ => none
    | .ok d => if d.isActionable then some d else none

/-! ## The execution -/

structure Choice where
  runbookID : String
  script : String
  source : RemediationSource
  summary : String
  rationale : String
  deriving DecidableEq, Repr

/-- The outcome switch of `createExecution`; a generated script passes the static gate first. -/
def chooseScript (approved : List Runbook) (d : RunbookSelectionDecision) : Option Choice :=
  let rationale := truncate (trimSpace d.rationale) 50000
  if d.outcome = "selected" then
    (findRunbook approved d.chosenRunbookID).map
      (fun rb => ⟨rb.id, rb.executableScript, .runbook, trimSpace rb.title, rationale⟩)
  else if d.outcome = "fallback" then
    if (checkLLMScript d.fallbackScript).isSome then none
    else some ⟨"", d.fallbackScript, .llmGenerated, trimSpace d.fallbackSummary, rationale⟩
  else none

def choiceOf (rb : Runbook) : Choice := ⟨rb.id, rb.executableScript, .unset, trimSpace rb.title, ""⟩

structure AlertRequest where
  orgID : String
  incidentID : String
  alertFingerprint : String
  doc : SOPDocument

/-- What `createExecution` and `Propose` write; `id` is `uuid.NewString()`. -/
def newProposal (r : AlertRequest) (cfg : RemediationConfig) (c : Choice) (now : Time) (id : String) : Proposal :=
  { id := id, orgID := r.orgID, incidentID := r.incidentID, alertFingerprint := r.alertFingerprint,
    sopID := r.doc.sopID, sopVersion := r.doc.version, runbookID := c.runbookID, scriptSnapshot := c.script,
    source := c.source, selectionRationale := c.rationale, proposedAt := format now,
    expiresAt := format (now + seconds cfg.proposalTTLSeconds) }

def Proposal.execution (p : Proposal) : RemediationExecution := { p with status := .proposed }

structure RemediationTarget where
  id : String := ""
  name : String
  host : String
  port : Int
  user : String
  sealedCredential : String := ""
  hostKeyFingerprint : String
  deriving DecidableEq, Repr

/-- `freezeTargetSnapshot`; no target store, no hit and an error all leave the execution local. -/
def freezeTargetSnapshot (hit : Option RemediationTarget) (p : Proposal) : Proposal :=
  match hit with
  | none => p
  | some tgt => { p with targetID := tgt.id, targetHost := tgt.host, targetPort := tgt.port, targetUser := tgt.user,
                         targetHostKeyFP := tgt.hostKeyFingerprint, targetName := tgt.name }

structure Annotations where
  remediationID : String
  scriptSummary : String
  approveURL : String
  deriving DecidableEq, Repr

def annotations (baseURL : String) (id summary : String) : Annotations :=
  ⟨id, (if summary = "" then "자동 대응 스크립트" else summary) ++ " (승인 시 웹 UI에서 실행)",
    baseURL ++ "/remediation/approve/" ++ id⟩

/-! ## What may be proposed -/

/-- A snapshot that is the script of an approved runbook of the document, or a generated one that passed the gate. -/
def Sanctioned (doc : SOPDocument) (source : RemediationSource) (script : String) : Prop :=
  (source = .llmGenerated ∧ checkLLMScript script = none) ∨
  (source ≠ .llmGenerated ∧ ∃ rb ∈ doc.runbooks, rb.status = .approved ∧ isBlank rb.executableScript = false ∧
    rb.executableScript = script)

theorem Runbook.usable_iff (rb : Runbook) :
    rb.usable = true ↔ rb.status = .approved ∧ isBlank rb.executableScript = false := by
  simp [Runbook.usable]

/-- **What the selector chooses is sanctioned by the document it was given.** -/
theorem sanctioned_chooseScript {doc : SOPDocument} {d : RunbookSelectionDecision} {c : Choice}
    (h : chooseScript (approvedRunbooks doc) d = some c) : Sanctioned doc c.source c.script := by
  unfold chooseScript at h
  dsimp only at h
  split at h
  · rw [Option.map_eq_some_iff] at h
    obtain ⟨rb, hrb, rfl⟩ := h
    have hmem := List.mem_filter.1 (List.mem_of_find?_eq_some hrb)
    obtain ⟨hst, hscript⟩ := rb.usable_iff.1 hmem.2
    exact .inr ⟨nofun, rb, hmem.1, hst, hscript, rfl⟩
  · split at h
    · split at h
      · cases h
      · rename_i hgate
        cases h
        exact .inl ⟨rfl, by simpa using hgate⟩
    · cases h

theorem sanctioned_choiceOf {doc : SOPDocument} {rb : Runbook} (h : firstApprovedRunbook doc = some rb) :
    Sanctioned doc (choiceOf rb).source (choiceOf rb).script := by
  obtain ⟨hst, hscript⟩ := rb.usable_iff.1 (List.find?_some h)
  exact .inr ⟨nofun, rb, List.mem_of_find?_eq_some h, hst, hscript, rfl⟩

theorem freezeTargetSnapshot_keeps (hit : Option RemediationTarget) (p : Proposal) :
    (freezeTargetSnapshot hit p).orgID = p.orgID ∧ (freezeTargetSnapshot hit p).alertFingerprint = p.alertFingerprint := by
  cases hit <;> exact ⟨rfl, rfl⟩

end Remediation
end DsApm
