import DsApm.AiStrategy.Strategy
import DsApm.Lib.JsonValue
/-!
# Parse — a strategy out of a model's answer

`llmaigenerator/parse.go`: the model writes the texts, the hypotheses and the actions of a strategy.  Whom it is about, the SOP it
follows, its evidence and its audit come from the caller (`parse_caller`), and a strategy that is ready has passed the checks of a
ready one (`parse_grounded`).
-/
namespace DsApm
namespace AiStrategy

open GoStd Json

structure AIStrategyRequest where
  incidentID : String
  alertFingerprint : String
  sopDocument : Sop.SOPDocument
  evidenceRefs : List AIEvidenceRef

structure PartialResponse where
  headline : String := ""
  hypotheses : List AIHypothesis := []
  firstActions : List AIFirstAction := []
  customerUpdateDraft : String := ""
  notificationBody : String := ""
  vendorRequestDraft : String := ""
  confidence : String := ""
  limitations : List String := []
  status : String := ""
  deriving DecidableEq, Repr

/-! ## Decoding -/

def texts : Decoder (List String) := .slice "" .text

def hypothesisFields : List (String × Decoder AIHypothesis) :=
  [("rank", .of AIHypothesis.rank (fun h v => { h with rank := v }) .int),
    ("text", .of AIHypothesis.text (fun h v => { h with text := v }) .text),
    ("confidence", .of AIHypothesis.confidence (fun h v => { h with confidence := v }) .text),
    ("evidenceRefs", .of AIHypothesis.evidenceRefs (fun h v => { h with evidenceRefs := v }) texts),
    ("sopStepRefs", .of AIHypothesis.sopStepRefs (fun h v => { h with sopStepRefs := v }) texts)]

def firstActionFields : List (String × Decoder AIFirstAction) :=
  [("text", .of AIFirstAction.text (fun a v => { a with text := v }) .text),
    ("sopStepRef", .of AIFirstAction.sopStepRef (fun a v => { a with sopStepRef := v }) .text),
    ("evidenceRefs", .of AIFirstAction.evidenceRefs (fun a v => { a with evidenceRefs := v }) texts),
    ("requiresHumanApproval", .of AIFirstAction.requiresHumanApproval (fun a v => { a with requiresHumanApproval := v }) .bool)]

def partialFields : List (String × Decoder PartialResponse) :=
  [("headline", .of PartialResponse.headline (fun p v => { p with headline := v }) .text),
    ("hypotheses", .of PartialResponse.hypotheses (fun p v => { p with hypotheses := v }) (.slice {} (.record hypothesisFields))),
    ("firstActions", .of PartialResponse.firstActions (fun p v => { p with firstActions := v })
      (.slice {} (.record firstActionFields))),
    ("customerUpdateDraft", .of PartialResponse.customerUpdateDraft (fun p v => { p with customerUpdateDraft := v }) .text),
    ("notificationBody", .of PartialResponse.notificationBody (fun p v => { p with notificationBody := v }) .text),
    ("vendorRequestDraft", .of PartialResponse.vendorRequestDraft (fun p v => { p with vendorRequestDraft := v }) .text),
    ("confidence", .of PartialResponse.confidence (fun p v => { p with confidence := v }) .text),
    ("limitations", .of PartialResponse.limitations (fun p v => { p with limitations := v }) texts),
    ("status", .of PartialResponse.status (fun p v => { p with status := v }) .text)]

/-! ## The strategy -/

section Parse

-- the hex digits of `sha256.Sum256`
variable (sha256 : String → String)

def deterministicLLMStrategyID (req : AIStrategyRequest) : String :=
  let sum := sha256 (String.intercalate "|" [trimSpace req.incidentID, trimSpace req.alertFingerprint,
    trimSpace req.sopDocument.sopID, trimSpace req.sopDocument.version])
  "llm-" ++ String.ofList (sum.toList.take 16)

/-- The strategy as it is put together; `now` is the clock's text. -/
def assemble (req : AIStrategyRequest) (model now : String) (p : PartialResponse) : AIStrategy :=
  { contractVersion := "ds.ai_strategy.v1", strategyID := deterministicLLMStrategyID sha256 req, incidentID := req.incidentID,
    alertFingerprint := req.alertFingerprint, sopID := req.sopDocument.sopID, sopVersion := req.sopDocument.version,
    language := "ko-KR",
    status := if allowedAIStrategyStatuses.contains p.status then p.status else "ready",
    confidence := if allowedAIConfidenceValues.contains p.confidence then p.confidence else "low",
    headline := p.headline, hypotheses := p.hypotheses, firstActions := p.firstActions,
    customerUpdateDraft := p.customerUpdateDraft, notificationBody := p.notificationBody,
    vendorRequestDraft := p.vendorRequestDraft, evidenceRefs := req.evidenceRefs, limitations := p.limitations,
    audit := { promptVersion := "ds-ir-ko-llm-v3", model := model, generatedAt := now, redactionApplied := true } }

def isSOPGrounded (s : AIStrategy) : Bool :=
  s.hypotheses.any (fun h => h.sopStepRefs.any fun ref => !isBlank ref) || s.firstActions.any (fun a => !isBlank a.sopStepRef)

def AIStrategy.downgrade (s : AIStrategy) (limitation : String) : AIStrategy :=
  { s with status := "low_confidence", confidence := "low", limitations := s.limitations ++ [limitation] }

def groundingMissingLimitation : String :=
  "AI draft was not grounded in the bound SOP (no SOP step citation); confidence downgraded."

def evidenceMissingLimitation : String := "no evidence refs were available; confidence downgraded."

/-- A ready draft that cites no step of the bound SOP is downgraded. -/
def enforceGrounding (req : AIStrategyRequest) (s : AIStrategy) : AIStrategy :=
  if s.status = "ready" ∧ isBlank req.sopDocument.sopID = false ∧ isSOPGrounded s = false then
    s.downgrade groundingMissingLimitation
  else s

def enforceEvidence (s : AIStrategy) : AIStrategy :=
  if s.status = "ready" ∧ s.evidenceRefs = [] then s.downgrade evidenceMissingLimitation else s

def draft (req : AIStrategyRequest) (model now : String) (p : PartialResponse) : AIStrategy :=
  enforceEvidence (enforceGrounding req (assemble sha256 req model now p))

inductive ParseError where
  | noObject
  | unmarshal
  | invalid (errs : List String)
  deriving DecidableEq, Repr

def parse (raw : String) (req : AIStrategyRequest) (model now : String) : Except ParseError AIStrategy :=
  match Search.span '\x7b' '\x7d' raw.toList with
  | none => .error .noObject
  | some body =>
    match unmarshal (.record partialFields) {} body with
    | none => .error .unmarshal
    | some p =>
      let s := draft sha256 req model now p
      if validateAIStrategy s = [] then .ok s else .error (.invalid (validateAIStrategy s))

variable {req : AIStrategyRequest} {model : String} {s : AIStrategy}

/-- **What is parsed** is the draft of what the model wrote, downgraded where it must be, and it is valid. -/
theorem parse_eq_ok {raw : String} {now : String} :
    parse sha256 raw req model now = .ok s ↔
      ∃ p, (Search.span '\x7b' '\x7d' raw.toList).bind (unmarshal (.record partialFields) {}) = some p ∧
        s = draft sha256 req model now p ∧ validateAIStrategy s = [] := by
  unfold parse
  cases Search.span '\x7b' '\x7d' raw.toList with
  | none => simp
  | some body =>
    simp only [Option.bind_some]
    cases unmarshal (.record partialFields) {} body with
    | none => simp
    | some p =>
      simp only [Option.some.injEq, exists_eq_left']
      constructor
      · intro h
        by_cases hvalid : validateAIStrategy (draft sha256 req model now p) = []
        · rw [if_pos hvalid] at h
          cases h
          exact ⟨rfl, hvalid⟩
        · rw [if_neg hvalid] at h
          cases h
      · rintro ⟨rfl, hvalid⟩
        exact if_pos hvalid

/-! ## What the caller controls -/

structure CallerFields where
  contractVersion : String
  strategyID : String
  incidentID : String
  alertFingerprint : String
  sopID : String
  sopVersion : String
  language : String
  evidenceRefs : List AIEvidenceRef
  audit : AIStrategyAudit
  deriving DecidableEq, Repr

def AIStrategy.caller (s : AIStrategy) : CallerFields :=
  ⟨s.contractVersion, s.strategyID, s.incidentID, s.alertFingerprint, s.sopID, s.sopVersion, s.language, s.evidenceRefs, s.audit⟩

def AIStrategyRequest.caller (req : AIStrategyRequest) (model now : String) : CallerFields :=
  ⟨"ds.ai_strategy.v1", deterministicLLMStrategyID sha256 req, req.incidentID, req.alertFingerprint, req.sopDocument.sopID,
    req.sopDocument.version, "ko-KR", req.evidenceRefs, ⟨"ds-ir-ko-llm-v3", model, now, true, none, none, none, none, none⟩⟩

@[simp] theorem caller_enforceGrounding (req : AIStrategyRequest) (s : AIStrategy) : (enforceGrounding req s).caller = s.caller := by
  unfold enforceGrounding
  split <;> rfl

@[simp] theorem caller_enforceEvidence (s : AIStrategy) : (enforceEvidence s).caller = s.caller := by
  unfold enforceEvidence
  split <;> rfl

/-- **What the caller controls is the caller's**, whatever the model wrote. -/
theorem parse_caller {raw : String} {now : String}
    (h : parse sha256 raw req model now = .ok s) : s.caller = req.caller sha256 model now := by
  obtain ⟨p, -, rfl, -⟩ := (parse_eq_ok sha256).1 h
  rw [draft, caller_enforceEvidence, caller_enforceGrounding]
  rfl

/-- **LLM strategy parsing is grounded**: every field of the caller is the request's, and a strategy that is ready has the
request's SOP, evidence, and only actions that wait for a human. -/
theorem parse_grounded (raw : String) (req : AIStrategyRequest) (model now : String) (s : AIStrategy)
    (h : parse sha256 raw req model now = .ok s) :
    s.caller = req.caller sha256 model now ∧
    (s.status = "ready" → s.sopID = req.sopDocument.sopID ∧ s.sopVersion = req.sopDocument.version ∧ s.evidenceRefs ≠ [] ∧
      ∀ a ∈ s.firstActions, a.requiresHumanApproval = true) := by
  have hcaller := parse_caller sha256 h
  refine ⟨hcaller, fun hready => ?_⟩
  obtain ⟨-, -, -, hvalid⟩ := (parse_eq_ok sha256).1 h
  exact ⟨congrArg CallerFields.sopID hcaller, congrArg CallerFields.sopVersion hcaller, evidence_of_valid hvalid hready,
    approval_of_valid hvalid⟩

/-! ## Attempts -/

/-- What one attempt meets: its deadline, a transport error, or an answer at a time. -/
inductive Completion where
  | expired
  | failed
  | answered (raw now : String)

inductive GenerateError where
  | expired
  | provider
  | parse (e : ParseError)

def maxParseAttempts : Nat := 3

def attempts (req : AIStrategyRequest) (model : String) (met : Nat → Completion) :
    Nat → Nat → GenerateError → Except GenerateError AIStrategy
  | 0, _, last => .error last
  | k + 1, i, last =>
    match met i with
    | .expired => .error last
    | .failed => .error .provider
    | .answered raw now =>
      match parse sha256 raw req model now with
      | .ok s => .ok s
      | .error e => attempts req model met k (i + 1) (.parse e)

def generate (req : AIStrategyRequest) (model : String) (met : Nat → Completion) : Except GenerateError AIStrategy :=
  attempts sha256 req model met maxParseAttempts 1 .expired

theorem parsed_of_attempts {met : Nat → Completion} :
    ∀ {k i : Nat} {last : GenerateError}, attempts sha256 req model met k i last = .ok s →
      ∃ raw now, parse sha256 raw req model now = .ok s
  | 0, _, _, h => nomatch h
  | k + 1, i, _, h => by
    rw [attempts] at h
    split at h
    · cases h
    · cases h
    · rename_i raw now _
      split at h
      · rename_i s' hs
        cases h
        exact ⟨raw, now, hs⟩
      · exact parsed_of_attempts h

/-- **A generated strategy is grounded**, whichever attempt gave it. -/
theorem generate_grounded {met : Nat → Completion}
    (h : generate sha256 req model met = .ok s) :
    (∃ now, s.caller = req.caller sha256 model now) ∧ ∀ a ∈ s.firstActions, a.requiresHumanApproval = true := by
  obtain ⟨raw, now, hs⟩ := parsed_of_attempts sha256 h
  obtain ⟨-, -, -, hvalid⟩ := (parse_eq_ok sha256).1 hs
  exact ⟨⟨now, parse_caller sha256 hs⟩, approval_of_valid hvalid⟩

end Parse

def boundRequest : AIStrategyRequest :=
  { incidentID := "inc-1", alertFingerprint := "fp-1",
    sopDocument := { sopID := "sop-1", title := "Restart", version := "v1", sourceID := "wiki", ownerTeam := "sre",
                     approvalStatus := "approved", tenantScope := ⟨["*"], ["*"]⟩, tags := [], updatedAt := "" },
    evidenceRefs := [{ refID := "e-1", type := "metric", observation := "p99" }] }

def readyAnswer : String :=
  "\x7b\"sopId\":\"x\",\"headline\":\"h\",\"hypotheses\":[\x7b\"rank\":1,\"text\":\"t\",\"confidence\":\"low\",\"sopStepRefs\":[\"s1\"]\x7d],\"firstActions\":[\x7b\"text\":\"t\",\"sopStepRef\":\"s1\",\"requiresHumanApproval\":true\x7d]\x7d"

def boundSum (_ : String) : String := "f062f20912dd293503ec0058ab29025c980893424ba9f3d7ba5ad2af5bfdcebc"

def readyPartial : PartialResponse :=
  { headline := "h", hypotheses := [{ rank := 1, text := "t", confidence := "low", sopStepRefs := ["s1"] }],
    firstActions := [{ text := "t", sopStepRef := "s1", requiresHumanApproval := true }] }

set_option maxRecDepth 4000 in
theorem readyAnswer_decoded :
    (Search.span '\x7b' '\x7d' readyAnswer.toList).bind (unmarshal (.record partialFields) {}) = some readyPartial := by
  have hchars : readyAnswer.toList = _ := String.toList_ofList
  rw [hchars]
  decide +kernel

def readyStrategy : AIStrategy := draft boundSum boundRequest "m" "2026-01-01T00:00:00Z" readyPartial

theorem readyAnswer_grounded :
    readyStrategy.caller = boundRequest.caller boundSum "m" "2026-01-01T00:00:00Z" ∧
    (readyStrategy.status = "ready" → readyStrategy.sopID = "sop-1" ∧ readyStrategy.sopVersion = "v1" ∧
      readyStrategy.evidenceRefs ≠ [] ∧ ∀ a ∈ readyStrategy.firstActions, a.requiresHumanApproval = true) :=
  parse_grounded boundSum readyAnswer boundRequest "m" "2026-01-01T00:00:00Z" readyStrategy
    ((parse_eq_ok boundSum).2 ⟨readyPartial, readyAnswer_decoded, rfl, by decide +kernel⟩)

end AiStrategy
end DsApm
