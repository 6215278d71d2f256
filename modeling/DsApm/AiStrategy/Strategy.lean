import DsApm.Remediation.Proposal
import DsApm.Sop.Binding
/-!
# Strategy — an AI strategy and its checks

`ai_strategy.go`: a ready strategy must rest on an SOP and on evidence, another must say why it is not; every action waits for
a human, and no text may claim that something was done by itself or hold a secret.
-/
namespace DsApm
namespace AiStrategy

open GoStd Remediation Regex Sop List

structure AIHypothesis where
  rank : Int := 0
  text : String := ""
  confidence : String := ""
  evidenceRefs : List String := []
  sopStepRefs : List String := []
  deriving DecidableEq, Repr

structure AIFirstAction where
  text : String := ""
  sopStepRef : String := ""
  evidenceRefs : List String := []
  requiresHumanApproval : Bool := false
  deriving DecidableEq, Repr

structure AIEvidenceRef where
  refID : String
  type : String
  observation : String
  permalink : String := ""
  confidence : String := ""
  deriving DecidableEq, Repr

structure AIStrategyAudit where
  promptVersion : String
  model : String
  generatedAt : String
  redactionApplied : Bool
  quotaLimit : Option Int := none
  quotaUsed : Option Int := none
  quotaRemaining : Option Int := none
  timeoutBudgetMillis : Option Int := none
  executionElapsedMillis : Option Int := none
  deriving DecidableEq, Repr

structure AIStrategy where
  contractVersion : String
  strategyID : String
  incidentID : String
  alertFingerprint : String
  status : String
  language : String
  sopID : String
  sopVersion : String
  headline : String
  hypotheses : List AIHypothesis
  firstActions : List AIFirstAction
  customerUpdateDraft : String
  notificationBody : String
  vendorRequestDraft : String
  confidence : String
  evidenceRefs : List AIEvidenceRef
  limitations : List String
  audit : AIStrategyAudit
  deriving DecidableEq, Repr

def allowedAIStrategyStatuses : List String :=
  ["ready", "unavailable", "timeout", "blocked_by_policy", "quota_exhausted", "sop_missing", "evidence_unavailable",
    "low_confidence"]

def allowedAIConfidenceValues : List String := ["high", "medium", "low"]

/-! ## The checks -/

/-- `(?i)(자동\s*(재시작|삭제|차단|failover)|automatically\s+(…)|\b(…)\b.*\bautomatically\b|재시작했습니다|…)` -/
def automaticOperationClaimPattern : Re :=
  let words (ws : List String) : Re := alts (ws.map litFold)
  alts [seqs [litFold "자동", .star space, words ["재시작", "삭제", "차단", "failover"]],
    seqs [litFold "automatically", plus space, words ["restarted", "deleted", "blocked", "failed over"]],
    seqs [.wordBoundary, words ["restarted", "deleted", "blocked"], .wordBoundary, .star (noneOf ['\n']), .wordBoundary,
      litFold "automatically", .wordBoundary],
    words ["재시작했습니다", "삭제했습니다", "차단했습니다", "failover했습니다"]]

def aiContainsAutomaticOperationClaim (value : String) : Bool := matchString automaticOperationClaimPattern (trimSpace value)

def automaticClaimErrors (field value : String) : List String :=
  if aiContainsAutomaticOperationClaim value then [field ++ ": must not claim automatic operational execution"] else []

def pilotRequireNonNegativeAIControl (name : String) : Option Int → List String
  | some v => if v < 0 then [name ++ ": must be greater than or equal to zero"] else []
  | none => []

def refErrors (path : String) (refs : List String) : List String :=
  refs.zipIdx.flatMap fun r =>
    pilotRequireNonEmpty (indexed path r.2 "") r.1 ++ pilotAppendSecretLikeStringErrors (indexed path r.2 "") r.1

def hypothesisErrors (path : String) (h : AIHypothesis) : List String :=
  (if h.rank ≤ 0 then [path ++ ".rank: must be greater than zero"] else []) ++
  pilotRequireNonEmpty (path ++ ".text") h.text ++
  pilotRequireAllowed (path ++ ".confidence") h.confidence allowedAIConfidenceValues ++
  (if h.evidenceRefs = [] ∧ h.sopStepRefs = [] then
    [path ++ ": must include at least one evidenceRefs or sopStepRefs entry"] else []) ++
  pilotAppendSecretLikeStringErrors (path ++ ".text") h.text ++
  refErrors (path ++ ".evidenceRefs") h.evidenceRefs ++
  refErrors (path ++ ".sopStepRefs") h.sopStepRefs ++
  automaticClaimErrors (path ++ ".text") h.text

def firstActionErrors (path : String) (a : AIFirstAction) : List String :=
  pilotRequireNonEmpty (path ++ ".text") a.text ++
  (if a.sopStepRef = "" ∧ a.evidenceRefs = [] then [path ++ ": must include sopStepRef or evidenceRefs"] else []) ++
  (if a.requiresHumanApproval then [] else [path ++ ".requiresHumanApproval: must be true"]) ++
  pilotAppendSecretLikeStringErrors (path ++ ".text") a.text ++
  pilotAppendSecretLikeStringErrors (path ++ ".sopStepRef") a.sopStepRef ++
  refErrors (path ++ ".evidenceRefs") a.evidenceRefs ++
  automaticClaimErrors (path ++ ".text") a.text

def evidenceRefErrors (path : String) (r : AIEvidenceRef) : List String :=
  pilotRequireNonEmpty (path ++ ".refId") r.refID ++
  pilotRequireNonEmpty (path ++ ".type") r.type ++
  pilotRequireNonEmpty (path ++ ".observation") r.observation ++
  (if isBlank r.confidence then [] else pilotRequireAllowed (path ++ ".confidence") r.confidence allowedAIConfidenceValues) ++
  pilotAppendSecretLikeStringErrors (path ++ ".refId") r.refID ++
  pilotAppendSecretLikeStringErrors (path ++ ".type") r.type ++
  pilotAppendSecretLikeStringErrors (path ++ ".observation") r.observation ++
  pilotAppendSecretLikeStringErrors (path ++ ".permalink") r.permalink

def each {α : Type} (field : String) (errors : String → α → List String) (l : List α) : List String :=
  l.zipIdx.flatMap fun a => errors (indexed field a.2 "") a.1

def validateAIHypotheses (hs : List AIHypothesis) : List String := each "hypotheses" hypothesisErrors hs

def validateAIFirstActions (actions : List AIFirstAction) : List String := each "firstActions" firstActionErrors actions

def validateAIEvidenceRefs (refs : List AIEvidenceRef) : List String := each "evidenceRefs" evidenceRefErrors refs

def appendAIStrategySecretAndSafetyErrors (s : AIStrategy) : List String :=
  pilotAppendSecretLikeStringErrors "strategyId" s.strategyID ++
  pilotAppendSecretLikeStringErrors "incidentId" s.incidentID ++
  pilotAppendSecretLikeStringErrors "alertFingerprint" s.alertFingerprint ++
  pilotAppendSecretLikeStringErrors "sopId" s.sopID ++
  pilotAppendSecretLikeStringErrors "sopVersion" s.sopVersion ++
  pilotAppendSecretLikeStringErrors "headline" s.headline ++
  pilotAppendSecretLikeStringErrors "customerUpdateDraft" s.customerUpdateDraft ++
  pilotAppendSecretLikeStringErrors "notificationBody" s.notificationBody ++
  pilotAppendSecretLikeStringErrors "vendorRequestDraft" s.vendorRequestDraft ++
  pilotAppendSecretLikeStringErrors "audit.promptVersion" s.audit.promptVersion ++
  pilotAppendSecretLikeStringErrors "audit.model" s.audit.model ++
  each "limitations" pilotAppendSecretLikeStringErrors s.limitations ++
  automaticClaimErrors "headline" s.headline ++
  automaticClaimErrors "customerUpdateDraft" s.customerUpdateDraft ++
  automaticClaimErrors "notificationBody" s.notificationBody ++
  automaticClaimErrors "vendorRequestDraft" s.vendorRequestDraft

def readyErrors (s : AIStrategy) : List String :=
  pilotRequireNonEmpty "sopId" s.sopID ++
  pilotRequireNonEmpty "sopVersion" s.sopVersion ++
  pilotRequireNonEmpty "headline" s.headline ++
  (if s.hypotheses = [] then ["hypotheses: ready strategy must include at least one hypothesis"] else []) ++
  (if s.firstActions = [] then ["firstActions: ready strategy must include at least one action"] else []) ++
  (if s.evidenceRefs = [] then ["evidenceRefs: ready strategy must include at least one evidence ref"] else [])

def validateAIStrategy (s : AIStrategy) : List String :=
  pilotRequireContractVersion "contractVersion" s.contractVersion "ds.ai_strategy.v1" ++
  pilotRequireNonEmpty "strategyId" s.strategyID ++
  pilotRequireNonEmpty "incidentId" s.incidentID ++
  pilotRequireAllowed "status" s.status allowedAIStrategyStatuses ++
  pilotRequireNonEmpty "language" s.language ++
  pilotRequireAllowed "confidence" s.confidence allowedAIConfidenceValues ++
  pilotRequireNonEmpty "audit.promptVersion" s.audit.promptVersion ++
  pilotRequireNonEmpty "audit.model" s.audit.model ++
  pilotRequireNonEmpty "audit.generatedAt" s.audit.generatedAt ++
  pilotRequireNonNegativeAIControl "audit.quotaLimit" s.audit.quotaLimit ++
  pilotRequireNonNegativeAIControl "audit.quotaUsed" s.audit.quotaUsed ++
  pilotRequireNonNegativeAIControl "audit.quotaRemaining" s.audit.quotaRemaining ++
  pilotRequireNonNegativeAIControl "audit.timeoutBudgetMillis" s.audit.timeoutBudgetMillis ++
  pilotRequireNonNegativeAIControl "audit.executionElapsedMillis" s.audit.executionElapsedMillis ++
  (if s.audit.redactionApplied then [] else ["audit.redactionApplied: must be true before AI strategy output is used"]) ++
  (if s.status = "ready" then readyErrors s else []) ++
  (if s.status ≠ "ready" ∧ s.limitations = [] then
    ["limitations: non-ready strategy must explain the fallback reason"] else []) ++
  validateAIHypotheses s.hypotheses ++
  validateAIFirstActions s.firstActions ++
  validateAIEvidenceRefs s.evidenceRefs ++
  appendAIStrategySecretAndSafetyErrors s

/-! ## What the checks give -/

theorem each_eq_nil {α : Type} {field : String} {errors : String → α → List String} {l : List α} (h : each field errors l = [])
    {a : α} (ha : a ∈ l) : ∃ path, errors path a = [] := by
  obtain ⟨i, hi, rfl⟩ := mem_iff_getElem.1 ha
  exact ⟨_, flatMap_eq_nil_iff.1 h (l[i], i) (mem_zipIdx_iff_getElem?.2 (List.getElem?_eq_getElem hi))⟩

theorem approval_of_firstActionErrors {path : String} {a : AIFirstAction} (h : firstActionErrors path a = []) :
    a.requiresHumanApproval = true := by
  simp only [firstActionErrors, append_eq_nil_iff] at h
  obtain ⟨⟨⟨⟨⟨-, happroval⟩, -⟩, -⟩, -⟩, -⟩ := h
  by_contra hno
  simp [hno] at happroval

theorem checks_of_valid {s : AIStrategy} (h : validateAIStrategy s = []) :
    (if s.status = "ready" then readyErrors s else []) = [] ∧ validateAIFirstActions s.firstActions = [] := by
  unfold validateAIStrategy at h
  have hevidence := (append_eq_nil_iff.1 h).1
  have hactions := (append_eq_nil_iff.1 hevidence).1
  have hhypotheses := (append_eq_nil_iff.1 hactions).1
  have hlimitations := (append_eq_nil_iff.1 hhypotheses).1
  have hready := (append_eq_nil_iff.1 hlimitations).1
  exact ⟨(append_eq_nil_iff.1 hready).2, (append_eq_nil_iff.1 hactions).2⟩

/-- **Every action of a valid strategy waits for a human.** -/
theorem approval_of_valid {s : AIStrategy} (h : validateAIStrategy s = []) :
    ∀ a ∈ s.firstActions, a.requiresHumanApproval = true := by
  intro a ha
  obtain ⟨path, herr⟩ := each_eq_nil (checks_of_valid h).2 ha
  exact approval_of_firstActionErrors herr

/-- **A ready strategy that is valid** rests on evidence. -/
theorem evidence_of_valid {s : AIStrategy} (h : validateAIStrategy s = []) (hs : s.status = "ready") : s.evidenceRefs ≠ [] := by
  have hready := (checks_of_valid h).1
  rw [if_pos hs] at hready
  unfold readyErrors at hready
  intro hnone
  have hevidence := (append_eq_nil_iff.1 hready).2
  simp [hnone] at hevidence

end AiStrategy
end DsApm
