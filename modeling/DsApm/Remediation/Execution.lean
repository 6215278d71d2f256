import DsApm.Lib.GoStd
import DsApm.Lib.Regex
/-!
# Execution — the remediation record, its statuses and its checks

`pkg/types/ruletypes`: `remediation.go`, `remediation_config.go` and the field checks of `pilot_contract.go` they use.
A `RemediationExecution` is a `Proposal`, which is written once when it is created, and the fields its lifecycle fills
in.  A timestamp column is the seconds of an RFC 3339 text, or nothing for the empty text.
-/
namespace DsApm
namespace Remediation

open GoStd Regex

inductive RemediationStatus where
  | proposed | approved | executing | succeeded | failed | verified | unresolved | rejected | expired
  deriving DecidableEq, Repr

def RemediationStatus.name : RemediationStatus → String
  | .proposed => "proposed" | .approved => "approved" | .executing => "executing" | .succeeded => "succeeded"
  | .failed => "failed" | .verified => "verified" | .unresolved => "unresolved" | .rejected => "rejected"
  | .expired => "expired"

inductive RemediationSource where
  | unset | runbook | llmGenerated
  deriving DecidableEq, Repr

abbrev Stamp := Option Int

def format (t : Time) : Stamp := some (unix t)

structure Proposal where
  id : String
  orgID : String
  incidentID : String
  alertFingerprint : String
  sopID : String
  sopVersion : String
  runbookID : String
  source : RemediationSource := .unset
  selectionRationale : String := ""
  scriptSnapshot : String
  proposedAt : Stamp
  expiresAt : Stamp
  targetID : String := ""
  targetHost : String := ""
  targetPort : Int := 0
  targetUser : String := ""
  targetHostKeyFP : String := ""
  targetName : String := ""
  deriving DecidableEq, Repr

structure RemediationExecution extends Proposal where
  status : RemediationStatus
  approvedAt : Stamp := none
  executedAt : Stamp := none
  terminalAt : Stamp := none
  approvedBy : String := ""
  exitCode : Option Int := none
  outputSnippet : String := ""
  verifyResult : Option RemediationStatus := none
  deriving DecidableEq, Repr

/-! ## Statuses -/

def RemediationStatus.terminal : RemediationStatus → Bool
  | .verified | .unresolved | .failed | .rejected | .expired => true
  | .proposed | .approved | .executing | .succeeded => false

/-- `allowedRemediationTransitions`; a status that is not a key permits no transition. -/
def allowedRemediationTransitions : RemediationStatus → Option (List RemediationStatus)
  | .proposed => some [.executing, .rejected, .expired]
  | .executing => some [.succeeded, .failed]
  | .succeeded => some [.verified, .unresolved]
  | _ => none

def validateRemediationStatusTransition (from_ to_ : RemediationStatus) : Option String :=
  if from_ = to_ then some ("status transition: " ++ quote from_.name ++ " → " ++ quote to_.name ++ " is a no-op")
  else match allowedRemediationTransitions from_ with
    | none => some ("status transition: " ++ quote from_.name ++ " is terminal")
    | some allowed =>
      if allowed.contains to_ then none
      else some ("status transition: " ++ quote from_.name ++ " → " ++ quote to_.name ++ " forbidden")

def Allowed (from_ to_ : RemediationStatus) : Prop := ∃ l, allowedRemediationTransitions from_ = some l ∧ to_ ∈ l

instance (from_ to_ : RemediationStatus) : Decidable (Allowed from_ to_) :=
  match h : allowedRemediationTransitions from_ with
  | none => isFalse (fun ⟨_, hl, _⟩ => by rw [h] at hl; cases hl)
  | some l => if hm : to_ ∈ l then isTrue ⟨l, h, hm⟩
      else isFalse (fun ⟨_, hl, hm'⟩ => by rw [h, Option.some.injEq] at hl; exact hm (hl ▸ hm'))

/-- **The check accepts exactly the edges.** -/
theorem validateRemediationStatusTransition_eq_none (from_ to_ : RemediationStatus) :
    validateRemediationStatusTransition from_ to_ = none ↔ Allowed from_ to_ := by
  cases from_ <;> cases to_ <;> decide

theorem not_allowed_of_terminal {from_ : RemediationStatus} (h : from_.terminal = true) (to_ : RemediationStatus) :
    ¬ Allowed from_ to_ := by
  revert h; cases from_ <;> simp [RemediationStatus.terminal, Allowed, allowedRemediationTransitions]

theorem Allowed.ne_proposed {from_ to_ : RemediationStatus} (h : Allowed from_ to_) : to_ ≠ .proposed := by
  rintro rfl
  revert h; cases from_ <;> decide

theorem Allowed.of_executing {from_ : RemediationStatus} (h : Allowed from_ .executing) : from_ = .proposed := by
  revert h; cases from_ <;> decide

/-! ## Configuration -/

structure RemediationConfig where
  executionEnabled : Bool
  proposalTTLSeconds : Int
  execTimeoutSeconds : Int
  verifyWindowSeconds : Int
  maxConcurrent : Int
  deriving DecidableEq, Repr

def defaultRemediationConfig : RemediationConfig :=
  { executionEnabled := false, proposalTTLSeconds := 1800, execTimeoutSeconds := 300, verifyWindowSeconds := 600,
    maxConcurrent := 1 }

def orDefault (x d : Int) : Int := if x = 0 then d else x

def RemediationConfig.withDefaults (c : RemediationConfig) : RemediationConfig :=
  { c with
    proposalTTLSeconds := orDefault c.proposalTTLSeconds defaultRemediationConfig.proposalTTLSeconds
    execTimeoutSeconds := orDefault c.execTimeoutSeconds defaultRemediationConfig.execTimeoutSeconds
    verifyWindowSeconds := orDefault c.verifyWindowSeconds defaultRemediationConfig.verifyWindowSeconds
    maxConcurrent := orDefault c.maxConcurrent defaultRemediationConfig.maxConcurrent }

def requireNonNegative (field : String) (x : Int) : List String :=
  if x < 0 then [field ++ ": must be >= 0 (got " ++ toString x ++ ")"] else []

def validateRemediationConfig (c : RemediationConfig) : List String :=
  requireNonNegative "proposalTtlSeconds" c.proposalTTLSeconds ++
  requireNonNegative "execTimeoutSeconds" c.execTimeoutSeconds ++
  requireNonNegative "verifyWindowSeconds" c.verifyWindowSeconds ++
  requireNonNegative "maxConcurrent" c.maxConcurrent

/-! ## Field checks -/

def hexDigit : Re := .cls (fun c => c.isDigit || ('a' ≤ c && c ≤ 'f') || ('A' ≤ c && c ≤ 'F'))

def uuidV4Pattern : Re :=
  seqs [.bot, rep 8 hexDigit, lit "-", rep 4 hexDigit, lit "-", rep 4 hexDigit, lit "-", rep 4 hexDigit, lit "-",
    rep 12 hexDigit, .eot]

def pilotJWTLikePattern : Re :=
  let part := atLeast 10 (.cls (fun c => c.isAlphanum || c == '_' || c == '-'))
  seqs [.wordBoundary, part, lit ".", part, lit ".", part, .wordBoundary]

def pilotRequireNonEmpty (field value : String) : List String :=
  if isBlank value then [field ++ ": field is required"] else []

def hasPilotSecretLikeValue (value : String) : Bool :=
  let normalized := (trimSpace value).toList.map toLower
  if normalized.isEmpty then false
  else ["token=", "access_token", "client_secret", "api_key", "apikey", "password", "secret=", "bearer "].any
      (fun forbidden => contains normalized forbidden.toList) ||
    (contains normalized "-----begin".toList && contains normalized "private key-----".toList) ||
    matchString pilotJWTLikePattern value

def pilotAppendSecretLikeStringErrors (field value : String) : List String :=
  if hasPilotSecretLikeValue value then [field ++ ": contains secret-like value"] else []

def requireStamp (field : String) (value : Stamp) : List String :=
  if value.isNone then [field ++ ": field is required"] else []

def remediationMaxScriptLen : Nat := 65536

/-- `ValidateRemediationExecution`: the texts it joins.  The status and the source are of an enumerated type, so
`pilotRequireAllowed` has nothing to refuse. -/
def validateRemediationExecution (e : RemediationExecution) : List String :=
  (if matchString uuidV4Pattern (trimSpace e.id) then [] else ["id: must be UUID v4 (got " ++ quote e.id ++ ")"]) ++
  pilotRequireNonEmpty "orgId" e.orgID ++
  pilotRequireNonEmpty "incidentId" e.incidentID ++
  pilotRequireNonEmpty "sopId" e.sopID ++
  (if e.source = .llmGenerated then
    (if isBlank e.runbookID then [] else ["runbookId: must be empty for llm-generated source"])
  else pilotRequireNonEmpty "runbookId" e.runbookID) ++
  pilotAppendSecretLikeStringErrors "selectionRationale" e.selectionRationale ++
  (if remediationMaxScriptLen < e.scriptSnapshot.utf8ByteSize then
    ["scriptSnapshot: exceeds 65536-byte limit (got " ++ toString e.scriptSnapshot.utf8ByteSize ++ ")"]
  else []) ++
  (if e.scriptSnapshot.toList.contains '\x00' then ["scriptSnapshot: must not contain NUL byte"] else []) ++
  requireStamp "proposedAt" e.proposedAt ++
  requireStamp "expiresAt" e.expiresAt ++
  pilotAppendSecretLikeStringErrors "approvedBy" e.approvedBy ++
  (if isBlank e.targetID then []
  else
    (if matchString uuidV4Pattern (trimSpace e.targetID) then []
    else ["targetId: must be UUID v4 when set (got " ++ quote e.targetID ++ ")"]) ++
    pilotRequireNonEmpty "targetHost" e.targetHost ++
    pilotRequireNonEmpty "targetHostKeyFp" e.targetHostKeyFP)

end Remediation
end DsApm
