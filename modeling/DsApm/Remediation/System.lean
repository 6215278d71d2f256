import DsApm.Lib.StepRun
import DsApm.Remediation.Proposal
import DsApm.Remediation.Store
/-!
# System — everything that writes a remediation

The handlers of `remediation_handler.go`, the detached `runRemediation`, the verifier's `Tick` and the two proposers run
at the same time over one store.  Each is a process: a program counter with the values it holds, which takes one store
call (or one call to something outside) a step.  An action says which process moves and what it is answered: whether
its store call fails, what the model decided, which target the labels hit, how the script ended.  A store call that
fails has no effect.  `Transition` is two steps, and the status it read is all that guards the second.

`TransitionCall` ties a target status to the caller, and the counter of the second step holds the proof that the check
passed, so neither can be out of line in any state.
-/
namespace DsApm
namespace Remediation

open GoStd SqlTable SqlTable.Table

structure ExecResult where
  exitCode : Int := 0
  output : String := ""
  timedOut : Bool := false
  deriving DecidableEq, Repr

structure RemoteTarget where
  target : RemediationTarget
  privateKeyPEM : String
  deriving DecidableEq, Repr

inductive TransportKind where
  | local | ssh
  deriving DecidableEq, Repr

def transportOf : Option RemoteTarget → TransportKind
  | none => .local
  | some _ => .ssh

def frozenTarget (p : Proposal) (keyPEM : String) : RemoteTarget :=
  ⟨{ host := p.targetHost, port := p.targetPort, user := p.targetUser, hostKeyFingerprint := p.targetHostKeyFP,
     name := p.targetName }, keyPEM⟩

/-- A script goes here for an execution without a target, else to the target frozen on it. -/
def Aimed (p : Proposal) (target : Option RemoteTarget) : Prop :=
  (target = none ∧ p.targetID = "") ∨ (p.targetID ≠ "" ∧ ∃ keyPEM, target = some (frozenTarget p keyPEM))

structure Aim (p : Proposal) where
  target : Option RemoteTarget
  aimed : Aimed p target

inductive Next where
  | reply
  | finish
  | expireRest (orgID : String) (now : Time) (rest : List RemediationExecution)
  | verifyRest (orgID : String) (now : Time) (rest : List RemediationExecution)

/-- The statuses a caller asks for: reject, the runner, and the two loops of `Tick`. -/
def Next.asks : Next → RemediationStatus → Bool
  | .reply, to_ => decide (to_ = .rejected)
  | .finish, to_ => decide (to_ = .succeeded) || decide (to_ = .failed)
  | .expireRest _ _ _, to_ => decide (to_ = .expired)
  | .verifyRest _ _ _, to_ => decide (to_ = .verified) || decide (to_ = .unresolved)

structure TransitionCall where
  orgID : String
  id : String
  to_ : RemediationStatus
  patch : TransitionPatch
  next : Next
  asked : next.asks to_ = true

inductive Proc where
  | idle
  | done
  -- `ApproveRemediation`
  | approveConfig (orgID id approvedBy : String)
  | approveCount (orgID id approvedBy : String) (cfg : RemediationConfig)
  | approveMove (orgID id approvedBy : String) (cfg : RemediationConfig)
  | approveGet (orgID id : String)
  -- `runRemediation`
  | runStart (orgID : String) (e : RemediationExecution)
  | runTarget (orgID : String) (e : RemediationExecution) (remote : e.targetID ≠ "")
  | runDecrypt (orgID : String) (e : RemediationExecution) (remote : e.targetID ≠ "") (sealedCredential : String)
  | runScript (orgID : String) (e : RemediationExecution) (aim : Aim e.toProposal)
  -- `Transition`
  | transitionGet (c : TransitionCall)
  | transitionSet (c : TransitionCall) (from_ : RemediationStatus) (ok : Allowed from_ c.to_)
  -- `RejectRemediation` after its transition
  | rejectGet (orgID id : String)
  -- `Tick`
  | tickProposed (orgID : String) (now : Time)
  | tickExpire (orgID : String) (now : Time) (rest : List RemediationExecution)
  | tickSucceeded (orgID : String) (now : Time)
  | tickVerify (orgID : String) (now : Time) (rest : List RemediationExecution)
  -- `Select` and `Propose`
  | selectConfig (r : AlertRequest)
  | selectActive (r : AlertRequest) (cfg : RemediationConfig)
  | selectComplete (r : AlertRequest) (cfg : RemediationConfig)
  | proposeConfig (r : AlertRequest)
  | freeze (selected : Bool) (p : Proposal) (summary : String)
  | creating (selected : Bool) (p : Proposal) (summary : String)

structure Answer where
  fails : Bool := false
  errText : String := ""
  decision : Option RunbookSelectionDecision := none
  newID : String := ""
  target : Option RemediationTarget := none
  key : Option String := none
  result : ExecResult := {}
  firing : Option Bool := none

inductive Reply where
  | internal (text : String)
  | forbidden (text : String)
  | tooManyRequests (text : String)
  | alreadyExists (text : String)
  | invalidInput (text : String)
  | ok (e : Option RemediationExecution)
  deriving DecidableEq, Repr

inductive Event where
  | quiet
  | replied (r : Reply)
  | won (orgID id : String) (maxConcurrent : Int)
  -- the 202 of an approval, with the runner started
  | started (e : RemediationExecution)
  -- the call `runner.Run(ctx, script, target, meta)`
  | handed (e : RemediationExecution) (script : String) (target : Option RemoteTarget) (via : String)
  | moved (id : String) (from_ to_ : RemediationStatus)
  | created (p : Proposal) (ann : Annotations)

structure Deployment where
  baseURL : String := ""
  aiCipherInsecure : Bool := false
  noTargetStore : Bool := false

structure World where
  deployment : Deployment
  executions : Executions
  config : String → Option RemediationConfig
  sops : List SOPDocument
  now : Time
  procs : Nat → Proc

def World.getConfig (w : World) (orgID : String) : RemediationConfig :=
  match w.config orgID with
  | none => defaultRemediationConfig
  | some c => c.withDefaults

/-! ## The processes -/

def remediationMaxOutputSnippet : Nat := 8192

def failRemediation (now : Time) (orgID id reason : String) : Proc :=
  .transitionGet
    { orgID := orgID, id := id, to_ := .failed, next := .finish, asked := rfl
      patch := { terminalAt := format now, exitCode := some (-1),
                 outputSnippet := truncate reason remediationMaxOutputSnippet } }

def recordResult (now : Time) (orgID id : String) (res : ExecResult) : Proc :=
  if res.timedOut = true ∨ res.exitCode ≠ 0 then
    .transitionGet
      { orgID := orgID, id := id, to_ := .failed, next := .finish, asked := rfl
        patch := { terminalAt := format now, exitCode := some res.exitCode,
                   outputSnippet := truncate res.output remediationMaxOutputSnippet } }
  else
    .transitionGet
      { orgID := orgID, id := id, to_ := .succeeded, next := .finish, asked := rfl
        patch := { terminalAt := format now, exitCode := some res.exitCode,
                   outputSnippet := truncate res.output remediationMaxOutputSnippet } }

/-- The start of `runRemediation`: the gate on generated scripts, then the local or the remote branch. -/
def runRemediation (d : Deployment) (now : Time) (orgID : String) (e : RemediationExecution) : Proc :=
  match (if e.source = .llmGenerated then checkLLMScript e.scriptSnapshot else none) with
  | some gateErr => failRemediation now orgID e.id gateErr
  | none =>
    if remote : e.targetID = "" then .runScript orgID e ⟨none, .inl ⟨rfl, remote⟩⟩
    else if d.aiCipherInsecure then
      failRemediation now orgID e.id "원격 실행 거부: 암호화 마스터키(DS_APM_AI_CONFIG_ENCRYPTION_KEY) 미구성"
    else if d.noTargetStore then failRemediation now orgID e.id "원격 실행 거부: 타겟 스토어 미배선"
    else .runTarget orgID e remote

/-- What follows a `Transition`: its error matters to the reject handler only. -/
def Next.resume (c : TransitionCall) (err : Option String) : Proc × Event :=
  match c.next with
  | .reply => match err with
    | none => (.rejectGet c.orgID c.id, .quiet)
    | some t => (.done, .replied (.invalidInput ("reject remediation: " ++ t)))
  | .finish => (.done, .quiet)
  | .expireRest orgID now rest => (.tickExpire orgID now rest, .quiet)
  | .verifyRest orgID now rest => (.tickVerify orgID now rest, .quiet)

def verifyWindow : Duration := 600 * second

def expireOne (orgID : String) (now : Time) (e : RemediationExecution) (rest : List RemediationExecution) : Proc :=
  match e.expiresAt with
  | none => .tickExpire orgID now rest
  | some exp =>
    if exp * second < now then
      .transitionGet { orgID := orgID, id := e.id, to_ := .expired, next := .expireRest orgID now rest, asked := rfl
                       patch := { terminalAt := format now } }
    else .tickExpire orgID now rest

def verifyOne (orgID : String) (now : Time) (firing : Option Bool) (e : RemediationExecution)
    (rest : List RemediationExecution) : Proc :=
  match firing with
  | none => .tickVerify orgID now rest
  | some false =>
    .transitionGet { orgID := orgID, id := e.id, to_ := .verified, next := .verifyRest orgID now rest, asked := rfl
                     patch := { terminalAt := format now, verifyResult := some .verified } }
  | some true => match e.executedAt with
    | none => .tickVerify orgID now rest
    | some execAt =>
      if execAt * second + verifyWindow < now then
        .transitionGet { orgID := orgID, id := e.id, to_ := .unresolved, next := .verifyRest orgID now rest, asked := rfl
                         patch := { terminalAt := format now, verifyResult := some .unresolved } }
      else .tickVerify orgID now rest

/-- One step of a process: the table, the process and what is seen, after it. -/
def Proc.step (w : World) (a : Answer) : Proc → Executions × Proc × Event
  | .idle => (w.executions, .idle, .quiet)
  | .done => (w.executions, .done, .quiet)
  | .approveConfig orgID id approvedBy =>
    if a.fails then (w.executions, .done, .replied (.internal "load remediation config"))
    else if (w.getConfig orgID).executionEnabled then
      (w.executions, .approveCount orgID id approvedBy (w.getConfig orgID), .quiet)
    else (w.executions, .done, .replied (.forbidden "remediation execution is disabled for this org"))
  | .approveCount orgID id approvedBy cfg =>
    if a.fails then (w.executions, .done, .replied (.internal "count active remediations"))
    else if cfg.maxConcurrent ≤ countActiveByOrg w.executions orgID then
      (w.executions, .done, .replied (.tooManyRequests "max concurrent remediation executions reached"))
    else (w.executions, .approveMove orgID id approvedBy cfg, .quiet)
  | .approveMove orgID id approvedBy cfg =>
    if a.fails then (w.executions, .done, .replied (.internal "transition remediation to executing"))
    else match transitionToExecuting w.executions orgID id approvedBy (format w.now) cfg.maxConcurrent with
      | (t, true) => (t, .approveGet orgID id, .won orgID id cfg.maxConcurrent)
      | (t, false) => (t, .done, .replied (.alreadyExists "remediation is not in an approvable state"))
  | .approveGet orgID id =>
    if a.fails then (w.executions, .done, .replied (.internal "load remediation after transition"))
    else match get w.executions orgID id with
      | none => (w.executions, .done, .replied (.internal "load remediation after transition"))
      | some e => (w.executions, .runStart orgID e, .started e)
  | .runStart orgID e => (w.executions, runRemediation w.deployment w.now orgID e, .quiet)
  | .runTarget orgID e remote => match a.target with
    | none => (w.executions, failRemediation w.now orgID e.id ("원격 타겟 로드 실패: " ++ trimSpace a.errText), .quiet)
    | some tgt => (w.executions, .runDecrypt orgID e remote tgt.sealedCredential, .quiet)
  | .runDecrypt orgID e remote _ => match a.key with
    | none => (w.executions, failRemediation w.now orgID e.id "원격 자격증명 복호 실패", .quiet)
    | some keyPEM =>
      if isBlank keyPEM then (w.executions, failRemediation w.now orgID e.id "원격 자격증명 복호 실패", .quiet)
      else (w.executions, .runScript orgID e ⟨some (frozenTarget e.toProposal keyPEM), .inr ⟨remote, keyPEM, rfl⟩⟩, .quiet)
  | .runScript orgID e aim =>
    (w.executions, recordResult w.now orgID e.id a.result,
      .handed e e.scriptSnapshot aim.target
        (if e.source = .llmGenerated then "remediation-exec-llm" else "remediation-exec"))
  | .transitionGet c =>
    if a.fails then (w.executions, Next.resume c (some a.errText))
    else match get w.executions c.orgID c.id with
      | none => (w.executions, Next.resume c (some "sql: no rows in result set"))
      | some e =>
        if ok : validateRemediationStatusTransition e.status c.to_ = none then
          (w.executions, .transitionSet c e.status ((validateRemediationStatusTransition_eq_none _ _).1 ok), .quiet)
        else (w.executions, Next.resume c (validateRemediationStatusTransition e.status c.to_))
  | .transitionSet c from_ _ =>
    if a.fails then (w.executions, Next.resume c (some a.errText))
    else match transitionUpdate w.executions c.orgID c.id from_ c.to_ c.patch with
      | (t, true) => (t, (Next.resume c none).1, .moved c.id from_ c.to_)
      | (t, false) => (t, Next.resume c (some ("remediationstore: transition " ++ from_.name ++ "→" ++ c.to_.name ++
          ": row changed concurrently (id=" ++ c.id ++ ")")))
  | .rejectGet orgID id => (w.executions, .done, .replied (.ok (if a.fails then none else get w.executions orgID id)))
  | .tickProposed orgID now =>
    if a.fails then (w.executions, .done, .quiet)
    else (w.executions, .tickExpire orgID now (listByStatus w.executions orgID .proposed), .quiet)
  | .tickExpire orgID now [] => (w.executions, .tickSucceeded orgID now, .quiet)
  | .tickExpire orgID now (e :: rest) => (w.executions, expireOne orgID now e rest, .quiet)
  | .tickSucceeded orgID now =>
    if a.fails then (w.executions, .done, .quiet)
    else (w.executions, .tickVerify orgID now (listByStatus w.executions orgID .succeeded), .quiet)
  | .tickVerify _ _ [] => (w.executions, .done, .quiet)
  | .tickVerify orgID now (e :: rest) => (w.executions, verifyOne orgID now a.firing e rest, .quiet)
  | .selectConfig r =>
    if a.fails = false ∧ (w.getConfig r.orgID).executionEnabled = true ∧ approvedRunbooks r.doc ≠ [] then
      (w.executions, .selectActive r (w.getConfig r.orgID), .quiet)
    else (w.executions, .done, .quiet)
  | .selectActive r cfg =>
    -- a failed read falls through: the source keeps the proposal path open
    if a.fails = false ∧ listActiveByFingerprint w.executions r.orgID r.alertFingerprint ≠ [] then
      (w.executions, .done, .quiet)
    else (w.executions, .selectComplete r cfg, .quiet)
  | .selectComplete r cfg =>
    match (actionable (approvedRunbooks r.doc) a.decision).bind (chooseScript (approvedRunbooks r.doc)) with
    | none => (w.executions, .done, .quiet)
    | some c => (w.executions, .freeze true (newProposal r cfg c w.now a.newID) c.summary, .quiet)
  | .proposeConfig r =>
    if a.fails = false ∧ (w.getConfig r.orgID).executionEnabled = true then
      match firstApprovedRunbook r.doc with
      | none => (w.executions, .done, .quiet)
      | some rb => (w.executions,
          .freeze false (newProposal r (w.getConfig r.orgID) (choiceOf rb) w.now a.newID) (choiceOf rb).summary, .quiet)
    else (w.executions, .done, .quiet)
  | .freeze selected p summary => (w.executions, .creating selected (freezeTargetSnapshot a.target p) summary, .quiet)
  | .creating _ p summary =>
    if a.fails then (w.executions, .done, .quiet)
    else match create w.executions p.execution with
      | (t, none) => (t, .done, .created p (annotations w.deployment.baseURL p.id summary))
      | (t, some _) => (t, .done, .quiet)

/-! ## Actions -/

inductive Request where
  | approve (orgID id approvedBy : String)
  | reject (orgID id : String)
  | tick (orgID : String)
  | select (r : AlertRequest)
  | propose (r : AlertRequest)

/-- The process a request starts; a proposer is given a document as it is now. -/
def Request.proc (w : World) : Request → Option Proc
  | .approve orgID id approvedBy => some (.approveConfig orgID id approvedBy)
  | .reject orgID id => some (.transitionGet
      { orgID := orgID, id := id, to_ := .rejected, next := .reply, asked := rfl, patch := { terminalAt := format w.now } })
  | .tick orgID => some (.tickProposed orgID w.now)
  | .select r => if r.doc ∈ w.sops then some (.selectConfig r) else none
  | .propose r => if r.doc ∈ w.sops then some (.proposeConfig r) else none

inductive Action where
  | spawn (pid : Nat) (req : Request)
  | run (pid : Nat) (a : Answer)
  | advance (d : Nat)
  | editSOPs (docs : List SOPDocument)
  | updateConfig (orgID : String) (cfg : RemediationConfig)

def World.setProc (w : World) (pid : Nat) (p : Proc) : World := { w with procs := Function.update w.procs pid p }

def step (w : World) : Action → World × Event
  | .spawn pid req => match w.procs pid, req.proc w with
    | .idle, some p => (w.setProc pid p, .quiet)
    | _, _ => (w, .quiet)
  | .run pid a =>
    let (t, p, ev) := (w.procs pid).step w a
    ({ w.setProc pid p with executions := t }, ev)
  | .advance d => ({ w with now := w.now + d }, .quiet)
  | .editSOPs docs => ({ w with sops := docs }, .quiet)
  | .updateConfig orgID cfg =>
    -- `UpdateRemediationConfig`
    if validateRemediationConfig cfg.withDefaults = [] then
      ({ w with config := Function.update w.config orgID (some cfg.withDefaults) }, .quiet)
    else (w, .quiet)

structure Initial (w : World) : Prop where
  idle : ∀ pid, w.procs pid = .idle

def World.fresh (d : Deployment) (config : String → Option RemediationConfig) (sops : List SOPDocument) (now : Time) :
    World := ⟨d, .empty, config, sops, now, fun _ => .idle⟩

theorem initial_fresh (d : Deployment) (config : String → Option RemediationConfig) (sops : List SOPDocument)
    (now : Time) : Initial (World.fresh d config sops now) := ⟨fun _ => rfl⟩

end Remediation
end DsApm
