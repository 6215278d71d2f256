import DsApm.Lib.GoStd
import DsApm.Lib.SqlTable
import DsApm.Lib.StepRun
/-!
# RunStore — code-RCA admission and worker leases

`pkg/ruler/coderca/runstore`: the five tables behind the code-RCA runs and the transactions on them.  `admit` decides
whether a signal becomes a queued run (`runstore.go`); `claimNext`, `heartbeat`, `finalize` and `reap` are the worker's
lease (`lease.go`).  Each is one transaction, so each is one function from the tables to the tables; an error inside it
rolls all of it back.

What the code draws at random (`newRunID`, for a run and for a lease token) is an argument.  A column
holds whole seconds (`unix`).
-/
namespace DsApm
namespace CodeRca

open SqlTable GoStd

/-- The UTC calendar day of a second, numbered from the epoch (`Format("2006-01-02")` names it). -/
def dayOf (secs : Int) : Int := secs / 86400

inductive RunStatus where
  | queued | running | done | failed | timeout | unparseable
  deriving DecidableEq, Repr

def RunStatus.terminal : RunStatus → Bool
  | .queued | .running => false
  | .done | .failed | .timeout | .unparseable => true

theorem RunStatus.terminal_done : RunStatus.done.terminal = true := rfl

inductive SkipReason where
  | featureOff | noAnomaly | belowSeverity | noRepoMapping | deduped | budgetExhausted | queueFull
  deriving DecidableEq, Repr

/-! ## The tables: `coderca_run`, `coderca_admission`, `coderca_budget`, `coderca_capacity`, `coderca_skip_stat` -/

structure Run where
  runID : String
  orgID : String
  service : String
  dedupKey : String
  status : RunStatus
  createdAt : Int
  baselineCommit : String := ""
  claimedBy : String := ""
  leaseToken : String := ""
  leaseUntil : Int := 0
  heartbeatAt : Int := 0
  attempts : Int := 0
  finishedAt : Int := 0
  resultRef : String := ""
  rootCause : String := ""
  proposedFix : String := ""
  confidence : String := ""
  limitations : String := ""
  failureReason : String := ""
  deriving DecidableEq, Repr

structure Admission where
  orgID : String
  dedupKey : String
  lastAdmittedAt : Int
  hitCount : Nat
  lastRunRef : String
  deriving DecidableEq, Repr

structure Budget where
  orgID : String
  day : Int
  used : Int
  deriving DecidableEq, Repr

structure Capacity where
  scope : String
  running : Int
  maxConcurrentRuns : Int
  deriving DecidableEq, Repr

structure SkipStat where
  orgID : String
  reason : SkipReason
  day : Int
  count : Nat
  deriving DecidableEq, Repr

structure DB where
  run : Table String Run Run.runID
  admission : Table (String × String) Admission (fun a => (a.orgID, a.dedupKey))
  budget : Table (String × Int) Budget (fun b => (b.orgID, b.day))
  capacity : Table String Capacity Capacity.scope
  skipStat : Table (String × SkipReason × Int) SkipStat (fun s => (s.orgID, s.reason, s.day))

def DB.empty : DB := ⟨.empty, .empty, .empty, .empty, .empty⟩

def DB.running (db : DB) (scope : String) : Int :=
  match db.capacity.find? scope with
  | some c => c.running
  | none => 0

def DB.used (db : DB) (orgID : String) (day : Int) : Int :=
  match db.budget.find? (orgID, day) with
  | some b => b.used
  | none => 0

/-! ## `Admit` -/

structure AdmitParams where
  orgID : String
  service : String
  dedupKey : String
  now : Time
  cooldownWindow : Duration
  maxRunsPerDay : Int
  maxQueueDepth : Int

structure AdmitResult where
  admitted : Bool := false
  runID : String := ""
  reason : Option SkipReason := none
  priorRunRef : String := ""
  deriving DecidableEq, Repr

inductive TxError where
  | duplicateKey
  deriving DecidableEq, Repr

def AdmitParams.day (p : AdmitParams) : Int := dayOf (unix p.now)

def AdmitParams.cooldownSecs (p : AdmitParams) : Int := p.cooldownWindow.tdiv second

def bumpSkipStat (db : DB) (orgID : String) (reason : SkipReason) (day : Int) : DB :=
  { db with skipStat :=
      (db.skipStat.upsert ⟨orgID, reason, day, 1⟩ (fun _ => true) (fun s => { s with count := s.count + 1 })
        (fun _ => rfl)).1 }

def AdmitParams.newRun (p : AdmitParams) (runID : String) : Run :=
  { runID := runID, orgID := p.orgID, service := p.service, dedupKey := p.dedupKey, status := .queued,
    createdAt := unix p.now }

def admitBudget (db : DB) (p : AdmitParams) (runID : String) : DB × Except TxError AdmitResult :=
  let budget := db.budget.upsert ⟨p.orgID, p.day, 1⟩ (fun b => decide (b.used < p.maxRunsPerDay))
    (fun b => { b with used := b.used + 1 }) (fun _ => rfl)
  if budget.2 = 0 then
    (bumpSkipStat { db with budget := budget.1 } p.orgID .budgetExhausted p.day,
      .ok { reason := some .budgetExhausted })
  else match db.run.insert? (p.newRun runID) with
    | none => (db, .error .duplicateKey)
    | some run =>
      ({ db with
          budget := budget.1
          run := run
          admission := (db.admission.upsert ⟨p.orgID, p.dedupKey, unix p.now, 0, runID⟩ (fun _ => true)
            (fun a => { a with lastAdmittedAt := unix p.now, lastRunRef := runID }) (fun _ => rfl)).1 },
        .ok { admitted := true, runID := runID })

def DB.queued (db : DB) (orgID : String) : Nat :=
  db.run.count (fun r => decide (r.orgID = orgID) && decide (r.status = .queued))

def admitQueue (db : DB) (p : AdmitParams) (runID : String) : DB × Except TxError AdmitResult :=
  if p.maxQueueDepth ≤ db.queued p.orgID then
    (bumpSkipStat db p.orgID .queueFull p.day, .ok { reason := some .queueFull })
  else admitBudget db p runID

def admitRun (db : DB) (p : AdmitParams) (runID : String) : DB × Except TxError AdmitResult :=
  if p.maxRunsPerDay ≤ 0 then (db, .ok { reason := some .budgetExhausted })
  else match db.admission.find? (p.orgID, p.dedupKey) with
    | none => admitQueue db p runID
    | some row =>
      if unix p.now - row.lastAdmittedAt < p.cooldownSecs then
        ({ db with
            admission := db.admission.update (fun a => decide ((a.orgID, a.dedupKey) = (p.orgID, p.dedupKey)))
              (fun a => { a with hitCount := a.hitCount + 1 }) (fun _ => rfl) },
          .ok { reason := some .deduped, priorRunRef := row.lastRunRef })
      else admitQueue db p runID

/-! ## The worker's lease -/

structure ClaimParams where
  scope : String
  claimedBy : String
  now : Time
  leaseTTL : Duration
  maxConcurrent : Int

structure ClaimResult where
  claimed : Bool := false
  runID : String := ""
  orgID : String := ""
  leaseToken : String := ""
  dedupKey : String := ""
  service : String := ""
  attempts : Int := 0
  deriving DecidableEq, Repr

-- `ORDER BY created_at ASC LIMIT 1`
def oldest : List Run → Option Run
  | [] => none
  | r :: rs => match oldest rs with
    | none => some r
    | some q => if q.createdAt < r.createdAt then some q else some r

def ClaimParams.mark (p : ClaimParams) (token : String) (r : Run) : Run :=
  { r with
    status := .running, claimedBy := p.claimedBy, leaseToken := token,
    leaseUntil := unix (p.now + p.leaseTTL), heartbeatAt := unix p.now, attempts := r.attempts + 1 }

theorem ClaimParams.runID_mark (p : ClaimParams) (token : String) (r : Run) : (p.mark token r).runID = r.runID := rfl

def ensureCapacity (db : DB) (p : ClaimParams) : Table String Capacity Capacity.scope :=
  (db.capacity.insert? ⟨p.scope, 0, p.maxConcurrent⟩).getD db.capacity

/-- `UPDATE coderca_capacity SET running = running - 1 WHERE scope = ? AND running > 0`. -/
def releaseSlot (t : Table String Capacity Capacity.scope) (scope : String) : Table String Capacity Capacity.scope :=
  t.update (fun c => decide (c.scope = scope) && decide (0 < c.running)) (fun c => { c with running := c.running - 1 })
    (fun _ => rfl)

/-- `Store.ClaimNext`; `token` is the fencing token it draws. -/
def claimNext (db : DB) (p : ClaimParams) (token : String) : DB × ClaimResult :=
  match oldest (db.run.rows.filter (fun r => decide (r.status = .queued) &&
      (decide (r.leaseUntil = 0) || decide (r.leaseUntil < unix p.now)))) with
  | none => (db, {})
  | some r =>
    let cap := ensureCapacity db p
    let free := fun (c : Capacity) => decide (c.scope = p.scope) && decide (c.running < p.maxConcurrent)
    if cap.count free = 0 then ({ db with capacity := cap }, {})
    else
      let taken := cap.update free (fun c => { c with running := c.running + 1, maxConcurrentRuns := p.maxConcurrent })
        (fun _ => rfl)
      let mine := fun (q : Run) => decide (q.runID = r.runID) && decide (q.status = .queued)
      -- the run was read in this transaction, so the release below is for engines that do not serialize writers
      if db.run.count mine = 0 then ({ db with capacity := releaseSlot taken p.scope }, {})
      else ({ db with capacity := taken, run := db.run.update mine (p.mark token) (p.runID_mark token) },
        { claimed := true, runID := r.runID, orgID := r.orgID, leaseToken := token, dedupKey := r.dedupKey,
          service := r.service, attempts := r.attempts + 1 })

/-- The rows a lease holder's statement is about: the fence of `Heartbeat` and `Finalize`. -/
def owned (runID token : String) (r : Run) : Bool :=
  decide (r.runID = runID) && (decide (r.leaseToken = token) && decide (r.status = .running))

/-- What a heartbeat writes on the run: `heartbeat_at` gets the new deadline too. -/
def extendLease (leaseUntil : Time) (r : Run) : Run :=
  { r with leaseUntil := unix leaseUntil, heartbeatAt := unix leaseUntil }

theorem runID_extendLease (leaseUntil : Time) (r : Run) : (extendLease leaseUntil r).runID = r.runID := rfl

def heartbeat (db : DB) (runID token : String) (leaseUntil : Time) : DB × Bool :=
  ({ db with run := db.run.update (owned runID token) (extendLease leaseUntil) (runID_extendLease leaseUntil) },
    decide (db.run.count (owned runID token) = 1))

/-- What a caller of `Finalize` passes; the status is one of `done`, `failed`, `timeout` and `unparseable`. -/
structure FinalizeParams where
  scope : String
  runID : String
  leaseToken : String
  status : RunStatus
  terminal : status.terminal = true
  resultRef : String := ""
  now : Time
  baselineCommit : String := ""
  rootCause : String := ""
  proposedFix : String := ""
  confidence : String := ""
  limitations : String := ""
  failureReason : String := ""

def FinalizeParams.mark (p : FinalizeParams) (r : Run) : Run :=
  { r with
    status := p.status, resultRef := p.resultRef, finishedAt := unix p.now, leaseUntil := 0,
    baselineCommit := p.baselineCommit, rootCause := p.rootCause, proposedFix := p.proposedFix,
    confidence := p.confidence, limitations := p.limitations, failureReason := p.failureReason }

theorem FinalizeParams.runID_mark (p : FinalizeParams) (r : Run) : (p.mark r).runID = r.runID := rfl

def finalize (db : DB) (p : FinalizeParams) : DB × Bool :=
  let run := db.run.update (owned p.runID p.leaseToken) p.mark p.runID_mark
  if db.run.count (owned p.runID p.leaseToken) ≠ 1 then ({ db with run := run }, false)
  else ({ db with run := run, capacity := releaseSlot db.capacity p.scope }, true)

structure ReapParams where
  scope : String
  now : Time
  maxAttempts : Int

def lapsed (now : Int) (r : Run) : Bool :=
  decide (r.status = .running) && (decide (0 < r.leaseUntil) && decide (r.leaseUntil < now))

def ReapParams.mark (p : ReapParams) (r : Run) : Run :=
  { r with
    status := if p.maxAttempts ≤ r.attempts then .failed else .queued
    claimedBy := "", leaseToken := "", leaseUntil := 0 }

theorem ReapParams.runID_mark (p : ReapParams) (r : Run) : (p.mark r).runID = r.runID := rfl

def live (now : Int) (r : Run) : Bool := decide (r.status = .running) && decide (now < r.leaseUntil)

def reap (db : DB) (p : ReapParams) : DB × Nat :=
  let run := db.run.update (lapsed (unix p.now)) p.mark p.runID_mark
  ({ db with
      run := run
      capacity := db.capacity.update (fun c => decide (c.scope = p.scope))
        (fun c => { c with running := run.count (live (unix p.now)) }) (fun _ => rfl) },
    db.run.count (lapsed (unix p.now)))

/-! ## The store as a system -/

inductive Op where
  | admitRun (p : AdmitParams) (runID : String)
  | claimNext (p : ClaimParams) (token : String)
  | heartbeat (runID token : String) (leaseUntil : Time)
  | finalize (p : FinalizeParams)
  | reap (p : ReapParams)

inductive Out where
  | admitRun (r : Except TxError AdmitResult)
  | claimNext (r : ClaimResult)
  | heartbeat (ok : Bool)
  | finalize (ok : Bool)
  | reap (n : Nat)

def step (db : DB) : Op → DB × Out
  | .admitRun p runID => ((admitRun db p runID).1, .admitRun (admitRun db p runID).2)
  | .claimNext p token => ((claimNext db p token).1, .claimNext (claimNext db p token).2)
  | .heartbeat runID token u => ((heartbeat db runID token u).1, .heartbeat (heartbeat db runID token u).2)
  | .finalize p => ((finalize db p).1, .finalize (finalize db p).2)
  | .reap p => ((reap db p).1, .reap (reap db p).2)

def Op.scope : Op → Option String
  | .claimNext p _ => some p.scope
  | .finalize p => some p.scope
  | .reap p => some p.scope
  | _ => none

end CodeRca
end DsApm
