import DsApm.CodeRca.Fencing
import DsApm.CodeRca.RcaResult
/-!
# Engine — how a run ends, and what its row then says

`engine.go`: a claimed run goes through its ports (the repository, the source, the agent, the delivery), and the first that
refuses it gives the reason.  A run that ends through the engine has the time and the reason written on its row; one that
`Reap` gives up gets the status alone.  So the rows are in order throughout a run of the store exactly when `Reap` never gives
up a run (`bookkept_iff`).
-/
namespace DsApm
namespace CodeRca

open SqlTable SqlTable.Table StepRun GoStd

def RunStatus.text : RunStatus → String
  | .queued => "queued"
  | .running => "running"
  | .done => "done"
  | .failed => "failed"
  | .timeout => "timeout"
  | .unparseable => "unparseable"

structure CLIOutcome where
  result : RCAResult
  status : RunStatus
  terminal : status.terminal = true
  err : Option String

/-- What the ports answer to one run: whether the service has a repository, its baseline, what the agent did, the reference of
the delivery. -/
structure Ports where
  resolveRepo : Except String Bool
  prepare : Except String String
  cli : CLIOutcome
  deliver : Except String String

structure RunEnd where
  status : RunStatus
  terminal : status.terminal = true
  resultRef : String := ""
  detail : String
  baseline : String := ""
  result : RCAResult := {}

def CLIOutcome.detail (o : CLIOutcome) : String :=
  match o.err with
  | none => o.status.text
  | some e => o.status.text ++ ": " ++ e

def runOne (a : Ports) : RunEnd :=
  match a.resolveRepo with
  | .error e => { status := .failed, terminal := rfl, detail := "resolve repo: " ++ e }
  | .ok false => { status := .failed, terminal := rfl, detail := "no_repo_mapping" }
  | .ok true =>
    match a.prepare with
    | .error e => { status := .failed, terminal := rfl, detail := "source prepare: " ++ e }
    | .ok baseline =>
      if a.cli.status ≠ .done then
        { status := a.cli.status, terminal := a.cli.terminal, detail := a.cli.detail, baseline := baseline }
      else match a.deliver with
        | .error e => { status := .failed, terminal := rfl, detail := "deliver: " ++ e, baseline := baseline }
        | .ok resultRef =>
          { status := .done, terminal := rfl, resultRef := resultRef, detail := "delivered", baseline := baseline,
            result := a.cli.result }

def firstNonEmptyStr (vals : List String) : String := (vals.find? (· ≠ "")).getD ""

def finalizeParams (scope : String) (claim : ClaimResult) (a : Ports) (now : Time) : FinalizeParams :=
  let e := runOne a
  { scope := scope, runID := claim.runID, leaseToken := claim.leaseToken, status := e.status, terminal := e.terminal,
    resultRef := e.resultRef, now := now, baselineCommit := firstNonEmptyStr [e.result.baselineCommit, e.baseline],
    rootCause := e.result.rootCause, proposedFix := e.result.proposedFix, confidence := e.result.confidence,
    limitations := e.result.limitations, failureReason := if e.status ≠ .done then e.detail else "" }

inductive Action
  | admitRun (p : AdmitParams) (runID : String)
  | claimNext (p : ClaimParams) (token : String)
  | heartbeat (runID token : String) (leaseUntil : Time)
  | finalize (scope : String) (claim : ClaimResult) (a : Ports) (now : Time)
  | reap (p : ReapParams)

def Action.op : Action → Op
  | .admitRun p runID => .admitRun p runID
  | .claimNext p token => .claimNext p token
  | .heartbeat runID token u => .heartbeat runID token u
  | .finalize scope claim a now => .finalize (finalizeParams scope claim a now)
  | .reap p => .reap p

def perform (db : DB) (action : Action) : DB × Out := step db action.op

/-! ## Bookkeeping -/

/-- A row is finished exactly when its status is terminal, and then says why it is not done. -/
structure Booked (r : Run) : Prop where
  finished : r.finishedAt ≠ 0 ↔ r.status.terminal = true
  reason : r.status.terminal = true → r.status ≠ .done → r.failureReason ≠ ""

instance (r : Run) : Decidable (Booked r) :=
  decidable_of_iff ((r.finishedAt ≠ 0 ↔ r.status.terminal = true) ∧
    (r.status.terminal = true → r.status ≠ .done → r.failureReason ≠ "")) ⟨fun h => ⟨h.1, h.2⟩, fun h => ⟨h.1, h.2⟩⟩

/-- **Every row is in order.** -/
def Bookkept (db : DB) : Prop := ∀ r ∈ db.run.rows, Booked r

instance (db : DB) : Decidable (Bookkept db) := inferInstanceAs (Decidable (∀ r ∈ db.run.rows, Booked r))

/-- A step that gives up no run, and finalizes none in the second that stands for no time. -/
def Keeps (db : DB) : Action → Prop
  | .finalize _ claim _ now => holds db claim.runID claim.leaseToken → unix now ≠ 0
  | .reap p => ∀ r ∈ db.run.rows, lapsed (unix p.now) r = true → r.attempts < p.maxAttempts
  | _ => True

theorem bookkept_find? {db : DB} : Bookkept db ↔ ∀ runID r, db.run.find? runID = some r → Booked r := by
  constructor
  · intro h runID r hr
    exact h r ((find?_eq_some _ _ _).1 hr).1
  · intro h r hr
    exact h r.runID r (find?_of_mem _ hr)

theorem Booked.unfinished {r : Run} (h : Booked r) (hs : r.status.terminal = false) : r.finishedAt = 0 := by
  by_contra hne
  rw [h.finished.1 hne] at hs
  cases hs

theorem Booked.of_open {r : Run} (hf : r.finishedAt = 0) (hs : r.status.terminal = false) : Booked r :=
  ⟨by simp [hf, hs], fun ht => absurd (hs.symm.trans ht) Bool.false_ne_true⟩

theorem RunStatus.text_ne (s : RunStatus) : s.text ≠ "" := by cases s <;> decide

theorem append_ne_empty {s : String} (h : s ≠ "") (t : String) : s ++ t ≠ "" := fun he => h (String.append_eq_empty_iff.1 he).1

theorem CLIOutcome.detail_ne (o : CLIOutcome) : o.detail ≠ "" := by
  unfold CLIOutcome.detail
  cases o.err with
  | none => exact o.status.text_ne
  | some e => exact append_ne_empty (append_ne_empty o.status.text_ne _) _

/-- **Every end of a run has a reason.** -/
theorem detail_runOne (a : Ports) : (runOne a).detail ≠ "" := by
  fun_cases runOne a with
  | case1 e => exact append_ne_empty (by decide) e
  | case2 => decide
  | case3 _ e => exact append_ne_empty (by decide) e
  | case4 => exact a.cli.detail_ne
  | case5 _ _ _ _ e => exact append_ne_empty (by decide) e
  | case6 => exact (by decide : "delivered" ≠ "")

theorem booked_finalized (scope : String) (claim : ClaimResult) (a : Ports) (now : Time) (r : Run) :
    Booked ((finalizeParams scope claim a now).mark r) ↔ unix now ≠ 0 := by
  have hterm : (runOne a).status.terminal = true := (runOne a).terminal
  constructor
  · exact fun h => h.finished.2 hterm
  · intro hnow
    refine ⟨iff_of_true hnow hterm, fun _ (hne : (runOne a).status ≠ .done) => ?_⟩
    show (if (runOne a).status ≠ .done then (runOne a).detail else "") ≠ ""
    rw [if_pos hne]
    exact detail_runOne a

theorem holds_of_finalized {db : DB} {p : FinalizeParams} (h : (step db (.finalize p)).2 = .finalize true) :
    holds db p.runID p.leaseToken := by
  rcases finalize_cases db p with ⟨-, he⟩ | ⟨hholds, -⟩
  · rw [step, he] at h
    cases h
  · exact hholds

theorem lapsed_running {now : Int} {r : Run} (h : lapsed now r = true) : r.status = .running := by
  simp only [lapsed, Bool.and_eq_true, decide_eq_true_eq] at h
  exact h.1

/-- `Reap` leaves a row in order exactly when it requeues it: a run that is given up has no time and no reason. -/
theorem booked_reaped {p : ReapParams} {r : Run} (h : Booked r) (hl : lapsed (unix p.now) r = true) :
    Booked (p.mark r) ↔ r.attempts < p.maxAttempts := by
  have hopen : r.finishedAt = 0 := h.unfinished (by rw [lapsed_running hl]; rfl)
  have hstatus : (p.mark r).status = if p.maxAttempts ≤ r.attempts then .failed else .queued := rfl
  constructor
  · intro hb
    by_contra hge
    rw [if_pos (by omega)] at hstatus
    exact hb.finished.2 (by rw [hstatus]; rfl) hopen
  · intro hlt
    rw [if_neg (by omega)] at hstatus
    exact .of_open hopen (by rw [hstatus]; rfl)

/-- **One step** keeps the rows in order exactly when it gives up no run. -/
theorem bookkept_perform_iff {db : DB} (action : Action) (h : Bookkept db) : Bookkept (perform db action).1 ↔ Keeps db action := by
  rw [bookkept_find?] at h
  constructor
  · intro hb
    rw [bookkept_find?] at hb
    cases action with
    | finalize scope claim a now =>
      rintro hholds
      rcases finalize_cases db (finalizeParams scope claim a now) with ⟨hno, -⟩ | ⟨⟨r, hr, hst, ht⟩, he⟩
      · exact absurd hholds hno
      · refine (booked_finalized scope claim a now r).1 (hb claim.runID _ ?_)
        show (finalize db (finalizeParams scope claim a now)).1.run.find? _ = _
        rw [he]
        dsimp only
        rw [(replaced_owned db _ _ _ (finalizeParams scope claim a now).runID_mark hr hst ht).find]
        exact if_pos rfl
    | reap p =>
      intro r hr hl
      have hfind : db.run.find? r.runID = some r := find?_of_mem _ hr
      refine (booked_reaped (h _ r hfind) hl).1 (hb r.runID _ ?_)
      show (reap db p).1.run.find? _ = _
      rw [reap]
      dsimp only
      rw [find?_update, hfind, Option.map_some, setWhere, if_pos hl]
    | admitRun | claimNext | heartbeat => exact trivial
  · intro hk
    rw [bookkept_find?]
    intro runID r' hr'
    have hrow := rowStep db action.op runID
    have hbefore := h runID
    change (step db action.op).1.run.find? runID = some r' at hr'
    rw [hr'] at hrow
    generalize hop : action.op = op at hrow
    generalize hout : (step db op).2 = out at hrow
    generalize hr : db.run.find? runID = r? at hrow hbefore
    cases hrow with
    | same => exact hbefore r' rfl
    | admitted p => exact .of_open rfl rfl
    | claimed p token r _ hq => exact .of_open ((hbefore r rfl).unfinished (by rw [hq]; rfl)) rfl
    | extended token u r hs =>
      have hopen : r.status.terminal = false := by rw [hs]; rfl
      exact .of_open ((hbefore r rfl).unfinished hopen) hopen
    | finalized p r hid hs =>
      cases action with
      | finalize scope claim a now =>
        cases hop
        exact (booked_finalized scope claim a now r).2 (hk (holds_of_finalized hout))
      | _ => cases hop
    | reaped p _ r hl =>
      cases action with
      | reap p =>
        cases hop
        exact (booked_reaped (hbefore r rfl) hl).2 (hk r ((find?_eq_some _ _ _).1 hr).1 hl)
      | _ => cases hop

/-- **Run completion bookkeeping**: the rows are in order in every state of a run exactly when no step of it gives up a run. -/
theorem bookkept_iff (actions : List Action) :
    (∀ pre, pre <+: actions → Bookkept (final perform DB.empty pre)) ↔
      ∀ x ∈ trace perform DB.empty actions, Keeps x.1 x.2.1 :=
  inv_throughout_iff perform Bookkept Keeps (fun _ => True) (fun _ action _ h => bookkept_perform_iff action h) actions DB.empty
    (fun _ _ => trivial) (by simp [Bookkept, DB.empty])

def abandoned (maxAttempts : Int) : List Action :=
  [.admitRun ⟨"o", "api", "k", 100 * second, 0, 5, 5⟩ "r",
   .claimNext ⟨"global", "w", 102 * second, 10 * second, 1⟩ "t",
   .reap ⟨"global", 113 * second, maxAttempts⟩]

/-- The run that is given up is failed, without a time and without a reason. -/
theorem abandoned_unbooked : ¬∀ pre, pre <+: abandoned 1 → Bookkept (final perform DB.empty pre) := by
  intro h
  have hlast := h (abandoned 1) (List.prefix_refl _)
  revert hlast
  decide

end CodeRca
end DsApm
