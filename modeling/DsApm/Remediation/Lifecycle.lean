import DsApm.Remediation.Ownership
/-!
# Lifecycle — the status path of an execution, and the cap on executing ones

Whatever the handlers, the runners, the verifier and the proposers do at the same time, the statuses of a row follow
`allowedRemediationTransitions`: a stale read of `Transition` ends in an `UPDATE` that reaches no row.  A win needs a
`proposed` row and nothing leads back there, so an execution is won once and its runner is started once.
-/
namespace DsApm
namespace Remediation

open SqlTable SqlTable.Table StepRun

def World.status (w : World) (id : String) : Option RemediationStatus := (w.executions.find? id).map (·.status)

/-- **A step keeps a status or moves it along an edge.** -/
theorem status_step (w : World) (act : Action) (id : String) {s : RemediationStatus} (h : w.status id = some s) :
    ∃ s', (step w act).1.status id = some s' ∧ (s' = s ∨ Allowed s s') := by
  unfold World.status at h ⊢
  have hrow := rowStep w act id
  generalize (step w act).1.executions.find? id = r' at hrow
  generalize (step w act).2 = ev at hrow
  generalize w.executions.find? id = r at h hrow
  cases hrow with
  | same _ => exact ⟨s, h, .inl rfl⟩
  | created _ => cases h
  | @won e e' _ from_ to_ _ =>
    cases h
    refine ⟨e'.status, rfl, .inr ?_⟩
    show Allowed e.status e'.status
    rw [from_, to_]
    decide
  | @moved e e' allowed _ _ => cases h; exact ⟨e'.status, rfl, .inr allowed⟩

theorem status_terminal_step (w : World) (act : Action) (id : String) {s : RemediationStatus}
    (ht : s.terminal = true) (h : w.status id = some s) : (step w act).1.status id = some s := by
  obtain ⟨s', hs', rfl | hedge⟩ := status_step w act id h
  · exact hs'
  · exact absurd hedge (not_allowed_of_terminal ht s')

theorem status_terminal_run (id : String) {s : RemediationStatus} (ht : s.terminal = true) : ∀ (acts : List Action)
    (w : World), w.status id = some s → (final step w acts).status id = some s
  | [], _, h => h
  | act :: acts, w, h => status_terminal_run id ht acts _ (status_terminal_step w act id ht h)

/-! ## One win, one start -/

def Winnable (id : String) (w : World) : Prop := ∀ s, w.status id = some s → s = .proposed

def isWon (id : String) (x : World × Action × Event) : Bool :=
  match x.2.2 with
  | .won _ id' _ => decide (id' = id)
  | _ => false

def isStarted (id : String) (x : World × Action × Event) : Bool :=
  match x.2.2 with
  | .started e => decide (e.id = id)
  | _ => false

theorem won_ends (id : String) (w : World) (act : Action) (h : isWon id (w, act, (step w act).2) = true) :
    Winnable id w ∧ ¬ Winnable id (step w act).1 := by
  have hrow := rowStep w act id
  unfold Winnable World.status
  unfold isWon at h
  dsimp only at h
  split at h
  · rename_i orgID id' cap hev
    rw [decide_eq_true_eq] at h
    subst h
    rw [hev] at hrow
    generalize (step w act).1.executions.find? id' = r' at hrow ⊢
    generalize w.executions.find? id' = r at hrow ⊢
    cases hrow with
    | same notWon => exact absurd rfl (notWon orgID cap)
    | @won e e' _ from_ to_ _ =>
      refine ⟨fun s hs => ?_, fun hc => ?_⟩
      · cases hs; exact from_
      · have := hc e'.status rfl
        rw [to_] at this; cases this
  · cases h

theorem winnable_gone (id : String) (w : World) (act : Action) (h : ¬ Winnable id w) : ¬ Winnable id (step w act).1 := by
  unfold Winnable at h ⊢
  push Not at h ⊢
  obtain ⟨s, hs, hne⟩ := h
  obtain ⟨s', hs', rfl | hedge⟩ := status_step w act id hs
  · exact ⟨s', hs', hne⟩
  · exact ⟨s', hs', hedge.ne_proposed⟩

theorem won_once (id : String) (w : World) (acts : List Action) : (trace step w acts).countP (isWon id) ≤ 1 :=
  (countP_trace_le_one step (fun _ => True) (Winnable id) _ (fun _ _ h => h)
    (fun w act _ h => won_ends id w act h) (fun w act _ h => winnable_gone id w act h) acts w trivial).1

/-- The runner of the execution may still be started: it is not won yet, or its winner is about to load it. -/
def Startable (id : String) (w : World) : Prop := Winnable id w ∨ ∃ pid orgID, w.procs pid = .approveGet orgID id

theorem won_of_approveGet {w : World} {a : Answer} {p : Proc} {orgID id : String}
    (h : (p.step w a).2.1 = .approveGet orgID id) : ∃ cap, (p.step w a).2.2 = .won orgID id cap := by
  have hresume : ∀ c err, (Next.resume c err).1 ≠ .approveGet orgID id := by
    intro c err hc
    have := owns_resume c err
    rw [hc] at this; cases this
  cases p with
  | approveMove orgID' id' approvedBy cfg =>
    simp only [Proc.step] at h ⊢
    split at h
    · cases h
    · split at h
      · rename_i hf _ _ _
        cases h
        rw [if_neg hf]
        exact ⟨_, rfl⟩
      · cases h
  | transitionGet c =>
    simp only [Proc.step] at h
    repeat' split at h
    all_goals first | cases h | exact (hresume c _ h).elim
  | transitionSet c from_ ok =>
    simp only [Proc.step] at h
    repeat' split at h
    all_goals first | cases h | exact (hresume c _ h).elim
  | runStart | runScript =>
    simp only [Proc.step, runRemediation, failRemediation, recordResult] at h
    repeat' split at h
    all_goals cases h
  | tickExpire orgID' now rest =>
    cases rest
    · cases h
    · simp only [Proc.step, expireOne] at h
      repeat' split at h
      all_goals cases h
  | tickVerify orgID' now rest =>
    cases rest
    · cases h
    · simp only [Proc.step, verifyOne] at h
      repeat' split at h
      all_goals cases h
  | _ =>
    simp only [Proc.step, failRemediation] at h
    repeat' split at h
    all_goals cases h

theorem approveGet_step {w : World} {act : Action} {pid : Nat} {orgID id : String}
    (h : (step w act).1.procs pid = .approveGet orgID id) :
    (w.procs pid = .approveGet orgID id ∧ ∀ a, act ≠ .run pid a) ∨ ∃ cap, (step w act).2 = .won orgID id cap := by
  have hp := procStep w act pid
  rw [h] at hp
  generalize hq : Proc.approveGet orgID id = q at hp
  cases hp with
  | other notRun => exact .inl ⟨rfl, notRun⟩
  | @spawned req _ _ started =>
    have hown := owns_request w req _ started
    rw [← hq] at hown; cases hown
  | @ran a => exact .inr (won_of_approveGet hq.symm)

theorem approveGet_of_started {w : World} {act : Action} {e : RemediationExecution}
    (h : (step w act).2 = .started e) :
    ∃ pid a orgID, act = .run pid a ∧ w.procs pid = .approveGet orgID e.id ∧ w.executions.find? e.id = some e := by
  obtain ⟨pid, a, rfl⟩ := run_of_event h (fun hc => by cases hc)
  rw [event_run] at h
  rcases runs_cases (by rw [h]; rfl : ((w.procs pid).step w a).2.2.runs = true) with
    ⟨orgID, id, e', hp, hget, hev⟩ | ⟨orgID, e', aim, via, hp, hev⟩
  · rw [hev] at h
    cases h
    have hfind := ((get_eq_some _ _ _ _).1 hget).1
    have hid : e.id = id := ((find?_eq_some _ _ _).1 hfind).2
    subst hid
    exact ⟨pid, a, orgID, rfl, hp, hfind⟩
  · rw [hev] at h; cases h

theorem started_ends (id : String) (w : World) (act : Action) (hw : Owned w)
    (h : isStarted id (w, act, (step w act).2) = true) : Startable id w ∧ ¬ Startable id (step w act).1 := by
  unfold isStarted at h
  dsimp only at h
  split at h
  · rename_i e hev
    rw [decide_eq_true_eq] at h
    subst h
    obtain ⟨pid, a, orgID, rfl, hp, hfind⟩ := approveGet_of_started hev
    refine ⟨.inr ⟨pid, orgID, hp⟩, ?_⟩
    have howns : (w.procs pid).owns = some (orgID, e.id) := by rw [hp]; rfl
    obtain ⟨e', he', -, hst⟩ := hw.executing pid orgID e.id howns
    have hstatus : w.status e.id = some .executing := by
      unfold World.status
      rw [he', Option.map_some, hst]
    rintro (hwin | ⟨pid', orgID', hp'⟩)
    · have hgone : ¬ Winnable e.id w := fun hc => by cases hc _ hstatus
      exact winnable_gone e.id w _ hgone hwin
    · rcases approveGet_step hp' with ⟨hbefore, hne⟩ | ⟨cap, hwon⟩
      · have howns' : (w.procs pid').owns = some (orgID', e.id) := by rw [hbefore]; rfl
        have hpid := hw.unique pid pid' _ _ _ howns howns'
        subst hpid
        exact hne a rfl
      · rw [hev] at hwon; cases hwon
  · cases h

theorem startable_gone (id : String) (w : World) (act : Action) (h : ¬ Startable id w) :
    ¬ Startable id (step w act).1 := by
  unfold Startable at h
  push Not at h
  obtain ⟨hwin, hget⟩ := h
  rintro (hwin' | ⟨pid, orgID, hp⟩)
  · exact winnable_gone id w act hwin hwin'
  · rcases approveGet_step hp with ⟨hbefore, -⟩ | ⟨cap, hwon⟩
    · exact hget pid orgID hbefore
    · exact hwin (won_ends id w act (by simp [isWon, hwon])).1

theorem started_once (id : String) {w : World} (hw : Initial w) (acts : List Action) :
    (trace step w acts).countP (isStarted id) ≤ 1 :=
  (countP_trace_le_one step Owned (Startable id) _ owned_step (fun w act hw h => started_ends id w act hw h)
    (fun w act _ h => startable_gone id w act h) acts w (owned_initial hw)).1

/-- **The remediation state machine.** In every run from a deployment without requests, over any rows: the statuses an
execution shows are a path of `allowedRemediationTransitions`, a terminal one stays to the end, one
`TransitionToExecuting` wins and one runner is started. -/
theorem lifecycle_sound (w : World) (hw : Initial w) (acts : List Action) (id : String) :
    (observed step (fun w => w.status id) w acts).IsChain Allowed ∧
    (∀ pre post, acts = pre ++ post → ∀ s, (final step w pre).status id = some s → s.terminal = true →
      (final step w acts).status id = some s) ∧
    (trace step w acts).countP (isWon id) ≤ 1 ∧
    (trace step w acts).countP (isStarted id) ≤ 1 := by
  refine ⟨isChain_observed step _ Allowed (fun w act s h => status_step w act id h) w acts, ?_, won_once id w acts,
    started_once id hw acts⟩
  rintro pre post rfl s hs ht
  rw [final_append]
  exact status_terminal_run id ht post _ hs

/-! An alert whose SOP has one approved runbook: proposed, approved, run, and verified by the next tick. -/

def restartDoc : SOPDocument :=
  ⟨"sop-1", "v1", [⟨"rb-1", "Restart api", "systemctl restart api", .approved⟩]⟩

def restartAlert : AlertRequest := ⟨"o", "inc-1", "fp", restartDoc⟩

def restartWorld : World := .fresh {} (fun _ => some ⟨true, 60, 300, 600, 1⟩) [restartDoc] (1000 * GoStd.second)

def restartID : String := "3f2b8c1e-0000-4000-8000-00000000000a"

def proposeRestart : List Action := [.spawn 0 (.propose restartAlert), .run 0 { newID := restartID }, .run 0 {}, .run 0 {}]

def approveRestart : List Action :=
  [.spawn 1 (.approve "o" restartID "kim"), .run 1 {}, .run 1 {}, .run 1 {}, .run 1 {}, .run 1 {}, .run 1 {}, .run 1 {},
   .run 1 {}]

def verifyRestart : List Action :=
  [.spawn 2 (.tick "o"), .run 2 {}, .run 2 {}, .run 2 {}, .run 2 { firing := some false }, .run 2 {}, .run 2 {}, .run 2 {}]

theorem restart_sound :
    observed step (fun w => w.status restartID) restartWorld (proposeRestart ++ approveRestart ++ verifyRestart) =
      [.proposed, .executing, .succeeded, .verified] ∧
    (trace step restartWorld (proposeRestart ++ approveRestart ++ verifyRestart)).countP (isStarted restartID) ≤ 1 :=
  ⟨by decide, (lifecycle_sound restartWorld (initial_fresh _ _ _ _) _ restartID).2.2.2⟩

/-! ## The cap -/

theorem countActive_step (w : World) (act : Action) (orgID : String) :
    countActiveByOrg (step w act).1.executions orgID ≤ countActiveByOrg w.executions orgID ∨
    ∃ id cap, (step w act).2 = .won orgID id cap ∧ (countActiveByOrg w.executions orgID : Int) < cap ∧
      countActiveByOrg (step w act).1.executions orgID = countActiveByOrg w.executions orgID + 1 := by
  have h := tableStep w act
  unfold countActiveByOrg
  generalize (step w act).1.executions = t at h
  generalize (step w act).2 = ev at h
  cases h with
  | same _ => exact .inl le_rfl
  | @created p _ ann inserted =>
    refine .inl ?_
    rw [count_insert inserted]
    simp [isExecuting, Proposal.execution]
  | @won o id approvedBy cap _ e org proposed under replaced =>
    have hcount := replaced.count (isExecuting orgID)
    have hold : isExecuting orgID e = false := by simp [isExecuting, proposed]
    rw [hold, if_neg Bool.false_ne_true] at hcount
    by_cases ho : o = orgID
    · subst ho
      have hnew : isExecuting o (markExecuting approvedBy (format w.now) e) = true := by
        simp [isExecuting, markExecuting, org]
      rw [hnew, if_pos rfl] at hcount
      exact .inr ⟨id, cap, rfl, under, by omega⟩
    · have hnew : isExecuting orgID (markExecuting approvedBy (format w.now) e) = false := by
        simp [isExecuting, markExecuting, org, ho]
      rw [hnew, if_neg Bool.false_ne_true] at hcount
      exact .inl (by omega)
  | @moved c from_ _ e _ status replaced =>
    have hcount := replaced.count (isExecuting orgID)
    have hnew : isExecuting orgID (c.patch.apply c.to_ e) = false := by
      simp [isExecuting, TransitionPatch.apply, c.to_ne_executing]
    rw [hnew, if_neg Bool.false_ne_true] at hcount
    exact .inl (by omega)

/-- **The concurrency cap.** In every run, right after a win with a cap the org has at most that many executing rows;
and when every win of the run has the cap `M`, it has at most `M` at every moment. -/
theorem executing_capped (w : World) (acts : List Action) (orgID : String) :
    (∀ pre act post, acts = pre ++ act :: post → ∀ id cap, (step (final step w pre) act).2 = .won orgID id cap →
      (countActiveByOrg (step (final step w pre) act).1.executions orgID : Int) ≤ cap) ∧
    (∀ M : Int, (∀ x ∈ trace step w acts, ∀ id cap, x.2.2 = .won orgID id cap → cap = M) →
      (countActiveByOrg w.executions orgID : Int) ≤ M →
      ∀ pre, pre <+: acts → (countActiveByOrg (final step w pre).executions orgID : Int) ≤ M) := by
  refine ⟨?_, fun M hM h0 pre hp => ?_⟩
  · rintro pre act post - id cap hwon
    have htable := tableStep (final step w pre) act
    rcases countActive_step (final step w pre) act orgID with hle | ⟨id', cap', hwon', hlt, heq⟩
    · rw [hwon] at htable
      generalize (step (final step w pre) act).1.executions = t at hle htable
      cases htable with
      | same quiet => cases quiet
      | won _ _ under _ => omega
    · rw [hwon] at hwon'
      cases hwon'
      omega
  · refine prefix_inv step (fun w => (countActiveByOrg w.executions orgID : Int) ≤ M)
      (fun w act => ∀ id cap, (step w act).2 = .won orgID id cap → cap = M) (fun w act hg h => ?_) ?_ h0 hp
    · rcases countActive_step w act orgID with hle | ⟨id, cap, hwon, hlt, heq⟩
      · omega
      · have := hg id cap hwon
        omega
    · intro x hx id cap hwon
      obtain ⟨-, -, -, -, hout⟩ := (mem_trace step acts w x).1 hx
      exact hM x hx id cap (hout.trans hwon)

def capIs (M : Int) : Event → Bool
  | .won _ _ cap => decide (cap = M)
  | _ => true

theorem restart_capped : (trace step restartWorld (proposeRestart ++ approveRestart)).countP (isWon restartID) = 1 ∧
    ∀ pre, pre <+: proposeRestart ++ approveRestart →
      (countActiveByOrg (final step restartWorld pre).executions "o" : Int) ≤ 1 := by
  refine ⟨by decide, (executing_capped restartWorld (proposeRestart ++ approveRestart) "o").2 1 ?_ (by decide)⟩
  have hcaps : ∀ x ∈ trace step restartWorld (proposeRestart ++ approveRestart), capIs 1 x.2.2 = true := by decide
  intro x hx id cap hwon
  have hcap := hcaps x hx
  rw [hwon] at hcap
  simpa [capIs] using hcap

end Remediation
end DsApm
