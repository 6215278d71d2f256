import DsApm.Remediation.Orphans
/-!
# Expiry — what a tick's expiry pass is worth

`TransitionToExecuting` does not look at `expires_at`: between the deadline and the pass of the next tick an approval
still wins.  The pass closes that window.  Its list is a snapshot and each row it holds is moved by a `Transition` that
may lose to an approval or a rejection, but then the row is no longer `proposed` either; so after the pass no overdue row
that was there at its start is left to be won.
-/
namespace DsApm
namespace Remediation

open GoStd SqlTable SqlTable.Table StepRun

def LateWin (id : String) (x : Taken) : Prop :=
  ∃ orgID cap e exp, x.2.2 = .won orgID id cap ∧ x.1.executions.find? id = some e ∧ e.expiresAt = some exp ∧
    exp * second < x.1.now

def Next.isExpireRest : Next → Bool
  | .expireRest _ _ _ => true
  | _ => false

def Proc.expiring : Proc → Bool
  | .tickProposed _ _ | .tickExpire _ _ _ => true
  | .transitionGet c | .transitionSet c _ _ => c.next.isExpireRest
  | _ => false

def Queued (e : RemediationExecution) (rest : List RemediationExecution) : Prop :=
  ∃ r ∈ rest, r.toProposal = e.toProposal

inductive Pending (e : RemediationExecution) (now : Time) : Proc → Prop
  | listing : Pending e now (.tickProposed e.orgID now)
  | queued {rest : List RemediationExecution} (mem : Queued e rest) : Pending e now (.tickExpire e.orgID now rest)
  | reading {c : TransitionCall} (org : c.orgID = e.orgID) (id : c.id = e.id) (expires : c.to_ = .expired)
      (pass : c.next.isExpireRest = true) : Pending e now (.transitionGet c)
  | writing {c : TransitionCall} {ok : Allowed .proposed c.to_} (org : c.orgID = e.orgID) (id : c.id = e.id)
      (pass : c.next.isExpireRest = true) : Pending e now (.transitionSet c .proposed ok)
  | readingOther {c : TransitionCall} {rest : List RemediationExecution} (next : c.next = .expireRest e.orgID now rest)
      (mem : Queued e rest) : Pending e now (.transitionGet c)
  | writingOther {c : TransitionCall} {from_ : RemediationStatus} {ok : Allowed from_ c.to_}
      {rest : List RemediationExecution} (next : c.next = .expireRest e.orgID now rest) (mem : Queued e rest) :
      Pending e now (.transitionSet c from_ ok)

theorem expiring_of_pending {e : RemediationExecution} {now : Time} {p : Proc} (h : Pending e now p) :
    p.expiring = true := by
  cases h with
  | listing | queued => rfl
  | reading _ _ _ pass | writing _ _ pass => exact pass
  | readingOther next | writingOther next => simp [Proc.expiring, next, Next.isExpireRest]

theorem pending_resume {e : RemediationExecution} {now : Time} {c : TransitionCall} {rest : List RemediationExecution}
    (next : c.next = .expireRest e.orgID now rest) (mem : Queued e rest) (err : Option String) :
    Pending e now (Next.resume c err).1 := by
  unfold Next.resume
  rw [next]
  exact .queued mem

theorem pending_expireOne {e x : RemediationExecution} {now : Time} {exp : Int} {rest : List RemediationExecution}
    (hexp : e.expiresAt = some exp) (hpast : exp * second < now) (h : Queued e (x :: rest)) :
    Pending e now (expireOne e.orgID now x rest) := by
  obtain ⟨r, hr, hp⟩ := h
  unfold expireOne
  rcases List.mem_cons.1 hr with rfl | hr
  · have hr : r.expiresAt = some exp := (congrArg Proposal.expiresAt hp).trans hexp
    rw [hr]
    dsimp only
    rw [if_pos hpast]
    exact .reading rfl (congrArg Proposal.id hp) rfl rfl
  · have hq : Queued e rest := ⟨r, hr, hp⟩
    split
    · exact .queued hq
    · split
      · exact .readingOther rfl hq
      · exact .queued hq

theorem pending_step {w : World} {a : Answer} {e r : RemediationExecution} {now : Time} {exp : Int} {p : Proc}
    (hexp : e.expiresAt = some exp) (hpast : exp * second < now) (ha : a.fails = false)
    (hrow : w.executions.find? e.id = some r) (hst : r.status = .proposed) (hr : r.toProposal = e.toProposal)
    (h : Pending e now p) :
    Pending e now (p.step w a).2.1 ∨ ∃ from_ to_, (p.step w a).2.2 = .moved e.id from_ to_ := by
  have horg : r.orgID = e.orgID := congrArg Proposal.orgID hr
  have hget : get w.executions e.orgID e.id = some r := (get_eq_some _ _ _ _).2 ⟨hrow, horg⟩
  have hf : ¬ a.fails = true := by simp [ha]
  cases h with
  | listing =>
    simp only [Proc.step, if_neg hf]
    refine .inl (.queued ⟨r, (mem_listByStatus _ _ _ _).2 ⟨?_, horg, hst⟩, hr⟩)
    rw [((find?_eq_some _ _ _).1 hrow).2]
    exact hrow
  | @queued rest mem =>
    cases rest with
    | nil => obtain ⟨_, hm, -⟩ := mem; cases hm
    | cons x rest => exact .inl (pending_expireOne hexp hpast mem)
  | @reading c org id expires pass =>
    have hok : validateRemediationStatusTransition r.status c.to_ = none := by rw [hst, expires]; decide
    have hstep : ((Proc.transitionGet c).step w a).2.1 =
        .transitionSet c r.status ((validateRemediationStatusTransition_eq_none _ _).1 hok) := by
      simp only [Proc.step, if_neg hf, org, id, hget, dif_pos hok]
    rw [hstep]
    generalize (validateRemediationStatusTransition_eq_none _ _).1 hok = ok
    revert ok
    rw [hst]
    exact fun ok => .inl (.writing org id pass)
  | @writing c ok org id pass =>
    simp only [Proc.step, if_neg hf]
    rcases transitionUpdate_cases w.executions c.orgID c.id .proposed c.to_ c.patch with ⟨-, hmiss⟩ | ⟨hok, -⟩
    · rw [org, id] at hmiss
      exact absurd hst (hmiss r hrow horg)
    · rcases hres : transitionUpdate w.executions c.orgID c.id .proposed c.to_ c.patch with ⟨t, b⟩
      rw [hres] at hok
      cases hok
      exact .inr ⟨_, _, by rw [← id]⟩
  | @readingOther c rest next mem =>
    simp only [Proc.step, if_neg hf]
    repeat' split
    all_goals first | exact .inl (.writingOther next mem) | exact .inl (pending_resume next mem _)
  | @writingOther c from_ ok rest next mem =>
    simp only [Proc.step, if_neg hf]
    split <;> exact .inl (pending_resume next mem _)

/-! ## The pass as part of a run -/

/-- The row cannot be won any more, or the pass of the tick has still to expire it. -/
def Due (e : RemediationExecution) (now : Time) (pid : Nat) (w : World) : Prop :=
  ¬ Winnable e.id w ∨ ∃ r, w.executions.find? e.id = some r ∧ r.status = .proposed ∧ r.toProposal = e.toProposal ∧
    Pending e now (w.procs pid)

theorem not_winnable {w : World} {id : String} {r : RemediationExecution} (h : w.executions.find? id = some r)
    (hst : r.status ≠ .proposed) : ¬ Winnable id w := by
  intro hc
  refine hst (hc r.status ?_)
  unfold World.status
  rw [h]
  rfl

theorem due_step {e : RemediationExecution} {now : Time} {exp : Int} {pid : Nat} (hexp : e.expiresAt = some exp)
    (hpast : exp * second < now) (w : World) (act : Action) (hcalls : ∀ a, act = .run pid a → a.fails = false)
    (h : Due e now pid w) : Due e now pid (step w act).1 := by
  rcases h with hgone | ⟨r, hrow, hst, hr, hpend⟩
  · exact .inl (winnable_gone e.id w act hgone)
  · -- either the row is written by this step, or it stays and the pass goes on
    by_cases hwin : Winnable e.id (step w act).1
    · refine .inr ?_
      have hsame : (step w act).1.executions.find? e.id = some r := by
        have hs := rowStep w act e.id
        rw [hrow] at hs
        generalize hr' : (step w act).1.executions.find? e.id = r' at hs
        generalize (step w act).2 = ev at hs
        cases hs with
        | same _ => rfl
        | won _ executing _ => exact absurd hwin (not_winnable hr' (by rw [executing]; decide))
        | moved allowed _ _ => exact absurd hwin (not_winnable hr' allowed.ne_proposed)
      refine ⟨r, hsame, hst, hr, ?_⟩
      have hp := procStep w act pid
      generalize (step w act).1.procs pid = q at hp
      cases hp with
      | other _ => exact hpend
      | spawned idle _ => rw [idle] at hpend; cases hpend
      | @ran a =>
        rcases pending_step hexp hpast (hcalls a rfl) hrow hst hr hpend with hp | ⟨from_, to_, hmoved⟩
        · exact hp
        · rw [← event_run] at hmoved
          obtain ⟨s, hs, hne, -⟩ := settled_of_moved hmoved
          exact absurd (hwin s hs) hne
    · exact .inl hwin

/-- **An expiry pass closes its window.** From any state in which a tick that read the clock after an execution's
deadline starts its pass, with the execution there, over every interleaving: once the pass is over and none of its store
calls failed, the execution is never won. -/
theorem not_won_after_pass (w : World) (pass later : List Action) (pid : Nat) (e : RemediationExecution) (now : Time)
    (exp : Int) (htick : w.procs pid = .tickProposed e.orgID now) (hrow : w.executions.find? e.id = some e)
    (hexp : e.expiresAt = some exp) (hpast : exp * second < now)
    (hcalls : ∀ x ∈ trace step w pass, ∀ a, x.2.1 = .run pid a → a.fails = false)
    (hover : ((final step w pass).procs pid).expiring = false) :
    (trace step (final step w pass) later).countP (isWon e.id) = 0 := by
  have hdue : Due e now pid w := by
    by_cases hst : e.status = .proposed
    · exact .inr ⟨e, hrow, hst, rfl, by rw [htick]; exact .listing⟩
    · exact .inl (not_winnable hrow hst)
  have hend := final_inv step (Due e now pid) (fun _ act => ∀ a, act = .run pid a → a.fails = false)
    (fun w act hg h => due_step hexp hpast w act hg h) pass w hcalls hdue
  have hgone : ¬ Winnable e.id (final step w pass) := by
    rcases hend with hgone | ⟨_, _, _, _, hpend⟩
    · exact hgone
    · rw [expiring_of_pending hpend] at hover
      cases hover
  exact (countP_trace_le_one step (fun _ => True) (Winnable e.id) _ (fun _ _ h => h)
    (fun w act _ h => won_ends e.id w act h) (fun w act _ h => winnable_gone e.id w act h) later _ trivial).2 hgone

def overdue : List Action := [.advance (120 * 1000000000)]

theorem restart_won_late : Initial restartWorld ∧
    ∃ x ∈ trace step restartWorld (proposeRestart ++ overdue ++ approveRestart), LateWin restartID x :=
  ⟨initial_fresh _ _ _ _, _, List.getElem_mem
    (show 8 < (trace step restartWorld (proposeRestart ++ overdue ++ approveRestart)).length by decide),
    "o", 1, _, _, rfl, rfl, rfl, by decide⟩

def expireRestart : List Action := [.run 2 {}, .run 2 {}, .run 2 {}, .run 2 {}, .run 2 {}]

def overdueWorld : World := final step restartWorld (proposeRestart ++ overdue ++ [.spawn 2 (.tick "o")])

theorem restart_expired :
    (trace step (final step overdueWorld expireRestart) approveRestart).countP (isWon restartID) = 0 :=
  not_won_after_pass overdueWorld expireRestart approveRestart 2 ((overdueWorld.executions.find? restartID).get rfl)
    _ 1060 rfl rfl rfl (by decide) (fun x hx a ha => by
      obtain ⟨pre, post, hacts, -⟩ := (mem_trace step expireRestart overdueWorld x).1 hx
      have hmem : Action.run 2 a ∈ expireRestart := by
        rw [hacts, ha]
        exact List.mem_append_right _ List.mem_cons_self
      simp only [expireRestart, List.mem_cons, Action.run.injEq, true_and, List.not_mem_nil, or_false, or_self] at hmem
      rw [hmem]) rfl

end Remediation
end DsApm
