import DsApm.Remediation.Steps
/-!
# Ownership — who may move an executing row

The approval that wins an execution owns it: the handler until its `Get`, then the runner until its `Transition` is
over.  Only the owner asks for `succeeded` or `failed`, and only those leave `executing`; so as long as a process owns
an execution its row is executing, and no two own the same one.
-/
namespace DsApm
namespace Remediation

open SqlTable SqlTable.Table StepRun

def Next.isFinish : Next → Bool
  | .finish => true
  | _ => false

def Proc.owns : Proc → Option (String × String)
  | .approveGet orgID id => some (orgID, id)
  | .runStart orgID e | .runTarget orgID e _ | .runDecrypt orgID e _ _ | .runScript orgID e _ => some (orgID, e.id)
  | .transitionGet c | .transitionSet c _ _ => if c.next.isFinish then some (c.orgID, c.id) else none
  | _ => none

/-- The points at which a failed store call loses the execution: the `Get` after the win and the two statements of the
recording `Transition`. -/
def Proc.critical : Proc → Bool
  | .approveGet _ _ => true
  | .transitionGet c | .transitionSet c _ _ => c.next.isFinish
  | _ => false

def Executing (t : Executions) (orgID id : String) : Prop :=
  ∃ e, t.find? id = some e ∧ e.orgID = orgID ∧ e.status = .executing

theorem TransitionCall.finish_iff (c : TransitionCall) {from_ : RemediationStatus} (ok : Allowed from_ c.to_) :
    c.next.isFinish = true ↔ from_ = .executing := by
  have hasked := c.asked
  constructor
  · intro hf
    cases hn : c.next with
    | finish =>
      rw [hn] at hasked
      simp only [Next.asks, Bool.or_eq_true, decide_eq_true_eq] at hasked
      rcases hasked with h | h <;> rw [h] at ok <;> revert ok <;> cases from_ <;> decide
    | _ => rw [hn] at hf; cases hf
  · rintro rfl
    obtain ⟨l, hl, hm⟩ := ok
    cases hl
    cases hn : c.next with
    | finish => rfl
    | reply | expireRest | verifyRest =>
      rw [hn] at hasked
      simp only [List.mem_cons, List.not_mem_nil, or_false] at hm
      rcases hm with h | h <;> rw [h] at hasked <;> cases hasked

/-! ## One step of a process -/

inductive OwnStep (w : World) (a : Answer) (p : Proc) : Executions → Proc → Event → Prop
  | keep {t : Executions} {p' : Proc} {ev : Event} (same : p'.owns = p.owns)
      (quiet : p.owns ≠ none → t = w.executions ∧ (a.fails = true → p.critical = false))
      (notWon : ∀ o id cap, ev ≠ .won o id cap) : OwnStep w a p t p' ev
  | won {t : Executions} {p' : Proc} {orgID id : String} {cap : Int} (before : p.owns = none)
      (now : p'.owns = some (orgID, id)) : OwnStep w a p t p' (.won orgID id cap)
  | lost {ev : Event} {o : String × String} (before : p.owns = some o) (notWon : ∀ o id cap, ev ≠ .won o id cap)
      (why : a.fails = true ∧ p.critical = true ∨ ¬ Executing w.executions o.1 o.2) :
      OwnStep w a p w.executions .done ev
  | moved {t : Executions} {orgID id : String} {from_ to_ : RemediationStatus} (before : p.owns = some (orgID, id))
      (noFault : a.fails = false) : OwnStep w a p t .done (.moved id from_ to_)

theorem OwnStep.free {w : World} {a : Answer} {p p' : Proc} {t : Executions} {ev : Event} (before : p.owns = none)
    (now : p'.owns = none) (notWon : ∀ o id cap, ev ≠ .won o id cap) : OwnStep w a p t p' ev :=
  .keep (now.trans before.symm) (fun hc => absurd before hc) notWon

theorem owns_resume (c : TransitionCall) (err : Option String) : (Next.resume c err).1.owns = none := by
  unfold Next.resume
  split
  · split <;> rfl
  all_goals rfl

theorem owns_recordResult (now : GoStd.Time) (orgID id : String) (res : ExecResult) :
    (recordResult now orgID id res).owns = some (orgID, id) := by
  unfold recordResult; split <;> rfl

theorem owns_runRemediation (d : Deployment) (now : GoStd.Time) (orgID : String) (e : RemediationExecution) :
    (runRemediation d now orgID e).owns = some (orgID, e.id) := by
  unfold runRemediation
  split
  · rfl
  · repeat' split
    all_goals rfl

theorem owns_expireOne (orgID : String) (now : GoStd.Time) (e : RemediationExecution) (rest : List RemediationExecution) :
    (expireOne orgID now e rest).owns = none := by
  unfold expireOne
  repeat' split
  all_goals rfl

theorem owns_verifyOne (orgID : String) (now : GoStd.Time) (f : Option Bool) (e : RemediationExecution)
    (rest : List RemediationExecution) : (verifyOne orgID now f e rest).owns = none := by
  unfold verifyOne
  repeat' split
  all_goals rfl

theorem TransitionCall.allowed_of_finish (c : TransitionCall) (hf : c.next.isFinish = true) :
    Allowed .executing c.to_ := by
  have hasked := c.asked
  cases hn : c.next with
  | finish =>
    rw [hn] at hasked
    simp only [Next.asks, Bool.or_eq_true, decide_eq_true_eq] at hasked
    rcases hasked with h | h <;> rw [h] <;> decide
  | _ => rw [hn] at hf; cases hf

theorem resume_finish (c : TransitionCall) (hf : c.next.isFinish = true) (err : Option String) :
    Next.resume c err = (.done, .quiet) := by
  unfold Next.resume
  cases hn : c.next with
  | finish => rfl
  | _ => rw [hn] at hf; cases hf

theorem resume_notWon (c : TransitionCall) (err : Option String) (o id : String) (cap : Int) :
    (Next.resume c err).2 ≠ .won o id cap := by
  intro hc
  have hq := quiet_resume c err
  rw [hc] at hq; cases hq

theorem ownStep_transitionGet (w : World) (a : Answer) (c : TransitionCall) :
    OwnStep w a (.transitionGet c) ((Proc.transitionGet c).step w a).1 ((Proc.transitionGet c).step w a).2.1
      ((Proc.transitionGet c).step w a).2.2 := by
  simp only [Proc.step]
  by_cases hf : c.next.isFinish = true
  · have howns : (Proc.transitionGet c).owns = some (c.orgID, c.id) := by simp [Proc.owns, hf]
    split
    · rename_i ha
      rw [resume_finish c hf]
      exact .lost howns (fun _ _ _ hc => by cases hc) (.inl ⟨ha, hf⟩)
    · rename_i ha
      split
      · rename_i hnone
        rw [resume_finish c hf]
        refine .lost howns (fun _ _ _ hc => by cases hc) (.inr ?_)
        rintro ⟨e, he, horg, -⟩
        rw [(get_eq_some _ _ _ _).2 ⟨he, horg⟩] at hnone
        cases hnone
      · rename_i e he
        split
        · exact .keep (by simp [Proc.owns, hf]) (fun _ => ⟨rfl, fun hc => absurd hc ha⟩) (fun _ _ _ hc => by cases hc)
        · rename_i hno
          rw [resume_finish c hf]
          refine .lost howns (fun _ _ _ hc => by cases hc) (.inr ?_)
          rintro ⟨e', he', -, hst⟩
          have hfind := ((get_eq_some _ _ _ _).1 he).1
          rw [hfind, Option.some.injEq] at he'
          rw [he', hst] at hno
          exact hno ((validateRemediationStatusTransition_eq_none _ _).2 (c.allowed_of_finish hf))
  · have howns : (Proc.transitionGet c).owns = none := by simp [Proc.owns, hf]
    refine .free howns ?_ ?_
    · repeat' split
      all_goals first | exact owns_resume c _ | simp [Proc.owns, hf]
    · repeat' split
      all_goals first | exact resume_notWon c _ | exact fun _ _ _ hc => by cases hc

theorem ownStep_transitionSet (w : World) (a : Answer) (c : TransitionCall) (from_ : RemediationStatus)
    (ok : Allowed from_ c.to_) :
    OwnStep w a (.transitionSet c from_ ok) ((Proc.transitionSet c from_ ok).step w a).1
      ((Proc.transitionSet c from_ ok).step w a).2.1 ((Proc.transitionSet c from_ ok).step w a).2.2 := by
  simp only [Proc.step]
  by_cases hf : c.next.isFinish = true
  · have howns : (Proc.transitionSet c from_ ok).owns = some (c.orgID, c.id) := by simp [Proc.owns, hf]
    have hfrom := (c.finish_iff ok).1 hf
    split
    · rename_i ha
      rw [resume_finish c hf]
      exact .lost howns (fun _ _ _ hc => by cases hc) (.inl ⟨ha, hf⟩)
    · rename_i ha
      rcases transitionUpdate_cases w.executions c.orgID c.id from_ c.to_ c.patch with
        ⟨he, hmiss⟩ | ⟨hok, e, horg, hst, hrep⟩
      · rw [he]
        dsimp only
        rw [resume_finish c hf]
        refine .lost howns (fun _ _ _ hc => by cases hc) (.inr ?_)
        rintro ⟨e, hfind, horg, hst⟩
        exact hmiss e hfind horg (hst.trans hfrom.symm)
      · rcases hres : transitionUpdate w.executions c.orgID c.id from_ c.to_ c.patch with ⟨t, b⟩
        rw [hres] at hok
        cases hok
        dsimp only
        rw [resume_finish c hf]
        exact .moved howns (Bool.not_eq_true _ ▸ ha)
  · have howns : (Proc.transitionSet c from_ ok).owns = none := by simp [Proc.owns, hf]
    refine .free howns ?_ ?_
    · split
      · exact owns_resume c _
      · split <;> exact owns_resume c _
    · split
      · exact resume_notWon c _
      · split
        · exact fun _ _ _ hc => by cases hc
        · exact resume_notWon c _

/-- **A process gains an execution by winning it and gives it up by moving its row, by a failed store call, or never.** -/
theorem ownStep (w : World) (a : Answer) (p : Proc) :
    OwnStep w a p (p.step w a).1 (p.step w a).2.1 (p.step w a).2.2 := by
  cases p with
  | transitionGet c => exact ownStep_transitionGet w a c
  | transitionSet c from_ ok => exact ownStep_transitionSet w a c from_ ok
  | approveMove orgID id approvedBy cfg =>
    simp only [Proc.step]
    split
    · exact .free rfl rfl (fun _ _ _ hc => by cases hc)
    · split
      · exact .won rfl rfl
      · exact .free rfl rfl (fun _ _ _ hc => by cases hc)
  | approveGet orgID id =>
    simp only [Proc.step]
    split
    · rename_i ha
      exact .lost rfl (fun _ _ _ hc => by cases hc) (.inl ⟨ha, rfl⟩)
    · rename_i ha
      split
      · rename_i hnone
        refine .lost rfl (fun _ _ _ hc => by cases hc) (.inr ?_)
        rintro ⟨e, he, horg, -⟩
        rw [(get_eq_some _ _ _ _).2 ⟨he, horg⟩] at hnone
        cases hnone
      · rename_i e he
        have hid : e.id = id := ((find?_eq_some _ _ _).1 ((get_eq_some _ _ _ _).1 he).1).2
        exact .keep (by simp only [Proc.owns, hid]) (fun _ => ⟨rfl, fun hc => absurd hc ha⟩) (fun _ _ _ hc => by cases hc)
  | runStart orgID e =>
    exact .keep (owns_runRemediation _ _ _ _) (fun _ => ⟨rfl, fun _ => rfl⟩) (fun _ _ _ hc => by cases hc)
  | runScript orgID e aim =>
    exact .keep (owns_recordResult _ _ _ _) (fun _ => ⟨rfl, fun _ => rfl⟩) (fun _ _ _ hc => by cases hc)
  | runTarget orgID e remote =>
    simp only [Proc.step]
    split <;> exact .keep rfl (fun _ => ⟨rfl, fun _ => rfl⟩) (fun _ _ _ hc => by cases hc)
  | runDecrypt orgID e remote sealedCredential =>
    simp only [Proc.step]
    repeat' split
    all_goals exact .keep rfl (fun _ => ⟨rfl, fun _ => rfl⟩) (fun _ _ _ hc => by cases hc)
  | tickExpire orgID now rest =>
    cases rest with
    | nil => exact .free rfl rfl (fun _ _ _ hc => by cases hc)
    | cons e rest => exact .free rfl (owns_expireOne _ _ _ _) (fun _ _ _ hc => by cases hc)
  | tickVerify orgID now rest =>
    cases rest with
    | nil => exact .free rfl rfl (fun _ _ _ hc => by cases hc)
    | cons e rest => exact .free rfl (owns_verifyOne _ _ _ _ _) (fun _ _ _ hc => by cases hc)
  | idle | done | rejectGet | freeze => exact .free rfl rfl (fun _ _ _ hc => by cases hc)
  | approveConfig | approveCount | tickProposed | tickSucceeded | selectConfig | selectActive | creating =>
    simp only [Proc.step]
    repeat' split
    all_goals exact .free rfl rfl (fun _ _ _ hc => by cases hc)
  | selectComplete | proposeConfig =>
    simp only [Proc.step]
    repeat' split
    all_goals exact .free rfl rfl (fun _ _ _ hc => by cases hc)

/-! ## The invariant -/

/-- **Every owned execution is executing, and has one owner.** -/
structure Owned (w : World) : Prop where
  executing : ∀ pid orgID id, (w.procs pid).owns = some (orgID, id) → Executing w.executions orgID id
  unique : ∀ pid pid' orgID orgID' id, (w.procs pid).owns = some (orgID, id) →
    (w.procs pid').owns = some (orgID', id) → pid = pid'

theorem owned_initial {w : World} (h : Initial w) : Owned w := by
  have hnone : ∀ pid, (w.procs pid).owns = none := fun pid => by rw [h.idle pid]; rfl
  constructor
  · intro pid orgID id ho
    rw [hnone] at ho; cases ho
  · intro pid pid' orgID orgID' id ho
    rw [hnone] at ho; cases ho

theorem owned_congr {w w' : World} (h : Owned w) (he : w'.executions = w.executions)
    (hp : ∀ pid, (w'.procs pid).owns = (w.procs pid).owns) : Owned w' := by
  refine ⟨fun pid orgID id ho => ?_, fun pid pid' orgID orgID' id ho ho' => ?_⟩
  · rw [hp] at ho
    rw [he]
    exact h.executing pid orgID id ho
  · rw [hp] at ho ho'
    exact h.unique pid pid' orgID orgID' id ho ho'

theorem owns_request (w : World) (req : Request) (p : Proc) (h : req.proc w = some p) : p.owns = none := by
  cases req with
  | approve | reject | tick => cases h; rfl
  | select r | propose r =>
    simp only [Request.proc] at h
    split at h <;> cases h
    rfl

theorem executing_kept {w : World} {a : Answer} {pid : Nat} {orgID id : String} (h : Executing w.executions orgID id)
    (hne : ∀ o, (w.procs pid).owns ≠ some (o, id)) : Executing (step w (.run pid a)).1.executions orgID id := by
  obtain ⟨e, he, horg, hst⟩ := h
  have hs := storeStep w a (w.procs pid)
  simp only [step]
  generalize (w.procs pid).step w a = r at hs
  obtain ⟨t, p', ev⟩ := r
  generalize w.procs pid = p at hs hne
  cases hs with
  | same _ => exact ⟨e, he, horg, hst⟩
  | created inserted =>
    refine ⟨e, ?_, horg, hst⟩
    rw [find?_insert inserted]
    split
    · rename_i hid
      have hnone := ((insert?_eq_some _ _ _).1 inserted).1
      rw [hid, he] at hnone
      cases hnone
    · exact he
  | @won _ id' _ _ _ e' _ proposed _ replaced =>
    refine ⟨e, ?_, horg, hst⟩
    dsimp only
    rw [replaced.find]
    split
    · rename_i hid
      have hold := replaced.old
      rw [← hid, he, Option.some.injEq] at hold
      rw [← hold, hst] at proposed
      cases proposed
    · exact he
  | @moved c from_ ok _ e' _ status replaced =>
    refine ⟨e, ?_, horg, hst⟩
    dsimp only
    rw [replaced.find]
    split
    · -- the row is executing, so the mover is its runner
      rename_i hid
      have hold := replaced.old
      rw [← hid, he, Option.some.injEq] at hold
      rw [← hold, hst] at status
      refine absurd ?_ (hne c.orgID)
      simp [Proc.owns, (c.finish_iff ok).2 status.symm, hid]
    · exact he

theorem owned_mover {w : World} (h : Owned w) {pid : Nat} {a : Answer} {orgID id : String}
    (ho : ((step w (.run pid a)).1.procs pid).owns = some (orgID, id)) :
    Executing (step w (.run pid a)).1.executions orgID id ∧
      ∀ pid' orgID', (w.procs pid').owns = some (orgID', id) → pid' = pid := by
  have hown := ownStep w a (w.procs pid)
  have hstore := storeStep w a (w.procs pid)
  rw [procs_run_self] at ho
  rw [executions_run]
  generalize (w.procs pid).step w a = r at hown hstore ho
  obtain ⟨t, p', ev⟩ := r
  generalize hp : w.procs pid = p at hown hstore
  cases hown with
  | keep same quiet notWon =>
    rw [same] at ho
    rw [← hp] at ho
    have ht : t = w.executions := (quiet (by rw [← hp, ho]; nofun)).1
    refine ⟨?_, fun pid' orgID' ho' => h.unique pid' pid _ _ id ho' ho⟩
    show Executing t orgID id
    rw [ht]
    exact h.executing pid orgID id ho
  | won before now =>
    rw [now, Option.some.injEq, Prod.mk.injEq] at ho
    obtain ⟨rfl, rfl⟩ := ho
    cases hstore with
    | same quiet => cases quiet
    | @won _ _ approvedBy _ _ e org proposed cap replaced =>
      refine ⟨⟨markExecuting approvedBy (format w.now) e, ?_, org, rfl⟩, fun pid' orgID' ho' => ?_⟩
      · rw [replaced.find, if_pos rfl]
      · -- the row was proposed, and an owned one is executing
        obtain ⟨e', he', -, hst⟩ := h.executing pid' _ _ ho'
        rw [replaced.old, Option.some.injEq] at he'
        rw [← he', proposed] at hst
        cases hst
  | lost => cases ho
  | moved => cases ho

theorem owned_step_run {w : World} (h : Owned w) (pid : Nat) (a : Answer) : Owned (step w (.run pid a)).1 := by
  refine ⟨fun pid' orgID id ho => ?_, fun p₁ p₂ o₁ o₂ id h₁ h₂ => ?_⟩
  · by_cases hp : pid' = pid
    · subst hp
      exact (owned_mover h ho).1
    · rw [procs_run_other w a hp] at ho
      refine executing_kept (h.executing pid' orgID id ho) (fun o hc => ?_)
      exact hp (h.unique pid' pid _ _ id ho hc)
  · by_cases hp₁ : p₁ = pid
    · subst hp₁
      by_cases hp₂ : p₂ = p₁
      · exact hp₂.symm
      · rw [procs_run_other w a hp₂] at h₂
        exact ((owned_mover h h₁).2 p₂ o₂ h₂).symm
    · rw [procs_run_other w a hp₁] at h₁
      by_cases hp₂ : p₂ = pid
      · subst hp₂
        exact (owned_mover h h₂).2 p₁ o₁ h₁
      · rw [procs_run_other w a hp₂] at h₂
        exact h.unique p₁ p₂ o₁ o₂ id h₁ h₂

/-- **One step keeps ownership.** -/
theorem owned_step (w : World) (act : Action) (h : Owned w) : Owned (step w act).1 := by
  cases act with
  | advance d => exact owned_congr h rfl (fun _ => rfl)
  | editSOPs docs => exact owned_congr h rfl (fun _ => rfl)
  | updateConfig orgID cfg =>
    simp only [step]
    split <;> exact owned_congr h rfl (fun _ => rfl)
  | spawn pid req =>
    simp only [step]
    split
    · rename_i p hidle hproc
      refine owned_congr h rfl (fun pid' => ?_)
      simp only [World.setProc]
      by_cases hp : pid' = pid
      · subst hp
        rw [Function.update_self, hidle, owns_request w req p hproc]
        rfl
      · rw [Function.update_of_ne hp]
    · exact h
  | run pid a => exact owned_step_run h pid a

end Remediation
end DsApm
