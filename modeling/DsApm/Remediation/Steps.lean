import DsApm.Remediation.System
/-!
# Steps — what one step of the system can do to the executions

`storeStep` inverts `Proc.step`: a step that writes is a `Create`, a winning `TransitionToExecuting` or the guarded
`UPDATE` of a `Transition`, with the process that takes it and all that its statement checked.  `rowStep` is what that
means for the row of one execution; the statements about runs are inductions with these two.
-/
namespace DsApm
namespace Remediation

open SqlTable SqlTable.Table StepRun

def Event.writes : Event → Bool
  | .won _ _ _ | .moved _ _ _ | .created _ _ => true
  | _ => false

inductive StoreStep (w : World) : Proc → Executions → Proc → Event → Prop
  | same {p p' : Proc} {ev : Event} (quiet : ev.writes = false) : StoreStep w p w.executions p' ev
  | created {selected : Bool} {p : Proposal} {summary : String} {t : Executions} {ann : Annotations}
      (inserted : w.executions.insert? p.execution = some t) :
      StoreStep w (.creating selected p summary) t .done (.created p ann)
  | won {orgID id approvedBy : String} {cfg : RemediationConfig} {t : Executions} {e : RemediationExecution}
      (org : e.orgID = orgID) (proposed : e.status = .proposed)
      (cap : (countActiveByOrg w.executions orgID : Int) < cfg.maxConcurrent)
      (replaced : Replaced w.executions t id e (markExecuting approvedBy (format w.now) e)) :
      StoreStep w (.approveMove orgID id approvedBy cfg) t (.approveGet orgID id) (.won orgID id cfg.maxConcurrent)
  | moved {c : TransitionCall} {from_ : RemediationStatus} {ok : Allowed from_ c.to_} {t : Executions}
      {e : RemediationExecution} (org : e.orgID = c.orgID) (status : e.status = from_)
      (replaced : Replaced w.executions t c.id e (c.patch.apply c.to_ e)) :
      StoreStep w (.transitionSet c from_ ok) t (Next.resume c none).1 (.moved c.id from_ c.to_)

theorem quiet_resume (c : TransitionCall) (err : Option String) : (Next.resume c err).2.writes = false := by
  unfold Next.resume
  split
  · split <;> rfl
  all_goals rfl

/-- **Every step of a process reads only, or is one of the three writes.** -/
theorem storeStep (w : World) (a : Answer) (p : Proc) :
    StoreStep w p (p.step w a).1 (p.step w a).2.1 (p.step w a).2.2 := by
  cases p with
  | approveMove orgID id approvedBy cfg =>
    simp only [Proc.step]
    split
    · exact .same rfl
    · rcases transitionToExecuting_cases w.executions orgID id approvedBy (format w.now) cfg.maxConcurrent with
        he | ⟨hwon, hcap, e, horg, hst, hrep⟩
      · rw [he]; exact .same rfl
      · rcases hres : transitionToExecuting w.executions orgID id approvedBy (format w.now) cfg.maxConcurrent with ⟨t, b⟩
        rw [hres] at hwon hrep
        cases hwon
        exact .won horg hst hcap hrep
  | transitionSet c from_ ok =>
    simp only [Proc.step]
    split
    · exact .same (quiet_resume c _)
    · rcases transitionUpdate_cases w.executions c.orgID c.id from_ c.to_ c.patch with
        ⟨he, -⟩ | ⟨hok, e, horg, hst, hrep⟩
      · rw [he]; exact .same (quiet_resume c _)
      · rcases hres : transitionUpdate w.executions c.orgID c.id from_ c.to_ c.patch with ⟨t, b⟩
        rw [hres] at hok hrep
        cases hok
        exact .moved horg hst hrep
  | creating selected p summary =>
    simp only [Proc.step]
    split
    · exact .same rfl
    · rcases create_cases w.executions p.execution with ⟨hsame, herr⟩ | ⟨hins, hok⟩
      · rcases hres : create w.executions p.execution with ⟨t, err⟩
        rw [hres] at hsame herr
        cases err with
        | none => exact absurd rfl herr
        | some x => cases hsame; exact .same rfl
      · rcases hres : create w.executions p.execution with ⟨t, err⟩
        rw [hres] at hins hok
        cases hok
        exact .created hins
  | transitionGet c =>
    simp only [Proc.step]
    split
    · exact .same (quiet_resume c _)
    · split
      · exact .same (quiet_resume c _)
      · split
        · exact .same rfl
        · exact .same (quiet_resume c _)
  | tickExpire orgID now rest => cases rest <;> exact .same rfl
  | tickVerify orgID now rest => cases rest <;> exact .same rfl
  | idle | done | runStart | runScript | rejectGet | freeze => exact .same rfl
  | approveConfig | approveCount | tickProposed | tickSucceeded | selectConfig | selectActive =>
    simp only [Proc.step]
    repeat' split
    all_goals exact .same rfl
  | approveGet | runTarget | runDecrypt | selectComplete | proposeConfig =>
    simp only [Proc.step]
    repeat' split
    all_goals exact .same rfl

inductive TableStep (w : World) : Executions → Event → Prop
  | same {ev : Event} (quiet : ev.writes = false) : TableStep w w.executions ev
  | created {p : Proposal} {t : Executions} {ann : Annotations}
      (inserted : w.executions.insert? p.execution = some t) : TableStep w t (.created p ann)
  | won {orgID id approvedBy : String} {cap : Int} {t : Executions} {e : RemediationExecution} (org : e.orgID = orgID)
      (proposed : e.status = .proposed) (under : (countActiveByOrg w.executions orgID : Int) < cap)
      (replaced : Replaced w.executions t id e (markExecuting approvedBy (format w.now) e)) :
      TableStep w t (.won orgID id cap)
  | moved {c : TransitionCall} {from_ : RemediationStatus} {t : Executions} {e : RemediationExecution}
      (allowed : Allowed from_ c.to_) (status : e.status = from_)
      (replaced : Replaced w.executions t c.id e (c.patch.apply c.to_ e)) : TableStep w t (.moved c.id from_ c.to_)

theorem tableStep (w : World) (act : Action) : TableStep w (step w act).1.executions (step w act).2 := by
  cases act with
  | spawn pid req =>
    simp only [step]
    split <;> exact .same rfl
  | advance d => exact .same rfl
  | editSOPs docs => exact .same rfl
  | updateConfig orgID cfg =>
    simp only [step]
    split <;> exact .same rfl
  | run pid a =>
    have h := storeStep w a (w.procs pid)
    simp only [step]
    generalize (w.procs pid).step w a = r at h
    obtain ⟨t, p', ev⟩ := r
    generalize w.procs pid = p at h
    cases h with
    | same quiet => exact .same quiet
    | created inserted => exact .created inserted
    | won org proposed cap replaced => exact .won org proposed cap replaced
    | @moved c from_ ok t e org status replaced => exact .moved ok status replaced

/-! ## One process -/

inductive ProcStep (w : World) (pid : Nat) : Action → Proc → Prop
  | other {act : Action} (notRun : ∀ a, act ≠ .run pid a) : ProcStep w pid act (w.procs pid)
  | spawned {req : Request} {p : Proc} (idle : w.procs pid = .idle) (started : req.proc w = some p) :
      ProcStep w pid (.spawn pid req) p
  | ran {a : Answer} : ProcStep w pid (.run pid a) ((w.procs pid).step w a).2.1

@[simp] theorem procs_run_self (w : World) (pid : Nat) (a : Answer) :
    (step w (.run pid a)).1.procs pid = ((w.procs pid).step w a).2.1 := by
  simp only [step, World.setProc, Function.update_self]

theorem procs_run_other (w : World) {pid pid' : Nat} (a : Answer) (h : pid' ≠ pid) :
    (step w (.run pid a)).1.procs pid' = w.procs pid' := by
  simp only [step, World.setProc]
  rw [Function.update_of_ne h]

theorem procStep (w : World) (act : Action) (pid : Nat) : ProcStep w pid act ((step w act).1.procs pid) := by
  cases act with
  | advance d => exact .other (fun _ hc => by cases hc)
  | editSOPs docs => exact .other (fun _ hc => by cases hc)
  | updateConfig orgID cfg =>
    simp only [step]
    split <;> exact .other (fun _ hc => by cases hc)
  | spawn pid' req =>
    simp only [step]
    split
    · rename_i p hidle hproc
      simp only [World.setProc]
      by_cases hp : pid = pid'
      · subst hp
        rw [Function.update_self]
        exact .spawned hidle hproc
      · rw [Function.update_of_ne hp]
        exact .other (fun _ hc => by cases hc)
    · exact .other (fun _ hc => by cases hc)
  | run pid' a =>
    by_cases hp : pid = pid'
    · subst hp
      rw [procs_run_self]
      exact .ran
    · rw [procs_run_other w a hp]
      exact .other (fun _ hc => by cases hc; exact hp rfl)

theorem event_run (w : World) (pid : Nat) (a : Answer) : (step w (.run pid a)).2 = ((w.procs pid).step w a).2.2 := rfl

theorem executions_run (w : World) (pid : Nat) (a : Answer) :
    (step w (.run pid a)).1.executions = ((w.procs pid).step w a).1 := rfl

theorem run_of_event {w : World} {act : Action} {ev : Event} (h : (step w act).2 = ev) (hev : ev ≠ .quiet) :
    ∃ pid a, act = .run pid a := by
  subst h
  cases act with
  | run pid a => exact ⟨pid, a, rfl⟩
  | advance | editSOPs => exact absurd rfl hev
  | spawn pid req =>
    simp only [step] at hev
    split at hev <;> exact absurd rfl hev
  | updateConfig orgID cfg =>
    simp only [step] at hev
    split at hev <;> exact absurd rfl hev

theorem creating_of_created {w : World} {act : Action} {p : Proposal} {ann : Annotations}
    (h : (step w act).2 = .created p ann) :
    ∃ pid a selected summary, act = .run pid a ∧ w.procs pid = .creating selected p summary ∧
      (step w act).1.procs pid = .done := by
  obtain ⟨pid, a, rfl⟩ := run_of_event h (fun hc => by cases hc)
  have hs := storeStep w a (w.procs pid)
  rw [event_run] at h
  rw [h, ← procs_run_self] at hs
  generalize hp' : (step w (.run pid a)).1.procs pid = p' at hs
  generalize ((w.procs pid).step w a).1 = t at hs
  generalize hq : w.procs pid = q at hs
  cases hs with
  | same quiet => cases quiet
  | created _ => exact ⟨pid, a, _, _, rfl, hq, hp'⟩

def Event.runs : Event → Bool
  | .started _ | .handed _ _ _ _ => true
  | _ => false

/-- **A runner is started by the handler that loaded the row, and hands over the script of the execution it has.** -/
theorem runs_cases {w : World} {a : Answer} {p : Proc} (h : (p.step w a).2.2.runs = true) :
    (∃ orgID id e, p = .approveGet orgID id ∧ get w.executions orgID id = some e ∧ (p.step w a).2.2 = .started e) ∨
    ∃ orgID e aim via, p = .runScript orgID e aim ∧ (p.step w a).2.2 = .handed e e.scriptSnapshot aim.target via := by
  have hresume : ∀ c err, (Next.resume c err).2.runs = false := by
    intro c err
    unfold Next.resume
    repeat' split
    all_goals rfl
  cases p with
  | approveGet orgID id =>
    simp only [Proc.step] at h ⊢
    repeat' split at h
    · cases h
    · cases h
    · rename_i hf _ e hget
      exact .inl ⟨orgID, id, e, rfl, hget, by rw [if_neg hf]⟩
  | runScript orgID e aim => exact .inr ⟨orgID, e, aim, _, rfl, rfl⟩
  | transitionGet c =>
    simp only [Proc.step] at h
    repeat' split at h
    all_goals first | cases h | (rw [hresume] at h; cases h)
  | transitionSet c from_ ok =>
    simp only [Proc.step] at h
    repeat' split at h
    all_goals first | cases h | (rw [hresume] at h; cases h)
  | tickExpire orgID now rest => cases rest <;> cases h
  | tickVerify orgID now rest => cases rest <;> cases h
  | _ =>
    simp only [Proc.step] at h
    repeat' split at h
    all_goals cases h

/-! ## One row -/

theorem TransitionCall.to_ne_executing (c : TransitionCall) : c.to_ ≠ .executing := by
  have h := c.asked
  intro hc
  rw [hc] at h
  revert h
  cases c.next <;> simp [Next.asks]

inductive RowStep (id : String) : Event → Option RemediationExecution → Option RemediationExecution → Prop
  | same {ev : Event} {r : Option RemediationExecution} (notWon : ∀ o cap, ev ≠ .won o id cap) : RowStep id ev r r
  | created {p : Proposal} {ann : Annotations} (hid : p.id = id) : RowStep id (.created p ann) none (some p.execution)
  | won {e e' : RemediationExecution} {cap : Int} (from_ : e.status = .proposed) (to_ : e'.status = .executing)
      (frozen : e'.toProposal = e.toProposal) : RowStep id (.won e.orgID id cap) (some e) (some e')
  | moved {e e' : RemediationExecution} (allowed : Allowed e.status e'.status) (not_executing : e'.status ≠ .executing)
      (frozen : e'.toProposal = e.toProposal) : RowStep id (.moved id e.status e'.status) (some e) (some e')

/-- **Every step does one of these to every row.** -/
theorem rowStep (w : World) (act : Action) (id : String) :
    RowStep id (step w act).2 (w.executions.find? id) ((step w act).1.executions.find? id) := by
  have h := tableStep w act
  generalize (step w act).1.executions = t at h
  generalize (step w act).2 = ev at h
  cases h with
  | same quiet => exact .same (fun o cap hc => by rw [hc] at quiet; cases quiet)
  | @created p _ ann inserted =>
    rw [find?_insert inserted]
    split
    · rename_i hid
      have hnone := ((insert?_eq_some _ _ _).1 inserted).1
      rw [hid] at hnone
      rw [hnone]
      exact .created hid
    · exact .same (fun o cap h => by cases h)
  | @won orgID id' approvedBy cap _ e org proposed under replaced =>
    rw [replaced.find]
    split
    · rename_i hid
      subst hid
      rw [replaced.old, ← org]
      exact .won proposed rfl rfl
    · rename_i hid
      exact .same (fun o cap' hc => by cases hc; exact hid rfl)
  | @moved c from_ _ e allowed status replaced =>
    rw [replaced.find]
    split
    · rename_i hid
      subst hid
      subst status
      rw [replaced.old]
      show RowStep c.id (.moved c.id e.status (c.patch.apply c.to_ e).status) (some e) (some (c.patch.apply c.to_ e))
      exact .moved allowed c.to_ne_executing rfl
    · exact .same (fun o cap h => by cases h)

end Remediation
end DsApm
