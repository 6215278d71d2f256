import DsApm.Remediation.Orphans
/-!
# Dedup — when an alert has one active execution

`Select` looks for an active execution of its alert, asks the model, and creates a row much later; the table has no
constraint on the alert.  Two Selects that both look before either creates make two rows, and a failed look counts as
"none found".  What the look does give: while the Selects of one alert do not overlap between look and `Create`, and
their looks succeed, the alert has at most one execution that is not terminal.
-/
namespace DsApm
namespace Remediation

open SqlTable SqlTable.Table StepRun

def AlertRequest.alert (r : AlertRequest) : String × String := (r.orgID, r.alertFingerprint)

def Proc.drafting : Proc → Option (String × String)
  | .selectComplete r _ | .proposeConfig r => some r.alert
  | .freeze _ p _ | .creating _ p _ => some (p.orgID, p.alertFingerprint)
  | _ => none

def World.active (w : World) (alert : String × String) : Nat := w.executions.count (isActive alert.1 alert.2)

/-- The condition on a step: no static proposal for the alert, and a Select looks for active executions only while no
other one is between its look and its `Create`, and its look does not fail. -/
def Serial (alert : String × String) (w : World) (act : Action) : Prop :=
  (∀ pid r, act = .spawn pid (.propose r) → r.alert ≠ alert) ∧
  ∀ pid a r cfg, act = .run pid a → w.procs pid = .selectActive r cfg → r.alert = alert →
    a.fails = false ∧ ∀ pid', (w.procs pid').drafting ≠ some alert

theorem drafting_resume (c : TransitionCall) (err : Option String) : (Next.resume c err).1.drafting = none := by
  unfold Next.resume
  repeat' split
  all_goals rfl

theorem drafting_run {w : World} {a : Answer} {p : Proc} {alert : String × String}
    (h : (p.step w a).2.1.drafting = some alert) : p.drafting = some alert ∨
      ∃ r cfg, p = .selectActive r cfg ∧ r.alert = alert ∧
        (a.fails = false → listActiveByFingerprint w.executions r.orgID r.alertFingerprint = []) := by
  cases p with
  | selectActive r cfg =>
    simp only [Proc.step] at h
    split at h
    · cases h
    · rename_i hlook
      cases h
      refine .inr ⟨r, cfg, rfl, rfl, fun ha => ?_⟩
      by_contra hne
      exact hlook ⟨ha, hne⟩
  | freeze selected p summary =>
    simp only [Proc.step, Proc.drafting] at h
    obtain ⟨horg, hfp⟩ := freezeTargetSnapshot_keeps a.target p
    rw [horg, hfp] at h
    exact .inl h
  | transitionGet c | transitionSet c _ _ =>
    simp only [Proc.step] at h
    repeat' split at h
    all_goals first | cases h | (rw [drafting_resume] at h; cases h)
  | runStart | runScript =>
    simp only [Proc.step, runRemediation, failRemediation, recordResult] at h
    repeat' split at h
    all_goals cases h
  | tickExpire orgID now rest =>
    cases rest
    · cases h
    · simp only [Proc.step, expireOne] at h
      repeat' split at h
      all_goals cases h
  | tickVerify orgID now rest =>
    cases rest
    · cases h
    · simp only [Proc.step, verifyOne] at h
      repeat' split at h
      all_goals cases h
  | selectComplete | proposeConfig =>
    simp only [Proc.step] at h
    repeat' split at h
    all_goals first | exact .inl h | cases h
  | _ =>
    simp only [Proc.step, failRemediation] at h
    repeat' split at h
    all_goals cases h

theorem drafting_step {w : World} {act : Action} {pid : Nat} {alert : String × String} (hs : Serial alert w act)
    (h : ((step w act).1.procs pid).drafting = some alert) : (w.procs pid).drafting = some alert ∨
      (w.active alert = 0 ∧ (∀ pid', (w.procs pid').drafting ≠ some alert) ∧ ∃ a, act = .run pid a) := by
  have hp := procStep w act pid
  generalize (step w act).1.procs pid = q at h hp
  cases hp with
  | other _ => exact .inl h
  | @spawned req _ idle started =>
    cases req with
    | approve | reject | tick => cases started; cases h
    | select r =>
      simp only [Request.proc] at started
      split at started <;> cases started
      cases h
    | propose r =>
      simp only [Request.proc] at started
      split at started <;> cases started
      exact absurd (Option.some.inj h) (hs.1 pid r rfl)
  | @ran a =>
    rcases drafting_run h with hd | ⟨r, cfg, hp, hr, hlook⟩
    · exact .inl hd
    · obtain ⟨ha, halone⟩ := hs.2 pid a r cfg rfl hp hr
      refine .inr ⟨?_, halone, a, rfl⟩
      rw [← hr]
      exact (listActiveByFingerprint_eq_nil _ _ _).1 (hlook ha)

theorem active_step (w : World) (act : Action) (alert : String × String) :
    (step w act).1.active alert ≤ w.active alert ∨
    ∃ p ann, (step w act).2 = .created p ann ∧ (p.orgID, p.alertFingerprint) = alert ∧
      (step w act).1.active alert = w.active alert + 1 := by
  have h := tableStep w act
  unfold World.active
  generalize (step w act).1.executions = t at h
  generalize (step w act).2 = ev at h
  cases h with
  | same _ => exact .inl le_rfl
  | @created p _ ann inserted =>
    rw [count_insert inserted]
    split
    · rename_i hp
      unfold isActive at hp
      rw [Bool.and_eq_true, Bool.and_eq_true, decide_eq_true_eq, decide_eq_true_eq] at hp
      exact .inr ⟨p, ann, rfl, Prod.ext hp.1.1 hp.1.2, rfl⟩
    · exact .inl le_rfl
  | @won o id approvedBy cap _ e org proposed under replaced =>
    have hcount := replaced.count (isActive alert.1 alert.2)
    have hsame : isActive alert.1 alert.2 (markExecuting approvedBy (format w.now) e) = isActive alert.1 alert.2 e := by
      unfold isActive
      rw [proposed]
      rfl
    rw [hsame] at hcount
    exact .inl (by omega)
  | @moved c from_ _ e allowed status replaced =>
    have hcount := replaced.count (isActive alert.1 alert.2)
    by_cases hnew : isActive alert.1 alert.2 (c.patch.apply c.to_ e) = true
    · -- the row was not terminal, since it moved
      have hlive : e.status.terminal = false := by
        rw [status]
        by_contra hc
        exact not_allowed_of_terminal (by simpa using hc) _ allowed
      have hold : isActive alert.1 alert.2 e = true := by
        unfold isActive at hnew ⊢
        rw [Bool.and_eq_true] at hnew ⊢
        exact ⟨hnew.1, by simp [hlive]⟩
      rw [hold, hnew] at hcount
      exact .inl (by omega)
    · rw [if_neg hnew] at hcount
      exact .inl (by omega)

/-! ## The invariant -/

/-- **At most one active execution; none while a row is being drafted, and one drafter.** -/
structure Single (alert : String × String) (w : World) : Prop where
  le : w.active alert ≤ 1
  empty : ∀ pid, (w.procs pid).drafting = some alert → w.active alert = 0
  alone : ∀ pid pid', (w.procs pid).drafting = some alert → (w.procs pid').drafting = some alert → pid = pid'

theorem single_initial {alert : String × String} {w : World} (hw : Initial w) (h : w.active alert ≤ 1) :
    Single alert w := by
  have hnone : ∀ pid, (w.procs pid).drafting ≠ some alert := fun pid hc => by rw [hw.idle pid] at hc; cases hc
  exact ⟨h, fun pid hd => absurd hd (hnone pid), fun pid _ hd => absurd hd (hnone pid)⟩

theorem single_step {alert : String × String} (w : World) (act : Action) (hs : Serial alert w act) (h : Single alert w) :
    Single alert (step w act).1 := by
  rcases active_step w act alert with hle | ⟨p, ann, hev, halert, heq⟩
  · refine ⟨hle.trans h.le, fun pid hd => ?_, fun pid pid' hd hd' => ?_⟩
    · rcases drafting_step hs hd with hd | ⟨hzero, -, -⟩
      · have := h.empty pid hd
        omega
      · omega
    · rcases drafting_step hs hd with hd₁ | ⟨-, halone, a, hact⟩
      · rcases drafting_step hs hd' with hd₂ | ⟨-, halone, -⟩
        · exact h.alone pid pid' hd₁ hd₂
        · exact absurd hd₁ (halone pid)
      · rcases drafting_step hs hd' with hd₂ | ⟨-, -, a', hact'⟩
        · exact absurd hd₂ (halone pid')
        · rw [hact] at hact'
          cases hact'
          rfl
  · -- the creator was the one drafter, and is done
    obtain ⟨pid, a, selected, summary, rfl, hproc, hdone⟩ := creating_of_created hev
    have hmine : (w.procs pid).drafting = some alert := by rw [hproc, ← halert]; rfl
    have hnone : ∀ pid', ((step w (.run pid a)).1.procs pid').drafting ≠ some alert := by
      intro pid' hd
      rcases drafting_step hs hd with hd' | ⟨-, halone, -⟩
      · rw [← h.alone pid pid' hmine hd', hdone] at hd
        cases hd
      · exact halone pid hmine
    have hzero := h.empty pid hmine
    exact ⟨by omega, fun pid' hd => absurd hd (hnone pid'), fun pid' _ hd => absurd hd (hnone pid')⟩

/-- **One active remediation per alert, when its Selects do not overlap.** In every run whose steps meet `Serial`, from
a state without requests in which the alert has at most one active execution, it has at most one at every moment. -/
theorem active_le_one (w : World) (hw : Initial w) (acts : List Action) (alert : String × String)
    (h0 : w.active alert ≤ 1) (hserial : ∀ x ∈ trace step w acts, Serial alert x.1 x.2.1) (pre : List Action)
    (hp : pre <+: acts) : (final step w pre).active alert ≤ 1 :=
  (prefix_inv step (Single alert) (Serial alert) (fun w act hs h => single_step w act hs h) hserial
    (single_initial hw h0) hp).le

def restartDecision : RunbookSelectionDecision := { outcome := "selected", chosenRunbookID := "rb-1", confidence := "high" }

def secondID : String := "3f2b8c1e-0000-4000-8000-00000000000b"

def selectTwice : List Action :=
  [.spawn 0 (.select restartAlert), .spawn 1 (.select restartAlert), .run 0 {}, .run 1 {}, .run 0 {}, .run 1 {},
   .run 0 { decision := some restartDecision, newID := restartID }, .run 0 {}, .run 0 {},
   .run 1 { decision := some restartDecision, newID := secondID }, .run 1 {}, .run 1 {}]

def selectBlind : List Action :=
  [.spawn 0 (.select restartAlert), .run 0 {}, .run 0 {}, .run 0 { decision := some restartDecision, newID := restartID },
   .run 0 {}, .run 0 {}, .spawn 1 (.select restartAlert), .run 1 {}, .run 1 { fails := true },
   .run 1 { decision := some restartDecision, newID := secondID }, .run 1 {}, .run 1 {}]

theorem overlapping_selects : Initial restartWorld ∧ restartWorld.active ("o", "fp") = 0 ∧
    (final step restartWorld selectTwice).active ("o", "fp") = 2 ∧
    (final step restartWorld selectBlind).active ("o", "fp") = 2 :=
  ⟨initial_fresh _ _ _ _, by decide, by decide, by decide⟩

def selectInTurn : List Action :=
  [.spawn 0 (.select restartAlert), .run 0 {}, .run 0 {}, .run 0 { decision := some restartDecision, newID := restartID },
   .run 0 {}, .run 0 {}, .spawn 1 (.select restartAlert), .run 1 {}, .run 1 {}]

theorem serial_selectInTurn : ∀ x ∈ trace step restartWorld selectInTurn, Serial ("o", "fp") x.1 x.2.1 := by
  simp only [selectInTurn, trace_cons, trace_nil, List.forall_mem_cons]
  refine ⟨?_, ?_, ⟨fun _ _ h => (by cases h), fun pid a r cfg h hp _ => ?_⟩, ?_, ?_, ?_, ?_, ?_,
    ⟨fun _ _ h => (by cases h), fun pid a r cfg h hp _ => ?_⟩, fun _ h => (by cases h)⟩
  case refine_3 =>
    cases h
    refine ⟨rfl, fun pid' => ?_⟩
    match pid' with
    | 0 | 1 | n + 2 => exact nofun
  case refine_9 =>
    cases h
    refine ⟨rfl, fun pid' => ?_⟩
    match pid' with
    | 0 | 1 | n + 2 => exact nofun
  all_goals exact ⟨fun _ _ h => (by cases h), fun pid a r cfg h hp _ => (by cases h <;> cases hp)⟩

theorem selectInTurn_single : (final step restartWorld selectInTurn).active ("o", "fp") ≤ 1 :=
  active_le_one restartWorld (initial_fresh _ _ _ _) selectInTurn ("o", "fp") (by decide) serial_selectInTurn _
    (List.prefix_refl _)

end Remediation
end DsApm
