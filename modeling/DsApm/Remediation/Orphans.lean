import DsApm.Remediation.Lifecycle
/-!
# Orphans — rows left executing by an approval that is over

The `Get` of `ApproveRemediation` after its win returns on an error, and `runRemediation` and `failRemediation` drop the
error of the `Transition` that records the outcome.  Each of these leaves the row `executing`, and nothing else moves it
on: the verifier reads `proposed` and `succeeded` rows.  These are the only ways.
-/
namespace DsApm
namespace Remediation

open SqlTable SqlTable.Table StepRun

abbrev Taken := World × Action × Event

def WonIn (pid : Nat) (orgID id : String) (x : Taken) : Prop :=
  (∃ a, x.2.1 = .run pid a) ∧ ∃ cap, x.2.2 = .won orgID id cap

def FaultIn (pid : Nat) (x : Taken) : Prop :=
  ∃ a, x.2.1 = .run pid a ∧ a.fails = true ∧ (x.1.procs pid).critical = true

def Settled (w : World) (id : String) : Prop := ∃ s, w.status id = some s ∧ s ≠ .proposed ∧ s ≠ .executing

theorem settled_step (w : World) (act : Action) (id : String) (h : Settled w id) : Settled (step w act).1 id := by
  obtain ⟨s, hs, hp, hx⟩ := h
  obtain ⟨s', hs', rfl | hedge⟩ := status_step w act id hs
  · exact ⟨s', hs', hp, hx⟩
  · exact ⟨s', hs', hedge.ne_proposed, fun hc => hp (Allowed.of_executing (hc ▸ hedge))⟩

variable {w : World} {act : Action} {id : String}

theorem settled_of_moved {from_ to_ : RemediationStatus}
    (h : (step w act).2 = .moved id from_ to_) : Settled (step w act).1 id := by
  have ht := tableStep w act
  unfold Settled World.status
  rw [h] at ht
  generalize (step w act).1.executions = t at ht
  cases ht with
  | same quiet => cases quiet
  | @moved c _ _ e allowed status replaced =>
    refine ⟨c.to_, ?_, allowed.ne_proposed, c.to_ne_executing⟩
    rw [replaced.find, if_pos rfl]
    rfl

variable {orgID : String}

theorem status_of_executing (h : Executing w.executions orgID id) :
    w.status id = some .executing := by
  obtain ⟨e, he, -, hst⟩ := h
  unfold World.status
  rw [he, Option.map_some, hst]

theorem critical_owns {p : Proc} (h : p.critical = true) : p.owns ≠ none := by
  cases p with
  | approveGet => exact nofun
  | transitionGet c | transitionSet c _ _ =>
    have hf : c.next.isFinish = true := h
    simp [Proc.owns, hf]
  | _ => cases h

/-! ## The story of one approval -/

/-- How far the process has come with an execution, and what its steps so far were. -/
inductive Story (pid : Nat) (w : World) (tr : List Taken) : Prop
  | before (owns : (w.procs pid).owns = none) (noWin : ∀ x ∈ tr, ∀ o id, ¬ WonIn pid o id x)
      (noFault : ∀ x ∈ tr, ¬ FaultIn pid x)
  | owning {orgID id : String} (owns : (w.procs pid).owns = some (orgID, id))
      (wins : ∀ x ∈ tr, ∀ o id', WonIn pid o id' x → id' = id) (noFault : ∀ x ∈ tr, ¬ FaultIn pid x)
  | lost {orgID id : String} (ended : w.procs pid = .done) (wins : ∀ x ∈ tr, ∀ o id', WonIn pid o id' x → id' = id)
      (fault : ∃ x ∈ tr, FaultIn pid x) (executing : Executing w.executions orgID id)
      (free : ∀ pid' o, (w.procs pid').owns ≠ some (o, id))
  | settled {id : String} (ended : w.procs pid = .done) (wins : ∀ x ∈ tr, ∀ o id', WonIn pid o id' x → id' = id)
      (noFault : ∀ x ∈ tr, ¬ FaultIn pid x) (moved : Settled w id)

theorem forall_mem_snoc {α : Type} {P : α → Prop} {l : List α} {x : α} (h : ∀ y ∈ l, P y) (hx : P x) :
    ∀ y ∈ l ++ [x], P y := by
  intro y hy
  rcases List.mem_append.1 hy with hy | hy
  · exact h y hy
  · rw [List.mem_singleton.1 hy]; exact hx

variable {pid : Nat}

theorem quiet_of_other (w : World) (ev : Event) (h : ∀ a, act ≠ .run pid a) :
    (∀ o id, ¬ WonIn pid o id (w, act, ev)) ∧ ¬ FaultIn pid (w, act, ev) :=
  ⟨fun _ _ ⟨⟨a, ha⟩, _⟩ => h a ha, fun ⟨a, ha, _⟩ => h a ha⟩

theorem free_step (hx : Executing w.executions orgID id)
    (free : ∀ pid o, (w.procs pid).owns ≠ some (o, id)) (pid : Nat) (o : String) :
    ((step w act).1.procs pid).owns ≠ some (o, id) := by
  have hp := procStep w act pid
  have hrow := rowStep w act id
  generalize (step w act).1.procs pid = q at hp
  cases hp with
  | other notRun => exact free pid o
  | @spawned req _ idle started =>
    rw [owns_request w req _ started]
    exact nofun
  | @ran a =>
    have hown := ownStep w a (w.procs pid)
    have hfree := free pid o
    rw [event_run] at hrow
    generalize (step w (.run pid a)).1 = w' at hrow
    generalize (w.procs pid).step w a = r at hown hrow
    obtain ⟨t, p', ev⟩ := r
    generalize w.procs pid = p at hown hfree
    cases hown with
    | keep same quiet notWon => dsimp only; rw [same]; exact hfree
    | @won _ _ orgID' id' cap before now =>
      dsimp only
      rw [now]
      intro hc
      cases hc
      obtain ⟨e, he, -, hst⟩ := hx
      rw [he] at hrow
      generalize w'.executions.find? id = r' at hrow
      cases hrow with
      | same notWon => exact notWon _ _ rfl
      | won from_ _ _ => rw [hst] at from_; cases from_
    | lost => exact nofun
    | moved => exact nofun

theorem executing_step (hx : Executing w.executions orgID id)
    (free : ∀ pid o, (w.procs pid).owns ≠ some (o, id)) : Executing (step w act).1.executions orgID id := by
  cases act with
  | run pid a => exact executing_kept hx (free pid)
  | spawn pid req =>
    simp only [step]
    split <;> exact hx
  | advance | editSOPs => exact hx
  | updateConfig o cfg =>
    simp only [step]
    split <;> exact hx

theorem done_step (h : w.procs pid = .done) (act : Action) :
    (step w act).1.procs pid = .done ∧
      (∀ o id, ¬ WonIn pid o id (w, act, (step w act).2)) ∧ ¬ FaultIn pid (w, act, (step w act).2) := by
  have hp := procStep w act pid
  generalize (step w act).1.procs pid = q at hp
  cases hp with
  | other notRun => exact ⟨h, quiet_of_other _ _ notRun⟩
  | spawned idle _ => rw [h] at idle; cases idle
  | @ran a =>
    refine ⟨by rw [h]; rfl, ?_, ?_⟩
    · rintro o id ⟨-, cap, hev⟩
      rw [event_run, h] at hev
      cases hev
    · rintro ⟨-, -, -, hcrit⟩
      rw [h] at hcrit
      cases hcrit

variable {tr : List Taken}

theorem story_over (ended : w.procs pid = .done)
    (wins : ∀ x ∈ tr, ∀ o id', WonIn pid o id' x → id' = id) (act : Action) :
    (step w act).1.procs pid = .done ∧
      (∀ x ∈ tr ++ [(w, act, (step w act).2)], ∀ o id', WonIn pid o id' x → id' = id) ∧
      ¬ FaultIn pid (w, act, (step w act).2) := by
  obtain ⟨hdone, hwin, hfault⟩ := done_step ended act
  exact ⟨hdone, forall_mem_snoc wins (fun o id' h => absurd h (hwin o id')), hfault⟩

theorem story_before (act : Action) (owns : (w.procs pid).owns = none)
    (noWin : ∀ x ∈ tr, ∀ o id, ¬ WonIn pid o id x) (noFault : ∀ x ∈ tr, ¬ FaultIn pid x) :
    Story pid (step w act).1 (tr ++ [(w, act, (step w act).2)]) := by
  have hfault : ¬ FaultIn pid (w, act, (step w act).2) := fun ⟨_, _, _, hcrit⟩ => critical_owns hcrit owns
  have hp := procStep w act pid
  generalize hq : (step w act).1.procs pid = q at hp
  cases hp with
  | other notRun =>
    exact .before (by rw [hq]; exact owns) (forall_mem_snoc noWin (quiet_of_other _ _ notRun).1)
      (forall_mem_snoc noFault hfault)
  | @spawned req _ idle started =>
    exact .before (by rw [hq]; exact owns_request w req _ started)
      (forall_mem_snoc noWin (fun o id h => by obtain ⟨⟨a, ha⟩, -⟩ := h; cases ha)) (forall_mem_snoc noFault hfault)
  | @ran a =>
    have hown := ownStep w a (w.procs pid)
    rw [← event_run, ← executions_run] at hown
    generalize ((w.procs pid).step w a).2.1 = p' at hown hq
    generalize hev : (step w (.run pid a)).2 = ev at hown hfault ⊢
    generalize hp : w.procs pid = p at hown owns
    generalize (step w (.run pid a)).1.executions = t at hown
    cases hown with
    | keep same quiet notWon =>
      refine .before (by rw [hq, same]; exact owns) (forall_mem_snoc noWin ?_) (forall_mem_snoc noFault hfault)
      rintro o id ⟨-, cap, hwon⟩
      exact notWon o id cap hwon
    | won before now =>
      refine .owning (by rw [hq]; exact now) (forall_mem_snoc ?_ ?_) (forall_mem_snoc noFault hfault)
      · exact fun x hx o id h => absurd h (noWin x hx o id)
      · rintro o id' ⟨-, cap, hwon⟩
        cases hwon
        rfl
    | lost hb => rw [owns] at hb; cases hb
    | moved hb => rw [owns] at hb; cases hb

theorem story_owning (hw : Owned w) (act : Action)
    (owns : (w.procs pid).owns = some (orgID, id)) (wins : ∀ x ∈ tr, ∀ o id', WonIn pid o id' x → id' = id)
    (noFault : ∀ x ∈ tr, ¬ FaultIn pid x) : Story pid (step w act).1 (tr ++ [(w, act, (step w act).2)]) := by
  have hp := procStep w act pid
  generalize hq : (step w act).1.procs pid = q at hp
  cases hp with
  | other notRun =>
    obtain ⟨hwin, hfault⟩ := quiet_of_other w (step w act).2 notRun
    exact .owning (by rw [hq]; exact owns) (forall_mem_snoc wins (fun o id' h => absurd h (hwin o id')))
      (forall_mem_snoc noFault hfault)
  | spawned idle _ => rw [idle] at owns; cases owns
  | @ran a =>
    have hown := ownStep w a (w.procs pid)
    have hexec := hw.executing pid orgID id owns
    have hfree : ∀ pid' o, pid' ≠ pid → (w.procs pid').owns ≠ some (o, id) :=
      fun pid' o hne hc => hne (hw.unique pid' pid _ _ id hc owns)
    have hfault : (a.fails = true → (w.procs pid).critical = false) →
        ¬ FaultIn pid (w, .run pid a, (step w (.run pid a)).2) := by
      rintro hno ⟨a', ha', hf, hcrit⟩
      cases ha'
      rw [hno hf] at hcrit
      cases hcrit
    rw [← event_run, ← executions_run] at hown
    generalize ht : (step w (.run pid a)).1.executions = t at hown
    generalize ((w.procs pid).step w a).2.1 = p' at hown hq
    generalize hev : (step w (.run pid a)).2 = ev at hown hfault ⊢
    have hother : ∀ pid', pid' ≠ pid → (step w (.run pid a)).1.procs pid' = w.procs pid' :=
      fun _ hne => procs_run_other w a hne
    generalize hp : w.procs pid = p at hown owns hfault
    have hwin : (∀ o id' cap, ev ≠ .won o id' cap) →
        ∀ x ∈ tr ++ [(w, .run pid a, ev)], ∀ o id', WonIn pid o id' x → id' = id := by
      intro hno
      refine forall_mem_snoc wins ?_
      rintro o id' ⟨-, cap, hwon⟩
      exact absurd hwon (hno o id' cap)
    cases hown with
    | keep same quiet notWon =>
      have hquiet := (quiet (by rw [owns]; nofun)).2
      exact .owning (by rw [hq, same]; exact owns) (hwin notWon) (forall_mem_snoc noFault (hfault hquiet))
    | won before now => rw [owns] at before; cases before
    | @lost _ o hb notWon why =>
      rw [owns] at hb
      cases hb
      rcases why with ⟨hf, hcrit⟩ | hnot
      · refine .lost hq (hwin notWon) ⟨_, List.mem_append_right _ List.mem_cons_self, a, rfl, hf, ?_⟩
          (ht ▸ hexec) ?_
        · rw [hp]; exact hcrit
        · intro pid' o hc
          by_cases hpid : pid' = pid
          · subst hpid
            rw [hq] at hc
            cases hc
          · rw [hother pid' hpid] at hc
            exact hfree pid' o hpid hc
      · exact absurd hexec hnot
    | moved hb nf =>
      rw [owns] at hb
      cases hb
      refine .settled hq (hwin (fun _ _ _ hc => by cases hc))
        (forall_mem_snoc noFault (hfault (fun hc => by rw [nf] at hc; cases hc))) (settled_of_moved hev)

theorem story_step (hw : Owned w) (act : Action) (h : Story pid w tr) :
    Story pid (step w act).1 (tr ++ [(w, act, (step w act).2)]) := by
  cases h with
  | before owns noWin noFault => exact story_before act owns noWin noFault
  | owning owns wins noFault => exact story_owning hw act owns wins noFault
  | lost ended wins fault executing free =>
    obtain ⟨hdone, hwins, -⟩ := story_over ended wins act
    obtain ⟨x, hx, hfault⟩ := fault
    exact .lost hdone hwins ⟨x, List.mem_append_left _ hx, hfault⟩ (executing_step executing free)
      (free_step executing free)
  | settled ended wins noFault moved =>
    obtain ⟨hdone, hwins, hfault⟩ := story_over ended wins act
    exact .settled hdone hwins (forall_mem_snoc noFault hfault) (settled_step w act _ moved)

theorem story_run (hw : Initial w) (acts : List Action) (pid : Nat) :
    Owned (final step w acts) ∧ Story pid (final step w acts) (trace step w acts) := by
  refine trace_inv step (fun w tr => Owned w ∧ Story pid w tr) (fun _ _ => True)
    (fun w tr act _ h => ⟨owned_step w act h.1, story_step h.1 act h.2⟩) acts w [] (fun _ _ => trivial)
    ⟨owned_initial hw, .before ?_ (fun _ hx => by cases hx) (fun _ hx => by cases hx)⟩
  rw [hw.idle pid]
  rfl

/-- **No orphans without a lost call.** In every run, once an approval that won an execution is over, with its runner,
the execution has left `executing` exactly when the `Get` after the win and the two statements of the recording
`Transition` did not fail. -/
theorem not_orphaned_iff (w : World) (hw : Initial w) (acts : List Action) (pid : Nat) (orgID id : String)
    (hwon : ∃ x ∈ trace step w acts, WonIn pid orgID id x) (hover : (final step w acts).procs pid = .done) :
    (final step w acts).status id ≠ some .executing ↔ ∀ x ∈ trace step w acts, ¬ FaultIn pid x := by
  obtain ⟨x, hx, hwin⟩ := hwon
  cases (story_run hw acts pid).2 with
  | before _ noWin _ => exact absurd hwin (noWin x hx orgID id)
  | owning owns _ _ => rw [hover] at owns; cases owns
  | lost _ wins fault executing _ =>
    rw [wins x hx orgID id hwin]
    obtain ⟨y, hy, hfault⟩ := fault
    exact ⟨fun h => absurd (status_of_executing executing) h, fun h => absurd hfault (h y hy)⟩
  | settled _ wins noFault moved =>
    rw [wins x hx orgID id hwin]
    obtain ⟨s, hs, -, hne⟩ := moved
    refine ⟨fun _ => noFault, fun _ hc => ?_⟩
    rw [hs, Option.some.injEq] at hc
    exact hne hc

def loseRestart : List Action :=
  [.spawn 1 (.approve "o" restartID "kim"), .run 1 {}, .run 1 {}, .run 1 {}, .run 1 { fails := true }]

theorem restart_settled :
    (final step restartWorld (proposeRestart ++ approveRestart)).status restartID ≠ some .executing ↔
      ∀ x ∈ trace step restartWorld (proposeRestart ++ approveRestart), ¬ FaultIn 1 x :=
  not_orphaned_iff restartWorld (initial_fresh _ _ _ _) _ 1 "o" restartID
    ⟨_, List.getElem_mem (show 7 < (trace step restartWorld (proposeRestart ++ approveRestart)).length by decide),
      ⟨_, rfl⟩, 1, rfl⟩ rfl

theorem restart_orphaned :
    (∃ x ∈ trace step restartWorld (proposeRestart ++ loseRestart), WonIn 1 "o" restartID x) ∧
    (final step restartWorld (proposeRestart ++ loseRestart)).procs 1 = .done ∧
    (final step restartWorld (proposeRestart ++ loseRestart)).status restartID = some .executing :=
  ⟨⟨_, List.getElem_mem (show 7 < (trace step restartWorld (proposeRestart ++ loseRestart)).length by decide),
      ⟨_, rfl⟩, 1, rfl⟩, rfl, by decide⟩

end Remediation
end DsApm
