import DsApm.Remediation.Lifecycle
/-!
# Integrity — what is approved is what is run

The proposal part of a row is written by `Create` and by nothing after it, so what the runner loads after the win is
what was stored.  Where a stored script can come from is followed from the request: a proposer is given a document as
it is at that moment, and keeps it while the SOPs are edited.
-/
namespace DsApm
namespace Remediation

open SqlTable SqlTable.Table StepRun

/-! ## Frozen rows -/

/-- **A step leaves the proposal of every row.** -/
theorem proposal_step (w : World) (act : Action) {id : String} {e : RemediationExecution}
    (h : w.executions.find? id = some e) :
    ∃ e', (step w act).1.executions.find? id = some e' ∧ e'.toProposal = e.toProposal := by
  have hrow := rowStep w act id
  rw [h] at hrow
  generalize (step w act).1.executions.find? id = r' at hrow
  generalize (step w act).2 = ev at hrow
  generalize hr : some e = r at hrow
  cases hrow with
  | same _ => exact ⟨e, hr.symm, rfl⟩
  | created _ => cases hr
  | won _ _ frozen => cases hr; exact ⟨_, rfl, frozen⟩
  | moved _ _ frozen => cases hr; exact ⟨_, rfl, frozen⟩

theorem proposal_run {id : String} : ∀ (acts : List Action) (w : World) (e : RemediationExecution),
    w.executions.find? id = some e →
      ∃ e', (final step w acts).executions.find? id = some e' ∧ e'.toProposal = e.toProposal
  | [], _, e, h => ⟨e, h, rfl⟩
  | act :: acts, w, e, h => by
    obtain ⟨e₁, h₁, hf₁⟩ := proposal_step w act h
    obtain ⟨e₂, h₂, hf₂⟩ := proposal_run acts (step w act).1 e₁ h₁
    exact ⟨e₂, h₂, hf₂.trans hf₁⟩

/-! ## What a process carries -/

def Proc.held : Proc → Option RemediationExecution
  | .runStart _ e | .runTarget _ e _ | .runDecrypt _ e _ _ | .runScript _ e _ => some e
  | _ => none

def Proc.request : Proc → Option AlertRequest
  | .selectConfig r | .selectActive r _ | .selectComplete r _ | .proposeConfig r => some r
  | _ => none

def Proc.proposal : Proc → Option Proposal
  | .freeze _ p _ | .creating _ p _ => some p
  | _ => none

/-- A proposal for a notification, with a script that the notification's document sanctions. -/
structure Answers (r : AlertRequest) (p : Proposal) : Prop where
  org : p.orgID = r.orgID
  incident : p.incidentID = r.incidentID
  fingerprint : p.alertFingerprint = r.alertFingerprint
  sop : p.sopID = r.doc.sopID ∧ p.sopVersion = r.doc.version
  sanctioned : Sanctioned r.doc p.source p.scriptSnapshot

theorem Answers.freeze {r : AlertRequest} {p : Proposal} (h : Answers r p) (hit : Option RemediationTarget) :
    Answers r (freezeTargetSnapshot hit p) := by
  cases hit <;> exact ⟨h.org, h.incident, h.fingerprint, h.sop, h.sanctioned⟩

structure Carries (w : World) (p p' : Proc) : Prop where
  held : ∀ e, p'.held = some e → p.held = some e ∨ w.executions.find? e.id = some e
  request : ∀ r, p'.request = some r → p.request = some r
  proposal : ∀ q, p'.proposal = some q →
    (∃ q' hit, p.proposal = some q' ∧ q = freezeTargetSnapshot hit q') ∨ ∃ r, p.request = some r ∧ Answers r q

theorem carries_of {w : World} {p p' : Proc} (h₁ : p'.held = none ∨ p'.held = p.held)
    (h₂ : p'.request = none ∨ p'.request = p.request) (h₃ : p'.proposal = none) : Carries w p p' := by
  refine ⟨fun e he => ?_, fun r hr => ?_, fun q hq => ?_⟩
  · rcases h₁ with h | h <;> rw [h] at he
    · cases he
    · exact .inl he
  · rcases h₂ with h | h <;> rw [h] at hr
    · cases hr
    · exact hr
  · rw [h₃] at hq; cases hq

theorem carries_resume {w : World} {p : Proc} (c : TransitionCall) (err : Option String) :
    Carries w p (Next.resume c err).1 := by
  unfold Next.resume
  repeat' split
  all_goals exact carries_of (.inl rfl) (.inl rfl) rfl

/-- **What a process carries it carried before, read from the table, or made from its notification.** -/
theorem carries_step (w : World) (a : Answer) (p : Proc) : Carries w p (p.step w a).2.1 := by
  cases p with
  | approveGet orgID id =>
    simp only [Proc.step]
    repeat' split
    · exact carries_of (.inl rfl) (.inl rfl) rfl
    · exact carries_of (.inl rfl) (.inl rfl) rfl
    · rename_i e hget
      refine ⟨fun e' he' => .inr ?_, fun _ hr => (by cases hr), fun _ hq => (by cases hq)⟩
      cases he'
      have hfind := ((get_eq_some _ _ _ _).1 hget).1
      rw [((find?_eq_some _ _ _).1 hfind).2]
      exact hfind
  | runStart orgID e =>
    simp only [Proc.step, runRemediation, failRemediation]
    repeat' split
    all_goals first | exact carries_of (.inr rfl) (.inl rfl) rfl | exact carries_of (.inl rfl) (.inl rfl) rfl
  | runTarget orgID e remote =>
    simp only [Proc.step, failRemediation]
    split <;> first | exact carries_of (.inr rfl) (.inl rfl) rfl | exact carries_of (.inl rfl) (.inl rfl) rfl
  | runDecrypt orgID e remote key =>
    simp only [Proc.step, failRemediation]
    repeat' split
    all_goals first | exact carries_of (.inr rfl) (.inl rfl) rfl | exact carries_of (.inl rfl) (.inl rfl) rfl
  | runScript orgID e aim =>
    simp only [Proc.step, recordResult]
    split <;> exact carries_of (.inl rfl) (.inl rfl) rfl
  | transitionGet c =>
    simp only [Proc.step]
    repeat' split
    all_goals first | exact carries_of (.inl rfl) (.inl rfl) rfl | exact carries_resume c _
  | transitionSet c from_ ok =>
    simp only [Proc.step]
    repeat' split
    all_goals exact carries_resume c _
  | tickExpire orgID now rest =>
    cases rest
    · exact carries_of (.inl rfl) (.inl rfl) rfl
    · simp only [Proc.step, expireOne]
      repeat' split
      all_goals exact carries_of (.inl rfl) (.inl rfl) rfl
  | tickVerify orgID now rest =>
    cases rest
    · exact carries_of (.inl rfl) (.inl rfl) rfl
    · simp only [Proc.step, verifyOne]
      repeat' split
      all_goals exact carries_of (.inl rfl) (.inl rfl) rfl
  | selectConfig r =>
    simp only [Proc.step]
    split <;> first | exact carries_of (.inl rfl) (.inr rfl) rfl | exact carries_of (.inl rfl) (.inl rfl) rfl
  | selectActive r cfg =>
    simp only [Proc.step]
    split <;> first | exact carries_of (.inl rfl) (.inr rfl) rfl | exact carries_of (.inl rfl) (.inl rfl) rfl
  | selectComplete r cfg =>
    simp only [Proc.step]
    split
    · exact carries_of (.inl rfl) (.inl rfl) rfl
    · rename_i c hc
      obtain ⟨d, -, hd⟩ := Option.bind_eq_some_iff.1 hc
      refine ⟨fun _ he => (by cases he), fun _ hr => (by cases hr), fun q hq => .inr ⟨r, rfl, ?_⟩⟩
      cases hq
      exact ⟨rfl, rfl, rfl, ⟨rfl, rfl⟩, sanctioned_chooseScript hd⟩
  | proposeConfig r =>
    simp only [Proc.step]
    repeat' split
    · exact carries_of (.inl rfl) (.inl rfl) rfl
    · rename_i rb hrb
      refine ⟨fun _ he => (by cases he), fun _ hr => (by cases hr), fun q hq => .inr ⟨r, rfl, ?_⟩⟩
      cases hq
      exact ⟨rfl, rfl, rfl, ⟨rfl, rfl⟩, sanctioned_choiceOf hrb⟩
    · exact carries_of (.inl rfl) (.inl rfl) rfl
  | freeze selected p summary =>
    refine ⟨fun _ he => (by cases he), fun _ hr => (by cases hr), fun q hq => .inl ⟨p, a.target, rfl, ?_⟩⟩
    cases hq
    rfl
  | _ =>
    simp only [Proc.step]
    repeat' split
    all_goals exact carries_of (.inl rfl) (.inl rfl) rfl

def Request.notification : Request → Option AlertRequest
  | .select r | .propose r => some r
  | _ => none

theorem carries_spawned {w : World} {req : Request} {p : Proc} (h : req.proc w = some p) :
    p.held = none ∧ p.proposal = none ∧
      ∀ r, p.request = some r → req.notification = some r ∧ r.doc ∈ w.sops := by
  cases req with
  | approve | reject | tick => cases h; exact ⟨rfl, rfl, fun _ hr => (by cases hr)⟩
  | select r | propose r =>
    simp only [Request.proc] at h
    split at h
    · rename_i hdoc
      cases h
      refine ⟨rfl, rfl, fun r' hr' => ?_⟩
      cases hr'
      exact ⟨rfl, hdoc⟩
    · cases h

/-! ## What the runner hands over -/

def Faithful (w : World) : Prop := ∀ pid e, (w.procs pid).held = some e →
  ∃ r, w.executions.find? e.id = some r ∧ r.toProposal = e.toProposal

theorem faithful_step (w : World) (act : Action) (h : Faithful w) : Faithful (step w act).1 := by
  intro pid e he
  have hrow : ∃ r, w.executions.find? e.id = some r ∧ r.toProposal = e.toProposal := by
    have hp := procStep w act pid
    generalize (step w act).1.procs pid = q at he hp
    cases hp with
    | other _ => exact h pid e he
    | spawned _ started =>
      rw [(carries_spawned started).1] at he; cases he
    | @ran a =>
      rcases (carries_step w a (w.procs pid)).held e he with hheld | hfind
      · exact h pid e hheld
      · exact ⟨e, hfind, rfl⟩
  obtain ⟨r, hr, hfr⟩ := hrow
  obtain ⟨r', hr', hfr'⟩ := proposal_step w act hr
  exact ⟨r', hr', hfr'.trans hfr⟩

theorem faithful_run {w : World} (hw : Initial w) (acts : List Action) : Faithful (final step w acts) :=
  final_inv step Faithful (fun _ _ => True) (fun w act _ h => faithful_step w act h) acts w (fun _ _ => trivial)
    (fun pid e he => by rw [hw.idle pid] at he; cases he)

theorem held_of_handed {w : World} {act : Action} {e : RemediationExecution} {script via : String}
    {target : Option RemoteTarget} (h : (step w act).2 = .handed e script target via) :
    (∃ pid, (w.procs pid).held = some e) ∧ script = e.scriptSnapshot ∧ Aimed e.toProposal target := by
  obtain ⟨pid, a, rfl⟩ := run_of_event h (fun hc => by cases hc)
  rw [event_run] at h
  rcases runs_cases (by rw [h]; rfl : ((w.procs pid).step w a).2.2.runs = true) with
    ⟨orgID, id, e', hp, hget, hev⟩ | ⟨orgID, e', aim, via', hp, hev⟩
  · rw [hev] at h; cases h
  · rw [hev] at h
    cases h
    exact ⟨⟨pid, by rw [hp]; rfl⟩, rfl, aim.aimed⟩

/-! ## Where a snapshot comes from -/

/-- Every notification under way is one of `D`, and every proposal and every row answers one. -/
structure Provenance (D : AlertRequest → Prop) (w : World) : Prop where
  request : ∀ pid r, (w.procs pid).request = some r → D r
  proposal : ∀ pid q, (w.procs pid).proposal = some q → ∃ r, D r ∧ Answers r q
  row : ∀ id e, w.executions.find? id = some e → ∃ r, D r ∧ Answers r e.toProposal

theorem Provenance.mono {D D' : AlertRequest → Prop} {w : World} (hD : ∀ r, D r → D' r) (h : Provenance D w) :
    Provenance D' w := by
  refine ⟨fun pid r hr => hD _ (h.request pid r hr), fun pid q hq => ?_, fun id e he => ?_⟩
  · obtain ⟨r, hr, hans⟩ := h.proposal pid q hq
    exact ⟨r, hD r hr, hans⟩
  · obtain ⟨r, hr, hans⟩ := h.row id e he
    exact ⟨r, hD r hr, hans⟩

/-- **A step keeps provenance**, when the notifications it brings are among `D`. -/
theorem provenance_step {D : AlertRequest → Prop} (w : World) (act : Action)
    (hD : ∀ pid req r, act = .spawn pid req → req.notification = some r → r.doc ∈ w.sops → D r)
    (h : Provenance D w) : Provenance D (step w act).1 := by
  refine ⟨fun pid r hr => ?_, fun pid q hq => ?_, fun id e he => ?_⟩
  · have hp := procStep w act pid
    generalize (step w act).1.procs pid = p' at hr hp
    cases hp with
    | other _ => exact h.request pid r hr
    | @spawned req _ _ started =>
      obtain ⟨hnote, hdoc⟩ := (carries_spawned started).2.2 r hr
      exact hD pid req r rfl hnote hdoc
    | @ran a => exact h.request pid r ((carries_step w a (w.procs pid)).request r hr)
  · have hp := procStep w act pid
    generalize (step w act).1.procs pid = p' at hq hp
    cases hp with
    | other _ => exact h.proposal pid q hq
    | spawned _ started => rw [(carries_spawned started).2.1] at hq; cases hq
    | @ran a =>
      rcases (carries_step w a (w.procs pid)).proposal q hq with ⟨q', hit, hq', rfl⟩ | ⟨r, hr, hans⟩
      · obtain ⟨r, hr, hans⟩ := h.proposal pid q' hq'
        exact ⟨r, hr, hans.freeze hit⟩
      · exact ⟨r, h.request pid r hr, hans⟩
  · have hrow := rowStep w act id
    rw [he] at hrow
    generalize hold : w.executions.find? id = old at hrow
    generalize hev : (step w act).2 = ev at hrow
    generalize hnew : some e = new at hrow
    cases hrow with
    | same _ => exact h.row id e (hold.trans hnew.symm)
    | created _ =>
      cases hnew
      obtain ⟨pid, _, _, _, -, hp, -⟩ := creating_of_created hev
      exact h.proposal pid _ (by rw [hp]; rfl)
    | won _ _ frozen | moved _ _ frozen =>
      cases hnew
      rw [frozen]
      exact h.row id _ hold

/-- The notification came in at some moment of the run, with a document that was current then. -/
def Asked (w : World) (acts : List Action) (r : AlertRequest) : Prop :=
  ∃ pre pid req, pre ++ [.spawn pid req] <+: acts ∧ req.notification = some r ∧ r.doc ∈ (final step w pre).sops

theorem Asked.snoc {w : World} {acts : List Action} {r : AlertRequest} (act : Action) (h : Asked w acts r) :
    Asked w (acts ++ [act]) r := by
  obtain ⟨pre, pid, req, hp, hrest⟩ := h
  exact ⟨pre, pid, req, hp.trans (List.prefix_append _ _), hrest⟩

theorem provenance_run (d : Deployment) (config : String → Option RemediationConfig) (sops : List SOPDocument)
    (now : GoStd.Time) (acts : List Action) :
    Provenance (Asked (.fresh d config sops now) acts) (final step (.fresh d config sops now) acts) := by
  refine history_inv step (fun w acts => Provenance (Asked (.fresh d config sops now) acts) w) (fun _ => True) _
    (fun _ _ _ => trivial) ⟨fun _ _ hr => (by cases hr), fun _ _ hq => (by cases hq), fun _ _ he => (by cases he)⟩
    (fun acts act _ h => ?_) acts trivial
  refine provenance_step _ act (fun pid req r hact hnote hdoc => ?_) (h.mono (fun r hr => hr.snoc act))
  subst hact
  exact ⟨acts, pid, req, List.prefix_refl _, hnote, hdoc⟩

/-! ## What was created -/

def CreatedIn (tr : List (World × Action × Event)) (p : Proposal) : Prop := ∃ x ∈ tr, ∃ ann, x.2.2 = .created p ann

/-- **Every row holds a proposal that some step of the run stored.** -/
theorem created_run (d : Deployment) (config : String → Option RemediationConfig) (sops : List SOPDocument)
    (now : GoStd.Time) (acts : List Action) (id : String) (e : RemediationExecution)
    (h : (final step (.fresh d config sops now) acts).executions.find? id = some e) :
    CreatedIn (trace step (.fresh d config sops now) acts) e.toProposal := by
  have hinv := trace_inv step
    (fun w tr => ∀ id e, w.executions.find? id = some e → CreatedIn tr e.toProposal) (fun _ _ => True)
    (fun w tr act _ ih id e he => ?_) acts (.fresh d config sops now) [] (fun _ _ => trivial)
    (fun _ _ he => by cases he)
  · rw [List.nil_append] at hinv
    exact hinv id e h
  · have hkeep : ∀ ev p, CreatedIn tr p → CreatedIn (tr ++ [(w, act, ev)]) p := by
      rintro ev p ⟨x, hx, hann⟩
      exact ⟨x, List.mem_append_left _ hx, hann⟩
    have hrow := rowStep w act id
    rw [he] at hrow
    generalize hold : w.executions.find? id = old at hrow
    generalize (step w act).2 = ev at hrow
    generalize hnew : some e = new at hrow
    cases hrow with
    | same _ => exact hkeep _ _ (ih id e (hold.trans hnew.symm))
    | @created p ann _ =>
      cases hnew
      exact ⟨_, List.mem_append_right _ List.mem_cons_self, ann, rfl⟩
    | won _ _ frozen | moved _ _ frozen =>
      cases hnew
      rw [frozen]
      exact hkeep _ _ (ih id _ hold)

/-- **What is approved is what is run.** In every run of a deployment: no step changes the proposal of a row, its script
and its target among it; what is handed to the runner is the script some step stored, of the execution it is handed
for, and goes here only when that execution has no target; and every row answers a notification that came in before,
with the script of an approved runbook with a script in the document that was current then, or a generated one that the
gate accepts. -/
theorem script_integrity (d : Deployment) (config : String → Option RemediationConfig) (sops : List SOPDocument)
    (now : GoStd.Time) (acts : List Action) :
    (∀ pre post, acts = pre ++ post → ∀ id e, (final step (.fresh d config sops now) pre).executions.find? id = some e →
      ∃ e', (final step (.fresh d config sops now) acts).executions.find? id = some e' ∧ e'.toProposal = e.toProposal) ∧
    (∀ pre act post, acts = pre ++ act :: post → ∀ e script target via,
      (step (final step (.fresh d config sops now) pre) act).2 = .handed e script target via →
      ∃ p, CreatedIn (trace step (.fresh d config sops now) pre) p ∧ p.id = e.id ∧ script = p.scriptSnapshot ∧
        Aimed p target ∧ (p.targetID ≠ "" → transportOf target = .ssh)) ∧
    (∀ pre, pre <+: acts → ∀ id e, (final step (.fresh d config sops now) pre).executions.find? id = some e →
      ∃ r, Asked (.fresh d config sops now) pre r ∧ Answers r e.toProposal) := by
  refine ⟨?_, ?_, ?_⟩
  · rintro pre post rfl id e he
    rw [final_append]
    exact proposal_run post _ e he
  · rintro pre act post - e script target via hev
    obtain ⟨⟨pid, hheld⟩, hscript, haim⟩ := held_of_handed hev
    obtain ⟨r, hr, hsame⟩ := faithful_run (initial_fresh d config sops now) pre pid e hheld
    refine ⟨e.toProposal, ?_, rfl, hscript, haim, fun hremote => ?_⟩
    · rw [← hsame]
      exact created_run d config sops now pre e.id r hr
    · rcases haim with ⟨-, hlocal⟩ | ⟨-, keyPEM, rfl⟩
      · exact absurd hlocal hremote
      · rfl
  · intro pre _ id e he
    exact (provenance_run d config sops now pre).row id e he

/-- The restart script, as it is handed over. -/
theorem restart_integrity : ∃ e target via,
    (step (final step restartWorld (proposeRestart ++ approveRestart.take 6)) (.run 1 {})).2 =
      .handed e "systemctl restart api" target via ∧
    ∃ p, CreatedIn (trace step restartWorld (proposeRestart ++ approveRestart.take 6)) p ∧ p.id = e.id ∧
      "systemctl restart api" = p.scriptSnapshot ∧ Aimed p target ∧ (p.targetID ≠ "" → transportOf target = .ssh) :=
  ⟨_, _, _, rfl, (script_integrity {} (fun _ => some ⟨true, 60, 300, 600, 1⟩) [restartDoc] (1000 * GoStd.second)
    (proposeRestart ++ approveRestart.take 6 ++ [.run 1 {}])).2.1 _ (.run 1 {}) [] rfl _ _ _ _ rfl⟩

end Remediation
end DsApm
