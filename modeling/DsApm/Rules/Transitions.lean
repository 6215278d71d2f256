import DsApm.Rules.Eval
/-!
# Transitions — what an evaluation does to one alert

Whatever the query answers, an evaluation that succeeds does one of six things to the entry of a fingerprint
(`AlertStep`), and records of it just the states it went through.  No alert stays pending, since nothing is held back:
an entry of `Active` fires, recovers, or is resolved and kept for a while (`Standing`).
-/
namespace DsApm
namespace Rules

open Latest StepRun GoMap Option
open Schedule (zeroTime)

section
variable {V : Type}

def Alert.Unresolved (a : Alert V) : Prop := a.state = .firing ∨ a.state = .recovering

instance (a : Alert V) : Decidable a.Unresolved := inferInstanceAs (Decidable (_ ∨ _))

theorem Alert.Unresolved.not_inactive {a : Alert V} (h : a.Unresolved) : a.state ≠ .inactive := by
  rcases h with h | h <;> rw [h] <;> decide

theorem Alert.Unresolved.not_pending {a : Alert V} (h : a.Unresolved) : a.state ≠ .pending := by
  rcases h with h | h <;> rw [h] <;> decide

def UnresolvedAt (s : RuleState V) (fp : Nat) : Prop := ∃ a, s.active.lookup fp = some a ∧ a.Unresolved

def Standing (s : RuleState V) : Prop :=
  ∀ fp a, s.active.lookup fp = some a → a.state = .inactive ∨ (a.Unresolved ∧ a.resolvedAt = zeroTime)

theorem standing_init : Standing (RuleState.init V) := fun _ _ h => by cases h

def raisedStates (a : Alert V) : List AlertState :=
  (if a.missing then .noData else .firing) :: (if a.isRecovering then [.recovering] else [])

/-- The entry of a fingerprint before and after an evaluation, with the states that were recorded of it. -/
inductive AlertStep (ts : Int) : Option (Alert V) → Option (Alert V) → List AlertState → Prop where
  | absent : AlertStep ts none none []
  | expired {a : Alert V} (h : a.state = .inactive) : AlertStep ts (some a) none []
  | rested {a : Alert V} (h : a.state = .inactive) : AlertStep ts (some a) (some a) []
  | resolved {a : Alert V} (h : a.Unresolved) :
      AlertStep ts (some a) (some { a with state := .inactive, resolvedAt := ts }) [.inactive]
  | raised {o : Option (Alert V)} {b : Alert V} (h : ∀ a, o = some a → a.state = .inactive)
      (hstate : b.state = if b.isRecovering then .recovering else .firing) (hresolved : b.resolvedAt = zeroTime)
      (hsent : b.lastSentAt = zeroTime) : AlertStep ts o (some b) (raisedStates b)
  | kept {a b : Alert V} (h : a.Unresolved) (h' : b.Unresolved) (hlabels : b.queryResultLabels = a.queryResultLabels)
      (hresolved : b.resolvedAt = a.resolvedAt) (hsent : b.lastSentAt = a.lastSentAt)
      (hvalid : b.validUntil = a.validUntil) :
      AlertStep ts (some a) (some b) (if b.state = a.state then [] else [b.state])

/-! ## The loop's body, by what `Active` held -/

variable {ts : Int}

theorem fire_of_not_pending {a : Alert V} (h : a.state ≠ .pending) : fire ts a = a := by
  simp [fire, firesNow, h]

theorem state_turn {a : Alert V} (h : a.Unresolved) :
    (turn a).Unresolved := by
  unfold turn
  split_ifs
  · exact .inl rfl
  · exact .inr rfl
  · exact h

theorem turn_fields (a : Alert V) : (turn a).queryResultLabels = a.queryResultLabels ∧ (turn a).resolvedAt = a.resolvedAt ∧
    (turn a).lastSentAt = a.lastSentAt ∧ (turn a).validUntil = a.validUntil ∧ (turn a).missing = a.missing ∧
    (turn a).isRecovering = a.isRecovering := by
  unfold turn
  split_ifs <;> exact ⟨rfl, rfl, rfl, rfl, rfl, rfl⟩

theorem turn_of_firing {a : Alert V} (h : a.state = .firing) :
    (turn a).state = if a.isRecovering then .recovering else .firing := by
  simp only [turn, changeRecoveringToFiring, changeAlertingToRecovering, h]
  cases a.isRecovering <;> simp [h]

end

section
variable {V : Type} [Float64 V] (W : World V) (r : Rule V)

def merged (s : RuleState V) (i : EvalInput V) (samples : List (Sample V)) : GoMap Nat (Alert V) :=
  (samples.map (fun smpl => (fingerprint W r smpl, newAlert W r (getRuleReceivers i.order r.thresholds) i.ts smpl))).foldl
    (fun m e => put (mergeAlert (getRuleReceivers i.order r.thresholds) e.2) m e.1) s.active

def recordedStates (s : RuleState V) (i : EvalInput V) (samples : List (Sample V)) (fp : Nat) : List AlertState :=
  (((merged W r s i samples).lookup fp).map (fun a =>
    (changes r (samples.map (fingerprint W r)) i.ts fp a).map Prod.fst)).getD []

variable {W r} {s : RuleState V} {i : EvalInput V} {samples : List (Sample V)}

omit [Float64 V] in
theorem lookup_merged_of_mem (hnd : (samples.map (fingerprint W r)).Nodup) {smpl : Sample V} (hs : smpl ∈ samples) :
    (merged W r s i samples).lookup (fingerprint W r smpl) =
      some (mergeAlert (getRuleReceivers i.order r.thresholds)
        (newAlert W r (getRuleReceivers i.order r.thresholds) i.ts smpl) (s.active.lookup (fingerprint W r smpl))) := by
  refine lookup_foldl_put_of_mem _ _ _ ?_ (List.mem_map_of_mem hs)
  rwa [List.map_map]

omit [Float64 V] in
theorem lookup_merged_of_not_mem {fp : Nat} (hfp : fp ∉ samples.map (fingerprint W r)) :
    (merged W r s i samples).lookup fp = s.active.lookup fp := by
  refine lookup_foldl_put_of_not_mem _ _ _ ?_
  rwa [List.map_map]

theorem eval_items (hq : (buildAndRunQuery W r s i).2 = some samples) (hnd : (samples.map (fingerprint W r)).Nodup) :
    ((eval W r s i).2.map Prod.snd) = some (itemsToAdd W r (overallState s.active) (samples.map (fingerprint W r)) i.ts
      (merged W r s i samples) (eval W r s i).1.active) := by
  have hactive := buildAndRunQuery_active W r s i
  rw [eval_active hq hnd]
  unfold eval merged
  revert hq hactive
  cases buildAndRunQuery W r s i with
  | mk s' answer =>
    rintro rfl hactive
    simp only [newAlerts, if_pos hnd, List.map_map, Function.comp_def, map_some]
    rw [← hactive]

/-! ## The step -/

theorem alertStep_sampled_unresolved {receivers : List RuleReceivers} {ts : Int} {fp : Nat} {fps : List Nat}
    (hfp : fp ∈ fps) {a new : Alert V} (h : a.Unresolved) :
    AlertStep ts (some a) (some (turn (fire ts (mergeAlert receivers new (some a)))))
      ((changes r fps ts fp (mergeAlert receivers new (some a))).map Prod.fst) := by
  have hmerged : (mergeAlert receivers new (some a)).state = a.state ∧
      (mergeAlert receivers new (some a)).queryResultLabels = a.queryResultLabels ∧
      (mergeAlert receivers new (some a)).resolvedAt = a.resolvedAt ∧
      (mergeAlert receivers new (some a)).lastSentAt = a.lastSentAt ∧
      (mergeAlert receivers new (some a)).validUntil = a.validUntil := by
    simp only [mergeAlert, if_pos h.not_inactive]
    exact ⟨trivial, trivial, trivial, trivial, trivial⟩
  generalize mergeAlert receivers new (some a) = m at hmerged
  obtain ⟨hstate, hlabels, hresolved, hsent, hvalid⟩ := hmerged
  have hm : m.Unresolved := by
    unfold Alert.Unresolved
    rw [hstate]
    exact h
  have hno : firesNow ts m = false := by
    simp [firesNow, hm.not_pending]
  obtain ⟨hl, hr, hs, hv, -, -⟩ := turn_fields m
  have hchanges : (changes r fps ts fp m).map Prod.fst = if (turn m).state = a.state then [] else [(turn m).state] := by
    rw [← hstate]
    unfold changes turn
    rw [if_pos hfp, fire_of_not_pending hm.not_pending, hno]
    by_cases hrf : changeRecoveringToFiring m = true
    · have hrec : m.state = .recovering := by
        simp only [changeRecoveringToFiring, Bool.and_eq_true, decide_eq_true_eq] at hrf
        exact hrf.1.1
      simp [hrf, hrec]
    · by_cases haf : changeAlertingToRecovering m = true
      · have hfire : m.state = .firing := by
          simp only [changeAlertingToRecovering, Bool.and_eq_true, decide_eq_true_eq] at haf
          exact haf.1
        simp [hrf, haf, hfire]
      · simp [hrf, haf]
  rw [hchanges, fire_of_not_pending hm.not_pending]
  exact .kept h (state_turn hm) (hl.trans hlabels) (hr.trans hresolved) (hs.trans hsent) (hv.trans hvalid)

theorem alertStep_sampled_raised {receivers : List RuleReceivers} {ts : Int} {smpl : Sample V} {fps : List Nat}
    (hfp : fingerprint W r smpl ∈ fps) {o : Option (Alert V)} (h : ∀ a, o = some a → a.state = .inactive) :
    AlertStep ts o (some (turn (fire ts (mergeAlert receivers (newAlert W r receivers ts smpl) o))))
      ((changes r fps ts (fingerprint W r smpl) (mergeAlert receivers (newAlert W r receivers ts smpl) o)).map Prod.fst) := by
  have hmerge : mergeAlert receivers (newAlert W r receivers ts smpl) o = newAlert W r receivers ts smpl := by
    cases o with
    | none => rfl
    | some a =>
      have hinactive : ¬ a.state ≠ .inactive := not_not.2 (h a rfl)
      simp only [mergeAlert, if_neg hinactive]
  rw [hmerge]
  have hfires : firesNow ts (newAlert W r receivers ts smpl) = true := by
    simp [firesNow, newAlert, holdDuration]
  have hfire : fire ts (newAlert W r receivers ts smpl) =
      { newAlert W r receivers ts smpl with state := .firing, firedAt := ts } := if_pos hfires
  have hstate : (fire ts (newAlert W r receivers ts smpl)).state = .firing := by rw [hfire]
  obtain ⟨-, hresolved, hsent, -, hmissing, hrecovering⟩ := turn_fields (fire ts (newAlert W r receivers ts smpl))
  have hchanges : (changes r fps ts (fingerprint W r smpl) (newAlert W r receivers ts smpl)).map Prod.fst =
      raisedStates (turn (fire ts (newAlert W r receivers ts smpl))) := by
    unfold changes raisedStates
    rw [if_pos hfp, if_pos hfires, hmissing, hrecovering, hfire]
    simp only [changeRecoveringToFiring, changeAlertingToRecovering]
    cases (newAlert W r receivers ts smpl).isRecovering <;> simp
  rw [hchanges]
  refine .raised h ?_ ?_ ?_
  · rw [turn_of_firing hstate, hrecovering]
  · rw [hresolved, hfire]
    rfl
  · rw [hsent, hfire]
    rfl

theorem alertStep_missed {ts : Int} {fp : Nat} {fps : List Nat} (hfp : fp ∉ fps) {o : Option (Alert V)}
    (h : ∀ a, o = some a → a.state = .inactive ∨ (a.Unresolved ∧ a.resolvedAt = zeroTime)) :
    AlertStep ts o (o.bind (settleMissed ts)) ((o.map (fun a => (changes r fps ts fp a).map Prod.fst)).getD []) := by
  cases o with
  | none => exact .absent
  | some a =>
    rw [bind_some, map_some, getD_some, changes, if_neg hfp]
    rcases h a rfl with hinactive | ⟨hun, hzero⟩
    · rw [if_neg (not_not.2 hinactive)]
      unfold settleMissed
      split_ifs with hgone hlive
      · exact .expired hinactive
      · exact absurd hinactive hlive
      · exact .rested hinactive
    · have hstays : ¬ (a.state = .pending ∨ (a.resolvedAt ≠ zeroTime ∧ resolvedRetention < ts - a.resolvedAt)) := by
        rintro (hp | ⟨hne, -⟩)
        · exact hun.not_pending hp
        · exact hne hzero
      rw [if_pos hun.not_inactive]
      simp only [settleMissed, if_neg hstays, if_pos hun.not_inactive]
      exact .resolved hun

/-- **An evaluation that succeeds takes every entry through one step.** -/
theorem alertStep_eval (hs : Standing s) (hq : (buildAndRunQuery W r s i).2 = some samples)
    (hnd : (samples.map (fingerprint W r)).Nodup) (fp : Nat) :
    AlertStep i.ts (s.active.lookup fp) ((eval W r s i).1.active.lookup fp) (recordedStates W r s i samples fp) := by
  unfold recordedStates
  by_cases hfp : fp ∈ samples.map (fingerprint W r)
  · obtain ⟨smpl, hin, rfl⟩ := List.mem_map.1 hfp
    rw [lookup_eval_of_mem hq hnd hin, lookup_merged_of_mem hnd hin, map_some, getD_some]
    by_cases hinactive : ∀ a, s.active.lookup (fingerprint W r smpl) = some a → a.state = .inactive
    · exact alertStep_sampled_raised hfp hinactive
    · push Not at hinactive
      obtain ⟨a, ha, hne⟩ := hinactive
      rw [ha]
      exact alertStep_sampled_unresolved hfp ((hs _ a ha).resolve_left hne).1
  · rw [lookup_eval_of_not_mem hq hnd hfp, lookup_merged_of_not_mem hfp]
    exact alertStep_missed hfp (hs fp)

omit [Float64 V] in
theorem AlertStep.standing {ts : Int} {o : Option (Alert V)} {b : Alert V} {l : List AlertState}
    (h : AlertStep ts o (some b) l) (ho : ∀ a, o = some a → a.state = .inactive ∨ (a.Unresolved ∧ a.resolvedAt = zeroTime)) :
    b.state = .inactive ∨ (b.Unresolved ∧ b.resolvedAt = zeroTime) := by
  cases h with
  | rested h => exact .inl h
  | resolved h => exact .inl rfl
  | raised h hstate hresolved hsent =>
    refine .inr ⟨?_, hresolved⟩
    unfold Alert.Unresolved
    rw [hstate]
    cases b.isRecovering
    · exact .inl rfl
    · exact .inr rfl
  | kept h h' hlabels hresolved hsent hvalid =>
    rcases ho _ rfl with hinactive | ⟨-, hzero⟩
    · exact absurd hinactive h.not_inactive
    · exact .inr ⟨h', hresolved.trans hzero⟩

theorem standing_eval (hs : Standing s) : Standing (eval W r s i).1 := by
  intro fp b hb
  by_cases hok : ∃ samples, (buildAndRunQuery W r s i).2 = some samples ∧ (samples.map (fingerprint W r)).Nodup
  · obtain ⟨samples, hq, hnd⟩ := hok
    have hstep := alertStep_eval hs hq hnd fp
    rw [hb] at hstep
    exact hstep.standing (hs fp)
  · rw [eval_failed W r (fun samples hq hnd => hok ⟨samples, hq, hnd⟩)] at hb
    exact hs fp b hb

end

end Rules
end DsApm
