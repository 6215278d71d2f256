import DsApm.Rules.Eval
/-!
# Hysteresis — when the recovery target keeps an alert, and when it raises one

The recovery target is for alerts that fire: it should keep such an alert, and raise none.  `Active` holds a resolved
alert for fifteen minutes, and the thresholds take its fingerprint for an active one, so a value that meets only the
recovery target raises it again; and they look for the fingerprint of all of a series' labels, where the alert records
them without the dropped names, so a series that carries one of these loses its alert.
-/
namespace DsApm
namespace Rules

open Latest StepRun GoMap List Option

variable {V : Type} [Float64 V] (W : World V) (r : Rule V)

/-- The series misses the target of the threshold and meets its recovery target, with this value. -/
structure MeetsRecoveryOnly (b : BasicRuleThreshold V) (series : TimeSeries V) (v : V) : Prop where
  missed : b.shouldAlert W series.evaluableValues r.unit = none
  met : ∃ recoveryTarget, b.recoveryTarget = some recoveryTarget ∧
    b.matchesRecoveryThreshold W recoveryTarget series.evaluableValues r.unit = some v

def recoveringSample (b : BasicRuleThreshold V) (series : TimeSeries V) (v : V) : Sample V :=
  { b.sample W series.labels v with isRecovering := true }

/-! ## Raising -/

/-- An alert of a threshold that was absent or inactive fires or recovers after this evaluation only where a series of
it met the threshold's target. -/
def Hysteresis (s : RuleState V) (i : EvalInput V) : Prop :=
  ∀ fp a', (∀ a, s.active.lookup fp = some a → a.state = .inactive) → (eval W r s i).1.active.lookup fp = some a' →
    (a'.state = .firing ∨ a'.state = .recovering) → a'.missing = false →
    ∃ series ∈ evaluatedSeries W r s i, ∃ b ∈ r.thresholds, ∃ v,
      b.shouldAlert W series.evaluableValues r.unit = some v ∧ fingerprint W r (b.sample W series.labels v) = fp

/-- A series that meets a recovery target only, and whose labels are those of an entry of `Active`, is of an alert that
is not resolved. -/
def UnresolvedOnly (s : RuleState V) (i : EvalInput V) : Prop :=
  r.sendUnmatched = false ∧
  ∀ series ∈ evaluatedSeries W r s i, ∀ b ∈ r.thresholds, ∀ v, MeetsRecoveryOnly W r b series v →
    W.hash (prepareSampleLabelsForRule W series.labels b.name) ∈ activeAlertsLabelFP W s.active →
    ∃ a, s.active.lookup (fingerprint W r (recoveringSample W b series v)) = some a ∧ a.state ≠ .inactive

omit [Float64 V] in
theorem settleMissed_inactive {ts : Int} {a a' : Alert V} (ha : a.state = .inactive) (h : settleMissed ts a = some a') :
    a' = a := by
  unfold settleMissed at h
  split_ifs at h with hgone hstate
  · exact absurd ha hstate
  · exact (Option.some.inj h).symm

omit [Float64 V] in
theorem mergeAlert_of_inactive (receivers : List RuleReceivers) (a : Alert V) {old : Option (Alert V)}
    (h : ∀ x, old = some x → x.state = .inactive) : mergeAlert receivers a old = a := by
  cases old with
  | none => rfl
  | some x => exact if_neg (not_not.2 (h x rfl))

omit [Float64 V] in
@[simp] theorem missing_turn_fire (ts : Int) (a : Alert V) : (turn (fire ts a)).missing = a.missing := by
  unfold turn fire
  split_ifs <;> rfl

theorem hysteresis_step {s : RuleState V} {i : EvalInput V} (hu : UnresolvedOnly W r s i) : Hysteresis W r s i := by
  intro fp a' hbefore hafter hraised hmissing
  by_cases hfail : ∃ samples, (buildAndRunQuery W r s i).2 = some samples ∧ (samples.map (fingerprint W r)).Nodup
  · obtain ⟨samples, hq, hnd⟩ := hfail
    by_cases hfp : fp ∈ samples.map (fingerprint W r)
    · obtain ⟨smpl, hs, rfl⟩ := List.mem_map.1 hfp
      rw [lookup_eval_of_mem hq hnd hs, mergeAlert_of_inactive _ _ hbefore] at hafter
      rcases mem_samples hq hs with hmiss | ⟨series, hseries, b, hb, heval⟩
      · rw [← Option.some.inj hafter, missing_turn_fire] at hmissing
        exact absurd (hmiss.symm.trans hmissing) (by simp)
      · rcases eval_eq_some heval with ⟨v, hv, rfl⟩ | ⟨-, hsend⟩ | ⟨hmissed, rt, v, hrt, hactive, hv, rfl⟩
        · exact ⟨series, hseries, b, hb, v, hv, rfl⟩
        · exact absurd (hsend.symm.trans hu.1) (by simp)
        · -- only the recovery target is met: its alert would have to be unresolved
          have hin := contains_iff_mem.1 hactive
          obtain ⟨a, ha, hstate⟩ := hu.2 series hseries b hb v ⟨hmissed, rt, hrt, hv⟩ hin
          exact absurd (hbefore a ha) hstate
    · rw [lookup_eval_of_not_mem hq hnd hfp, bind_eq_some_iff] at hafter
      obtain ⟨a, ha, hsettle⟩ := hafter
      rw [settleMissed_inactive (hbefore a ha) hsettle, hbefore a ha] at hraised
      simp at hraised
  · rw [eval_failed W r (fun samples hq hnd => hfail ⟨samples, hq, hnd⟩)] at hafter
    rw [hbefore a' hafter] at hraised
    simp at hraised

instance wholeNumbers : Float64 Int where
  lt a b := decide (a < b)
  le a b := decide (a ≤ b)
  eq a b := decide (a = b)
  add := (· + ·)
  sub := (· - ·)
  mul := (· * ·)
  div := Int.tdiv
  abs a := a.natAbs
  sqrt a := Nat.sqrt a.toNat
  isNaN _ := false
  isInf _ := false
  inf := 2 ^ 1024
  negInf := -2 ^ 1024
  zero := 0
  ofNat := Int.ofNat

def plainWorld : World Int where
  hash ls := ls.foldl (fun h l => (l.1 ++ "\n" ++ l.2 ++ "\n").toList.foldl (fun h c => h * 1114112 + c.toNat) h) 1
  lower s := String.ofList (s.toList.map GoStd.toLower)
  convert v _ _ := v
  format _ v _ := toString v
  expand _ _ _ _ _ text := text
  formatTime t := toString t

def criticalAboveFive : BasicRuleThreshold Int :=
  { name := "critical", targetValue := 5, targetUnit := "", recoveryTarget := some 2, matchType := .last
    compareOperator := .valueIsAbove, channels := [] }

def cpuRule (kind : RuleKind) : Rule Int :=
  { kind, id := "r1", name := "cpu", generatorURL := "", labels := [], annotations := []
    thresholds := [criticalAboveFive], unit := "", sendUnmatched := false, alertOnAbsent := false, absentFor := 0
    requireMinPoints := false, requiredNumPoints := 0, newGroupEvalDelay := 0 }

def oneValue (ls : Labels) (v : Int) : TimeSeries Int := { labels := ls, values := [{ timestamp := 0, value := v }] }

def evalAt (minutes : Int) (ls : Labels) (v : Int) : EvalInput Int :=
  { ts := minutes * Calendar.minute, query := some (some [oneValue ls v]), groupBys := none, firstSeen := none
    order := .asStored }

def afterValues (kind : RuleKind) (ls : Labels) (vs : List Int) : RuleState Int :=
  final (eval plainWorld (cpuRule kind)) (RuleState.init Int) (vs.zipIdx.map (fun p => evalAt p.2 ls p.1))

def podFingerprint (kind : RuleKind) (ls : Labels) : Nat :=
  fingerprint plainWorld (cpuRule kind) (recoveringSample plainWorld criticalAboveFive (oneValue ls 3) 3)

/-- An alert of a series and a threshold that fires or recovers is left recovering by values that meet the recovery
target only. -/
def RecoveryKeeps (s : RuleState V) (i : EvalInput V) : Prop :=
  ∀ result, i.query = some result → ∀ series ∈ seriesToEval r i (result.getD []), ∀ b ∈ r.thresholds, ∀ v,
    MeetsRecoveryOnly W r b series v → ∀ fp a, s.active.lookup fp = some a →
    a.queryResultLabels = resultLabels r.kind (prepareSampleLabelsForRule W series.labels b.name) →
    (a.state = .firing ∨ a.state = .recovering) →
    ∃ a', (eval W r s i).1.active.lookup fp = some a' ∧ a'.state = .recovering

/-- What the recovery target needs: no sample for an unmet target, no alert for missing data while there is data, no two
samples of one fingerprint, no series with a name that the alert's labels drop, and templates that give the recovering
sample the labels of the alert. -/
structure Recognised (s : RuleState V) (i : EvalInput V) : Prop where
  matched : r.sendUnmatched = false
  present : r.alertOnAbsent = false ∨ 0 < absentDuration r
  distinct : ∀ samples, (buildAndRunQuery W r s i).2 = some samples → (samples.map (fingerprint W r)).Nodup
  names : ∀ result, i.query = some result → ∀ series ∈ seriesToEval r i (result.getD []), ∀ l ∈ series.labels,
    l.1 ∉ droppedNames r.kind
  expanded : ∀ result, i.query = some result → ∀ series ∈ seriesToEval r i (result.getD []), ∀ b ∈ r.thresholds, ∀ v,
    MeetsRecoveryOnly W r b series v → ∀ fp a, s.active.lookup fp = some a →
    a.queryResultLabels = prepareSampleLabelsForRule W series.labels b.name →
    fingerprint W r (recoveringSample W b series v) = fp

theorem seriesToEval_nil (i : EvalInput V) : seriesToEval r i [] = [] := by
  have hfilter : (filterNewSeries r i []).getD [] = [] := by
    unfold filterNewSeries
    cases i.groupBys with
    | none => rfl
    | some groupBys => simp
  unfold seriesToEval
  simp only [hfilter]
  cases r.kind <;> simp

theorem evaluatedSeries_of_present {s : RuleState V} {i : EvalInput V} {result : Option (List (TimeSeries V))}
    (hq : i.query = some result) (hp : r.alertOnAbsent = false ∨ 0 < absentDuration r) {series : TimeSeries V}
    (h : series ∈ seriesToEval r i (result.getD [])) : series ∈ evaluatedSeries W r s i := by
  have hdata : hasData result = true := by
    match result, h with
    | none, h => rw [getD_none, seriesToEval_nil] at h; cases h
    | some [], h => rw [getD_some, seriesToEval_nil] at h; cases h
    | some (_ :: _), _ => rfl
  have hnone : (handleMissingDataAlert W r s i.ts (hasData result)).2 = none := by
    rw [hdata]
    unfold handleMissingDataAlert
    rcases hp with habsent | hdur
    · simp [habsent]
    · have hbefore : i.ts < i.ts + absentDuration r := by omega
      simp [hbefore]
  unfold evaluatedSeries
  rw [hq]
  simp only [hnone, isSome_none, Bool.false_eq_true, if_false]
  exact h

omit [Float64 V] in
theorem resultLabels_prepareSampleLabels {ls : Labels} {kind : RuleKind} (h : ∀ l ∈ ls, l.1 ∉ droppedNames kind)
    (name : String) :
    resultLabels kind (prepareSampleLabelsForRule W ls name) = prepareSampleLabelsForRule W ls name := by
  refine labels_delete_absent ?_ (fun l hl => ?_)
  · rw [prepareSampleLabels_eq]
    exact sorted_sortLabels _
  · rcases (mem_names_prepareSampleLabels W).1 (List.mem_map_of_mem hl) with hin | hname | hseverity
    · obtain ⟨l', hl', hfst⟩ := List.mem_map.1 hin
      rw [← hfst]
      exact h l' hl'
    · rw [hname]
      cases kind <;> decide
    · rw [hseverity]
      cases kind <;> decide

omit [Float64 V] in
theorem state_of_recovering {receivers : List RuleReceivers} {ts : Int} {a new : Alert V}
    (ha : a.state = .firing ∨ a.state = .recovering) (hnew : new.isRecovering = true) :
    (turn (fire ts (mergeAlert receivers new (some a)))).state = .recovering := by
  rcases ha with hs | hs <;>
    simp [mergeAlert, fire, firesNow, turn, changeRecoveringToFiring, changeAlertingToRecovering, hs, hnew]

theorem recovery_step {s : RuleState V} {i : EvalInput V} (hr : Recognised W r s i) : RecoveryKeeps W r s i := by
  intro result hq series hseries b hb v hm fp a ha hlabels hstate
  rw [resultLabels_prepareSampleLabels W (hr.names result hq series hseries) b.name] at hlabels
  have hfp := hr.expanded result hq series hseries b hb v hm fp a ha hlabels
  have hactive : W.hash (prepareSampleLabelsForRule W series.labels b.name) ∈ activeAlertsLabelFP W s.active :=
    List.mem_map.2 ⟨a, mem_values.2 ⟨fp, ha⟩, by rw [hlabels]⟩
  have heval : b.eval W { series with values := series.evaluableValues } r.unit
      { activeAlerts := activeAlertsLabelFP W s.active, sendUnmatched := r.sendUnmatched } =
        some (recoveringSample W b series v) := by
    obtain ⟨recoveryTarget, hrt, hmet⟩ := hm.met
    simp only [BasicRuleThreshold.eval, hm.missed, hr.matched, hrt, hmet, EvalData.hasActiveAlert,
      contains_iff_mem, hactive, Bool.false_eq_true, if_false, if_true, map_some]
    rfl
  obtain ⟨samples, hanswer, hmem⟩ := samples_of_evaluated (evaluatedSeries_of_present W r hq hr.present hseries)
  have hafter := lookup_eval_of_mem hanswer (hr.distinct samples hanswer) (hmem b hb _ heval)
  rw [hfp, ha] at hafter
  exact ⟨_, hafter, state_of_recovering hstate rfl⟩

/-- **In a run whose evaluations recognise the series of their alerts, the recovery target keeps every alert that
fires.** -/
theorem recovery_run (s : RuleState V) (is : List (EvalInput V))
    (hr : ∀ x ∈ trace (eval W r) s is, Recognised W r x.1 x.2.1) :
    ∀ x ∈ trace (eval W r) s is, RecoveryKeeps W r x.1 x.2.1 := fun x hx => recovery_step W r (hr x hx)

/-- A series of a prom rule that keeps its metric's name: ten fires, and three resolves the alert. -/
theorem named_series_resolved :
    ¬ RecoveryKeeps plainWorld (cpuRule .prom) (afterValues .prom [("__name__", "cpu"), ("pod", "a")] [10])
      (evalAt 1 [("__name__", "cpu"), ("pod", "a")] 3) := by
  intro h
  have hbefore : ((afterValues .prom [("__name__", "cpu"), ("pod", "a")] [10]).active.lookup
      (podFingerprint .prom [("__name__", "cpu"), ("pod", "a")])).map (fun a => (a.state, a.queryResultLabels)) =
        some (.firing, resultLabels .prom
          (prepareSampleLabelsForRule plainWorld [("__name__", "cpu"), ("pod", "a")] "critical")) := by decide +kernel
  have hafter : ((eval plainWorld (cpuRule .prom) (afterValues .prom [("__name__", "cpu"), ("pod", "a")] [10])
      (evalAt 1 [("__name__", "cpu"), ("pod", "a")] 3)).1.active.lookup
      (podFingerprint .prom [("__name__", "cpu"), ("pod", "a")])).map Alert.state = some .inactive := by decide +kernel
  have hseries : seriesToEval (cpuRule .prom) (evalAt 1 [("__name__", "cpu"), ("pod", "a")] 3)
      [oneValue [("__name__", "cpu"), ("pod", "a")] 3] = [oneValue [("__name__", "cpu"), ("pod", "a")] 3] := by
    decide
  have hmeets : MeetsRecoveryOnly plainWorld (cpuRule .prom) criticalAboveFive
      (oneValue [("__name__", "cpu"), ("pod", "a")] 3) 3 := ⟨by decide, 2, rfl, by decide⟩
  obtain ⟨a, ha, hfields⟩ := map_eq_some_iff.1 hbefore
  rw [Prod.mk.injEq] at hfields
  obtain ⟨a', ha', hkept⟩ := h _ rfl (oneValue [("__name__", "cpu"), ("pod", "a")] 3)
    (by rw [getD_some, hseries]; exact mem_singleton_self _) criticalAboveFive (mem_singleton_self _) 3
    hmeets _ a ha hfields.2 (.inl hfields.1)
  rw [ha', map_some, hkept] at hafter
  exact absurd (Option.some.inj hafter) (by decide)

theorem recognised_pod {s : RuleState Int} {i : EvalInput Int} {v : Int} {samples : List (Sample Int)}
    (hq : i.query = some (some [oneValue [("pod", "a")] v]))
    (hanswer : (buildAndRunQuery plainWorld (cpuRule .threshold) s i).2 = some samples)
    (hdistinct : (samples.map (fingerprint plainWorld (cpuRule .threshold))).Nodup)
    (hkeys : ∀ fp ∈ s.active.keys, ∀ w, fingerprint plainWorld (cpuRule .threshold)
      (recoveringSample plainWorld criticalAboveFive (oneValue [("pod", "a")] v) w) = fp) :
    Recognised plainWorld (cpuRule .threshold) s i := by
  have hseries : ∀ result, i.query = some result →
      ∀ series ∈ seriesToEval (cpuRule .threshold) i (result.getD []), series = oneValue [("pod", "a")] v := by
    intro result hresult series hin
    obtain rfl := Option.some.inj (hq.symm.trans hresult)
    exact mem_singleton.1 hin
  refine ⟨rfl, .inl rfl, ?_, ?_, ?_⟩
  · intro samples' hanswer'
    obtain rfl := Option.some.inj (hanswer.symm.trans hanswer')
    exact hdistinct
  · intro result hresult series hin l hl
    rw [hseries result hresult series hin] at hl
    obtain rfl := mem_singleton.1 hl
    decide
  · intro result hresult series hin b hb w _ fp a ha _
    obtain rfl := hseries result hresult series hin
    obtain rfl := mem_singleton.1 hb
    exact hkeys fp (AList.mem_keys.1 (AList.lookup_isSome.1 (by rw [ha]; rfl))) w

theorem keys_after_ten :
    (afterValues .threshold [("pod", "a")] [10]).active.keys = [podFingerprint .threshold [("pod", "a")]] := by
  decide +kernel

theorem answer_ten : (buildAndRunQuery plainWorld (cpuRule .threshold) (RuleState.init Int) (evalAt 0 [("pod", "a")] 10)).2 =
    some [criticalAboveFive.sample plainWorld [("pod", "a")] 10] := by decide

theorem answer_three : (buildAndRunQuery plainWorld (cpuRule .threshold) (afterValues .threshold [("pod", "a")] [10])
    (evalAt 1 [("pod", "a")] 3)).2 =
    some [recoveringSample plainWorld criticalAboveFive (oneValue [("pod", "a")] 3) 3] := by decide +kernel

/-- Ten fires and three leaves the alert recovering, for a series with no name of its own. -/
theorem pod_left_recovering :
    ((afterValues .threshold [("pod", "a")] [10, 3]).active.lookup (podFingerprint .threshold [("pod", "a")])).map Alert.state
      = some .recovering ∧
    ∀ x ∈ trace (eval plainWorld (cpuRule .threshold)) (RuleState.init Int)
      [evalAt 0 [("pod", "a")] 10, evalAt 1 [("pod", "a")] 3], RecoveryKeeps plainWorld (cpuRule .threshold) x.1 x.2.1 := by
  refine ⟨by decide +kernel, recovery_run plainWorld (cpuRule .threshold) _ _ (fun x hx => ?_)⟩
  rw [trace_cons, trace_cons, trace_nil, mem_cons, mem_singleton] at hx
  rcases hx with rfl | rfl
  · refine recognised_pod rfl answer_ten (nodup_singleton _) (fun fp hfp => ?_)
    cases hfp
  · refine recognised_pod rfl answer_three (nodup_singleton _) (fun fp hfp w => ?_)
    rw [show (eval plainWorld (cpuRule .threshold) (RuleState.init Int) (evalAt 0 [("pod", "a")] 10)).1 =
      afterValues .threshold [("pod", "a")] [10] from rfl, keys_after_ten, mem_singleton] at hfp
    rw [hfp]
    rfl

end Rules
end DsApm
