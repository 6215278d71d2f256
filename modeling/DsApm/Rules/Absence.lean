import DsApm.Rules.Hysteresis
/-!
# Absence — when a rule alerts for missing data

`HandleMissingDataAlert` and its caller over a run of evaluations.  The rule remembers one time, that of the last
evaluation with data, and adds `AbsentFor` minutes to it in a `time.Duration`.  Validation admits every `AbsentFor`: zero
minutes alert while there is data, and so does a product that leaves 64 bits and comes out negative, or they alert before
the minutes are over.
-/
namespace DsApm
namespace Rules

open Latest StepRun GoMap List

variable {V : Type} [Float64 V] (W : World V) (r : Rule V)

omit [Float64 V] in
def EvalInput.hadData (i : EvalInput V) : Bool := (i.query.map hasData).getD false

def missingDataAlert (s : RuleState V) (i : EvalInput V) : Option (Sample V) :=
  i.query.bind (fun result => (handleMissingDataAlert W r s i.ts (hasData result)).2)

def thresholdSamples (s : RuleState V) (i : EvalInput V) : List (Sample V) :=
  (seriesToEval r i ((i.query.bind id).getD [])).flatMap (fun series =>
    evalThresholds W i.order r.thresholds series r.unit
      { activeAlerts := activeAlertsLabelFP W s.active, sendUnmatched := r.sendUnmatched })

/-- `AbsentFor` in nanoseconds, whatever their number. -/
def absentMinutes : Int := (r.absentFor : Int) * Calendar.minute

/-- An alert for missing data has no data, no evaluation with data within `AbsentFor` before it, and data is evaluated. -/
structure AlertsWhenAbsent (past : List (EvalInput V)) (s : RuleState V) (i : EvalInput V) : Prop where
  noData : missingDataAlert W r s i ≠ none → i.hadData = false
  waited : missingDataAlert W r s i ≠ none → ∀ j ∈ past, j.hadData = true → absentMinutes r ≤ i.ts - j.ts
  kept : i.hadData = true → (buildAndRunQuery W r s i).2 = some (thresholdSamples W r s i)

/-! ## One evaluation -/

def lastSeen (s : RuleState V) (ts : Int) (has : Bool) : Int := if has then ts else s.lastTimestampWithDatapoints

theorem handleMissingDataAlert_lastTimestamp (s : RuleState V) (ts : Int) (has : Bool) :
    (handleMissingDataAlert W r s ts has).1.lastTimestampWithDatapoints = lastSeen s ts has := by
  unfold handleMissingDataAlert lastSeen
  cases has <;> simp only [Bool.false_eq_true, if_false, if_true] <;> split_ifs <;> rfl

theorem handleMissingDataAlert_iff (s : RuleState V) (ts : Int) (has : Bool) :
    (handleMissingDataAlert W r s ts has).2 ≠ none ↔
      r.alertOnAbsent = true ∧ lastSeen s ts has + absentDuration r ≤ ts := by
  unfold handleMissingDataAlert lastSeen
  cases has <;> cases r.alertOnAbsent <;> simp <;> split_ifs with h <;> simp <;> omega

theorem buildAndRunQuery_lastTimestamp (s : RuleState V) (i : EvalInput V) :
    (buildAndRunQuery W r s i).1.lastTimestampWithDatapoints = lastSeen s i.ts i.hadData := by
  unfold buildAndRunQuery EvalInput.hadData
  cases i.query with
  | none => rfl
  | some result =>
    have h := handleMissingDataAlert_lastTimestamp W r s i.ts (hasData result)
    simp only [Option.map_some, Option.getD_some]
    revert h
    cases handleMissingDataAlert W r s i.ts (hasData result) with
    | mk s' missing => cases missing <;> exact id

theorem eval_lastTimestamp (s : RuleState V) (i : EvalInput V) :
    (eval W r s i).1.lastTimestampWithDatapoints = lastSeen s i.ts i.hadData := by
  rw [← buildAndRunQuery_lastTimestamp W r s i]
  unfold eval
  cases buildAndRunQuery W r s i with
  | mk s' answer =>
    cases answer with
    | none => rfl
    | some samples =>
      simp only
      cases newAlerts W r (getRuleReceivers i.order r.thresholds) i.ts samples <;> rfl

theorem missingDataAlert_iff (s : RuleState V) (i : EvalInput V) : missingDataAlert W r s i ≠ none ↔
    i.query ≠ none ∧ r.alertOnAbsent = true ∧ lastSeen s i.ts i.hadData + absentDuration r ≤ i.ts := by
  unfold missingDataAlert EvalInput.hadData
  cases i.query with
  | none => simp
  | some result => simpa using handleMissingDataAlert_iff W r s i.ts (hasData result)

theorem buildAndRunQuery_of_none {s : RuleState V} {i : EvalInput V} (hdata : i.hadData = true)
    (h : missingDataAlert W r s i = none) : (buildAndRunQuery W r s i).2 = some (thresholdSamples W r s i) := by
  unfold buildAndRunQuery thresholdSamples
  unfold missingDataAlert at h
  unfold EvalInput.hadData at hdata
  cases hq : i.query with
  | none => rw [hq] at hdata; cases hdata
  | some result =>
    rw [hq, Option.bind_some] at h
    simp only
    revert h
    cases handleMissingDataAlert W r s i.ts (hasData result) with
    | mk s' missing =>
      intro h
      cases h
      rfl

/-! ## Over a run -/

theorem le_lastTimestamp {past : List (EvalInput V)} (h : past.Pairwise (fun a b => a.ts ≤ b.ts)) :
    ∀ j ∈ past, j.hadData = true →
      j.ts ≤ (final (eval W r) (RuleState.init V) past).lastTimestampWithDatapoints := by
  refine history_inv (eval W r) (fun s is => ∀ j ∈ is, j.hadData = true → j.ts ≤ s.lastTimestampWithDatapoints)
    (fun is => is.Pairwise (fun a b => a.ts ≤ b.ts)) (RuleState.init V) ?_ ?_ ?_ past h
  · intro as a hp
    exact (pairwise_append.1 hp).1
  · intro j hj
    cases hj
  · intro as a hp ih j hj hdata
    obtain ⟨-, -, hle⟩ := pairwise_append.1 hp
    rw [eval_lastTimestamp]
    unfold lastSeen
    rcases mem_append.1 hj with hj | hj
    · split_ifs
      · exact hle j hj a (mem_singleton_self a)
      · exact ih j hj hdata
    · rw [mem_singleton.1 hj] at hdata ⊢
      rw [if_pos hdata]

omit [Float64 V] in
/-- The duration is the minutes exactly as long as they are fewer than `2 ^ 63` nanoseconds, and less beyond. -/
theorem absentDuration_eq (h : absentMinutes r < 2 ^ 63) : absentDuration r = absentMinutes r := by
  have hnonneg : 0 ≤ absentMinutes r := Int.mul_nonneg (Int.natCast_nonneg _) (by decide)
  have hbmod : absentDuration r = (absentMinutes r).bmod (2 ^ 64) := rfl
  rw [hbmod, Int.bmod_eq_of_le (by omega) (by omega)]

omit [Float64 V] in
theorem absentDuration_lt (h : ¬ absentMinutes r < 2 ^ 63) : absentDuration r < absentMinutes r := by
  have hlt : absentDuration r < (2 ^ 64 + 1) / 2 := Int.bmod_lt (by decide)
  omega

def evalOf (ts : Int) (series : List (TimeSeries V)) : EvalInput V :=
  { ts, query := some (some series), groupBys := none, firstSeen := none, order := .asStored }

def emptySeries : TimeSeries V := { labels := [], values := [] }

omit [Float64 V] in
theorem evalOf_ts (ts : Int) (series : List (TimeSeries V)) : (evalOf ts series).ts = ts := rfl

omit [Float64 V] in
theorem evalOf_hadData (ts : Int) (series : List (TimeSeries V)) : (evalOf ts series).hadData = !series.isEmpty := by
  cases series <;> rfl

theorem missingDataAlert_evalOf {s : RuleState V} {ts : Int} {series : List (TimeSeries V)} :
    missingDataAlert W r s (evalOf ts series) ≠ none ↔
      r.alertOnAbsent = true ∧ lastSeen s ts (!series.isEmpty) + absentDuration r ≤ ts := by
  rw [missingDataAlert_iff, evalOf_hadData]
  simp [evalOf]

omit [Float64 V] in
theorem absentMinutes_pos (h : 0 < r.absentFor) : 0 < absentMinutes r :=
  Int.mul_pos (Int.natCast_pos.2 h) (by decide)

/-- **A rule alerts for missing data only when data is missing, and long enough, exactly when `AbsentFor` is at least one
minute and fits a `time.Duration`**, unless it does not alert for missing data at all. -/
theorem absent_alerts_iff :
    (∀ (past : List (EvalInput V)) (i : EvalInput V), (past ++ [i]).Pairwise (fun a b => a.ts ≤ b.ts) →
      AlertsWhenAbsent W r past (final (eval W r) (RuleState.init V) past) i) ↔
    (r.alertOnAbsent = true → 0 < r.absentFor ∧ absentMinutes r < 2 ^ 63) := by
  constructor
  · intro h habsent
    have hpositive : 0 < absentDuration r := by
      by_contra hle
      have hone := h [] (evalOf 0 [emptySeries]) (pairwise_singleton _ _)
      have halert : missingDataAlert W r (RuleState.init V) (evalOf 0 [emptySeries]) ≠ none := by
        refine (missingDataAlert_evalOf W r).2 ⟨habsent, ?_⟩
        rw [isEmpty_cons, Bool.not_false, lastSeen, if_pos rfl]
        omega
      exact absurd (hone.noData halert) (by rw [evalOf_hadData]; exact Bool.true_eq_false.mp)
    have hexact : absentMinutes r ≤ absentDuration r := by
      have htwo := h [evalOf 0 [emptySeries]] (evalOf (absentDuration r) []) (by
        rw [singleton_append, pairwise_pair, evalOf_ts, evalOf_ts]
        exact hpositive.le)
      have halert : missingDataAlert W r (final (eval W r) (RuleState.init V) [evalOf 0 [emptySeries]])
          (evalOf (absentDuration r) []) ≠ none := by
        refine (missingDataAlert_evalOf W r).2 ⟨habsent, ?_⟩
        rw [isEmpty_nil, Bool.not_true, lastSeen, if_neg Bool.false_ne_true, final_cons, final_nil,
          eval_lastTimestamp, evalOf_hadData, isEmpty_cons, Bool.not_false, lastSeen, if_pos rfl]
        exact (Int.zero_add _).le
      have hwait := htwo.waited halert _ (mem_singleton_self _) (by rw [evalOf_hadData]; rfl)
      rwa [evalOf_ts, evalOf_ts, Int.sub_zero] at hwait
    have hfits : absentMinutes r < 2 ^ 63 := by
      by_contra hover
      have := absentDuration_lt r hover
      omega
    refine ⟨Nat.pos_of_ne_zero (fun hzero => ?_), hfits⟩
    rw [absentDuration_eq r hfits, absentMinutes, hzero] at hpositive
    exact absurd hpositive (by decide)
  · intro hcond past i hp
    have halert := missingDataAlert_iff W r (final (eval W r) (RuleState.init V) past) i
    have hnoData : missingDataAlert W r (final (eval W r) (RuleState.init V) past) i ≠ none → i.hadData = false := by
      intro hsome
      obtain ⟨-, habsent, hle⟩ := halert.1 hsome
      obtain ⟨hpos, hfits⟩ := hcond habsent
      rw [absentDuration_eq r hfits] at hle
      by_contra hdata
      rw [Bool.not_eq_false] at hdata
      rw [lastSeen, if_pos hdata] at hle
      have := absentMinutes_pos r hpos
      omega
    refine ⟨hnoData, fun hsome j hj hdata => ?_, fun hdata => ?_⟩
    · obtain ⟨-, habsent, hle⟩ := halert.1 hsome
      have hseen := le_lastTimestamp W r (pairwise_append.1 hp).1 j hj hdata
      rw [absentDuration_eq r (hcond habsent).2, lastSeen, hnoData hsome, if_neg Bool.false_ne_true] at hle
      omega
    · refine buildAndRunQuery_of_none W r hdata ?_
      by_contra hsome
      exact absurd (hdata.symm.trans (hnoData hsome)) (by decide)

/-! ## A rule that alerts after no minutes -/

/-- The pod's value breaches the threshold, and the rule reports missing data in its place. -/
theorem breach_discarded : ¬ AlertsWhenAbsent plainWorld { cpuRule .threshold with alertOnAbsent := true, absentFor := 0 }
    [] (RuleState.init Int) (evalAt 0 [("pod", "a")] 10) := by
  intro h
  have hdata := h.noData (by decide)
  revert hdata
  decide

end Rules
end DsApm
