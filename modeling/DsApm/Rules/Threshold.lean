import DsApm.Rules.Labels
/-!
# Threshold — one series against the thresholds of a rule

`BasicRuleThresholds.Eval`.  Values are of any type `V` with the operations of `float64`; the fingerprint of a label set,
unit conversion, value formatting and template expansion are the parameters `World`.
-/
namespace DsApm
namespace Rules

open Latest

/-- What the rules use of `float64` and of `math`. -/
class Float64 (V : Type) where
  lt : V → V → Bool
  le : V → V → Bool
  eq : V → V → Bool
  add : V → V → V
  sub : V → V → V
  mul : V → V → V
  div : V → V → V
  abs : V → V
  sqrt : V → V
  isNaN : V → Bool
  isInf : V → Bool
  inf : V
  negInf : V
  zero : V
  ofNat : Nat → V

/-- Code that the evaluation calls and that decides no state. -/
structure World (V : Type) where
  /-- `Labels.Hash`, an `xxhash` of the names and values. -/
  hash : Labels → Nat
  /-- `strings.ToLower`. -/
  lower : String → String
  /-- The converter of the first unit, from it to the second. -/
  convert : V → String → String → V
  /-- The formatter of the first unit, on a value in the second. -/
  format : String → V → String → String
  /-- A text with the rule's name and annotations, a sample's labels, its value and its target filled in. -/
  expand : String → Labels → Labels → String → String → String → String
  /-- A time in `AlertTimeFormat`. -/
  formatTime : Int → String

inductive CompareOperator where
  | valueIsAbove | valueIsBelow | valueIsEq | valueIsNotEq | valueAboveOrEq | valueBelowOrEq | valueOutsideBounds
  deriving DecidableEq, Repr

inductive MatchType where
  | atleastOnce | allTheTimes | onAverage | inTotal | last
  deriving DecidableEq, Repr

structure TimeSeriesValue (V : Type) where
  timestamp : Int
  value : V
  isPartial : Bool := false
  deriving DecidableEq, Repr

/-- Label values as `fmt.Sprint` prints them. -/
structure TimeSeries (V : Type) where
  labels : Labels
  values : List (TimeSeriesValue V)
  deriving DecidableEq, Repr

/-- A threshold that `Validate` accepts: the operator and the match type are normalised, the target is set. -/
structure BasicRuleThreshold (V : Type) where
  name : String
  targetValue : V
  targetUnit : String
  recoveryTarget : Option V
  matchType : MatchType
  compareOperator : CompareOperator
  channels : List String
  deriving DecidableEq, Repr

structure Sample (V : Type) where
  t : Int := 0
  v : V
  metric : Labels
  isMissing : Bool := false
  isRecovering : Bool := false
  target : V
  recoveryTarget : Option V := none
  targetUnit : String := ""
  deriving DecidableEq, Repr

structure EvalData where
  activeAlerts : List Nat
  sendUnmatched : Bool

def EvalData.hasActiveAlert (e : EvalData) (sampleLabelFp : Nat) : Bool := e.activeAlerts.contains sampleLabelFp

section
variable {V : Type} [Float64 V] (W : World V)

def finite (v : V) : Bool := !Float64.isNaN v && !Float64.isInf v

def TimeSeries.evaluableValues (s : TimeSeries V) : List (TimeSeriesValue V) :=
  s.values.filter (fun v => !v.isPartial && finite v.value)

omit [Float64 V] in
def prepareSampleLabelsForRule (seriesLabels : Labels) (thresholdName : String) : Labels :=
  ((((newBuilder []).setAll seriesLabels).set labelThresholdName thresholdName).set labelSeverityName
    (W.lower thresholdName)).labels

def matchesCompareOp (op : CompareOperator) (value target : V) : Bool :=
  match op with
  | .valueIsAbove => Float64.lt target value
  | .valueIsBelow => Float64.lt value target
  | .valueIsEq => Float64.eq value target
  | .valueIsNotEq => !Float64.eq value target
  | .valueAboveOrEq => Float64.le target value
  | .valueBelowOrEq => Float64.le value target
  | .valueOutsideBounds => Float64.le target (Float64.abs value)

def minValue (vs : List V) : V := vs.foldl (fun m v => if Float64.lt v m then v else m) Float64.inf

def maxValue (vs : List V) : V := vs.foldl (fun m v => if Float64.lt m v then v else m) Float64.negInf

def sumValues (vs : List V) : V := (vs.filter finite).foldl Float64.add Float64.zero

/-- `float64` counts: one added for each value. -/
def countValues (vs : List V) : V := (vs.filter finite).foldl (fun n _ => Float64.add n (Float64.ofNat 1)) Float64.zero

/-- The value of the alert's sample, where the values meet the target; no caller reads the sample of a miss. -/
def BasicRuleThreshold.shouldAlertWithTarget (b : BasicRuleThreshold V) (values : List (TimeSeriesValue V)) (target : V) :
    Option V :=
  let vs := values.map TimeSeriesValue.value
  let op := b.compareOperator
  if vs.isEmpty then none
  else match b.matchType with
    | .atleastOnce => vs.find? (fun v => matchesCompareOp op v target)
    | .allTheTimes =>
      if vs.all (fun v => matchesCompareOp op v target) then
        some (match op with
          | .valueIsAbove | .valueAboveOrEq | .valueOutsideBounds => minValue vs
          | .valueIsBelow | .valueBelowOrEq => maxValue vs
          | .valueIsNotEq => (vs.find? finite).getD target
          | .valueIsEq => target)
      else none
    | .onAverage =>
      let avg := Float64.div (sumValues vs) (countValues vs)
      if matchesCompareOp op avg target then some avg else none
    | .inTotal => if matchesCompareOp op (sumValues vs) target then some (sumValues vs) else none
    | .last => vs.getLast?.filter (fun v => matchesCompareOp op v target)

def BasicRuleThreshold.shouldAlert (b : BasicRuleThreshold V) (values : List (TimeSeriesValue V)) (ruleUnit : String) :
    Option V :=
  b.shouldAlertWithTarget values (W.convert b.targetValue b.targetUnit ruleUnit)

def BasicRuleThreshold.matchesRecoveryThreshold (b : BasicRuleThreshold V) (recoveryTarget : V)
    (values : List (TimeSeriesValue V)) (ruleUnit : String) : Option V :=
  b.shouldAlertWithTarget values (W.convert recoveryTarget b.targetUnit ruleUnit)

def BasicRuleThreshold.sample (b : BasicRuleThreshold V) (seriesLabels : Labels) (v : V) : Sample V :=
  { v, metric := prepareSampleLabelsForRule W seriesLabels b.name, target := b.targetValue
    recoveryTarget := b.recoveryTarget, targetUnit := b.targetUnit }

/-- The body of the loop of `BasicRuleThresholds.Eval`: `series` holds the evaluable values. -/
def BasicRuleThreshold.eval (b : BasicRuleThreshold V) (series : TimeSeries V) (unit : String) (evalData : EvalData) :
    Option (Sample V) :=
  match b.shouldAlert W series.values unit with
  | some v => some (b.sample W series.labels v)
  | none =>
    if evalData.sendUnmatched then
      series.values.head?.map (fun p => { b.sample W series.labels p.value with t := p.timestamp })
    else match b.recoveryTarget with
      | none => none
      | some recoveryTarget =>
        if evalData.hasActiveAlert (W.hash (prepareSampleLabelsForRule W series.labels b.name)) then
          (b.matchesRecoveryThreshold W recoveryTarget series.values unit).map (fun v =>
            { b.sample W series.labels v with isRecovering := true })
        else none

/-- `BasicRuleThresholds.Eval`; `order` is what `sort.Slice` makes of the thresholds. -/
def evalThresholds (order : Visit (BasicRuleThreshold V)) (thresholds : List (BasicRuleThreshold V)) (s : TimeSeries V)
    (unit : String) (evalData : EvalData) : List (Sample V) :=
  let series := { s with values := s.evaluableValues }
  (order.order thresholds).filterMap (fun b => b.eval W series unit evalData)

structure RuleReceivers where
  name : String
  channels : List String

def getRuleReceivers (order : Visit (BasicRuleThreshold V)) (thresholds : List (BasicRuleThreshold V)) :
    List RuleReceivers :=
  (order.order thresholds).map (fun b => { name := b.name, channels := b.channels })

/-- The channels under a threshold's name: the last one written into the map. -/
def ruleReceiverMap (receivers : List RuleReceivers) (name : String) : List String :=
  ((receivers.reverse.find? (fun r => r.name == name)).map RuleReceivers.channels).getD []

end

/-! ## The labels of a sample -/

section
variable {V : Type} (W : World V)

theorem prepareSampleLabels_eq (ls : Labels) (name : String) :
    prepareSampleLabelsForRule W ls name = sortLabels (setLabel (setLabel ((newBuilder []).setAll ls).add labelThresholdName
      name) labelSeverityName (W.lower name)) := by
  unfold prepareSampleLabelsForRule
  rw [labels_of_base_nil (by simp [Builder.set, newBuilder])]
  rfl

theorem mem_names_prepareSampleLabels {ls : Labels} {name n : String} :
    n ∈ (prepareSampleLabelsForRule W ls name).map Prod.fst ↔
      n ∈ ls.map Prod.fst ∨ n = labelThresholdName ∨ n = labelSeverityName := by
  rw [prepareSampleLabels_eq, sortLabels, ((sortBy_perm Prod.fst _).map Prod.fst).mem_iff, mem_names_setLabel,
    mem_names_setLabel, mem_names_setAll]
  simp only [newBuilder, List.map_nil, List.not_mem_nil, or_false]
  tauto

end

/-- Why a threshold gives a sample: its target is met, unmatched series are asked for, or its recovery target is met while
the alert's fingerprint is among the active ones. -/
theorem eval_eq_some {V : Type} [Float64 V] {W : World V} {b : BasicRuleThreshold V} {series : TimeSeries V} {unit : String}
    {evalData : EvalData} {smpl : Sample V} (h : b.eval W series unit evalData = some smpl) :
    (∃ v, b.shouldAlert W series.values unit = some v ∧ smpl = b.sample W series.labels v) ∨
    (b.shouldAlert W series.values unit = none ∧ evalData.sendUnmatched = true) ∨
    (b.shouldAlert W series.values unit = none ∧ ∃ recoveryTarget v, b.recoveryTarget = some recoveryTarget ∧
      evalData.hasActiveAlert (W.hash (prepareSampleLabelsForRule W series.labels b.name)) = true ∧
      b.matchesRecoveryThreshold W recoveryTarget series.values unit = some v ∧
      smpl = { b.sample W series.labels v with isRecovering := true }) := by
  unfold BasicRuleThreshold.eval at h
  cases hshould : b.shouldAlert W series.values unit with
  | some v =>
    rw [hshould] at h
    exact .inl ⟨v, rfl, (Option.some.inj h).symm⟩
  | none =>
    rw [hshould] at h
    simp only at h
    by_cases hsend : evalData.sendUnmatched = true
    · exact .inr (.inl ⟨rfl, hsend⟩)
    · rw [if_neg hsend] at h
      refine .inr (.inr ⟨rfl, ?_⟩)
      cases hrec : b.recoveryTarget with
      | none => rw [hrec] at h; cases h
      | some recoveryTarget =>
        rw [hrec] at h
        simp only at h
        split_ifs at h with hactive
        obtain ⟨v, hv, hsmpl⟩ := Option.map_eq_some_iff.1 h
        exact ⟨recoveryTarget, v, rfl, hactive, hv, hsmpl.symm⟩

end Rules
end DsApm
