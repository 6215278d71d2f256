import DsApm.Lib.GoMap
import DsApm.Lib.StepRun
import DsApm.Rules.Threshold
import DsApm.Schedule.Maintenance
/-!
# Eval — one evaluation of a rule

`Eval` of the threshold, the prom and the anomaly rule: the query's series become samples, the samples become alerts
under the fingerprint of their labels, the alerts are merged into `Active`, and every entry of `Active` is settled by
whether this evaluation has its fingerprint.  The three rules differ in the names they drop from a sample's labels, in
the scoring and the extra label of the anomaly rule, and in the value of a resolved item of the prom rule.

Annotations, links, receivers' generator, health and logs decide nothing here and are left out.
-/
namespace DsApm
namespace Rules

open Latest StepRun GoMap
open Schedule (zeroTime)

inductive RuleKind where
  | threshold | prom | anomaly
  deriving DecidableEq, Repr

inductive AlertState where
  | inactive | pending | recovering | firing | noData | disabled
  deriving DecidableEq, Repr

def AlertState.severity : AlertState → Nat
  | .inactive => 0
  | .pending => 1
  | .recovering => 2
  | .firing => 3
  | .noData => 4
  | .disabled => 5

structure Alert (V : Type) where
  state : AlertState
  labels : Labels
  queryResultLabels : Labels
  receivers : List String
  value : V
  activeAt : Int
  firedAt : Int := zeroTime
  resolvedAt : Int := zeroTime
  lastSentAt : Int := zeroTime
  validUntil : Int := zeroTime
  missing : Bool
  isRecovering : Bool
  deriving DecidableEq, Repr

structure RuleStateHistory (V : Type) where
  ruleID : String
  ruleName : String
  overallState : AlertState
  overallStateChanged : Bool
  state : AlertState
  stateChanged : Bool
  unixMilli : Int
  labels : Labels
  fingerprint : Nat
  value : V
  deriving DecidableEq, Repr

/-- A rule as its task holds it.  `labels` and `annotations` are label sets of distinct names; no option sets
`holdDuration`, so it is zero. -/
structure Rule (V : Type) where
  kind : RuleKind
  id : String
  name : String
  generatorURL : String
  labels : Labels
  annotations : Labels
  thresholds : List (BasicRuleThreshold V)
  unit : String
  sendUnmatched : Bool
  alertOnAbsent : Bool
  absentFor : Nat
  requireMinPoints : Bool
  requiredNumPoints : Int
  newGroupEvalDelay : Int

def holdDuration : Int := 0

def resolvedRetention : Int := 15 * Calendar.minute

structure MetricMetadataLookupKey where
  metricName : String
  attributeName : String
  attributeValue : String
  deriving DecidableEq, Repr

/-- What one evaluation reads from outside.  `query` is nothing when the query fails; its result is nothing when the
selected query has no aggregation.  `groupBys` and `firstSeen` are the query parser's and the metadata store's answers,
`order` is what `sort.Slice` makes of the thresholds. -/
structure EvalInput (V : Type) where
  ts : Int
  query : Option (Option (List (TimeSeries V)))
  groupBys : Option (List (String × List String))
  firstSeen : Option (MetricMetadataLookupKey → Option Int)
  order : Visit (BasicRuleThreshold V)

structure RuleState (V : Type) where
  active : GoMap Nat (Alert V)
  lastTimestampWithDatapoints : Int

def RuleState.init (V : Type) : RuleState V := { active := ∅, lastTimestampWithDatapoints := zeroTime }

variable {V : Type} [Float64 V] (W : World V) (r : Rule V)

/-! ## Series to samples -/

def lookupKeys (groupBys : List (String × List String)) (s : TimeSeries V) : List MetricMetadataLookupKey :=
  groupBys.flatMap (fun g => g.2.filterMap (fun key =>
    (s.labels.find? (fun l => l.1 == key)).map (fun l =>
      { metricName := g.1, attributeName := key, attributeValue := l.2 })))

/-- A series whose latest first-seen time of a grouping attribute, if any is known, lies the delay back. -/
def oldEnough (ts delay : Int) (groupBys : List (String × List String)) (firstSeen : MetricMetadataLookupKey → Option Int)
    (s : TimeSeries V) : Bool :=
  match (lookupKeys groupBys s).filterMap firstSeen with
  | [] => true
  | seen => !decide (ts / 1000000 < seen.foldl max 0 + delay / 1000000)

def filterNewSeries (i : EvalInput V) (series : List (TimeSeries V)) : Option (List (TimeSeries V)) :=
  match i.groupBys with
  | none => none
  | some groupBys =>
    if series.flatMap (lookupKeys groupBys) = [] then some series
    else i.firstSeen.map (fun firstSeen => series.filter (oldEnough i.ts r.newGroupEvalDelay groupBys firstSeen))

def shouldEval (s : TimeSeries V) : Bool := !r.requireMinPoints || decide (r.requiredNumPoints ≤ s.values.length)

structure Baseline (V : Type) where
  mean : V
  stdDev : V

def computeBaseline (values : List V) : Baseline V :=
  let vs := values.filter finite
  let n := vs.length
  if n = 0 then { mean := Float64.zero, stdDev := Float64.zero }
  else
    let mean := Float64.div (vs.foldl Float64.add Float64.zero) (Float64.ofNat n)
    if n < 2 then { mean, stdDev := Float64.zero }
    else
      let sumSq := vs.foldl (fun acc v => Float64.add acc (Float64.mul (Float64.sub v mean) (Float64.sub v mean)))
        Float64.zero
      { mean, stdDev := Float64.sqrt (Float64.div sumSq (Float64.ofNat n)) }

def Baseline.zScore (b : Baseline V) (v : V) : V :=
  if Float64.eq b.stdDev Float64.zero then Float64.zero else Float64.div (Float64.sub v b.mean) b.stdDev

def scoreSeries (s : TimeSeries V) : Option (TimeSeries V) :=
  match s.evaluableValues.reverse with
  | observed :: p :: rest =>
    let baseline := computeBaseline (((p :: rest).reverse).map TimeSeriesValue.value)
    some { labels := s.labels, values := [{ timestamp := observed.timestamp, value := baseline.zScore observed.value }] }
  | _ => none

def seriesToEval (i : EvalInput V) (series : List (TimeSeries V)) : List (TimeSeries V) :=
  let kept := if 0 < r.newGroupEvalDelay then (filterNewSeries r i series).getD series else series
  let enough := kept.filter (shouldEval r)
  match r.kind with
  | .anomaly => enough.filterMap scoreSeries
  | _ => enough

/-- `time.Duration(AbsentFor) * time.Minute`, in 64 bits. -/
def absentDuration : Int := (Int.ofNat r.absentFor * Calendar.minute).bmod (2 ^ 64)

def handleMissingDataAlert (s : RuleState V) (ts : Int) (hasData : Bool) : RuleState V × Option (Sample V) :=
  let s := if hasData then { s with lastTimestampWithDatapoints := ts } else s
  if !r.alertOnAbsent || decide (ts < s.lastTimestampWithDatapoints + absentDuration r) then (s, none)
  else
    let lbls := if s.lastTimestampWithDatapoints ≠ zeroTime then
      (newBuilder []).set labelLastSeen (W.formatTime s.lastTimestampWithDatapoints) else newBuilder []
    (s, some { v := Float64.zero, metric := lbls.labels, isMissing := true, target := Float64.zero })

def activeAlertsLabelFP (active : GoMap Nat (Alert V)) : List Nat :=
  (values active).map (fun a => W.hash a.queryResultLabels)

def hasData : Option (List (TimeSeries V)) → Bool
  | some (_ :: _) => true
  | _ => false

def buildAndRunQuery (s : RuleState V) (i : EvalInput V) : RuleState V × Option (List (Sample V)) :=
  match i.query with
  | none => (s, none)
  | some result =>
    match handleMissingDataAlert W r s i.ts (hasData result) with
    | (s', some missingDataAlert) => (s', some [missingDataAlert])
    | (s', none) =>
      (s', some ((seriesToEval r i (result.getD [])).flatMap (fun series =>
        evalThresholds W i.order r.thresholds series r.unit
          { activeAlerts := activeAlertsLabelFP W s.active, sendUnmatched := r.sendUnmatched })))

/-! ## Samples to alerts -/

def droppedNames : RuleKind → List String
  | .threshold => [metricNameLabel, temporalityLabel]
  | .prom => [metricNameLabel]
  | .anomaly => [metricNameLabel, temporalityLabel]

def resultLabels (kind : RuleKind) (metric : Labels) : Labels :=
  ((droppedNames kind).foldl Builder.delete (newBuilder metric)).labels

/-- The labels of a sample's alert.  The rule's labels are of distinct names, so the order they are set in is of no
consequence. -/
def alertLabels (smpl : Sample V) : Labels :=
  let value := W.format r.unit smpl.v r.unit
  let threshold := W.format r.unit smpl.target smpl.targetUnit
  let expand := W.expand r.name r.annotations smpl.metric value threshold
  let lb := (droppedNames r.kind).foldl Builder.delete (newBuilder smpl.metric)
  let lb := lb.setAll (r.labels.map (fun l => (l.1, expand l.2)))
  let lb := ((lb.set alertNameLabel r.name).set alertRuleIDLabel r.id).set ruleSourceLabel r.generatorURL
  let lb := if r.kind = .anomaly then lb.set "anomaly" "true" else lb
  let lb := if smpl.isMissing then (lb.set alertNameLabel ("[No data] " ++ r.name)).set noDataLabel "true" else lb
  lb.labels

def fingerprint (smpl : Sample V) : Nat := W.hash (alertLabels W r smpl)

def newAlert (receivers : List RuleReceivers) (ts : Int) (smpl : Sample V) : Alert V :=
  let lbs := alertLabels W r smpl
  { state := .pending, labels := lbs, queryResultLabels := resultLabels r.kind smpl.metric
    receivers := ruleReceiverMap receivers ((labelValue lbs labelThresholdName).getD ""), value := smpl.v, activeAt := ts
    missing := smpl.isMissing, isRecovering := smpl.isRecovering }

/-- The alerts of the samples; nothing where two samples have one fingerprint. -/
def newAlerts (receivers : List RuleReceivers) (ts : Int) (samples : List (Sample V)) : Option (List (Nat × Alert V)) :=
  if (samples.map (fingerprint W r)).Nodup then
    some (samples.map (fun smpl => (fingerprint W r smpl, newAlert W r receivers ts smpl)))
  else none

/-! ## Alerts into Active -/

/-- An alert over what `Active` holds under its fingerprint: one that is not inactive goes on. -/
def mergeAlert (receivers : List RuleReceivers) (a : Alert V) : Option (Alert V) → Alert V
  | none => a
  | some alert =>
    if alert.state ≠ .inactive then
      { alert with
        value := a.value, isRecovering := a.isRecovering, missing := a.missing
        receivers := match labelValue alert.labels labelThresholdName with
          | some v => ruleReceiverMap receivers v
          | none => alert.receivers }
    else a

def settleMissed (ts : Int) (a : Alert V) : Option (Alert V) :=
  if a.state = .pending ∨ (a.resolvedAt ≠ zeroTime ∧ resolvedRetention < ts - a.resolvedAt) then none
  else if a.state ≠ .inactive then some { a with state := .inactive, resolvedAt := ts }
  else some a

def firesNow (ts : Int) (a : Alert V) : Bool := decide (a.state = .pending ∧ holdDuration ≤ ts - a.activeAt)

def fire (ts : Int) (a : Alert V) : Alert V := if firesNow ts a then { a with state := .firing, firedAt := ts } else a

def changeAlertingToRecovering (a : Alert V) : Bool := decide (a.state = .firing) && a.isRecovering

def changeRecoveringToFiring (a : Alert V) : Bool := decide (a.state = .recovering) && !a.isRecovering && !a.missing

def turn (a : Alert V) : Alert V :=
  if changeRecoveringToFiring a then { a with state := .firing }
  else if changeAlertingToRecovering a then { a with state := .recovering }
  else a

def settle (resultFPs : List Nat) (ts : Int) (fp : Nat) (a : Alert V) : Option (Alert V) :=
  if fp ∈ resultFPs then some (turn (fire ts a)) else settleMissed ts a

def changes (resultFPs : List Nat) (ts : Int) (fp : Nat) (a : Alert V) : List (AlertState × V) :=
  if fp ∈ resultFPs then
    (if firesNow ts a then [(if a.missing then .noData else .firing, a.value)] else []) ++
    (if changeRecoveringToFiring (fire ts a) then [(.firing, a.value)]
      else if changeAlertingToRecovering (fire ts a) then [(.recovering, a.value)] else [])
  else if a.state ≠ .inactive then [(.inactive, if r.kind = .prom then Float64.zero else a.value)]
  else []

def overallState (active : GoMap Nat (Alert V)) : AlertState :=
  (values active).foldl (fun m a => if m.severity < a.state.severity then a.state else m) .inactive

def itemsToAdd (prevState : AlertState) (resultFPs : List Nat) (ts : Int) (before after : GoMap Nat (Alert V)) :
    List (RuleStateHistory V) :=
  before.entries.flatMap (fun e => (changes r resultFPs ts e.1 e.2).map (fun c =>
    { ruleID := r.id, ruleName := r.name, overallState := overallState after
      overallStateChanged := decide (overallState after ≠ prevState), state := c.1, stateChanged := true
      unixMilli := ts / 1000000, labels := e.2.queryResultLabels, fingerprint := W.hash e.2.queryResultLabels
      value := c.2 }))

/-- **One evaluation**: the number of entries and the history items, or nothing on an error. -/
def eval (s : RuleState V) (i : EvalInput V) : RuleState V × Option (Nat × List (RuleStateHistory V)) :=
  match buildAndRunQuery W r s i with
  | (s', none) => (s', none)
  | (s', some samples) =>
    let receivers := getRuleReceivers i.order r.thresholds
    match newAlerts W r receivers i.ts samples with
    | none => (s', none)
    | some alerts =>
      let resultFPs := alerts.map Prod.fst
      let active := alerts.foldl (fun m e => put (mergeAlert receivers e.2) m e.1) s'.active
      let after := filterMapVal (settle resultFPs i.ts) active
      ({ s' with active := after },
        some (after.entries.length, itemsToAdd W r (overallState s.active) resultFPs i.ts active after))

/-! ## The labels of an alert -/

theorem foldl_delete_newBuilder (ls : Labels) (k : RuleKind) :
    (droppedNames k).foldl Builder.delete (newBuilder ls) = { base := ls, del := droppedNames k, add := [] } :=
  foldl_delete ls (droppedNames k) []

omit [Float64 V] in
theorem alertLabels_ruleID (smpl : Sample V) : (alertRuleIDLabel, r.id) ∈ alertLabels W r smpl := by
  have hsource : alertRuleIDLabel ≠ ruleSourceLabel := by decide
  have hanomaly : alertRuleIDLabel ≠ "anomaly" := by decide
  have hname : alertRuleIDLabel ≠ alertNameLabel := by decide
  have hnoData : alertRuleIDLabel ≠ noDataLabel := by decide
  refine mem_labels_of_add ?_
  generalize ((droppedNames r.kind).foldl Builder.delete (newBuilder smpl.metric)).setAll _ = lb
  have hset : (alertRuleIDLabel, r.id) ∈
      (((lb.set alertNameLabel r.name).set alertRuleIDLabel r.id).set ruleSourceLabel r.generatorURL).add :=
    mem_setLabel_of_ne (mem_setLabel_self _ _ _) hsource _
  generalize ((lb.set alertNameLabel r.name).set alertRuleIDLabel r.id).set ruleSourceLabel r.generatorURL = lb at hset
  have hkind : (alertRuleIDLabel, r.id) ∈ (if r.kind = .anomaly then lb.set "anomaly" "true" else lb).add := by
    split
    · exact mem_setLabel_of_ne hset hanomaly _
    · exact hset
  split
  · exact mem_setLabel_of_ne (mem_setLabel_of_ne hkind hname _) hnoData _
  · exact hkind

omit [Float64 V] in
theorem alertLabels_noData {smpl : Sample V} (h : smpl.isMissing = true) :
    noDataLabel ∈ (alertLabels W r smpl).map Prod.fst := by
  refine List.mem_map.2 ⟨(noDataLabel, "true"), mem_labels_of_add ?_, rfl⟩
  simp only [h, if_true]
  exact mem_setLabel_self _ _ _

omit [Float64 V] in
theorem mem_names_alertLabels {smpl : Sample V} {n : String} (h : n ∈ smpl.metric.map Prod.fst)
    (hkept : n ∉ droppedNames r.kind) : n ∈ (alertLabels W r smpl).map Prod.fst := by
  unfold alertLabels
  simp only [foldl_delete_newBuilder]
  refine mem_names_labels_of_base ?_ ?_
  · split_ifs <;> simpa [Builder.set] using h
  · split_ifs <;> simpa [Builder.set] using hkept

/-! ## What an evaluation leaves under a fingerprint -/

theorem handleMissingDataAlert_active (s : RuleState V) (ts : Int) (has : Bool) :
    (handleMissingDataAlert W r s ts has).1.active = s.active := by
  unfold handleMissingDataAlert
  cases has <;> simp only [Bool.false_eq_true, if_false, if_true] <;> split_ifs <;> rfl

theorem handleMissingDataAlert_isMissing {W : World V} {r : Rule V} {s s' : RuleState V} {ts : Int} {has : Bool}
    {smpl : Sample V} (h : handleMissingDataAlert W r s ts has = (s', some smpl)) : smpl.isMissing = true := by
  unfold handleMissingDataAlert at h
  simp only at h
  split_ifs at h <;> cases h <;> rfl

theorem buildAndRunQuery_active (s : RuleState V) (i : EvalInput V) : (buildAndRunQuery W r s i).1.active = s.active := by
  unfold buildAndRunQuery
  cases i.query with
  | none => rfl
  | some result =>
    have h := handleMissingDataAlert_active W r s i.ts (hasData result)
    simp only
    revert h
    cases handleMissingDataAlert W r s i.ts (hasData result) with
    | mk s' missing => cases missing <;> exact id

theorem eval_failed {s : RuleState V} {i : EvalInput V}
    (h : ∀ samples, (buildAndRunQuery W r s i).2 = some samples → ¬ (samples.map (fingerprint W r)).Nodup) :
    (eval W r s i).1.active = s.active := by
  have hactive := buildAndRunQuery_active W r s i
  unfold eval
  revert h hactive
  cases buildAndRunQuery W r s i with
  | mk s' answer =>
    intro h hactive
    cases answer with
    | none => exact hactive
    | some samples =>
      have hdup : newAlerts W r (getRuleReceivers i.order r.thresholds) i.ts samples = none := if_neg (h samples rfl)
      simp only [hdup]
      exact hactive

section
variable {W r} {s : RuleState V} {i : EvalInput V} {samples : List (Sample V)}

theorem eval_succeeded {out : Nat × List (RuleStateHistory V)} (h : (eval W r s i).2 = some out) :
    ∃ samples, (buildAndRunQuery W r s i).2 = some samples ∧ (samples.map (fingerprint W r)).Nodup := by
  unfold eval at h
  revert h
  cases buildAndRunQuery W r s i with
  | mk s' answer =>
    intro h
    cases answer with
    | none => cases h
    | some samples =>
      refine ⟨samples, rfl, ?_⟩
      by_contra hdup
      have hnone : newAlerts W r (getRuleReceivers i.order r.thresholds) i.ts samples = none := if_neg hdup
      simp only [hnone] at h
      cases h

theorem eval_active (hq : (buildAndRunQuery W r s i).2 = some samples) (hnd : (samples.map (fingerprint W r)).Nodup) :
    (eval W r s i).1.active =
      filterMapVal (settle (samples.map (fingerprint W r)) i.ts)
        ((samples.map (fun smpl => (fingerprint W r smpl,
          newAlert W r (getRuleReceivers i.order r.thresholds) i.ts smpl))).foldl
          (fun m e => put (mergeAlert (getRuleReceivers i.order r.thresholds) e.2) m e.1) s.active) := by
  have hactive := buildAndRunQuery_active W r s i
  unfold eval
  revert hq hactive
  cases buildAndRunQuery W r s i with
  | mk s' answer =>
    rintro rfl hactive
    simp only [newAlerts, if_pos hnd, List.map_map, Function.comp_def]
    rw [← hactive]

theorem lookup_eval_of_mem (hq : (buildAndRunQuery W r s i).2 = some samples)
    (hnd : (samples.map (fingerprint W r)).Nodup) {smpl : Sample V} (hs : smpl ∈ samples) :
    (eval W r s i).1.active.lookup (fingerprint W r smpl) =
      some (turn (fire i.ts (mergeAlert (getRuleReceivers i.order r.thresholds)
        (newAlert W r (getRuleReceivers i.order r.thresholds) i.ts smpl) (s.active.lookup (fingerprint W r smpl))))) := by
  have hin : fingerprint W r smpl ∈ samples.map (fingerprint W r) := List.mem_map_of_mem hs
  have hkeys : ((samples.map (fun smpl => (fingerprint W r smpl,
      newAlert W r (getRuleReceivers i.order r.thresholds) i.ts smpl))).map Prod.fst).Nodup := by
    rwa [List.map_map]
  rw [eval_active hq hnd, lookup_filterMapVal, lookup_foldl_put_of_mem _ _ _ hkeys (List.mem_map_of_mem hs),
    Option.bind_some, settle, if_pos hin]

theorem lookup_eval_of_not_mem (hq : (buildAndRunQuery W r s i).2 = some samples)
    (hnd : (samples.map (fingerprint W r)).Nodup) {fp : Nat} (hfp : fp ∉ samples.map (fingerprint W r)) :
    (eval W r s i).1.active.lookup fp = (s.active.lookup fp).bind (settleMissed i.ts) := by
  have hkeys : fp ∉ (samples.map (fun smpl => (fingerprint W r smpl,
      newAlert W r (getRuleReceivers i.order r.thresholds) i.ts smpl))).map Prod.fst := by
    rwa [List.map_map]
  rw [eval_active hq hnd, lookup_filterMapVal, lookup_foldl_put_of_not_mem _ _ _ hkeys]
  cases s.active.lookup fp with
  | none => rfl
  | some a => rw [Option.bind_some, Option.bind_some, settle, if_neg hfp]

end

/-! ## Where the samples come from -/

/-- The series that this evaluation runs through the thresholds: none where the query fails or the alert for missing
data takes its place. -/
def evaluatedSeries (s : RuleState V) (i : EvalInput V) : List (TimeSeries V) :=
  match i.query with
  | none => []
  | some result =>
    if (handleMissingDataAlert W r s i.ts (hasData result)).2.isSome then [] else seriesToEval r i (result.getD [])

section
variable {W r} {s : RuleState V} {i : EvalInput V}

theorem mem_samples {samples : List (Sample V)} (hq : (buildAndRunQuery W r s i).2 = some samples) {smpl : Sample V}
    (hs : smpl ∈ samples) :
    smpl.isMissing = true ∨ ∃ series ∈ evaluatedSeries W r s i, ∃ b ∈ r.thresholds,
      b.eval W { series with values := series.evaluableValues } r.unit
        { activeAlerts := activeAlertsLabelFP W s.active, sendUnmatched := r.sendUnmatched } = some smpl := by
  revert hq
  unfold buildAndRunQuery evaluatedSeries
  cases i.query with
  | none => intro hq; cases hq
  | some result =>
    simp only
    cases hmissing : handleMissingDataAlert W r s i.ts (hasData result) with
    | mk s' missing =>
      cases missing with
      | some alert =>
        intro hq
        cases hq
        rw [List.mem_singleton] at hs
        subst hs
        exact .inl (handleMissingDataAlert_isMissing hmissing)
      | none =>
        intro hq
        cases hq
        simp only [Option.isSome_none, Bool.false_eq_true, if_false]
        obtain ⟨series, hseries, hin⟩ := List.mem_flatMap.1 hs
        obtain ⟨b, hb, heval⟩ := List.mem_filterMap.1 hin
        exact .inr ⟨series, hseries, b, (i.order.perm _).mem_iff.1 hb, heval⟩

theorem samples_of_evaluated {series : TimeSeries V} (hseries : series ∈ evaluatedSeries W r s i) :
    ∃ samples, (buildAndRunQuery W r s i).2 = some samples ∧ ∀ b ∈ r.thresholds, ∀ smpl,
      b.eval W { series with values := series.evaluableValues } r.unit
        { activeAlerts := activeAlertsLabelFP W s.active, sendUnmatched := r.sendUnmatched } = some smpl →
      smpl ∈ samples := by
  revert hseries
  unfold buildAndRunQuery evaluatedSeries
  cases i.query with
  | none => intro h; cases h
  | some result =>
    simp only
    cases handleMissingDataAlert W r s i.ts (hasData result) with
    | mk s' missing =>
      cases missing with
      | some alert => intro h; cases h
      | none =>
        simp only [Option.isSome_none, Bool.false_eq_true, if_false]
        intro hseries
        refine ⟨_, rfl, fun b hb smpl heval => ?_⟩
        exact List.mem_flatMap.2 ⟨series, hseries, List.mem_filterMap.2 ⟨b, (i.order.perm _).mem_iff.2 hb, heval⟩⟩

end

end Rules
end DsApm
