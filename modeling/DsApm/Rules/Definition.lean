import DsApm.Alertmanager.Config
import DsApm.Rules.Eval
/-!
# Definition — a rule as it is posted and stored

`PostableRule` of `api_params.go`: the defaults of a parsed rule, what is checked before it is written, the text it is
stored as, and the routes, inhibit rules and notification settings that follow from it.  A text is taken as the record
that `json.Unmarshal` reads from it into an empty rule, or as nothing where it does not read one.
-/
namespace DsApm
namespace Rules

open Latest Alertmanager

inductive SchemaVersion where
  | unset | v1 | v2alpha1 | other (s : String)
  deriving DecidableEq, Repr

inductive RuleType where
  | unset | threshold | prom | anomaly | other (s : String)
  deriving DecidableEq, Repr

inductive QueryType where
  | builder | clickhouseSQL | promQL | other (s : String)
  deriving DecidableEq, Repr

structure ThresholdSpec (V : Type) where
  name : String
  target : Option V
  targetUnit : String
  recoveryTarget : Option V
  matchType : String
  compareOperator : String
  channels : List String
  deriving DecidableEq, Repr

structure AlertCompositeQuery where
  queryType : QueryType
  queries : String
  deriving DecidableEq, Repr

structure RuleCondition (V : Type) where
  compositeQuery : Option AlertCompositeQuery
  compareOperator : String
  target : Option V
  alertOnAbsent : Bool
  matchType : String
  targetUnit : String
  thresholds : Option (List (ThresholdSpec V))
  deriving DecidableEq, Repr

inductive EvaluationEnvelope where
  | rolling (evalWindow frequency : Int)
  | cumulative (spec : String)
  deriving DecidableEq, Repr

structure Renotify where
  enabled : Bool
  reNotifyInterval : Int
  alertStates : List AlertState
  deriving DecidableEq, Repr

structure NotificationSettings where
  groupBy : List String
  renotify : Renotify
  usePolicy : Bool
  newGroupEvalDelay : Int
  deriving DecidableEq, Repr

/-- `other` holds the fields that no operation of the manager looks into: the alert type, the description, the
annotations, the source and the version. -/
structure PostableRule (V : Type) where
  alertName : String
  ruleType : RuleType
  evalWindow : Int
  frequency : Int
  condition : Option (RuleCondition V)
  labels : Labels
  disabled : Bool
  preferredChannels : List String
  evaluation : Option EvaluationEnvelope
  schemaVersion : SchemaVersion
  notificationSettings : Option NotificationSettings
  other : String
  deriving DecidableEq, Repr

abbrev RuleText (V : Type) := Option (PostableRule V)

/-- Checks and code that a definition goes through and that the operations take as they are. -/
structure Checks (V : Type) where
  /-- `validate`, run on every parse. -/
  validate : PostableRule V → Bool
  /-- What `Validate` checks besides the schema version's fields. -/
  validateAll : PostableRule V → Bool
  validOp : String → Bool
  validMatch : String → Bool
  /-- `expr.Compile` accepts the expression of a route. -/
  compiles : String → Bool
  /-- What `sort.Slice` makes of the thresholds. -/
  order : Visit (ThresholdSpec V)
  /-- `prepareTaskFunc` makes a task of the rule. -/
  prepares : PostableRule V → Bool

section
variable {V : Type} [Float64 V]

/-! ## Parsing and writing -/

def defaultThreshold (r : PostableRule V) (c : RuleCondition V) : ThresholdSpec V :=
  { name := (r.labels.lookup "severity").getD "critical"
    target := c.target.map (fun t => if r.ruleType = .anomaly ∧ c.compareOperator = "2" then
      Float64.mul (Float64.sub Float64.zero (Float64.ofNat 1)) t else t)
    targetUnit := c.targetUnit, recoveryTarget := none, matchType := c.matchType, compareOperator := c.compareOperator
    channels := r.preferredChannels }

/-- Every four hours while firing, and while without data where that alerts. -/
def defaultSettings (c : RuleCondition V) : NotificationSettings :=
  { groupBy := [], usePolicy := false, newGroupEvalDelay := 0
    renotify := { enabled := true, reNotifyInterval := 4 * Calendar.hour
                  alertStates := if c.alertOnAbsent then [.firing, .noData] else [.firing] } }

def defaultRuleType (q : QueryType) (t : RuleType) : RuleType :=
  match q with
  | .builder => if t = .unset then .threshold else t
  | .promQL => .prom
  | _ => t

def PostableRule.withV1Defaults (r : PostableRule V) (c : RuleCondition V) : PostableRule V :=
  { r with
    condition := some { c with thresholds := some [defaultThreshold r c] }
    evaluation := some (.rolling r.evalWindow r.frequency)
    notificationSettings := some (defaultSettings c) }

/-- `5m` and `1m`, where the schema version has the window at the top. -/
def PostableRule.withWindow (r : PostableRule V) : PostableRule V :=
  if r.schemaVersion = .v2alpha1 then r
  else { r with
    evalWindow := if r.evalWindow = 0 then 5 * Calendar.minute else r.evalWindow
    frequency := if r.frequency = 0 then Calendar.minute else r.frequency }

def PostableRule.withSchemaVersion (r : PostableRule V) : PostableRule V :=
  if r.schemaVersion = .unset then { r with schemaVersion := .v1 } else r

def PostableRule.processRuleDefaults (r : PostableRule V) : PostableRule V :=
  let r := r.withSchemaVersion.withWindow
  match r.condition with
  | none => r
  | some c =>
    match c.compositeQuery with
    | none => r
    | some q =>
      let r := { r with ruleType := defaultRuleType q.queryType r.ruleType }
      if r.schemaVersion = .v1 then r.withV1Defaults c else r

variable (E : Checks V)

def unmarshalRule (t : RuleText V) : Option (PostableRule V) :=
  t.bind (fun r => if r.processRuleDefaults.condition.isSome && E.validate r.processRuleDefaults then
    some r.processRuleDefaults else none)

def PostableRule.withoutThresholds (r : PostableRule V) : PostableRule V :=
  { r with condition := r.condition.map (fun c => { c with thresholds := none }) }

/-- `MarshalJSON`: the text, and the rule afterwards.  The condition of the copy is that of the rule itself, so the rule
loses its thresholds too. -/
def marshalRule (r : PostableRule V) : RuleText V × PostableRule V :=
  if r.schemaVersion = .v1 then
    (some { r.withoutThresholds with evaluation := none, schemaVersion := .unset, notificationSettings := none },
      r.withoutThresholds)
  else (some r, r)

def validateV1 (c : RuleCondition V) : Bool :=
  c.target.isSome && E.validOp c.compareOperator && E.validMatch c.matchType

def validateV2Alpha1 (r : PostableRule V) (c : RuleCondition V) : Bool :=
  c.thresholds.isSome && r.evaluation.isSome && match r.notificationSettings with
    | none => false
    | some n => !n.renotify.enabled || decide (0 < n.renotify.reNotifyInterval)

def validateRule (r : PostableRule V) : Bool :=
  E.validateAll r && match r.condition with
    | none => false
    | some c => c.compositeQuery.isSome && match r.schemaVersion with
      | .v1 => validateV1 E c
      | .v2alpha1 => validateV2Alpha1 r c
      | _ => false

/-! ## What follows from a rule -/

def PostableRule.ruleThresholds (r : PostableRule V) : Option (List (ThresholdSpec V)) := r.condition.bind RuleCondition.thresholds

def specReceivers (thresholds : List (ThresholdSpec V)) : List RuleReceivers :=
  (E.order.order thresholds).map (fun b => { name := b.name, channels := b.channels })

def PostableRule.channels (r : PostableRule V) : List String :=
  match r.ruleThresholds with
  | none => []
  | some thresholds => ((specReceivers E thresholds).flatMap RuleReceivers.channels).dedup

inductive ExpressionKind where
  | ruleBased | policyBased
  deriving DecidableEq, Repr

structure PostableRoutePolicy where
  expression : String
  expressionKind : ExpressionKind
  channels : List String
  name : String
  description : String
  tags : List String
  deriving DecidableEq, Repr

def PostableRoutePolicy.validate (p : PostableRoutePolicy) : Bool :=
  p.expression != "" && p.name != "" && !p.channels.isEmpty && !p.channels.contains "" && E.compiles p.expression

def ruleRoute (ruleID : String) (receiver : RuleReceivers) : PostableRoutePolicy :=
  { expression := labelThresholdName ++ " == \"" ++ receiver.name ++ "\" && " ++ alertRuleIDLabel ++ " == \"" ++ ruleID ++ "\""
    expressionKind := .ruleBased, channels := receiver.channels, name := ruleID
    description := "Auto-generated route for rule " ++ ruleID, tags := ["auto-generated", "rule-based"] }

def PostableRule.getRuleRouteRequest (r : PostableRule V) (ruleID : String) : Option (List PostableRoutePolicy) :=
  r.ruleThresholds.map (fun thresholds => (specReceivers E thresholds).map (ruleRoute ruleID))

structure NotificationConfig where
  notificationGroup : Finset String
  renotifyInterval : Int
  noDataInterval : Int
  usePolicy : Bool
  groupByAll : Bool
  deriving DecidableEq

def newNotificationConfig (groups : List String) (renotifyInterval noDataRenotifyInterval : Int) (policy : Bool) :
    NotificationConfig :=
  { notificationGroup := insert alertRuleIDLabel groups.toFinset
    renotifyInterval := if renotifyInterval ≠ 0 then renotifyInterval else 4 * Calendar.hour
    noDataInterval := if noDataRenotifyInterval ≠ 0 then noDataRenotifyInterval else 4 * Calendar.hour
    usePolicy := policy, groupByAll := groups.contains "__all__" }

/-- Without renotification the intervals stand for a year. -/
def NotificationSettings.getAlertManagerNotificationConfig (n : NotificationSettings) : NotificationConfig :=
  let interval := fun (state : AlertState) =>
    if n.renotify.enabled then (if n.renotify.alertStates.contains state then n.renotify.reNotifyInterval else 0)
    else 8760 * Calendar.hour
  newNotificationConfig n.groupBy (interval .firing) (interval .noData) n.usePolicy

def inhibitNext (ruleID : String) (groups : Finset String) (receivers : List RuleReceivers) : List InhibitRule :=
  (receivers.zip receivers.tail).map (fun p =>
    { sourceMatchers := [⟨labelThresholdName, p.1.name⟩, ⟨alertRuleIDLabel, ruleID⟩]
      targetMatchers := [⟨labelThresholdName, p.2.name⟩, ⟨alertRuleIDLabel, ruleID⟩], equal := groups })

def PostableRule.getInhibitRules (r : PostableRule V) (ruleID : String) : Option (List InhibitRule) :=
  r.ruleThresholds.map (fun thresholds =>
    inhibitNext ruleID ((r.notificationSettings.map (fun n => n.getAlertManagerNotificationConfig.notificationGroup)).getD ∅)
      (specReceivers E thresholds))

def PostableRule.usePolicy (r : PostableRule V) : Bool := (r.notificationSettings.map NotificationSettings.usePolicy).getD true

/-! ## A written rule reads back -/

/-- What the defaults leave: a schema version, a window where it stands at the top, the type of the query and, in the
first version, the fields derived from the others. -/
structure Defaulted (r : PostableRule V) (c : RuleCondition V) (q : AlertCompositeQuery) : Prop where
  condition : r.condition = some c
  query : c.compositeQuery = some q
  version : r.schemaVersion ≠ .unset
  window : r.schemaVersion ≠ .v2alpha1 → r.evalWindow ≠ 0 ∧ r.frequency ≠ 0
  ruleType : defaultRuleType q.queryType r.ruleType = r.ruleType
  derived : r.schemaVersion = .v1 → r.withV1Defaults c = r

theorem defaultRuleType_idem (q : QueryType) (t : RuleType) : defaultRuleType q (defaultRuleType q t) = defaultRuleType q t := by
  unfold defaultRuleType
  cases q with
  | builder => simp only; split_ifs <;> simp_all
  | _ => rfl

omit [Float64 V] in
theorem withWindow_of {r : PostableRule V} (h : r.schemaVersion ≠ .v2alpha1 → r.evalWindow ≠ 0 ∧ r.frequency ≠ 0) :
    r.withWindow = r := by
  unfold PostableRule.withWindow
  by_cases hv : r.schemaVersion = .v2alpha1
  · rw [if_pos hv]
  · rw [if_neg hv, if_neg (h hv).1, if_neg (h hv).2]

omit [Float64 V] in
theorem window_ne_zero (r : PostableRule V) :
    r.withWindow.schemaVersion ≠ .v2alpha1 → r.withWindow.evalWindow ≠ 0 ∧ r.withWindow.frequency ≠ 0 := by
  unfold PostableRule.withWindow
  by_cases hv : r.schemaVersion = .v2alpha1
  · rw [if_pos hv]
    exact fun h => absurd hv h
  · rw [if_neg hv]
    intro _
    constructor
    · by_cases h0 : r.evalWindow = 0
      · simp only [h0, if_true]
        decide
      · simp only [h0, if_false]
        exact h0
    · by_cases h0 : r.frequency = 0
      · simp only [h0, if_true]
        decide
      · simp only [h0, if_false]
        exact h0

omit [Float64 V] in
theorem version_ne_unset (r : PostableRule V) : r.withSchemaVersion.withWindow.schemaVersion ≠ .unset := by
  unfold PostableRule.withSchemaVersion PostableRule.withWindow
  split_ifs <;> simp_all

theorem defaulted_processRuleDefaults {x : PostableRule V} {c : RuleCondition V} {q : AlertCompositeQuery}
    (hc : x.processRuleDefaults.condition = some c) (hq : c.compositeQuery = some q) :
    Defaulted x.processRuleDefaults c q := by
  have hwindow := window_ne_zero x.withSchemaVersion
  have hversion := version_ne_unset x
  revert hc
  unfold PostableRule.processRuleDefaults
  generalize x.withSchemaVersion.withWindow = y at hwindow hversion ⊢
  simp only
  cases hy : y.condition with
  | none => intro hc; simp only [hy] at hc; cases hc
  | some c₀ =>
    simp only
    cases hq₀ : c₀.compositeQuery with
    | none =>
      intro hc
      simp only [hy] at hc
      cases hc
      rw [hq₀] at hq
      cases hq
    | some q₀ =>
      simp only
      split_ifs with hv
      · intro hc
        cases hc
        obtain rfl : q₀ = q := by simpa [hq₀] using hq
        exact ⟨rfl, hq₀, hversion, hwindow, defaultRuleType_idem _ _, fun _ => rfl⟩
      · intro hc
        simp only at hc
        cases hc
        obtain rfl : q₀ = q := by simpa [hq₀] using hq
        exact ⟨rfl, hq₀, hversion, hwindow, defaultRuleType_idem _ _, fun h => absurd h hv⟩

theorem Defaulted.fixed {r : PostableRule V} {c : RuleCondition V} {q : AlertCompositeQuery} (h : Defaulted r c q) :
    r.processRuleDefaults = r := by
  have hs : r.withSchemaVersion = r := if_neg h.version
  unfold PostableRule.processRuleDefaults
  rw [hs, withWindow_of h.window]
  have hc := h.condition
  obtain ⟨_, _, _, _, cond, _, _, _, _, _, _, _⟩ := r
  simp only at hc
  subst hc
  simp only [h.query, h.ruleType]
  split_ifs with hv
  · exact h.derived hv
  · rfl

/-- **The text of a rule reads back as the rule**: what the first version leaves out are the derived fields. -/
theorem Defaulted.marshal {r : PostableRule V} {c : RuleCondition V} {q : AlertCompositeQuery} (h : Defaulted r c q) :
    (marshalRule r).1.map PostableRule.processRuleDefaults = some r := by
  unfold marshalRule
  by_cases hv : r.schemaVersion = .v1
  · have hwindow := h.window (by rw [hv]; simp)
    rw [if_pos hv, Option.map_some, Option.some_inj]
    conv_rhs => rw [← h.derived hv]
    simp only [PostableRule.processRuleDefaults, PostableRule.withSchemaVersion, PostableRule.withWindow,
      PostableRule.withoutThresholds, if_true, h.condition, Option.map_some, h.query, hwindow.1, hwindow.2, if_false,
      reduceCtorEq, h.ruleType, PostableRule.withV1Defaults, defaultThreshold, defaultSettings, hv]
  · rw [if_neg hv, Option.map_some, h.fixed]

end

end Rules
end DsApm
