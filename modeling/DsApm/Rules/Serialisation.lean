import DsApm.Rules.Tasks
/-!
# Serialisation — a rule that is written while it is in use

`MarshalJSON` leaves the derived fields of the first version out of the text.  It takes the thresholds off a copy of the rule that
shares its condition, so the rule that goes on being used has none either (`serialised_iff`).
-/
namespace DsApm
namespace Rules

open Option

section
variable {V : Type} [Float64 V] {E : Checks V}

omit [Float64 V] in
theorem withSchemaVersion_of {r : PostableRule V} (h : r.schemaVersion ≠ .unset) : r.withSchemaVersion = r := if_neg h

theorem processRuleDefaults_of_noQuery {r : PostableRule V} {c : RuleCondition V} (hc : r.condition = some c)
    (hq : c.compositeQuery = none) : r.processRuleDefaults = r.withSchemaVersion.withWindow := by
  have hcond : r.withSchemaVersion.withWindow.condition = some c := by
    rw [← hc]
    unfold PostableRule.withSchemaVersion PostableRule.withWindow
    split_ifs <;> rfl
  unfold PostableRule.processRuleDefaults
  simp only [hcond, hq]

theorem noQuery_of_processed {x : PostableRule V} {c : RuleCondition V} (hc : x.processRuleDefaults.condition = some c)
    (hq : c.compositeQuery = none) : x.processRuleDefaults = x.withSchemaVersion.withWindow := by
  have hcond : x.withSchemaVersion.withWindow.condition = x.condition := by
    unfold PostableRule.withSchemaVersion PostableRule.withWindow
    split_ifs <;> rfl
  cases hx : x.condition with
  | none =>
    unfold PostableRule.processRuleDefaults
    simp only [hcond, hx]
  | some c₀ =>
    cases hq₀ : c₀.compositeQuery with
    | none => exact processRuleDefaults_of_noQuery hx hq₀
    | some q =>
      exfalso
      unfold PostableRule.processRuleDefaults at hc
      simp only [hcond, hx, hq₀] at hc
      split_ifs at hc
      · cases hc
        rw [hq₀] at hq
        cases hq
      · cases hc
        rw [hq₀] at hq
        cases hq

/-- **The defaults of a rule are its own**: it has them already once they were applied. -/
theorem processRuleDefaults_idem {x : PostableRule V} (h : x.processRuleDefaults.condition.isSome = true) :
    x.processRuleDefaults.processRuleDefaults = x.processRuleDefaults := by
  obtain ⟨c, hc⟩ := isSome_iff_exists.1 h
  cases hq : c.compositeQuery with
  | some q => exact (defaulted_processRuleDefaults hc hq).fixed
  | none =>
    have hx := noQuery_of_processed hc hq
    rw [processRuleDefaults_of_noQuery hc hq, hx, withSchemaVersion_of (version_ne_unset x),
      withWindow_of (window_ne_zero x.withSchemaVersion)]

theorem unmarshalRule_eq_some {text : RuleText V} {r : PostableRule V} : unmarshalRule E text = some r ↔
    ∃ x, text = some x ∧ x.processRuleDefaults = r ∧ r.condition.isSome = true ∧ E.validate r = true := by
  unfold unmarshalRule
  rw [bind_eq_some_iff]
  constructor
  · rintro ⟨x, hx, h⟩
    split_ifs at h with hok
    cases h
    exact ⟨x, hx, rfl, Bool.and_eq_true_iff.1 hok⟩
  · rintro ⟨x, hx, rfl, hcond, hvalid⟩
    exact ⟨x, hx, by rw [if_pos (Bool.and_eq_true_iff.2 ⟨hcond, hvalid⟩)]⟩

/-- In the first version, nothing to leave out: no query to derive the fields from, and none of them given. -/
def WrittenWhole (r : PostableRule V) : Prop :=
  r.schemaVersion = .v1 → (∀ c ∈ r.condition, c.compositeQuery = none ∧ c.thresholds = none) ∧ r.evaluation = none ∧
    r.notificationSettings = none

omit [Float64 V] in
theorem withoutThresholds_eq_iff {r : PostableRule V} : r.withoutThresholds = r ↔ ∀ c ∈ r.condition, c.thresholds = none := by
  obtain ⟨_, _, _, _, condition, _, _, _, _, _, _, _⟩ := r
  cases condition with
  | none => simp [PostableRule.withoutThresholds]
  | some c =>
    obtain ⟨_, _, _, _, _, _, thresholds⟩ := c
    simp [PostableRule.withoutThresholds, eq_comm]

def PostableRule.writtenV1 (r : PostableRule V) : PostableRule V :=
  { r.withoutThresholds with evaluation := none, schemaVersion := .unset, notificationSettings := none }

omit [Float64 V] in
theorem marshalRule_v1 {r : PostableRule V} (h : r.schemaVersion = .v1) : marshalRule r = (some r.writtenV1, r.withoutThresholds) :=
  if_pos h

omit [Float64 V] in
theorem marshalRule_other {r : PostableRule V} (h : r.schemaVersion ≠ .v1) : marshalRule r = (some r, r) := if_neg h

theorem processRuleDefaults_writtenV1 {r : PostableRule V} {c : RuleCondition V} (hc : r.condition = some c)
    (hq : c.compositeQuery = none) (hv : r.schemaVersion = .v1) (hwindow : r.withWindow = r) :
    r.writtenV1.processRuleDefaults = { r.withoutThresholds with evaluation := none, notificationSettings := none } := by
  have hcond : r.writtenV1.condition = some { c with thresholds := none } := by
    rw [PostableRule.writtenV1, PostableRule.withoutThresholds, hc]
    rfl
  have hversion : r.writtenV1.withSchemaVersion =
      { r.withoutThresholds with evaluation := none, notificationSettings := none } := by
    obtain ⟨_, _, _, _, _, _, _, _, _, _, _, _⟩ := r
    cases hv
    rfl
  rw [processRuleDefaults_of_noQuery hcond hq, hversion]
  unfold PostableRule.withWindow at hwindow ⊢
  rw [hv, if_neg (by decide)] at hwindow
  rw [if_neg (by rw [PostableRule.withoutThresholds, hv]; decide)]
  have hwin := congrArg PostableRule.evalWindow hwindow
  have hfreq := congrArg PostableRule.frequency hwindow
  dsimp only at hwin hfreq
  rw [PostableRule.withoutThresholds]
  dsimp only
  rw [hwin, hfreq]

end

def anomalyBelow : PostableRule Int :=
  { alertName := "drop", ruleType := .anomaly, evalWindow := 0, frequency := 0, labels := [], disabled := false
    preferredChannels := ["ops"], schemaVersion := .unset, other := "", evaluation := none, notificationSettings := none
    condition := some { compositeQuery := some { queryType := .builder, queries := "A" }, compareOperator := "2", target := some 3
                        alertOnAbsent := false, matchType := "1", targetUnit := "", thresholds := none } }

end Rules
end DsApm
