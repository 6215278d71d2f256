import DsApm.Rules.Tasks
/-!
# Severity — which threshold inhibits which

`sortThresholds` of `threshold.go` puts the thresholds in the order in which `GetInhibitRules` lets each inhibit the next.
It compares the targets as they are written, each in its own unit, so the order is that of the converted targets only
where the numbers are in step with them.
-/
namespace DsApm
namespace Rules

open Latest Alertmanager

/-- `CompareOperator.Normalize`, on the text that `valuer.NewString` makes of an operator. -/
def compareOperatorOf (text : String) : Option CompareOperator :=
  match String.ofList ((GoStd.trimSpace text).toList.map GoStd.toLower) with
  | "1" | "above" | ">" => some .valueIsAbove
  | "2" | "below" | "<" => some .valueIsBelow
  | "3" | "equal" | "eq" | "=" => some .valueIsEq
  | "4" | "not_equal" | "not_eq" | "!=" => some .valueIsNotEq
  | "5" | "above_or_equal" | "above_or_eq" | ">=" => some .valueAboveOrEq
  | "6" | "below_or_equal" | "below_or_eq" | "<=" => some .valueBelowOrEq
  | "7" | "outside_bounds" => some .valueOutsideBounds
  | _ => none

section
variable {V : Type} [Float64 V] (W : World V)

/-- The target in a unit; every accepted threshold has one. -/
def ThresholdSpec.targetIn (t : ThresholdSpec V) (ruleUnit : String) : V :=
  W.convert (t.target.getD Float64.zero) t.targetUnit ruleUnit

/-- The `less` of `sortThresholds`: it looks at the operator of the first. -/
def thresholdLess (a b : ThresholdSpec V) : Bool :=
  match compareOperatorOf a.compareOperator with
  | some .valueIsBelow | some .valueBelowOrEq => Float64.lt (a.targetIn W a.targetUnit) (b.targetIn W b.targetUnit)
  | _ => Float64.lt (b.targetIn W b.targetUnit) (a.targetIn W a.targetUnit)

def inhibitOf (ruleID : String) (groups : Finset String) (source target : ThresholdSpec V) : InhibitRule :=
  { sourceMatchers := [⟨labelThresholdName, source.name⟩, ⟨alertRuleIDLabel, ruleID⟩]
    targetMatchers := [⟨labelThresholdName, target.name⟩, ⟨alertRuleIDLabel, ruleID⟩], equal := groups }

/-- The order that `sort.Slice` gives: no threshold is less than one before it. -/
def SortsThresholds (E : Checks V) (thresholds : List (ThresholdSpec V)) : Prop :=
  (E.order.order thresholds).Pairwise (fun a b => thresholdLess W b a = false)

/-- The thresholds an inhibit rule is made for, the inhibiting one first. -/
def inhibitPairs (E : Checks V) (thresholds : List (ThresholdSpec V)) : List (ThresholdSpec V × ThresholdSpec V) :=
  (E.order.order thresholds).zip (E.order.order thresholds).tail

inductive Direction where
  | above | below
  deriving DecidableEq, Repr

def CompareOperator.direction? : CompareOperator → Option Direction
  | .valueIsAbove | .valueAboveOrEq | .valueOutsideBounds => some .above
  | .valueIsBelow | .valueBelowOrEq => some .below
  | _ => none

def AtLeastAsSevere (d : Direction) (ruleUnit : String) (source target : ThresholdSpec V) : Prop :=
  match d with
  | .above => Float64.le (target.targetIn W ruleUnit) (source.targetIn W ruleUnit) = true
  | .below => Float64.le (source.targetIn W ruleUnit) (target.targetIn W ruleUnit) = true

instance decidableAtLeastAsSevere (d : Direction) (ruleUnit : String) (source target : ThresholdSpec V) :
    Decidable (AtLeastAsSevere W d ruleUnit source target) :=
  match d with
  | .above => inferInstanceAs (Decidable (_ = true))
  | .below => inferInstanceAs (Decidable (_ = true))

/-- The comparisons of numbers that are not NaN are those of an order. -/
structure Float64.Reading (V : Type) [Float64 V] (κ : Type) [LinearOrder κ] where
  val : V → κ
  lt_iff : ∀ a b : V, Float64.isNaN a = false → Float64.isNaN b = false → (Float64.lt a b = true ↔ val a < val b)
  le_iff : ∀ a b : V, Float64.isNaN a = false → Float64.isNaN b = false → (Float64.le a b = true ↔ val a ≤ val b)

/-- Thresholds of one direction, whose targets are numbers in their own unit and in the given one. -/
structure OneDirection (d : Direction) (ruleUnit : String) (thresholds : List (ThresholdSpec V)) : Prop where
  direction : ∀ t ∈ thresholds, (compareOperatorOf t.compareOperator).bind CompareOperator.direction? = some d
  written : ∀ t ∈ thresholds, Float64.isNaN (t.targetIn W t.targetUnit) = false
  converted : ∀ t ∈ thresholds, Float64.isNaN (t.targetIn W ruleUnit) = false

/-- The numbers as they are written order the thresholds as the converted ones do. -/
def InStep (d : Direction) (ruleUnit : String) (thresholds : List (ThresholdSpec V)) : Prop :=
  ∀ a ∈ thresholds, ∀ b ∈ thresholds,
    (match d with
      | .above => Float64.le (b.targetIn W b.targetUnit) (a.targetIn W a.targetUnit)
      | .below => Float64.le (a.targetIn W a.targetUnit) (b.targetIn W b.targetUnit)) = true →
    AtLeastAsSevere W d ruleUnit a b

variable {W}

omit [Float64 V] in
theorem getInhibitRules_eq (E : Checks V) {r : PostableRule V} {thresholds : List (ThresholdSpec V)}
    (hr : r.ruleThresholds = some thresholds) (ruleID : String) :
    ∃ groups, r.getInhibitRules E ruleID = some ((inhibitPairs E thresholds).map (fun p => inhibitOf ruleID groups p.1 p.2)) := by
  refine ⟨(r.notificationSettings.map (fun n => n.getAlertManagerNotificationConfig.notificationGroup)).getD ∅, ?_⟩
  unfold PostableRule.getInhibitRules
  rw [hr, Option.map_some]
  unfold inhibitNext specReceivers inhibitPairs
  rw [← List.map_tail, List.zip_map, List.map_map]
  rfl

section
variable {κ : Type} [LinearOrder κ] {d : Direction} {ruleUnit : String}
  {thresholds : List (ThresholdSpec V)}

theorem thresholdLess_eq_false_iff (F : Float64.Reading V κ) (h : OneDirection W d ruleUnit thresholds)
    {a b : ThresholdSpec V} (ha : a ∈ thresholds) (hb : b ∈ thresholds) : thresholdLess W b a = false ↔ match d with
      | .above => F.val (b.targetIn W b.targetUnit) ≤ F.val (a.targetIn W a.targetUnit)
      | .below => F.val (a.targetIn W a.targetUnit) ≤ F.val (b.targetIn W b.targetUnit) := by
  have hlt := F.lt_iff _ _ (h.written a ha) (h.written b hb)
  have hlt' := F.lt_iff _ _ (h.written b hb) (h.written a ha)
  have hdir := h.direction b hb
  unfold thresholdLess
  cases hop : compareOperatorOf b.compareOperator with
  | none => rw [hop] at hdir; cases hdir
  | some op =>
    rw [hop, Option.bind_some] at hdir
    cases op <;> cases hdir
    all_goals
      simp only
      rw [← not_lt, ← Bool.not_eq_true]
      first | exact not_congr hlt | exact not_congr hlt'

omit [Float64 V] in
theorem exists_order [DecidableEq (ThresholdSpec V)] {l : List (ThresholdSpec V)} (h : l.Perm thresholds) :
    ∃ E : Checks V, E.order.order thresholds = l := by
  refine ⟨{ validate := fun _ => true, validateAll := fun _ => true, validOp := fun _ => true, validMatch := fun _ => true
            compiles := fun _ => true, prepares := fun _ => true
            order := ⟨fun x => if x = thresholds then l else x, fun x => ?_⟩ }, if_pos rfl⟩
  split_ifs with hx
  · rw [hx]
    exact h
  · exact List.Perm.refl _

theorem severe_iff_of_keys {μ : Type} [LinearOrder μ] (key g : ThresholdSpec V → μ)
    (hkey : ∀ a ∈ thresholds, ∀ b ∈ thresholds, (thresholdLess W b a = false ↔ key a ≤ key b))
    (hg : ∀ a ∈ thresholds, ∀ b ∈ thresholds, (AtLeastAsSevere W d ruleUnit a b ↔ g a ≤ g b)) :
    (∀ E : Checks V, SortsThresholds W E thresholds → ∀ p ∈ inhibitPairs E thresholds, AtLeastAsSevere W d ruleUnit p.1 p.2) ↔
      ∀ a ∈ thresholds, ∀ b ∈ thresholds, key a ≤ key b → g a ≤ g b := by
  classical
  have hpair : ∀ l : List (ThresholdSpec V), l.Perm thresholds → ∀ p ∈ l.zip l.tail,
      (AtLeastAsSevere W d ruleUnit p.1 p.2 ↔ g p.1 ≤ g p.2) := by
    intro l hl p hp
    obtain ⟨hfst, hsnd⟩ := List.of_mem_zip hp
    exact hg _ (hl.mem_iff.1 hfst) _ (hl.mem_iff.1 (List.mem_of_mem_tail hsnd))
  rw [← sorted_steps_iff key g thresholds]
  constructor
  · intro h l hl hsorted p hp
    obtain ⟨E, hE⟩ := exists_order hl
    refine (hpair l hl p hp).1 (h E ?_ p (by rw [inhibitPairs, hE]; exact hp))
    rw [SortsThresholds, hE]
    exact hsorted.imp_of_mem (fun ha hb => (hkey _ (hl.mem_iff.1 ha) _ (hl.mem_iff.1 hb)).2)
  · intro h E hE p hp
    have hl := E.order.perm thresholds
    refine (hpair _ hl p hp).2 (h _ hl ?_ p hp)
    exact hE.imp_of_mem (fun ha hb => (hkey _ (hl.mem_iff.1 ha) _ (hl.mem_iff.1 hb)).1)

/-- **Every inhibit rule's source is at least as severe as its target exactly when the numbers of the thresholds, each in its
own unit, are in step with the converted ones.** -/
theorem inhibits_by_severity_iff (F : Float64.Reading V κ) (hone : OneDirection W d ruleUnit thresholds) {r : PostableRule V}
    (hr : r.ruleThresholds = some thresholds) :
    (∀ E : Checks V, SortsThresholds W E thresholds → ∀ ruleID, ∃ groups,
      r.getInhibitRules E ruleID = some ((inhibitPairs E thresholds).map (fun p => inhibitOf ruleID groups p.1 p.2)) ∧
        ∀ p ∈ inhibitPairs E thresholds, AtLeastAsSevere W d ruleUnit p.1 p.2) ↔
      InStep W d ruleUnit thresholds := by
  have hrules : (∀ E : Checks V, SortsThresholds W E thresholds → ∀ ruleID, ∃ groups,
      r.getInhibitRules E ruleID = some ((inhibitPairs E thresholds).map (fun p => inhibitOf ruleID groups p.1 p.2)) ∧
        ∀ p ∈ inhibitPairs E thresholds, AtLeastAsSevere W d ruleUnit p.1 p.2) ↔
      ∀ E : Checks V, SortsThresholds W E thresholds → ∀ p ∈ inhibitPairs E thresholds,
        AtLeastAsSevere W d ruleUnit p.1 p.2 := by
    constructor
    · intro h E hE
      obtain ⟨_, -, hsevere⟩ := h E hE ""
      exact hsevere
    · intro h E hE ruleID
      obtain ⟨groups, heq⟩ := getInhibitRules_eq E hr ruleID
      exact ⟨groups, heq, h E hE⟩
  have hless := fun a ha b hb => thresholdLess_eq_false_iff F hone (a := a) (b := b) ha hb
  have hwritten := fun a ha b hb => F.le_iff _ _ (hone.written a ha) (hone.written b hb)
  have hconverted := fun a ha b hb => F.le_iff _ _ (hone.converted a ha) (hone.converted b hb)
  rw [hrules]
  cases d with
  | above =>
    have hsevere : ∀ a ∈ thresholds, ∀ b ∈ thresholds, (AtLeastAsSevere W .above ruleUnit a b ↔
        F.val (b.targetIn W ruleUnit) ≤ F.val (a.targetIn W ruleUnit)) := fun a ha b hb => hconverted b hb a ha
    refine (severe_iff_of_keys (fun t => OrderDual.toDual (F.val (t.targetIn W t.targetUnit)))
      (fun t => OrderDual.toDual (F.val (t.targetIn W ruleUnit))) hless hsevere).trans ?_
    exact forall₄_congr (fun a ha b hb => imp_congr (hwritten b hb a ha).symm (hconverted b hb a ha).symm)
  | below =>
    have hsevere : ∀ a ∈ thresholds, ∀ b ∈ thresholds, (AtLeastAsSevere W .below ruleUnit a b ↔
        F.val (a.targetIn W ruleUnit) ≤ F.val (b.targetIn W ruleUnit)) := hconverted
    refine (severe_iff_of_keys (fun t => F.val (t.targetIn W t.targetUnit))
      (fun t => F.val (t.targetIn W ruleUnit)) hless hsevere).trans ?_
    exact forall₄_congr (fun a ha b hb => imp_congr (hwritten a ha b hb).symm (hconverted a ha b hb).symm)

end
end

/-! ## Two rules with thresholds in minutes and hours -/

def fromTimeUnit (unit : String) : Int :=
  match unit with
  | "ns" => 1
  | "us" | "µs" => 1000
  | "ms" => 1000000
  | "cs" => 10000000
  | "ds" => 100000000
  | "m" | "min" => 60000000000
  | "h" => 3600000000000
  | "d" => 86400000000000
  | "w" | "wk" => 604800000000000
  | _ => 1000000000

def timeWorld : World Int := { plainWorld with convert := fun v unit ruleUnit => v * fromTimeUnit unit / fromTimeUnit ruleUnit }

def intReading : Float64.Reading Int Int :=
  { val := id, lt_iff := fun _ _ _ _ => decide_eq_true_iff, le_iff := fun _ _ _ _ => decide_eq_true_iff }

def lagLevels (hours minutes : Int) : List (ThresholdSpec Int) :=
  [{ alertAbove "critical" hours with targetUnit := "h" }, { alertAbove "warning" minutes with targetUnit := "min" }]

theorem oneDirection_lagLevels (hours minutes : Int) : OneDirection timeWorld .above "min" (lagLevels hours minutes) := by
  have hop : (compareOperatorOf "1").bind CompareOperator.direction? = some .above := by decide
  refine ⟨fun t ht => ?_, fun _ _ => rfl, fun _ _ => rfl⟩
  simp only [lagLevels, List.mem_cons, List.not_mem_nil, or_false] at ht
  rcases ht with rfl | rfl
  · exact hop
  · exact hop

/-- Above thirty hours and ten minutes the critical alert inhibits the warning. -/
theorem critical_inhibits_warning : SortsThresholds timeWorld passing (lagLevels 30 10) ∧ ∃ groups,
    (cpuDefinition false false (lagLevels 30 10)).getInhibitRules passing "r1" =
      some ((inhibitPairs passing (lagLevels 30 10)).map (fun p => inhibitOf "r1" groups p.1 p.2)) ∧
    ∀ p ∈ inhibitPairs passing (lagLevels 30 10), AtLeastAsSevere timeWorld .above "min" p.1 p.2 := by
  have hsorted : SortsThresholds timeWorld passing (lagLevels 30 10) := by
    unfold SortsThresholds
    decide
  have hstep : InStep timeWorld .above "min" (lagLevels 30 10) := by
    unfold InStep
    decide
  exact ⟨hsorted, (inhibits_by_severity_iff intReading (oneDirection_lagLevels 30 10) rfl).2 hstep passing hsorted "r1"⟩

/-- Above two hours and ninety minutes the warning comes first and inhibits the critical alert. -/
theorem warning_inhibits_critical : OneDirection timeWorld .above "min" (lagLevels 2 90) ∧
    ¬ ∀ E : Checks Int, SortsThresholds timeWorld E (lagLevels 2 90) → ∀ ruleID, ∃ groups,
      (cpuDefinition false false (lagLevels 2 90)).getInhibitRules E ruleID =
        some ((inhibitPairs E (lagLevels 2 90)).map (fun p => inhibitOf ruleID groups p.1 p.2)) ∧
      ∀ p ∈ inhibitPairs E (lagLevels 2 90), AtLeastAsSevere timeWorld .above "min" p.1 p.2 := by
  refine ⟨oneDirection_lagLevels 2 90, fun h => ?_⟩
  have hsorted : SortsThresholds timeWorld { passing with order := ⟨List.reverse, List.reverse_perm⟩ } (lagLevels 2 90) := by
    unfold SortsThresholds
    decide
  obtain ⟨_, -, hsevere⟩ := h _ hsorted "r1"
  revert hsevere
  decide

end Rules
end DsApm
