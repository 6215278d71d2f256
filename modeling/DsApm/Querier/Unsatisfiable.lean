import DsApm.Querier.NeverTrue
import Mathlib.Data.List.Infix
/-!
# Unsatisfiable — what a reported contradiction says of the filter

The meaning of a filter over the values of the fields, and what of it the detector's constraints keep.  Where a filter has no `OR`
once `NOT` is pushed inward, its constraints hold together; so what is reported of them is false of every assignment, but for the
rules that look at the values from outside (`detectContradictions_sound`).
-/
namespace DsApm
namespace NeverTrue

open List Option

/-! ## The meaning of a filter -/

/-- What a filter is about: the values of the fields, as texts, and what the operators mean that are not looked into. -/
structure World where
  value : String → Option String
  regexp : (value pattern : String) → Prop
  contains : (value part : String) → Prop
  search : String → Prop
  fold : Char → Char

/-- `LIKE`: `%` stands for any text, `_` for one character. -/
def likeMatch : (pattern text : List Char) → Bool
  | [], text => text.isEmpty
  | '%' :: pattern, text => text.tails.any (likeMatch pattern)
  | p :: pattern, text =>
    match text with
    | [] => false
    | c :: text => (p == '_' || p == c) && likeMatch pattern text

def Unless (no : Bool) (P : Prop) : Prop := if no then ¬P else P

section
variable (parseFloat : String → Option Float)

def SameNumber (v v' : String) : Prop := ∃ a b, parseFloat v = some a ∧ parseFloat v' = some b ∧ (a == b) = true

def Same (t v : String) : Prop := t = v ∨ SameNumber parseFloat t v

/-- An order comparison: with a number, of numbers; with another text, of texts. -/
def Compares (numeric : Float → Float → Prop) (textual : String → String → Prop) (t v : String) : Prop :=
  match parseFloat v with
  | some b => ∃ a, parseFloat t = some a ∧ numeric a b
  | none => textual t v

def InClause.literals : InClause → List Literal
  | .valueList values => values
  | .value v => [v]

/-- A comparison with one value, of a field that has the value `t`; `!=` is the opposite of `=`. -/
def CompareOp.Holds (t v : String) : CompareOp → Prop
  | .equals => Same parseFloat t v
  | .notEquals => Same parseFloat t v
  | .lt => Compares parseFloat (· < ·) (· < ·) t v
  | .le => Compares parseFloat (· ≤ ·) (· ≤ ·) t v
  | .gt => Compares parseFloat (· > ·) (· > ·) t v
  | .ge => Compares parseFloat (· ≥ ·) (· ≥ ·) t v

def MatchOp.Holds (w : World) (t v : String) : MatchOp → Prop
  | .like => likeMatch v.toList t.toList = true
  | .ilike => likeMatch (v.toList.map w.fold) (t.toList.map w.fold) = true
  | .regexp => w.regexp t v
  | .contains => w.contains t v

def Comparison.Holds (w : World) (x : Option String) : Comparison → Prop
  | .exist no => Unless no (∃ t, x = some t)
  | .inside clause => ∃ t, x = some t ∧ ∃ v ∈ clause.literals, Same parseFloat t (extractValue v)
  | .notInside clause => ¬∃ t, x = some t ∧ ∃ v ∈ clause.literals, Same parseFloat t (extractValue v)
  | .between no lower upper => Unless no (∃ t, x = some t ∧ Compares parseFloat (· ≥ ·) (· ≥ ·) t (extractValue lower) ∧
      Compares parseFloat (· ≤ ·) (· ≤ ·) t (extractValue upper))
  | .compare op v => Unless (op == .notEquals) (∃ t, x = some t ∧ op.Holds parseFloat t (extractValue v))
  | .pattern no op v => Unless no (∃ t, x = some t ∧ op.Holds w t (extractValue v))

mutual

def OrExpression.Holds (w : World) : OrExpression → Prop
  | .single e => e.Holds w
  | .or e rest => e.Holds w ∨ rest.Holds w

def AndExpression.Holds (w : World) : AndExpression → Prop
  | .single e => e.Holds w
  | .and e rest => e.Holds w ∧ rest.Holds w

def UnaryExpression.Holds (w : World) : UnaryExpression → Prop
  | .mk no primary => Unless no (primary.Holds w)

def Primary.Holds (w : World) : Primary → Prop
  | .paren e => e.Holds w
  | .comparison key c => c.Holds parseFloat w (w.value key)
  | .search text => w.search text

end

end

mutual

/-- No `OR` once `NOT` is pushed inward: none outside a `NOT`, and no `AND` within one. -/
def OrExpression.orFree (notContext : Bool) : OrExpression → Bool
  | .single e => e.orFree notContext
  | .or e rest => notContext && e.orFree notContext && rest.orFree notContext

def AndExpression.orFree (notContext : Bool) : AndExpression → Bool
  | .single e => e.orFree notContext
  | .and e rest => !notContext && e.orFree notContext && rest.orFree notContext

def UnaryExpression.orFree (notContext : Bool) : UnaryExpression → Bool
  | .mk no primary => primary.orFree (notContext ^^ no)

def Primary.orFree (notContext : Bool) : Primary → Bool
  | .paren e => e.orFree notContext
  | .comparison _ _ => true
  | .search _ => true

end

/-- A comparison of a filter, with whether it stands under an odd number of `NOT`s. -/
structure Atom where
  notContext : Bool
  field : String
  comparison : Comparison

mutual

def OrExpression.atoms (notContext : Bool) : OrExpression → List Atom
  | .single e => e.atoms notContext
  | .or e rest => e.atoms notContext ++ rest.atoms notContext

def AndExpression.atoms (notContext : Bool) : AndExpression → List Atom
  | .single e => e.atoms notContext
  | .and e rest => e.atoms notContext ++ rest.atoms notContext

def UnaryExpression.atoms (notContext : Bool) : UnaryExpression → List Atom
  | .mk no primary => primary.atoms (notContext ^^ no)

def Primary.atoms (notContext : Bool) : Primary → List Atom
  | .paren e => e.atoms notContext
  | .comparison key c => [⟨notContext, key, c⟩]
  | .search _ => []

end

def Atom.constraint (a : Atom) : FieldConstraint := constraintOf a.notContext a.field a.comparison

/-! ## What the constraints keep -/

section
variable (parseFloat : String → Option Float)

def FilterOperator.Orders : FilterOperator → Float → Float → Prop
  | .greaterThan, a, b => b < a
  | .greaterThanOrEq, a, b => b ≤ a
  | .lessThan, a, b => a < b
  | .lessThanOrEq, a, b => a ≤ b
  | _, _, _ => True

/-- What a constraint says of a field's value, as far as the rules use it. -/
def FieldConstraint.Fact (x : Option String) (c : FieldConstraint) : Prop :=
  match c.operator with
  | .equal => ∃ t, x = some t ∧ Same parseFloat t c.value
  | .notEqual => ∀ t, x = some t → ¬Same parseFloat t c.value
  | .greaterThan | .greaterThanOrEq | .lessThan | .lessThanOrEq =>
    ∃ t, x = some t ∧ ∀ b, parseFloat c.value = some b → ∃ a, parseFloat t = some a ∧ c.operator.Orders a b
  | .inside => ∃ t, x = some t ∧ (c.values = [] ∨ ∃ v ∈ c.values, Same parseFloat t v)
  | .notInside => ∀ t, x = some t → ∀ v ∈ c.values, ¬Same parseFloat t v
  | .exist => ∃ t, x = some t
  | .notExist => x = none
  | .between => ∃ t, x = some t ∧ ∃ lower upper, c.values = [lower, upper] ∧ ∀ min max, parseFloat lower = some min →
      parseFloat upper = some max → ∃ a, parseFloat t = some a ∧ min ≤ a ∧ a ≤ max
  | .notBetween => ∀ t lower upper min max a, x = some t → c.values = [lower, upper] → parseFloat lower = some min →
      parseFloat upper = some max → parseFloat t = some a → ¬(min ≤ a ∧ a ≤ max)
  | .like => ∃ t, x = some t ∧ likeMatch c.value.toList t.toList = true
  | .ilike | .regexp | .contain => ∃ t, x = some t
  | .notLike | .notILike | .notRegexp | .notContain | .unknown => True

def Atom.DemandsNumber (a : Atom) : Prop :=
  match a.comparison with
  | .compare op v => a.notContext = false ∧ op.operator.isRange = true ∧ (parseFloat (extractValue v)).isSome = true
  | .between no lower upper => a.notContext = no ∧ (parseFloat (extractValue lower)).isSome = true ∧
      (parseFloat (extractValue upper)).isSome = true
  | _ => False

def PlainPattern (pattern : List Char) : Prop :=
  ∃ core, (∀ c ∈ core, c ≠ '%' ∧ c ≠ '_') ∧ (pattern = core ∨ pattern = '%' :: core ∨ pattern = core ++ ['%'] ∨ pattern = '%' :: core ++ ['%'])

/-- The constraints of one field, where the rules are of values they can tell apart: no `IN` list meets a `NOT IN` list, one number
is written in one way, an `IN` is of a list, a `LIKE` beside an `=` is plain and of a text, and a `NOT BETWEEN` beside an `=` or a
`BETWEEN` is of numbers, and the only one. -/
structure Regular (cs : List FieldConstraint) : Prop where
  disjoint : ∀ c ∈ cs, ∀ d ∈ cs, c.operator = .inside → d.operator = .notInside → ∀ v ∈ c.values, v ∉ d.values
  alike : ∀ c ∈ cs, ∀ d ∈ cs, c.operator = .equal → d.operator = .equal → SameNumber parseFloat c.value d.value → c.value = d.value
  listed : ∀ c ∈ cs, ∀ d ∈ cs, c.operator = .equal → d.operator = .inside → d.values ≠ [] ∧
    ∀ v ∈ d.values, SameNumber parseFloat c.value v → c.value = v
  liked : ∀ c ∈ cs, ∀ d ∈ cs, c.operator = .equal → d.operator = .like → parseFloat c.value = none ∧ PlainPattern d.value.toList
  exact : ∀ c ∈ cs, ∀ d ∈ cs, c.operator = .equal → d.operator ≠ .ilike
  numbers : ∀ c ∈ cs, ∀ d ∈ cs, c.operator = .equal → d.operator = .notBetween → (parseFloat c.value).isSome = true ∧
    ∀ v ∈ d.values, (parseFloat v).isSome = true
  one : ∀ c ∈ cs, ∀ d ∈ cs, ∀ d' ∈ cs, c.operator = .between → d.operator = .notBetween → d'.operator = .notBetween →
    d.values = d'.values ∧ ∀ v ∈ d.values, (parseFloat v).isSome = true

variable {parseFloat}

theorem SameNumber.trans' {t v v' : String} (h : SameNumber parseFloat t v) (h' : SameNumber parseFloat t v') :
    SameNumber parseFloat v v' := by
  obtain ⟨a, b, ha, hb, heq⟩ := h
  obtain ⟨a', b', ha', hb', heq'⟩ := h'
  cases Option.some.inj (ha.symm.trans ha')
  rw [Float64.beq_iff_key] at heq heq'
  exact ⟨b, b', hb, hb', Float64.beq_iff_key.2 ⟨⟨heq.1.2, heq'.1.2⟩, heq.2.symm.trans heq'.2⟩⟩

theorem Same.both {t v v' : String} (h : Same parseFloat t v) (h' : Same parseFloat t v') : v = v' ∨ SameNumber parseFloat v v' := by
  have hsymm : ∀ {v v' : String}, SameNumber parseFloat v v' → SameNumber parseFloat v' v := by
    rintro v v' ⟨a, b, ha, hb, heq⟩
    rw [Float64.beq_iff_key] at heq
    exact ⟨b, a, hb, ha, Float64.beq_iff_key.2 ⟨heq.1.symm, heq.2.symm⟩⟩
  rcases h with rfl | h
  · exact h'.imp_right id
  · rcases h' with rfl | h'
    · exact .inr (hsymm h)
    · exact .inr (h.trans' h')

theorem Same.number {t v : String} (h : Same parseFloat t v) {b : Float} (hb : parseFloat v = some b) :
    ∃ a, parseFloat t = some a ∧ (a = b ∨ (a == b) = true) := by
  rcases h with rfl | ⟨a, b', ha, hb', heq⟩
  · exact ⟨b, hb, .inl rfl⟩
  · cases Option.some.inj (hb.symm.trans hb')
    exact ⟨a, ha, .inr heq⟩

theorem mem_having {ops : List FilterOperator} {cs : List FieldConstraint} {c : FieldConstraint} :
    c ∈ having ops cs ↔ c ∈ cs ∧ c.operator ∈ ops := by
  rw [having, mem_filter, contains_iff_mem]

theorem mem_having_one {op : FilterOperator} {cs : List FieldConstraint} {c : FieldConstraint} :
    c ∈ having [op] cs ↔ c ∈ cs ∧ c.operator = op := by
  rw [mem_having, mem_singleton]

/-! ### The rules -/

variable {x : Option String} {cs : List FieldConstraint} (hfact : ∀ c ∈ cs, c.Fact parseFloat x) (hreg : Regular parseFloat cs)
  (field : String)

include hfact in
theorem fact_equal {c : FieldConstraint} (h : c ∈ having [.equal] cs) : ∃ t, x = some t ∧ Same parseFloat t c.value := by
  obtain ⟨hc, hop⟩ := mem_having_one.1 h
  have := hfact c hc
  rwa [FieldConstraint.Fact, hop] at this

include hfact hreg in
theorem multipleEqual_nil : multipleEqual field (having [.equal] cs) = [] := by
  have hsame : ∀ c ∈ having [.equal] cs, ∀ d ∈ having [.equal] cs, c.value = d.value := by
    intro c hc d hd
    obtain ⟨t, rfl, hsame⟩ := fact_equal hfact hc
    obtain ⟨t', ht', hsame'⟩ := fact_equal hfact hd
    cases ht'
    rcases hsame.both hsame' with h | h
    · exact h
    · exact hreg.alike c (mem_having_one.1 hc).1 d (mem_having_one.1 hd).1 (mem_having_one.1 hc).2 (mem_having_one.1 hd).2 h
  rw [multipleEqual, if_neg]
  generalize having [.equal] cs = equals at hsame
  cases equals with
  | nil => simp
  | cons c equals =>
    have hnone : (equals.map FieldConstraint.value).filter (fun b => !b == c.value) = [] := by
      refine filter_eq_nil_iff.2 (List.forall_mem_map.2 fun d hd => ?_)
      simp [hsame c mem_cons_self d (mem_cons_of_mem _ hd)]
    rw [map_cons, eraseDups_cons, hnone]
    simp

include hfact in
theorem equalNotEqual_nil : equalNotEqual field (having [.equal] cs) (having [.notEqual] cs) = [] := by
  refine flatMap_eq_nil_iff.2 fun c hc => flatMap_eq_nil_iff.2 fun d hd => if_neg fun hvalue => ?_
  obtain ⟨t, rfl, hsame⟩ := fact_equal hfact hc
  obtain ⟨hd, hop⟩ := mem_having_one.1 hd
  have hnot := hfact d hd
  rw [FieldConstraint.Fact, hop] at hnot
  exact hnot t rfl (hvalue ▸ hsame)

include hfact in
theorem equalNotIn_nil {c : FieldConstraint} (hc : c ∈ having [.equal] cs) : equalNotIn field c (having [.notInside] cs) = [] := by
  refine flatMap_eq_nil_iff.2 fun d hd => flatMap_eq_nil_iff.2 fun v hv => if_neg fun hvalue => ?_
  obtain ⟨t, rfl, hsame⟩ := fact_equal hfact hc
  obtain ⟨hd, hop⟩ := mem_having_one.1 hd
  have hnot := hfact d hd
  rw [FieldConstraint.Fact, hop] at hnot
  exact hnot t rfl v hv (hvalue ▸ hsame)

include hfact hreg in
theorem equalIn_nil {c : FieldConstraint} (hc : c ∈ having [.equal] cs) : equalIn field c (having [.inside] cs) = [] := by
  refine flatMap_eq_nil_iff.2 fun d hd => if_pos ?_
  obtain ⟨t, rfl, hsame⟩ := fact_equal hfact hc
  obtain ⟨hd, hop⟩ := mem_having_one.1 hd
  obtain ⟨hne, halike⟩ := hreg.listed c (mem_having_one.1 hc).1 d hd (mem_having_one.1 hc).2 hop
  have hin := hfact d hd
  rw [FieldConstraint.Fact, hop] at hin
  obtain ⟨t', ht', hnil | ⟨v, hv, hsame'⟩⟩ := hin
  · exact absurd hnil hne
  · cases ht'
    rcases hsame.both hsame' with h | h
    · rwa [h]
    · rwa [halike v hv h]

include hreg in
theorem inNotIn_nil : inNotIn field (having [.inside] cs) (having [.notInside] cs) = [] := by
  refine flatMap_eq_nil_iff.2 fun c hc => flatMap_eq_nil_iff.2 fun d hd => if_pos ?_
  obtain ⟨hc, hcop⟩ := mem_having_one.1 hc
  obtain ⟨hd, hdop⟩ := mem_having_one.1 hd
  refine flatMap_eq_nil_iff.2 fun v hv => filter_eq_nil_iff.2 fun v' hv' heq => ?_
  rw [beq_iff_eq] at heq
  exact hreg.disjoint c hc d hd hcop hdop v hv (heq ▸ hv')

/-! ### Ranges -/

omit hfact hreg in
theorem effective_mem {beats : Float → Float → Bool} {bounds : List Bound} {b : Bound} (h : effective beats bounds = some b) : b ∈ bounds := by
  refine List.foldlRecOn (motive := fun acc : Option Bound => ∀ e ∈ acc, e ∈ bounds) bounds _ (fun e he => by cases he) ?_ b h
  intro acc hacc b hb
  cases acc with
  | none => exact fun e he => Option.some.inj he ▸ hb
  | some e' =>
    dsimp only
    split_ifs
    · exact fun e he => Option.some.inj he ▸ hb
    · exact hacc

variable (parseFloat) in
def KeepsLower (x : Option String) (b : Bound) : Prop :=
  ∃ t a, x = some t ∧ parseFloat t = some a ∧ b.value ≤ a ∧ (b.inclusive = false → b.value < a)

variable (parseFloat) in
def KeepsUpper (x : Option String) (b : Bound) : Prop :=
  ∃ t a, x = some t ∧ parseFloat t = some a ∧ a ≤ b.value ∧ (b.inclusive = false → a < b.value)

theorem le_of_lt {a b : Float} (h : a < b) : a ≤ b := by
  rw [Float64.lt_iff_key] at h
  exact Float64.le_iff_key.2 ⟨h.1, h.2.le⟩

include hfact in
theorem keepsLower {ops : List FilterOperator} {b : Bound} (h : b ∈ lowerBounds parseFloat (having ops cs)) :
    KeepsLower parseFloat x b := by
  obtain ⟨c, hc, hb⟩ := mem_filterMap.1 h
  have hc := hfact c (mem_having.1 hc).1
  split at hb
  · rename_i v hop hv
    cases hb
    rw [FieldConstraint.Fact, hop] at hc
    obtain ⟨t, ht, hc⟩ := hc
    obtain ⟨a, ha, hlt⟩ := hc v hv
    exact ⟨t, a, ht, ha, le_of_lt hlt, fun _ => hlt⟩
  · rename_i v hop hv
    cases hb
    rw [FieldConstraint.Fact, hop] at hc
    obtain ⟨t, ht, hc⟩ := hc
    obtain ⟨a, ha, hle⟩ := hc v hv
    exact ⟨t, a, ht, ha, hle, fun h => nomatch h⟩
  · cases hb

include hfact in
theorem keepsUpper {ops : List FilterOperator} {b : Bound} (h : b ∈ upperBounds parseFloat (having ops cs)) :
    KeepsUpper parseFloat x b := by
  obtain ⟨c, hc, hb⟩ := mem_filterMap.1 h
  have hc := hfact c (mem_having.1 hc).1
  split at hb
  · rename_i v hop hv
    cases hb
    rw [FieldConstraint.Fact, hop] at hc
    obtain ⟨t, ht, hc⟩ := hc
    obtain ⟨a, ha, hlt⟩ := hc v hv
    exact ⟨t, a, ht, ha, le_of_lt hlt, fun _ => hlt⟩
  · rename_i v hop hv
    cases hb
    rw [FieldConstraint.Fact, hop] at hc
    obtain ⟨t, ht, hc⟩ := hc
    obtain ⟨a, ha, hle⟩ := hc v hv
    exact ⟨t, a, ht, ha, hle, fun h => nomatch h⟩
  · cases hb

include hfact in
theorem checkRangeContradictions_false (ops : List FilterOperator) : checkRangeContradictions parseFloat (having ops cs) = false := by
  unfold checkRangeContradictions
  split
  · rename_i lower upper hlower hupper
    obtain ⟨t, a, rfl, ha, hle, hlt⟩ := keepsLower hfact (effective_mem hlower)
    obtain ⟨t', a', ht', ha', hle', hlt'⟩ := keepsUpper hfact (effective_mem hupper)
    cases ht'
    cases Option.some.inj (ha.symm.trans ha')
    rw [Float64.le_iff_key] at hle hle'
    have hkey := hle.2.trans hle'.2
    rw [Bool.or_eq_false_iff]
    constructor
    · rw [decide_eq_false_iff_not]
      intro hgt
      exact absurd (Float64.lt_iff_key.1 hgt).2 (not_lt.2 hkey)
    · rw [Bool.and_eq_false_iff, Classical.or_iff_not_imp_left, Bool.not_eq_false]
      intro heq
      have heq := (Float64.beq_iff_key.1 heq).2
      cases hli : lower.inclusive with
      | false =>
        have hstrict := (Float64.lt_iff_key.1 (hlt hli)).2
        exact absurd (hstrict.trans_le hle'.2) (by rw [heq]; exact lt_irrefl _)
      | true =>
        cases hui : upper.inclusive with
        | false =>
          have hstrict := (Float64.lt_iff_key.1 (hlt' hui)).2
          exact absurd (hle.2.trans_lt hstrict) (by rw [heq]; exact lt_irrefl _)
        | true => rfl
  · rfl

omit hfact hreg in
theorem satisfiesRange_of_orders {c : FieldConstraint} {a val : Float} (hkey : Float64.key a = Float64.key val)
    (h : ∀ b, parseFloat c.value = some b → c.operator.Orders a b) : satisfiesRange parseFloat val c = true := by
  unfold satisfiesRange
  cases hb : parseFloat c.value with
  | none => rfl
  | some b =>
    have h := h b hb
    generalize c.operator = op at h
    cases op
    case greaterThan =>
      rw [FilterOperator.Orders, Float64.lt_iff_key, hkey] at h
      simp [Float64.le_iff_key, h.2]
    case greaterThanOrEq =>
      rw [FilterOperator.Orders, Float64.le_iff_key, hkey] at h
      simp [Float64.lt_iff_key, h.2]
    case lessThan =>
      rw [FilterOperator.Orders, Float64.lt_iff_key, hkey] at h
      simp [Float64.le_iff_key, h.2]
    case lessThanOrEq =>
      rw [FilterOperator.Orders, Float64.le_iff_key, hkey] at h
      simp [Float64.lt_iff_key, h.2]
    all_goals rfl

omit hfact hreg in
theorem Same.key {t v : String} (h : Same parseFloat t v) {a b : Float} (ha : parseFloat t = some a) (hb : parseFloat v = some b) :
    Float64.key a = Float64.key b ∧ a.isNaN = b.isNaN := by
  obtain ⟨a', ha', heq⟩ := h.number hb
  cases Option.some.inj (ha.symm.trans ha')
  rcases heq with rfl | heq
  · exact ⟨rfl, rfl⟩
  · rw [Float64.beq_iff_key] at heq
    exact ⟨heq.2, heq.1.1.trans heq.1.2.symm⟩

include hfact in
theorem equalRange_nil (ops : List FilterOperator) : equalRange parseFloat field (having [.equal] cs) (having ops cs) = [] := by
  refine flatMap_eq_nil_iff.2 fun c hc => if_pos ?_
  obtain ⟨t, rfl, hsame⟩ := fact_equal hfact hc
  unfold valuesSatisfyRanges
  cases hval : parseFloat c.value with
  | none => rfl
  | some val =>
    refine List.all_eq_true.2 fun d hd => ?_
    obtain ⟨a, ha, -⟩ := hsame.number hval
    refine satisfiesRange_of_orders (hsame.key ha hval).1 fun b hb => ?_
    have hd := hfact d (mem_having.1 hd).1
    rw [FieldConstraint.Fact] at hd
    generalize hop : d.operator = op at hd
    cases op
    case greaterThan | greaterThanOrEq | lessThan | lessThanOrEq =>
      obtain ⟨t', ht', hd⟩ := hd
      cases ht'
      obtain ⟨a', ha', hd⟩ := hd b hb
      cases Option.some.inj (ha.symm.trans ha')
      exact hd
    all_goals exact trivial

/-! ### Existence -/

include hfact in
theorem existNotExist_nil : existNotExist field (having [.exist] cs) (having [.notExist] cs) = [] := by
  rw [existNotExist, if_neg]
  rintro ⟨hexist, hnot⟩
  obtain ⟨c, hc⟩ := exists_mem_of_ne_nil _ hexist
  obtain ⟨d, hd⟩ := exists_mem_of_ne_nil _ hnot
  obtain ⟨hc, hcop⟩ := mem_having_one.1 hc
  obtain ⟨hd, hdop⟩ := mem_having_one.1 hd
  have hc := hfact c hc
  have hd := hfact d hd
  rw [FieldConstraint.Fact, hcop] at hc
  rw [FieldConstraint.Fact, hdop] at hd
  obtain ⟨t, ht⟩ := hc
  rw [hd] at ht
  cases ht

omit hfact hreg in
theorem exists_of_default {c : FieldConstraint} (hc : c.Fact parseFloat x) (hop : c.operator.addDefaultExistsFilter = true) :
    ∃ t, x = some t := by
  rw [FieldConstraint.Fact] at hc
  generalize c.operator = op at hc hop
  cases op
  case equal | greaterThan | greaterThanOrEq | lessThan | lessThanOrEq | inside | between | like =>
    obtain ⟨t, ht, -⟩ := hc
    exact ⟨t, ht⟩
  case ilike | regexp | contain => exact hc
  all_goals cases hop

include hfact in
theorem impliedExist_nil : impliedExist field (having [.notExist] cs) cs = [] := by
  rw [impliedExist]
  split_ifs with hnone
  · rfl
  · obtain ⟨d, hd⟩ := exists_mem_of_ne_nil _ hnone
    obtain ⟨hd, hdop⟩ := mem_having_one.1 hd
    have hd := hfact d hd
    rw [FieldConstraint.Fact, hdop] at hd
    split
    · rfl
    · rename_i c hfind
      have hop := List.find?_some hfind
      rw [Bool.and_eq_true] at hop
      obtain ⟨t, ht⟩ := exists_of_default (hfact c (mem_of_find?_eq_some hfind)) hop.1
      rw [hd] at ht
      cases ht

/-! ### BETWEEN -/

omit hfact hreg in
theorem mem_numericRanges {bs : List FieldConstraint} {r : Float × Float} (h : r ∈ numericRanges parseFloat bs) :
    ∃ b ∈ bs, ∃ lower upper, b.values = [lower, upper] ∧ parseFloat lower = some r.1 ∧ parseFloat upper = some r.2 := by
  obtain ⟨b, hb, hr⟩ := mem_filterMap.1 h
  split at hr
  · rename_i lower upper hvalues
    split at hr
    · rename_i min max hmin hmax
      cases hr
      exact ⟨b, hb, lower, upper, hvalues, hmin, hmax⟩
    · cases hr
  · cases hr

variable (parseFloat) in
def InRange (x : Option String) (r : Float × Float) : Prop := ∃ t a, x = some t ∧ parseFloat t = some a ∧ r.1 ≤ a ∧ a ≤ r.2

include hfact in
theorem inRange {r : Float × Float} (h : r ∈ numericRanges parseFloat (having [.between] cs)) :
    InRange parseFloat x r := by
  obtain ⟨b, hb, lower, upper, hvalues, hmin, hmax⟩ := mem_numericRanges h
  obtain ⟨hb, hop⟩ := mem_having_one.1 hb
  have hb := hfact b hb
  rw [FieldConstraint.Fact, hop] at hb
  obtain ⟨t, ht, lower', upper', hvalues', hb⟩ := hb
  cases hvalues.symm.trans hvalues'
  obtain ⟨a, ha, hle, hle'⟩ := hb _ _ hmin hmax
  exact ⟨t, a, ht, ha, hle, hle'⟩

include hfact in
theorem betweens_nil : betweens parseFloat field (having [.between] cs) = [] := by
  rw [betweens, if_neg]
  rintro ⟨-, hcommon⟩
  rw [hasCommonIntersection] at hcommon
  have hin : ∀ r ∈ numericRanges parseFloat (having [.between] cs), InRange parseFloat x r := fun r hr => inRange hfact hr
  generalize numericRanges parseFloat (having [.between] cs) = rs at hcommon hin
  cases rs with
  | nil => cases hcommon
  | cons first rs =>
    obtain ⟨hfirst, hrs⟩ := forall_mem_cons.1 hin
    obtain ⟨t, a, rfl, ha, hfirst⟩ := hfirst
    have hfold : ∀ (rs : List (Float × Float)) (acc : Float × Float), (acc.1 ≤ a ∧ a ≤ acc.2) →
        (∀ r ∈ rs, InRange parseFloat (some t) r) →
        let out := rs.foldl (fun (acc : Float × Float) r =>
          (if r.1 > acc.1 then r.1 else acc.1, if r.2 < acc.2 then r.2 else acc.2)) acc
        out.1 ≤ a ∧ a ≤ out.2 := by
      intro rs
      induction rs with
      | nil => exact fun acc hacc _ => hacc
      | cons r rs ih =>
        intro acc hacc hrs
        obtain ⟨⟨t', a', ht', ha', hr⟩, hrs⟩ := forall_mem_cons.1 hrs
        cases ht'
        cases Option.some.inj (ha.symm.trans ha')
        refine ih _ ⟨?_, ?_⟩ hrs
        · dsimp only
          split_ifs
          · exact hr.1
          · exact hacc.1
        · dsimp only
          split_ifs
          · exact hr.2
          · exact hacc.2
    obtain ⟨hlo, hhi⟩ := hfold rs first hfirst hrs
    rw [Float64.le_iff_key] at hlo hhi
    rw [decide_eq_false_iff_not, Float64.le_iff_key] at hcommon
    exact hcommon ⟨⟨hlo.1.1, hhi.1.2⟩, hlo.2.trans hhi.2⟩

include hfact in
theorem equalBetween_nil : equalBetween parseFloat field (having [.equal] cs) (having [.between] cs) = [] := by
  refine flatMap_eq_nil_iff.2 fun c hc => if_neg ?_
  rintro ⟨hne, hany⟩
  obtain ⟨t, rfl, hsame⟩ := fact_equal hfact hc
  obtain ⟨b, hb⟩ := exists_mem_of_ne_nil _ hne
  have hfalse := List.any_eq_false.1 hany b hb
  obtain ⟨hb, hop⟩ := mem_having_one.1 hb
  have hb := hfact b hb
  rw [FieldConstraint.Fact, hop] at hb
  obtain ⟨t', ht', lower, upper, hvalues, hb⟩ := hb
  cases ht'
  apply hfalse
  rw [valueSatisfiesBetween, hvalues]
  dsimp only
  cases hval : parseFloat c.value with
  | none => rfl
  | some val =>
    cases hmin : parseFloat lower with
    | none => rfl
    | some min =>
      cases hmax : parseFloat upper with
      | none => rfl
      | some max =>
        obtain ⟨a, ha, hlo, hhi⟩ := hb min max hmin hmax
        obtain ⟨hkey, hnan⟩ := hsame.key ha hval
        rw [Float64.le_iff_key, hkey, hnan] at hlo hhi
        rw [Bool.and_eq_true, decide_eq_true_iff, decide_eq_true_iff, ge_iff_le, Float64.le_iff_key, Float64.le_iff_key]
        exact ⟨hlo, hhi⟩

omit hfact hreg in
theorem between_of_numbers {b : FieldConstraint} {val : Float} (hnum : ∀ v ∈ b.values, (parseFloat v).isSome = true)
    (h : valueSatisfiesBetween parseFloat (some val) b = true) : ∃ lower upper min max, b.values = [lower, upper] ∧
      parseFloat lower = some min ∧ parseFloat upper = some max ∧ min ≤ val ∧ val ≤ max := by
  unfold valueSatisfiesBetween at h
  split at h
  · rename_i lower upper hvalues
    rw [hvalues] at hnum
    obtain ⟨min, hmin⟩ := isSome_iff_exists.1 (hnum lower (by simp))
    obtain ⟨max, hmax⟩ := isSome_iff_exists.1 (hnum upper (by simp))
    rw [hmin, hmax] at h
    dsimp only at h
    rw [Bool.and_eq_true, decide_eq_true_iff, decide_eq_true_iff] at h
    exact ⟨lower, upper, min, max, hvalues, hmin, hmax, h⟩
  · cases h

include hfact hreg in
theorem equalNotBetween_nil : equalNotBetween parseFloat field (having [.equal] cs) (having [.notBetween] cs) = [] := by
  refine flatMap_eq_nil_iff.2 fun c hc => flatMap_eq_nil_iff.2 fun d hd => if_neg fun hsat => ?_
  obtain ⟨t, rfl, hsame⟩ := fact_equal hfact hc
  obtain ⟨hd, hop⟩ := mem_having_one.1 hd
  obtain ⟨hval, hnum⟩ := hreg.numbers c (mem_having_one.1 hc).1 d hd (mem_having_one.1 hc).2 hop
  obtain ⟨val, hval⟩ := isSome_iff_exists.1 hval
  rw [hval] at hsat
  obtain ⟨lower, upper, min, max, hvalues, hmin, hmax, hlo, hhi⟩ := between_of_numbers hnum hsat
  have hd := hfact d hd
  rw [FieldConstraint.Fact, hop] at hd
  obtain ⟨a, ha, -⟩ := hsame.number hval
  obtain ⟨hkey, hnan⟩ := hsame.key ha hval
  rw [Float64.le_iff_key] at hlo hhi
  rw [← hkey, ← hnan, ← Float64.le_iff_key] at hlo hhi
  exact hd t lower upper min max a rfl hvalues hmin hmax ha ⟨hlo, hhi⟩

include hfact hreg in
theorem betweenNotBetween_nil :
    betweenNotBetween parseFloat field (having [.between] cs) (having [.notBetween] cs) = [] := by
  rw [betweenNotBetween]
  split_ifs
  · rfl
  refine flatMap_eq_nil_iff.2 fun r hr => if_pos ?_
  by_contra hnone
  rw [Bool.not_eq_true, List.any_eq_false] at hnone
  obtain ⟨b, hb, -⟩ := mem_numericRanges hr
  obtain ⟨hb, hbop⟩ := mem_having_one.1 hb
  obtain ⟨t, a, rfl, ha, hlo, hhi⟩ := inRange hfact hr
  -- each end is in a range that is excluded, and there is one only
  have hend : ∀ v ∈ [r.1, r.2, (r.1 + r.2) / 2], ∃ d ∈ having [.notBetween] cs, valueSatisfiesBetween parseFloat (some v) d = true := by
    intro v hv
    have := hnone v hv
    rw [List.all_eq_true] at this
    push Not at this
    obtain ⟨d, hd, hsat⟩ := this
    exact ⟨d, hd, by simpa using hsat⟩
  obtain ⟨d, hd, hlower⟩ := hend r.1 (by simp)
  obtain ⟨d', hd', hupper⟩ := hend r.2 (by simp)
  obtain ⟨hd, hdop⟩ := mem_having_one.1 hd
  obtain ⟨hd', hdop'⟩ := mem_having_one.1 hd'
  obtain ⟨hsame, hnum⟩ := hreg.one b hb d hd d' hd' hbop hdop hdop'
  obtain ⟨lower, upper, min, max, hvalues, hmin, hmax, hminle, -⟩ := between_of_numbers hnum hlower
  obtain ⟨lower', upper', min', max', hvalues', hmin', hmax', -, hlemax⟩ := between_of_numbers (hsame ▸ hnum) hupper
  cases (hvalues.symm.trans hsame).trans hvalues'
  cases Option.some.inj (hmax.symm.trans hmax')
  have hd := hfact d hd
  rw [FieldConstraint.Fact, hdop] at hd
  refine hd t lower upper min max a rfl hvalues hmin hmax ha ⟨?_, ?_⟩
  · rw [Float64.le_iff_key] at hminle hlo ⊢
    exact ⟨⟨hminle.1.1, hlo.1.2⟩, hminle.2.trans hlo.2⟩
  · rw [Float64.le_iff_key] at hlemax hhi ⊢
    exact ⟨⟨hhi.1.1, hlemax.1.2⟩, hhi.2.trans hlemax.2⟩

/-! ### LIKE -/

omit hfact hreg in
theorem likeMatch_cons {p : Char} (hp : p ≠ '%' ∧ p ≠ '_') (pattern text : List Char) :
    likeMatch (p :: pattern) text = true ↔ ∃ text', text = p :: text' ∧ likeMatch pattern text' = true := by
  cases text with
  | nil => simp [likeMatch, hp.1]
  | cons c text =>
    have hunfold : likeMatch (p :: pattern) (c :: text) = ((p == '_' || p == c) && likeMatch pattern text) := by
      simp [likeMatch, hp.1]
    rw [hunfold, beq_false_of_ne hp.2, Bool.false_or, Bool.and_eq_true, beq_iff_eq]
    constructor
    · rintro ⟨rfl, h⟩
      exact ⟨text, rfl, h⟩
    · rintro ⟨text', heq, h⟩
      cases heq
      exact ⟨rfl, h⟩

omit hfact hreg in
theorem likeMatch_core {core : List Char} (hcore : ∀ c ∈ core, c ≠ '%' ∧ c ≠ '_') (pattern text : List Char) :
    likeMatch (core ++ pattern) text = true ↔ ∃ rest, text = core ++ rest ∧ likeMatch pattern rest = true := by
  induction core generalizing text with
  | nil => simp
  | cons p core ih =>
    obtain ⟨hp, hcore⟩ := forall_mem_cons.1 hcore
    rw [cons_append, likeMatch_cons hp]
    simp only [ih hcore]
    constructor
    · rintro ⟨_, rfl, rest, rfl, h⟩
      exact ⟨rest, rfl, h⟩
    · rintro ⟨rest, rfl, h⟩
      exact ⟨core ++ rest, rfl, rest, rfl, h⟩

omit hfact hreg in
theorem likeMatch_any (pattern text : List Char) :
    likeMatch ('%' :: pattern) text = true ↔ ∃ l r, text = l ++ r ∧ likeMatch pattern r = true := by
  rw [likeMatch, List.any_eq_true]
  constructor
  · rintro ⟨r, hr, h⟩
    obtain ⟨l, rfl⟩ := (mem_tails _ _).1 hr
    exact ⟨l, r, rfl, h⟩
  · rintro ⟨l, r, rfl, h⟩
    exact ⟨r, (mem_tails _ _).2 (suffix_append l r), h⟩

omit hfact hreg in
theorem matchesLikePattern_of_likeMatch {text pattern : List Char} (hplain : PlainPattern pattern) (h : likeMatch pattern text = true)
    {found : Bool} (hfound : matchesLikePattern text pattern = some found) : found = true := by
  obtain ⟨core, hcore, hpattern⟩ := hplain
  have hhead : core.head? ≠ some '%' := fun hc => (hcore '%' (mem_of_head? hc)).1 rfl
  have hlast : core.getLast? ≠ some '%' := fun hc => (hcore '%' (mem_of_getLast? hc)).1 rfl
  have hrest : ∀ {text : List Char}, likeMatch core text = true → text = core := by
    intro text h
    rw [← append_nil core, likeMatch_core hcore] at h
    obtain ⟨rest, rfl, hrest⟩ := h
    cases rest with
    | nil => rw [append_nil]
    | cons c rest => cases hrest
  unfold matchesLikePattern at hfound
  rcases hpattern with rfl | rfl | rfl | rfl
  · rw [if_neg (fun hc => hhead hc.1), if_neg hhead, if_neg hlast] at hfound
    rw [← Option.some.inj hfound, hrest h, beq_self_eq_true]
  · obtain ⟨l, r, rfl, hr⟩ := (likeMatch_any _ _).1 h
    cases hr' : hrest hr
    cases core with
    | nil => cases hfound
    | cons c core =>
      rw [if_neg (fun hc => hlast (by rw [← hc.2]; rfl)), if_pos (List.head?_cons ..), tail_cons] at hfound
      rw [← Option.some.inj hfound, isSuffixOf_iff_suffix]
      exact suffix_append l _
  · obtain ⟨rest, rfl, -⟩ := (likeMatch_core hcore _ _).1 h
    cases core with
    | nil => cases hfound
    | cons c core =>
      have hhead : ¬(c :: core ++ ['%']).head? = some '%' := hhead
      rw [if_neg (fun hc => hhead hc.1), if_neg hhead, if_pos List.getLast?_concat, dropLast_concat] at hfound
      rw [← Option.some.inj hfound, isPrefixOf_iff_prefix]
      exact prefix_append _ rest
  · obtain ⟨l, r, rfl, hr⟩ := (likeMatch_any _ _).1 h
    obtain ⟨rest, rfl, -⟩ := (likeMatch_core hcore _ _).1 hr
    rw [if_pos ⟨rfl, List.getLast?_concat⟩, if_neg (by simp), cons_append, tail_cons, dropLast_concat] at hfound
    rw [← Option.some.inj hfound, GoStd.contains, List.any_eq_true]
    refine ⟨core ++ rest, (mem_tails _ _).2 (suffix_append l _), ?_⟩
    rw [ isPrefixOf_iff_prefix]
    exact prefix_append _ rest

omit hfact hreg in
theorem collect_nil {α : Type} {f : α → Option (List String)} {as : List α} (hf : ∀ a ∈ as, ∀ ms, f a = some ms → ms = [])
    {ms : List String} (h : collect f as = some ms) : ms = [] := by
  induction as generalizing ms with
  | nil =>
    cases h
    rfl
  | cons a as ih =>
    obtain ⟨ha, has⟩ := forall_mem_cons.1 hf
    rw [collect, bind_eq_some_iff] at h
    obtain ⟨ms', hms', h⟩ := h
    obtain ⟨ms'', hms'', rfl⟩ := map_eq_some_iff.1 h
    rw [ha ms' hms', ih has hms'']
    rfl

include hfact hreg in
theorem equalLike_nil {ms : List String}
    (h : equalLike field (having [.equal] cs) (having [.like, .ilike, .notLike, .notILike] cs) = some ms) : ms = [] := by
  refine collect_nil (fun c hc ms hms => collect_nil (fun d hd ms hms => ?_) hms) h
  obtain ⟨t, rfl, hsame⟩ := fact_equal hfact hc
  obtain ⟨hc, hcop⟩ := mem_having_one.1 hc
  have hd := (mem_having.1 hd).1
  rw [equalLikeOne] at hms
  split_ifs at hms with hop
  · obtain ⟨found, hfound, rfl⟩ := map_eq_some_iff.1 hms
    rcases hop with hop | hop
    · obtain ⟨htext, hplain⟩ := hreg.liked c hc d hd hcop hop
      have hlike := hfact d hd
      rw [FieldConstraint.Fact, hop] at hlike
      obtain ⟨t', ht', hlike⟩ := hlike
      cases ht'
      rcases hsame with rfl | ⟨-, b, -, hb, -⟩
      · rw [matchesLikePattern_of_likeMatch hplain hlike hfound]
        rfl
      · rw [htext] at hb
        cases hb
    · exact absurd hop (hreg.exact c hc d hd hcop)
  · exact (Option.some.inj hms).symm

include hfact hreg in
theorem findContradictionsInConstraints_nil {ms : List String}
    (h : findContradictionsInConstraints parseFloat field cs = some ms) : ms = [] := by
  obtain ⟨liked, hliked, rfl⟩ := map_eq_some_iff.1 h
  have hequal : ((having [.equal] cs).flatMap fun eq =>
      equalNotIn field eq (having [.notInside] cs) ++ equalIn field eq (having [.inside] cs)) = [] := by
    refine flatMap_eq_nil_iff.2 fun c hc => ?_
    rw [equalNotIn_nil hfact field hc, equalIn_nil hfact hreg field hc]
    rfl
  have hranges : ranges parseFloat field (having [.lessThan, .lessThanOrEq, .greaterThan, .greaterThanOrEq] cs) = [] :=
    if_neg (by rw [checkRangeContradictions_false hfact]; exact Bool.false_ne_true)
  rw [equalLike_nil hfact hreg field hliked, multipleEqual_nil hfact hreg, equalNotEqual_nil hfact, hequal, inNotIn_nil hreg, hranges,
    equalRange_nil hfact, existNotExist_nil hfact, impliedExist_nil hfact, betweens_nil hfact, equalBetween_nil hfact,
    equalNotBetween_nil hfact hreg, betweenNotBetween_nil hfact hreg]
  rfl

/-! ## From the filter to the constraints -/

omit hfact hreg in
theorem unless_xor {no no' : Bool} {P : Prop} : Unless (no ^^ no') P ↔ Unless no (Unless no' P) := by
  cases no <;> cases no' <;> simp [Unless]

variable (parseFloat) in
def Atom.Holds (w : World) (a : Atom) : Prop := Unless a.notContext (a.comparison.Holds parseFloat w (w.value a.field))

variable {w : World}

mutual

theorem OrExpression.atoms_hold : ∀ (notContext : Bool) (e : OrExpression), e.orFree notContext = true →
    Unless notContext (e.Holds parseFloat w) → ∀ a ∈ e.atoms notContext, a.Holds parseFloat w
  | notContext, .single e, hfree, h => AndExpression.atoms_hold notContext e hfree h
  | false, .or e rest, hfree, h => nomatch hfree
  | true, .or e rest, hfree, h => by
    rw [OrExpression.orFree, Bool.true_and, Bool.and_eq_true] at hfree
    have hnone := not_or.1 h
    exact forall_mem_append.2 ⟨AndExpression.atoms_hold true e hfree.1 hnone.1, OrExpression.atoms_hold true rest hfree.2 hnone.2⟩

theorem AndExpression.atoms_hold : ∀ (notContext : Bool) (e : AndExpression), e.orFree notContext = true →
    Unless notContext (e.Holds parseFloat w) → ∀ a ∈ e.atoms notContext, a.Holds parseFloat w
  | notContext, .single e, hfree, h => UnaryExpression.atoms_hold notContext e hfree h
  | true, .and e rest, hfree, h => nomatch hfree
  | false, .and e rest, hfree, h => by
    rw [AndExpression.orFree, Bool.not_false, Bool.true_and, Bool.and_eq_true] at hfree
    have hboth : e.Holds parseFloat w ∧ rest.Holds parseFloat w := h
    exact forall_mem_append.2 ⟨UnaryExpression.atoms_hold false e hfree.1 hboth.1, AndExpression.atoms_hold false rest hfree.2 hboth.2⟩

theorem UnaryExpression.atoms_hold : ∀ (notContext : Bool) (e : UnaryExpression), e.orFree notContext = true →
    Unless notContext (e.Holds parseFloat w) → ∀ a ∈ e.atoms notContext, a.Holds parseFloat w
  | notContext, .mk no primary, hfree, h => Primary.atoms_hold (notContext ^^ no) primary hfree (unless_xor.2 h)

theorem Primary.atoms_hold : ∀ (notContext : Bool) (e : Primary), e.orFree notContext = true →
    Unless notContext (e.Holds parseFloat w) → ∀ a ∈ e.atoms notContext, a.Holds parseFloat w
  | notContext, .paren e, hfree, h => OrExpression.atoms_hold notContext e hfree h
  | notContext, .comparison key c, hfree, h => by
    rw [Primary.atoms, forall_mem_singleton]
    exact h
  | _, .search _, _, _ => by
    rw [Primary.atoms]
    exact fun a ha => nomatch ha

end

variable (parseFloat) in
def Numeric (x : Option String) : Prop := ∃ t a, x = some t ∧ parseFloat t = some a ∧ a.isNaN = false

omit hfact hreg in
theorem compares_number {R : Float → Float → Prop} {Q : String → String → Prop} {t v : String} {b : Float} (hb : parseFloat v = some b) :
    Compares parseFloat R Q t v ↔ ∃ a, parseFloat t = some a ∧ R a b := by
  rw [Compares, hb]

omit hfact hreg in
theorem CompareOp.holds_iff {op : CompareOp} (hrange : op.operator.isRange = true) {t v : String} {b : Float} (hb : parseFloat v = some b) :
    op.Holds parseFloat t v ↔ ∃ a, parseFloat t = some a ∧ op.operator.Orders a b := by
  cases op with
  | equals | notEquals => cases hrange
  | lt | le | gt | ge => exact compares_number hb

omit hfact hreg in
theorem FilterOperator.Orders.numbers {op : FilterOperator} (hrange : op.isRange = true) {a b : Float} (h : op.Orders a b) :
    a.isNaN = false ∧ b.isNaN = false := by
  cases op
  case greaterThan => exact (Float64.lt_iff_key.1 h).1.symm
  case greaterThanOrEq => exact (Float64.le_iff_key.1 h).1.symm
  case lessThan => exact (Float64.lt_iff_key.1 h).1
  case lessThanOrEq => exact (Float64.le_iff_key.1 h).1
  all_goals cases hrange

omit hfact hreg in
theorem orders_negate {op : FilterOperator} (hrange : op.isRange = true) {a b : Float} (ha : a.isNaN = false) (hb : b.isNaN = false)
    (h : ¬op.Orders a b) : op.negate.Orders a b := by
  cases op
  case greaterThan | greaterThanOrEq | lessThan | lessThanOrEq =>
    simp only [FilterOperator.Orders, FilterOperator.negate, Float64.lt_iff_key, Float64.le_iff_key, ha, hb, and_self, true_and,
      not_lt, not_le] at h ⊢
    exact h
  all_goals cases hrange

omit hfact hreg in
theorem Atom.numeric {a : Atom} (h : a.Holds parseFloat w) (hdemands : a.DemandsNumber parseFloat) :
    Numeric parseFloat (w.value a.field) := by
  obtain ⟨notContext, field, c⟩ := a
  cases c with
  | compare op v =>
    obtain ⟨rfl, hrange, hv⟩ := hdemands
    obtain ⟨b, hb⟩ := isSome_iff_exists.1 hv
    have hpositive : (op == .notEquals) = false := by
      cases op with
      | notEquals => cases hrange
      | _ => rfl
    have h : Unless (op == .notEquals) (∃ t, w.value field = some t ∧ op.Holds parseFloat t (extractValue v)) := h
    rw [hpositive] at h
    obtain ⟨t, ht, h⟩ := h
    obtain ⟨a, ha, h⟩ := (CompareOp.holds_iff hrange hb).1 h
    exact ⟨t, a, ht, ha, (h.numbers hrange).1⟩
  | between no lower upper =>
    obtain ⟨hno, hlower, -⟩ := hdemands
    obtain ⟨b, hb⟩ := isSome_iff_exists.1 hlower
    have hno : notContext = no := hno
    have h : Unless notContext (Unless no (∃ t, w.value field = some t ∧
        Compares parseFloat (· ≥ ·) (· ≥ ·) t (extractValue lower) ∧ Compares parseFloat (· ≤ ·) (· ≤ ·) t (extractValue upper))) := h
    rw [← unless_xor, hno, Bool.xor_self] at h
    obtain ⟨t, ht, h, -⟩ := h
    obtain ⟨a, ha, hge⟩ := (compares_number hb).1 h
    exact ⟨t, a, ht, ha, (Float64.le_iff_key.1 hge).1.2⟩
  | exist no => cases hdemands
  | inside clause => cases hdemands
  | notInside clause => cases hdemands
  | pattern no op v => cases hdemands

omit hfact hreg in
theorem fact_of_orders {c : FieldConstraint} (hrange : c.operator.isRange = true)
    (h : ∃ t, x = some t ∧ ∀ b, parseFloat c.value = some b → ∃ a, parseFloat t = some a ∧ c.operator.Orders a b) : c.Fact parseFloat x := by
  rw [FieldConstraint.Fact]
  generalize c.operator = op at hrange h
  cases op
  case greaterThan | greaterThanOrEq | lessThan | lessThanOrEq => exact h
  all_goals cases hrange

omit hfact hreg in
/-- What a range comparison of a number says, with its operator or the opposite one. -/
theorem fact_range {a : Atom} {op : CompareOp} {v : Literal} (hc : a.comparison = .compare op v) (hrange : op.operator.isRange = true)
    (h : a.Holds parseFloat w) (hnumeric : a.notContext = true → (∀ b, parseFloat (extractValue v) = some b → b.isNaN = false) ∧
      Numeric parseFloat (w.value a.field)) : a.constraint.Fact parseFloat (w.value a.field) := by
  obtain ⟨notContext, field, c⟩ := a
  cases hc
  have hpositive : (op == .notEquals) = false := by
    cases op with
    | notEquals => cases hrange
    | _ => rfl
  have h : Unless notContext (Unless (op == .notEquals) (∃ t, w.value field = some t ∧ op.Holds parseFloat t (extractValue v))) := h
  rw [hpositive] at h
  cases notContext with
  | false =>
    obtain ⟨t, ht, h⟩ := h
    exact fact_of_orders hrange ⟨t, ht, fun b hb => (CompareOp.holds_iff hrange hb).1 h⟩
  | true =>
    obtain ⟨hbound, t, a, ht, ha, hnan⟩ := hnumeric rfl
    have hnegate : op.operator.negate.isRange = true := by
      cases op with
      | equals | notEquals => cases hrange
      | _ => rfl
    refine fact_of_orders hnegate ⟨t, ht, fun b hb => ⟨a, ha, orders_negate hrange hnan (hbound b hb) fun horders => ?_⟩⟩
    exact h ⟨t, ht, (CompareOp.holds_iff hrange hb).2 ⟨a, ha, horders⟩⟩

omit hfact hreg in
theorem fact_equality {a : Atom} {op : CompareOp} {v : Literal} (hc : a.comparison = .compare op v) (hrange : op.operator.isRange = false)
    (h : a.Holds parseFloat w) : a.constraint.Fact parseFloat (w.value a.field) := by
  obtain ⟨notContext, field, c⟩ := a
  cases hc
  cases op with
  | equals =>
    cases notContext with
    | false => exact h
    | true => exact fun t ht hsame => h ⟨t, ht, hsame⟩
  | notEquals =>
    cases notContext with
    | false => exact fun t ht hsame => h ⟨t, ht, hsame⟩
    | true => exact not_not.1 h
  | lt | le | gt | ge => cases hrange

omit hfact hreg in
theorem fact_between {a : Atom} {no : Bool} {lower upper : Literal} (hc : a.comparison = .between no lower upper)
    (h : a.Holds parseFloat w) : a.constraint.Fact parseFloat (w.value a.field) := by
  obtain ⟨notContext, field, c⟩ := a
  cases hc
  have h : Unless notContext (Unless no (∃ t, w.value field = some t ∧
      Compares parseFloat (· ≥ ·) (· ≥ ·) t (extractValue lower) ∧ Compares parseFloat (· ≤ ·) (· ≤ ·) t (extractValue upper))) := h
  rw [← unless_xor] at h
  have hin : (notContext ^^ no) = false → ({ field, operator := .between, values := [extractValue lower, extractValue upper] } :
      FieldConstraint).Fact parseFloat (w.value field) := by
    intro hno
    rw [hno] at h
    obtain ⟨t, ht, hge, hle⟩ := h
    refine ⟨t, ht, _, _, rfl, fun min max hmin hmax => ?_⟩
    obtain ⟨a, ha, hmina⟩ := (compares_number hmin).1 hge
    obtain ⟨a', ha', hmaxa⟩ := (compares_number hmax).1 hle
    cases Option.some.inj (ha.symm.trans ha')
    exact ⟨a, ha, hmina, hmaxa⟩
  have hout : (notContext ^^ no) = true → ({ field, operator := .notBetween, values := [extractValue lower, extractValue upper] } :
      FieldConstraint).Fact parseFloat (w.value field) := by
    rintro hno t lower' upper' min max a ht hvalues hmin hmax ha ⟨hmina, hmaxa⟩
    cases hvalues
    rw [hno] at h
    exact h ⟨t, ht, (compares_number hmin).2 ⟨a, ha, hmina⟩, (compares_number hmax).2 ⟨a, ha, hmaxa⟩⟩
  cases notContext <;> cases no
  · exact hin rfl
  · exact hout rfl
  · exact hout rfl
  · exact hin rfl

omit hfact hreg in
theorem fact_in {a : Atom} {clause : InClause} (hc : a.comparison = .inside clause ∨ a.comparison = .notInside clause)
    (h : a.Holds parseFloat w) : a.constraint.Fact parseFloat (w.value a.field) := by
  obtain ⟨notContext, field, c⟩ := a
  have hin : (∃ t, w.value field = some t ∧ ∃ v ∈ clause.literals, Same parseFloat t (extractValue v)) →
      ({ field, operator := .inside, values := extractValueList clause } : FieldConstraint).Fact parseFloat (w.value field) := by
    rintro ⟨t, ht, v, hv, hsame⟩
    cases clause with
    | valueList values => exact ⟨t, ht, .inr ⟨_, List.mem_map_of_mem hv, hsame⟩⟩
    | value v => exact ⟨t, ht, .inl rfl⟩
  have hout : (¬∃ t, w.value field = some t ∧ ∃ v ∈ clause.literals, Same parseFloat t (extractValue v)) →
      ({ field, operator := .notInside, values := extractValueList clause } : FieldConstraint).Fact parseFloat (w.value field) := by
    rintro h t ht v hv hsame
    cases clause with
    | valueList values =>
      obtain ⟨u, hu, rfl⟩ := List.mem_map.1 hv
      exact h ⟨t, ht, u, hu, hsame⟩
    | value v => cases hv
  rcases hc with hc | hc
  · cases hc
    cases notContext with
    | false => exact hin h
    | true => exact hout h
  · cases hc
    cases notContext with
    | false => exact hout h
    | true => exact hin (not_not.1 h)

omit hfact hreg in
theorem fact_exist {a : Atom} {no : Bool} (hc : a.comparison = .exist no) (h : a.Holds parseFloat w) :
    a.constraint.Fact parseFloat (w.value a.field) := by
  obtain ⟨notContext, field, c⟩ := a
  cases hc
  have h : Unless notContext (Unless no (∃ t, w.value field = some t)) := h
  rw [← unless_xor] at h
  have hnone : (¬∃ t, w.value field = some t) → w.value field = none := fun h =>
    eq_none_iff_forall_ne_some.2 fun t ht => h ⟨t, ht⟩
  cases notContext <;> cases no
  · exact h
  · exact hnone h
  · exact hnone h
  · exact h

omit hfact hreg in
theorem fact_pattern {a : Atom} {no : Bool} {op : MatchOp} {v : Literal} (hc : a.comparison = .pattern no op v) (h : a.Holds parseFloat w) :
    a.constraint.Fact parseFloat (w.value a.field) := by
  obtain ⟨notContext, field, c⟩ := a
  cases hc
  have h : Unless notContext (Unless no (∃ t, w.value field = some t ∧ op.Holds w t (extractValue v))) := h
  rw [← unless_xor] at h
  have hsome : (∃ t, w.value field = some t ∧ op.Holds w t (extractValue v)) → ∃ t, w.value field = some t := fun ⟨t, ht, _⟩ => ⟨t, ht⟩
  cases notContext <;> cases no <;> cases op
  case false.false.like | true.true.like => exact h
  case false.false.ilike | true.true.ilike | false.false.regexp | true.true.regexp | false.false.contains | true.true.contains =>
    exact hsome h
  all_goals exact trivial

omit hfact hreg in
theorem Atom.constraint_field (a : Atom) : a.constraint.field = a.field := by
  obtain ⟨notContext, field, c⟩ := a
  cases c <;> rfl

variable (parseFloat) in
/-- A range comparison under `NOT` is of a field that another comparison asks to be a number, and with a number. -/
def Atom.Settled (atoms : List Atom) (a : Atom) : Prop :=
  ∀ op v, a.comparison = .compare op v → op.operator.isRange = true → a.notContext = true →
    (∀ b, parseFloat (extractValue v) = some b → b.isNaN = false) ∧ ∃ d ∈ atoms, d.field = a.field ∧ d.DemandsNumber parseFloat

omit hfact hreg in
theorem Atom.fact {atoms : List Atom} (hall : ∀ a ∈ atoms, a.Holds parseFloat w) {a : Atom} (ha : a ∈ atoms)
    (hsettled : a.Settled parseFloat atoms) : a.constraint.Fact parseFloat (w.value a.field) := by
  have h := hall a ha
  cases hc : a.comparison with
  | exist no => exact fact_exist hc h
  | inside clause => exact fact_in (.inl hc) h
  | notInside clause => exact fact_in (.inr hc) h
  | between no lower upper => exact fact_between hc h
  | pattern no op v => exact fact_pattern hc h
  | compare op v =>
    cases hrange : op.operator.isRange with
    | false => exact fact_equality hc hrange h
    | true =>
      refine fact_range hc hrange h fun hno => ?_
      obtain ⟨hbound, d, hd, hfield, hdemands⟩ := hsettled op v hc hrange hno
      exact ⟨hbound, hfield ▸ Atom.numeric (hall d hd) hdemands⟩

/-! ## The run -/

def constraintsOf (atoms : List Atom) (field : String) : List FieldConstraint := (atoms.map Atom.constraint).filter (·.field == field)

variable (parseFloat) in
/-- A constraint set of a filter's comparisons that one assignment meets. -/
def Kept (atoms : List Atom) (w : World) (constraints : GoMap String (List FieldConstraint)) : Prop :=
  ∀ field cs, constraints.lookup field = some cs → ∀ c ∈ cs, c.Fact parseFloat (w.value field) ∧
    (c ∈ constraintsOf atoms field ∨ c.operator = .exist)

omit hfact in
include hreg in
theorem Regular.of_subset {cs' : List FieldConstraint} (h : ∀ c ∈ cs', c ∈ cs ∨ c.operator = .exist) : Regular parseFloat cs' := by
  have hin : ∀ c ∈ cs', c.operator ≠ .exist → c ∈ cs := fun c hc hop => (h c hc).resolve_right hop
  refine ⟨?_, ?_, ?_, ?_, ?_, ?_, ?_⟩
  · intro c hc d hd hcop hdop
    exact hreg.disjoint c (hin c hc (by simp [hcop])) d (hin d hd (by simp [hdop])) hcop hdop
  · intro c hc d hd hcop hdop
    exact hreg.alike c (hin c hc (by simp [hcop])) d (hin d hd (by simp [hdop])) hcop hdop
  · intro c hc d hd hcop hdop
    exact hreg.listed c (hin c hc (by simp [hcop])) d (hin d hd (by simp [hdop])) hcop hdop
  · intro c hc d hd hcop hdop
    exact hreg.liked c (hin c hc (by simp [hcop])) d (hin d hd (by simp [hdop])) hcop hdop
  · intro c hc d hd hcop hdop
    exact hreg.exact c (hin c hc (by simp [hcop])) d (hin d hd (by simp [hdop])) hcop hdop
  · intro c hc d hd hcop hdop
    exact hreg.numbers c (hin c hc (by simp [hcop])) d (hin d hd (by simp [hdop])) hcop hdop
  · intro c hc d hd d' hd' hcop hdop hdop'
    exact hreg.one c (hin c hc (by simp [hcop])) d (hin d hd (by simp [hdop])) d' (hin d' hd' (by simp [hdop'])) hcop hdop hdop'

variable {C : List Atom}

omit hfact hreg in
theorem Kept.push {m : GoMap String (List FieldConstraint)} (h : Kept parseFloat C w m) {c : FieldConstraint}
    (hc : c.Fact parseFloat (w.value c.field)) (hmem : c ∈ constraintsOf C c.field ∨ c.operator = .exist) :
    Kept parseFloat C w (pushConstraint m c) := by
  intro field cs hcs
  by_cases hfield : field = c.field
  · subst hfield
    rw [pushConstraint, AList.lookup_insert] at hcs
    cases hcs
    rw [forall_mem_append, forall_mem_singleton]
    refine ⟨fun d hd => ?_, hc, hmem⟩
    cases hlookup : m.lookup c.field with
    | none =>
      rw [hlookup] at hd
      cases hd
    | some ds =>
      rw [hlookup] at hd
      exact h _ ds hlookup d hd
  · rw [pushConstraint, AList.lookup_insert_ne hfield] at hcs
    exact h field cs hcs

omit hfact hreg in
theorem Kept.add {m : GoMap String (List FieldConstraint)} (h : Kept parseFloat C w m) {a : Atom} (ha : a ∈ C)
    (hfact : a.constraint.Fact parseFloat (w.value a.field)) : Kept parseFloat C w (addConstraint m a.constraint) := by
  have hmem : a.constraint ∈ constraintsOf C a.constraint.field :=
    mem_filter.2 ⟨List.mem_map_of_mem ha, beq_self_eq_true _⟩
  rw [← Atom.constraint_field] at hfact
  rw [addConstraint]
  split_ifs with hdefault
  · rw [Bool.and_eq_true] at hdefault
    have hexist : ({ field := a.constraint.field, operator := .exist } : FieldConstraint).Fact parseFloat (w.value a.constraint.field) :=
      exists_of_default hfact hdefault.1
    exact (h.push hexist (.inr rfl)).push hfact (.inl hmem)
  · exact h.push hfact (.inl hmem)

section
variable (hregular : ∀ field, Regular parseFloat (constraintsOf C field))
  (hfacts : ∀ a ∈ C, a.constraint.Fact parseFloat (w.value a.field))

omit hfact hreg in
include hregular in
theorem checkContradictions_of_kept {d d' : Detector} (hd : Kept parseFloat C w d.constraints)
    (h : checkContradictions parseFloat d = some d') : d' = d := by
  obtain ⟨found, hfound, rfl⟩ := map_eq_some_iff.1 h
  have hnone : found = [] := by
    refine collect_nil (List.forall_mem_map.2 fun e he ms hms => ?_) hfound
    have hlookup : d.constraints.lookup e.1 = some e.2 := AList.mem_lookup_iff.2 he
    dsimp only at hms
    split_ifs at hms
    · exact (Option.some.inj hms).symm
    · have hkept := hd e.1 e.2 hlookup
      exact findContradictionsInConstraints_nil (fun c hc => (hkept c hc).1)
        ((hregular e.1).of_subset fun c hc => (hkept c hc).2) e.1 hms
  rw [hnone, append_nil]

variable (parseFloat) in
/-- A detector that has found nothing more, with constraints that the assignment meets. -/
def Quiet (atoms : List Atom) (w : World) (d d' : Detector) : Prop :=
  Kept parseFloat atoms w d'.constraints ∧ d'.contradictions = d.contradictions

omit hfact hreg in
include hregular hfacts in
theorem visitComparison_quiet {notContext : Bool} {key : String} {c : Comparison} (ha : ⟨notContext, key, c⟩ ∈ C) {d d' : Detector}
    (hd : Kept parseFloat C w d.constraints) (h : visitComparison parseFloat notContext key c d = some d') : Quiet parseFloat C w d d' := by
  have hadd : Kept parseFloat C w (addConstraint d.constraints (constraintOf notContext key c)) := hd.add ha (hfacts _ ha)
  unfold visitComparison at h
  split at h
  · rw [checkContradictions_of_kept hregular hadd h]
    exact ⟨hadd, rfl⟩
  · rw [checkContradictions_of_kept hregular hadd h]
    exact ⟨hadd, rfl⟩
  · cases h
    exact ⟨hadd, rfl⟩

end

end

section
variable {parseFloat : String → Option Float} {w : World} {C : List Atom} (hregular : ∀ field, Regular parseFloat (constraintsOf C field))
  (hfacts : ∀ a ∈ C, a.constraint.Fact parseFloat (w.value a.field))

include hregular hfacts

set_option linter.unusedSectionVars false

/-! A visit restores the constraints behind a branch of an `OR`, so it may be of any filter. -/

mutual

theorem visitOrExpression_quiet : ∀ (notContext : Bool) (e : OrExpression) (d d' : Detector), (∀ a ∈ e.atoms notContext, a ∈ C) →
    Kept parseFloat C w d.constraints → visitOrExpression parseFloat notContext e d = some d' → Quiet parseFloat C w d d'
  | notContext, .single e, d, d', hatoms, hd, h => visitAndExpression_quiet notContext e d d' hatoms hd h
  | notContext, .or e rest, d, d', hatoms, hd, h => by
    obtain ⟨he, hrest⟩ := forall_mem_append.1 hatoms
    obtain ⟨d₁, hd₁, h⟩ := bind_eq_some_iff.1 h
    obtain ⟨-, hnone⟩ := visitAndExpression_quiet notContext e d d₁ he hd hd₁
    obtain ⟨hkept, hnone'⟩ := visitBranches_quiet notContext rest { d₁ with constraints := d.constraints } d' hrest hd h
    exact ⟨hkept, hnone'.trans hnone⟩

theorem visitBranches_quiet : ∀ (notContext : Bool) (e : OrExpression) (d d' : Detector), (∀ a ∈ e.atoms notContext, a ∈ C) →
    Kept parseFloat C w d.constraints → visitBranches parseFloat notContext e d = some d' → Quiet parseFloat C w d d'
  | notContext, .single e, d, d', hatoms, hd, h => by
    obtain ⟨d₁, hd₁, rfl⟩ := map_eq_some_iff.1 h
    obtain ⟨-, hnone⟩ := visitAndExpression_quiet notContext e d d₁ hatoms hd hd₁
    exact ⟨hd, hnone⟩
  | notContext, .or e rest, d, d', hatoms, hd, h => by
    obtain ⟨he, hrest⟩ := forall_mem_append.1 hatoms
    obtain ⟨d₁, hd₁, h⟩ := bind_eq_some_iff.1 h
    obtain ⟨-, hnone⟩ := visitAndExpression_quiet notContext e d d₁ he hd hd₁
    obtain ⟨hkept, hnone'⟩ := visitBranches_quiet notContext rest { d₁ with constraints := d.constraints } d' hrest hd h
    exact ⟨hkept, hnone'.trans hnone⟩

theorem visitAndExpression_quiet : ∀ (notContext : Bool) (e : AndExpression) (d d' : Detector), (∀ a ∈ e.atoms notContext, a ∈ C) →
    Kept parseFloat C w d.constraints → visitAndExpression parseFloat notContext e d = some d' → Quiet parseFloat C w d d'
  | notContext, .single e, d, d', hatoms, hd, h => visitUnaryExpression_quiet notContext e d d' hatoms hd h
  | notContext, .and e rest, d, d', hatoms, hd, h => by
    obtain ⟨he, hrest⟩ := forall_mem_append.1 hatoms
    obtain ⟨d₁, hd₁, h⟩ := bind_eq_some_iff.1 h
    obtain ⟨hkept, hnone⟩ := visitUnaryExpression_quiet notContext e d d₁ he hd hd₁
    obtain ⟨hkept', hnone'⟩ := visitAndExpression_quiet notContext rest d₁ d' hrest hkept h
    exact ⟨hkept', hnone'.trans hnone⟩

theorem visitUnaryExpression_quiet : ∀ (notContext : Bool) (e : UnaryExpression) (d d' : Detector), (∀ a ∈ e.atoms notContext, a ∈ C) →
    Kept parseFloat C w d.constraints → visitUnaryExpression parseFloat notContext e d = some d' → Quiet parseFloat C w d d'
  | notContext, .mk no primary, d, d', hatoms, hd, h => visitPrimary_quiet (notContext ^^ no) primary d d' hatoms hd h

theorem visitPrimary_quiet : ∀ (notContext : Bool) (e : Primary) (d d' : Detector), (∀ a ∈ e.atoms notContext, a ∈ C) →
    Kept parseFloat C w d.constraints → visitPrimary parseFloat notContext e d = some d' → Quiet parseFloat C w d d'
  | notContext, .paren e, d, d', hatoms, hd, h => visitOrExpression_quiet notContext e d d' hatoms hd h
  | _, .comparison _ _, _, _, hatoms, hd, h => visitComparison_quiet hregular hfacts (forall_mem_singleton.1 hatoms) hd h
  | _, .search _, _, _, _, hd, h => by
    cases h
    exact ⟨hd, rfl⟩

end

end

/-- A filter without an `OR`, whose comparisons the rules can tell apart: if a contradiction is reported of it, nothing satisfies it. -/
theorem detectContradictions_sound (parseFloat : String → Option Float) (filter : OrExpression) (hfree : filter.orFree false = true)
    (hregular : ∀ field, Regular parseFloat (constraintsOf (filter.atoms false) field))
    (hsettled : ∀ a ∈ filter.atoms false, a.Settled parseFloat (filter.atoms false)) (reported : List String)
    (h : detectContradictions parseFloat filter = some reported) (hreported : reported ≠ []) (w : World) : ¬filter.Holds parseFloat w := by
  intro hholds
  apply hreported
  have hall : ∀ a ∈ filter.atoms false, a.Holds parseFloat w := filter.atoms_hold false hfree hholds
  have hfacts : ∀ a ∈ filter.atoms false, a.constraint.Fact parseFloat (w.value a.field) := fun a ha => a.fact hall ha (hsettled a ha)
  obtain ⟨d', hd', rfl⟩ := map_eq_some_iff.1 h
  obtain ⟨d, hd, hd'⟩ := bind_eq_some_iff.1 hd'
  have hempty : Kept parseFloat (filter.atoms false) w ∅ := by
    intro field cs hcs
    cases hcs
  obtain ⟨hkept, hnone⟩ := visitOrExpression_quiet hregular hfacts false filter ⟨∅, []⟩ d (fun _ ha => ha) hempty hd
  rw [checkContradictions_of_kept hregular hkept hd', hnone]
  rfl

def onlyValue (text : String) : World where
  value _ := some text
  regexp _ _ := False
  contains _ _ := False
  search _ := True
  fold := id

def equalTwice : OrExpression :=
  .single (.and (.mk false (.comparison "a" (.compare .equals (.quotedText "'x'"))))
    (.single (.mk false (.comparison "a" (.compare .equals (.quotedText "'y'"))))))

theorem detectContradictions_sound_equalTwice : ¬equalTwice.Holds (fun _ => none) (onlyValue "x") := by
  refine detectContradictions_sound (fun _ => none) equalTwice (by decide) (fun field => ?_) ?_
    ["Field 'a' cannot equal multiple different values"] (by decide +kernel) (by decide) _
  · have hequal : ∀ c ∈ constraintsOf (equalTwice.atoms false) field, c.operator = .equal := by
      intro c hc
      have hc := (mem_filter.1 hc).1
      simp [equalTwice, OrExpression.atoms, AndExpression.atoms, UnaryExpression.atoms, Primary.atoms] at hc
      rcases hc with rfl | rfl <;> rfl
    refine ⟨?_, ?_, ?_, ?_, ?_, ?_, ?_⟩
    · exact fun c hc _ _ hop => by simp [hequal c hc] at hop
    · rintro c hc d hd - - ⟨a, b, ha, -⟩
      cases ha
    · exact fun c hc d hd _ hop => by simp [hequal d hd] at hop
    · exact fun c hc d hd _ hop => by simp [hequal d hd] at hop
    · exact fun c hc d hd _ => by simp [hequal d hd]
    · exact fun c hc d hd _ hop => by simp [hequal d hd] at hop
    · exact fun c hc d hd d' hd' hop => by simp [hequal c hc] at hop
  · intro a ha op v hc hrange
    simp [equalTwice, OrExpression.atoms, AndExpression.atoms, UnaryExpression.atoms, Primary.atoms] at ha
    rcases ha with rfl | rfl
    · cases hc
      cases hrange
    · cases hc
      cases hrange

def insideOutside : OrExpression :=
  .single (.and (.mk false (.comparison "a" (.inside (.valueList [.quotedText "'x'", .quotedText "'y'"]))))
    (.single (.mk false (.comparison "a" (.notInside (.valueList [.quotedText "'x'"]))))))

/-- An `IN` and a `NOT IN` that share a value are reported, though another value of the `IN` is left. -/
theorem overlap_reported : ¬∀ (filter : OrExpression) (reported : List String), filter.orFree false = true →
    detectContradictions (fun _ => none) filter = some reported → reported ≠ [] → ∀ w : World, ¬filter.Holds (fun _ => none) w := by
  intro h
  refine h insideOutside ["Field 'a' has overlapping IN and NOT IN values: [x]"] (by decide) (by decide +kernel) (by decide)
    (onlyValue "y") ⟨⟨"y", rfl, .quotedText "'y'", by simp [InClause.literals], .inl rfl⟩, ?_⟩
  rintro ⟨t, ht, v, hv, hsame⟩
  cases ht
  rw [InClause.literals, mem_singleton] at hv
  subst hv
  rcases hsame with h | ⟨a, b, ha, -⟩
  · exact absurd h (by decide)
  · cases ha

end NeverTrue
end DsApm
