import DsApm.Lib.Float64
import DsApm.Lib.GoMap
import DsApm.Lib.GoStd
/-!
# NeverTrue — the detector of contradictions in a filter

`never_true.go`.  The visitor puts the comparisons of a filter into one set of constraints, a negated one with the opposite
operator, and looks for contradictions among the constraints of each field.  A slice out of range ends it without an answer.
-/
namespace DsApm
namespace NeverTrue

inductive FilterOperator
  | unknown
  | equal | notEqual
  | greaterThan | greaterThanOrEq | lessThan | lessThanOrEq
  | like | notLike | ilike | notILike
  | between | notBetween
  | inside | notInside
  | exist | notExist
  | regexp | notRegexp
  | contain | notContain
  deriving DecidableEq, Repr

namespace FilterOperator

def negate : FilterOperator → FilterOperator
  | unknown => unknown
  | equal => notEqual
  | notEqual => equal
  | lessThan => greaterThanOrEq
  | lessThanOrEq => greaterThan
  | greaterThan => lessThanOrEq
  | greaterThanOrEq => lessThan
  | inside => notInside
  | notInside => inside
  | exist => notExist
  | notExist => exist
  | like => notLike
  | notLike => like
  | ilike => notILike
  | notILike => ilike
  | between => notBetween
  | notBetween => between
  | regexp => notRegexp
  | notRegexp => regexp
  | contain => notContain
  | notContain => contain

def isRange : FilterOperator → Bool
  | lessThan | lessThanOrEq | greaterThan | greaterThanOrEq => true
  | _ => false

def isNegative : FilterOperator → Bool
  | notEqual | notInside | notExist | notLike | notILike | notBetween | notRegexp | notContain => true
  | _ => false

def addDefaultExistsFilter : FilterOperator → Bool
  | equal | greaterThan | greaterThanOrEq | lessThan | lessThanOrEq | like | ilike | between | inside | regexp | contain => true
  | _ => false

end FilterOperator

structure FieldConstraint where
  field : String
  operator : FilterOperator
  value : String := ""
  values : List String := []
  deriving DecidableEq, Repr

/-! ## The filter -/

inductive Literal
  | quotedText (text : String)
  | number (text : String)
  | bool (text : String)
  | key (text : String)
  deriving DecidableEq, Repr

def extractValue : Literal → String
  | .quotedText text => if 2 ≤ text.length then String.ofList text.toList.tail.dropLast else text
  | .number text => text
  | .bool text => text
  | .key text => text

inductive InClause
  | valueList (values : List Literal)
  | value (v : Literal)
  deriving DecidableEq, Repr

inductive CompareOp
  | equals | notEquals
  | lt | le | gt | ge
  deriving DecidableEq, Repr

inductive MatchOp
  | like | ilike | regexp | contains
  deriving DecidableEq, Repr

inductive Comparison
  | exist (no : Bool)
  | inside (clause : InClause)
  | notInside (clause : InClause)
  | between (no : Bool) (lower upper : Literal)
  | compare (op : CompareOp) (v : Literal)
  | pattern (no : Bool) (op : MatchOp) (v : Literal)
  deriving DecidableEq, Repr

mutual

/-- `orExpression`: one `andExpression` or several. -/
inductive OrExpression
  | single (e : AndExpression)
  | or (e : AndExpression) (rest : OrExpression)

inductive AndExpression
  | single (e : UnaryExpression)
  | and (e : UnaryExpression) (rest : AndExpression)

inductive UnaryExpression
  | mk (no : Bool) (primary : Primary)

inductive Primary
  | paren (e : OrExpression)
  | comparison (key : String) (c : Comparison)
  /-- A function call, a full text, or a lone key or value. -/
  | search (text : String)

end

/-! ## The constraint of a comparison -/

/-- `extractValueList`: nothing where there is no list. -/
def extractValueList : InClause → List String
  | .valueList values => values.map extractValue
  | .value _ => []

def CompareOp.operator : CompareOp → FilterOperator
  | .equals => .equal
  | .notEquals => .notEqual
  | .lt => .lessThan
  | .le => .lessThanOrEq
  | .gt => .greaterThan
  | .ge => .greaterThanOrEq

def MatchOp.operator : (no : Bool) → MatchOp → FilterOperator
  | false, .like => .like
  | true, .like => .notLike
  | false, .ilike => .ilike
  | true, .ilike => .notILike
  | false, .regexp => .regexp
  | true, .regexp => .notRegexp
  | false, .contains => .contain
  | true, .contains => .notContain

/-- `VisitComparison`, the constraint: in a context of `NOT`, with the opposite operator. -/
def constraintOf (notContext : Bool) (field : String) (c : Comparison) : FieldConstraint :=
  let applied (op : FilterOperator) : FilterOperator := if notContext then op.negate else op
  match c with
  | .exist no => { field, operator := applied (if no then .notExist else .exist) }
  | .inside clause => { field, operator := applied .inside, values := extractValueList clause }
  | .notInside clause => { field, operator := applied .notInside, values := extractValueList clause }
  | .between no lower upper =>
    { field, operator := applied (if no then .notBetween else .between), values := [extractValue lower, extractValue upper] }
  | .compare op v => { field, operator := applied op.operator, value := extractValue v }
  | .pattern no op v => { field, operator := applied (op.operator no), value := extractValue v }

/-! ## Contradictions -/

structure Bound where
  value : Float
  inclusive : Bool

section
variable (parseFloat : String → Option Float)

/-- The bounds from below, in their order; `parseFloat` is `strconv.ParseFloat`. -/
def lowerBounds (constraints : List FieldConstraint) : List Bound :=
  constraints.filterMap fun c =>
    match c.operator, parseFloat c.value with
    | .greaterThan, some v => some ⟨v, false⟩
    | .greaterThanOrEq, some v => some ⟨v, true⟩
    | _, _ => none

def upperBounds (constraints : List FieldConstraint) : List Bound :=
  constraints.filterMap fun c =>
    match c.operator, parseFloat c.value with
    | .lessThan, some v => some ⟨v, false⟩
    | .lessThanOrEq, some v => some ⟨v, true⟩
    | _, _ => none

def effective (beats : Float → Float → Bool) (bounds : List Bound) : Option Bound :=
  bounds.foldl (fun acc b =>
    match acc with
    | none => some b
    | some e => if beats b.value e.value || (b.value == e.value && !b.inclusive && e.inclusive) then some b else acc) none

def checkRangeContradictions (constraints : List FieldConstraint) : Bool :=
  match effective (fun a b => decide (a > b)) (lowerBounds parseFloat constraints),
      effective (fun a b => decide (a < b)) (upperBounds parseFloat constraints) with
  | some lower, some upper =>
    decide (lower.value > upper.value) || (lower.value == upper.value && (!lower.inclusive || !upper.inclusive))
  | _, _ => false

def satisfiesRange (val : Float) (c : FieldConstraint) : Bool :=
  match parseFloat c.value with
  | none => true
  | some cVal =>
    match c.operator with
    | .greaterThan => !decide (val ≤ cVal)
    | .greaterThanOrEq => !decide (val < cVal)
    | .lessThan => !decide (val ≥ cVal)
    | .lessThanOrEq => !decide (val > cVal)
    | _ => true

def valuesSatisfyRanges (value : String) (constraints : List FieldConstraint) : Bool :=
  match parseFloat value with
  | none => true
  | some val => constraints.all (satisfiesRange parseFloat val)

/-- `valueSatisfiesBetween`; the value is nothing if it is no number. -/
def valueSatisfiesBetween (value : Option Float) (between : FieldConstraint) : Bool :=
  match between.values with
  | [lower, upper] =>
    match value, parseFloat lower, parseFloat upper with
    | some val, some min, some max => decide (val ≥ min) && decide (val ≤ max)
    | _, _, _ => true
  | _ => false

def numericRanges (betweens : List FieldConstraint) : List (Float × Float) :=
  betweens.filterMap fun b =>
    match b.values with
    | [lower, upper] =>
      match parseFloat lower, parseFloat upper with
      | some min, some max => some (min, max)
      | _, _ => none
    | _ => none

def hasCommonIntersection (betweens : List FieldConstraint) : Bool :=
  match numericRanges parseFloat betweens with
  | [] => true
  | first :: rs =>
    let intersection := rs.foldl (fun (acc : Float × Float) r =>
      (if r.1 > acc.1 then r.1 else acc.1, if r.2 < acc.2 then r.2 else acc.2)) first
    decide (intersection.1 ≤ intersection.2)

/-- `matchesLikePattern`; nothing for the pattern `%`, of which a slice is taken that ends before it begins. -/
def matchesLikePattern (value pattern : List Char) : Option Bool :=
  if pattern.head? = some '%' ∧ pattern.getLast? = some '%' then
    if pattern.length < 2 then none else some (GoStd.contains value pattern.tail.dropLast)
  else if pattern.head? = some '%' then some (pattern.tail.isSuffixOf value)
  else if pattern.getLast? = some '%' then some (pattern.dropLast.isPrefixOf value)
  else some (value == pattern)

/-! ### The rules, each with its messages -/

variable (field : String)

def message (text : String) : String := "Field '" ++ field ++ "' " ++ text

def multipleEqual (equals : List FieldConstraint) : List String :=
  if 1 < (equals.map FieldConstraint.value).eraseDups.length then [message field "cannot equal multiple different values"] else []

def equalNotEqual (equals notEquals : List FieldConstraint) : List String :=
  equals.flatMap fun eq => notEquals.flatMap fun neq =>
    if eq.value = neq.value then [message field ("cannot both equal and not equal '" ++ eq.value ++ "'")] else []

def equalNotIn (eq : FieldConstraint) (notIns : List FieldConstraint) : List String :=
  notIns.flatMap fun notIn => notIn.values.flatMap fun v =>
    if eq.value = v then [message field ("equals '" ++ eq.value ++ "' but is in NOT IN list")] else []

def equalIn (eq : FieldConstraint) (ins : List FieldConstraint) : List String :=
  ins.flatMap fun i =>
    if eq.value ∈ i.values then [] else [message field ("equals '" ++ eq.value ++ "' but is not in IN list")]

def overlap (values others : List String) : List String := values.flatMap fun v => others.filter (v == ·)

def inNotIn (ins notIns : List FieldConstraint) : List String :=
  ins.flatMap fun i => notIns.flatMap fun notIn =>
    if overlap i.values notIn.values = [] then []
    else [message field ("has overlapping IN and NOT IN values: [" ++ " ".intercalate (overlap i.values notIn.values) ++ "]")]

def ranges (rangeConstraints : List FieldConstraint) : List String :=
  if checkRangeContradictions parseFloat rangeConstraints then [message field "has contradictory range constraints"] else []

def equalRange (equals rangeConstraints : List FieldConstraint) : List String :=
  equals.flatMap fun eq =>
    if valuesSatisfyRanges parseFloat eq.value rangeConstraints then []
    else [message field ("equals '" ++ eq.value ++ "' which violates range constraints")]

def existNotExist (exists_ notExists : List FieldConstraint) : List String :=
  if exists_ ≠ [] ∧ notExists ≠ [] then [message field "cannot both exist and not exist"] else []

def impliedExist (notExists constraints : List FieldConstraint) : List String :=
  if notExists = [] then []
  else match constraints.find? fun c => c.operator.addDefaultExistsFilter && !c.operator.isNegative with
    | none => []
    | some c => [message field ("has NOT EXISTS but also has " ++ toString c.operator.ctorIdx ++ " which implies existence")]

def betweens (betweenConstraints : List FieldConstraint) : List String :=
  if 2 ≤ betweenConstraints.length ∧ hasCommonIntersection parseFloat betweenConstraints = false then
    [message field "has non-overlapping BETWEEN ranges"]
  else []

def equalBetween (equals betweenConstraints : List FieldConstraint) : List String :=
  equals.flatMap fun eq =>
    if betweenConstraints ≠ [] ∧ betweenConstraints.any (valueSatisfiesBetween parseFloat (parseFloat eq.value)) = false then
      [message field ("equals '" ++ eq.value ++ "' which is outside BETWEEN range(s)")]
    else []

def equalNotBetween (equals notBetweens : List FieldConstraint) : List String :=
  equals.flatMap fun eq => notBetweens.flatMap fun notBetween =>
    if valueSatisfiesBetween parseFloat (parseFloat eq.value) notBetween then
      [message field ("equals '" ++ eq.value ++ "' which is excluded by NOT BETWEEN range")]
    else []

def betweenNotBetween (betweenConstraints notBetweens : List FieldConstraint) : List String :=
  if notBetweens = [] then []
  else (numericRanges parseFloat betweenConstraints).flatMap fun (bMin, bMax) =>
    if [bMin, bMax, (bMin + bMax) / 2].any fun testVal => notBetweens.all fun n => !valueSatisfiesBetween parseFloat (some testVal) n then []
    else [message field "has BETWEEN and NOT BETWEEN ranges that exclude all values"]

def equalLikeOne (eq like : FieldConstraint) : Option (List String) :=
  if like.operator = .like ∨ like.operator = .ilike then
    (matchesLikePattern eq.value.toList like.value.toList).map fun found =>
      if found then []
      else [message field ("equals '" ++ eq.value ++ "' which doesn't match LIKE pattern '" ++ like.value ++ "'")]
  else some []

def collect {α : Type} (f : α → Option (List String)) : List α → Option (List String)
  | [] => some []
  | a :: as => (f a).bind fun ms => (collect f as).map (ms ++ ·)

def equalLike (equals likes : List FieldConstraint) : Option (List String) :=
  collect (fun eq => collect (equalLikeOne field eq) likes) equals

def having (ops : List FilterOperator) (constraints : List FieldConstraint) : List FieldConstraint :=
  constraints.filter fun c => ops.contains c.operator

def findContradictionsInConstraints (constraints : List FieldConstraint) : Option (List String) :=
  let equals := having [.equal] constraints
  let notEquals := having [.notEqual] constraints
  let rangeConstraints := having [.lessThan, .lessThanOrEq, .greaterThan, .greaterThanOrEq] constraints
  let ins := having [.inside] constraints
  let notIns := having [.notInside] constraints
  let existing := having [.exist] constraints
  let notExisting := having [.notExist] constraints
  let betweenConstraints := having [.between] constraints
  let notBetweens := having [.notBetween] constraints
  let likes := having [.like, .ilike, .notLike, .notILike] constraints
  (equalLike field equals likes).map fun liked =>
    multipleEqual field equals ++ equalNotEqual field equals notEquals ++
      (equals.flatMap fun eq => equalNotIn field eq notIns ++ equalIn field eq ins) ++ inNotIn field ins notIns ++
      ranges parseFloat field rangeConstraints ++ equalRange parseFloat field equals rangeConstraints ++
      existNotExist field existing notExisting ++ impliedExist field notExisting constraints ++
      betweens parseFloat field betweenConstraints ++ equalBetween parseFloat field equals betweenConstraints ++
      equalNotBetween parseFloat field equals notBetweens ++ betweenNotBetween parseFloat field betweenConstraints notBetweens ++ liked

end

/-! ## The visitor -/

/-- `LogicalContradictionDetector`: the constraint set on top of the stack, and what was found. -/
structure Detector where
  constraints : GoMap String (List FieldConstraint)
  contradictions : List String

section
variable (parseFloat : String → Option Float)

def pushConstraint (constraints : GoMap String (List FieldConstraint)) (c : FieldConstraint) : GoMap String (List FieldConstraint) :=
  constraints.insert c.field ((constraints.lookup c.field).getD [] ++ [c])

/-- `addConstraint`: a positive operator brings an `EXISTS` before it. -/
def addConstraint (constraints : GoMap String (List FieldConstraint)) (c : FieldConstraint) : GoMap String (List FieldConstraint) :=
  if c.operator.addDefaultExistsFilter && !c.operator.isNegative then
    pushConstraint (pushConstraint constraints { field := c.field, operator := .exist }) c
  else pushConstraint constraints c

/-- `checkContradictions`; a map has no order of its own, and the fields are taken as the map has them. -/
def checkContradictions (d : Detector) : Option Detector :=
  (collect (fun (e : String × List FieldConstraint) =>
    if e.2.length < 2 then some [] else findContradictionsInConstraints parseFloat e.1 e.2)
    (d.constraints.entries.map fun e => (e.1, e.2))).map fun found => { d with contradictions := d.contradictions ++ found }

/-- `VisitComparison`: only a comparison with one value looks for contradictions at once. -/
def visitComparison (notContext : Bool) (key : String) (c : Comparison) (d : Detector) : Option Detector :=
  let d := { d with constraints := addConstraint d.constraints (constraintOf notContext key c) }
  match c with
  | .compare _ _ | .pattern _ _ _ => checkContradictions parseFloat d
  | _ => some d

mutual

/-- `VisitOrExpression`; of several branches, each starts from the same constraints and leaves them as they were. -/
def visitOrExpression (notContext : Bool) : OrExpression → Detector → Option Detector
  | .single e, d => visitAndExpression notContext e d
  | .or e rest, d =>
    (visitAndExpression notContext e d).bind fun d' => visitBranches notContext rest { d' with constraints := d.constraints }

def visitBranches (notContext : Bool) : OrExpression → Detector → Option Detector
  | .single e, d => (visitAndExpression notContext e d).map fun d' => { d' with constraints := d.constraints }
  | .or e rest, d =>
    (visitAndExpression notContext e d).bind fun d' => visitBranches notContext rest { d' with constraints := d.constraints }

def visitAndExpression (notContext : Bool) : AndExpression → Detector → Option Detector
  | .single e, d => visitUnaryExpression notContext e d
  | .and e rest, d => (visitUnaryExpression notContext e d).bind (visitAndExpression notContext rest)

/-- `VisitUnaryExpression`: `NOT` turns the context around. -/
def visitUnaryExpression (notContext : Bool) : UnaryExpression → Detector → Option Detector
  | .mk no primary, d => visitPrimary (notContext ^^ no) primary d

def visitPrimary (notContext : Bool) : Primary → Detector → Option Detector
  | .paren e, d => visitOrExpression notContext e d
  | .comparison key c, d => visitComparison parseFloat notContext key c d
  | .search _, d => some d

end

def detectContradictions (filter : OrExpression) : Option (List String) :=
  ((visitOrExpression parseFloat false filter ⟨∅, []⟩).bind (checkContradictions parseFloat)).map fun d => d.contradictions.eraseDups

end

end NeverTrue
end DsApm
