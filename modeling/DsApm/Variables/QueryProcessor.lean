import DsApm.Lib.GoMap
/-!
# QueryProcessor — `variables/clickhouse/processor.go`, `transform.go`

The trees of the SQL parser, as far as the processor looks at them, and its three recursive functions.  `Expr.nil` is the
nil interface: what a removed filter leaves, and a clause that is not there.  A node the processor does not take apart is
`other`.  The statements come from the parser and go to the printer, which are not modelled; the functions give no error.
-/
namespace DsApm
namespace Variables

mutual

inductive Expr where
  | nil
  | ident (name : String)
  | binaryOperation (leftExpr : Expr) (operation : String) (rightExpr : Expr) (hasGlobal hasNot : Bool)
  | subQuery (select : SelectQuery)
  | functionExpr (name : String) (params : ExprList)
  | columnExpr (expr : Expr)
  | paramExprList (items : ExprList)
  | selectItem (expr : Expr)
  | indexOperation (object index : Expr)
  | joinExpr (left right constraints : Expr)
  | tableExpr (expr : Expr)
  | aliasExpr (expr : Expr) (alias_ : String)
  | other (text : String)
  deriving DecidableEq

inductive ExprList where
  | nil
  | cons (item : Expr) (items : ExprList)
  deriving DecidableEq

inductive SelectQuery where
  | mk (from_ where_ : Expr) (rest : String)
  deriving DecidableEq

end

inductive FilterAction where
  | keepFilter | removeFilter | replaceWithExistsCheck
  deriving DecidableEq, Repr

abbrev FilterTransformer := String → Expr → FilterAction

/-! ## Looking at expressions -/

def Expr.isNil : Expr → Bool
  | .nil => true
  | _ => false

def Expr.isSubQuery : Expr → Bool
  | .subQuery _ => true
  | _ => false

mutual

def isComplexExpression : Expr → Bool
  | .binaryOperation _ _ _ _ _ => true
  | .functionExpr _ params => isComplexList params
  | _ => false

def isComplexList : ExprList → Bool
  | .nil => false
  | .cons item items => isComplexExpression item || isComplexList items

end

mutual

def findVariables : Expr → List String
  | .ident name => if name.startsWith "$" then [(name.drop 1).toString] else []
  | .binaryOperation l _ r _ _ => findVariables l ++ findVariables r
  | .functionExpr _ params => findVariablesList params
  | .columnExpr e => findVariables e
  | .paramExprList items => findVariablesList items
  | .selectItem e => findVariables e
  | .indexOperation o i => findVariables o ++ findVariables i
  | _ => []

def findVariablesList : ExprList → List String
  | .nil => []
  | .cons item items => findVariables item ++ findVariablesList items

end

def createExistsCheck : Expr → Expr × Bool
  | .binaryOperation (.indexOperation o i) _ _ _ _ => (.functionExpr "has" (.cons o (.cons i .nil)), true)
  | .binaryOperation l operation r hasGlobal hasNot =>
    match l, r with
    | .ident name, r =>
      if !name.startsWith "$" then (.functionExpr "isNotNull" (.cons l .nil), true)
      else match r with
        | .ident name' =>
          if !name'.startsWith "$" then (.functionExpr "isNotNull" (.cons r .nil), true)
          else (.binaryOperation l operation r hasGlobal hasNot, false)
        | _ => (.binaryOperation l operation r hasGlobal hasNot, false)
    | _, .ident name' =>
      if !name'.startsWith "$" then (.functionExpr "isNotNull" (.cons r .nil), true)
      else (.binaryOperation l operation r hasGlobal hasNot, false)
    | _, _ => (.binaryOperation l operation r hasGlobal hasNot, false)
  | expr => (expr, false)

/-- What the transformer's answer makes of an expression with a variable; nothing when the filter is kept. -/
def act (transformer : FilterTransformer) (name : String) (expr : Expr) : Option (Expr × Bool) :=
  match transformer name expr with
  | .removeFilter => some (.nil, true)
  | .replaceWithExistsCheck => some (createExistsCheck expr)
  | .keepFilter => none

/-- The variable of a direct filter: on one side, where no side is an operation. -/
def directVariable (l r : Expr) : Option String :=
  match findVariables l, findVariables r with
  | v :: _, [] | [], v :: _ => if !isComplexExpression l && !isComplexExpression r then some v else none
  | _, _ => none

def comparisonOperations : List String := ["=", "IN", "<", ">", "<=", ">="]

def rebuild (l : Expr) (operation : String) (r : Expr) (hasGlobal hasNot : Bool) : Expr :=
  if operation = "AND" then
    if l.isNil then r else if r.isNil then l else .binaryOperation l operation r hasGlobal hasNot
  else if (l.isNil || r.isNil) ∧ operation ∈ comparisonOperations then .nil
  else .binaryOperation l operation r hasGlobal hasNot

/-- The last part of `transformExpr`: an expression of another type, or an operation whose sides did not change. -/
def transformOther (transformer : FilterTransformer) (expr : Expr) : Expr × Bool :=
  match findVariables expr with
  | v :: _ => if !isComplexExpression expr then (act transformer v expr).getD (expr, false) else (expr, false)
  | [] => (expr, false)

/-! ## The three functions -/

mutual

/-- `processWhereClause`: when a subquery in FROM was modified, WHERE is not looked at. -/
def processWhereClause (transformer : FilterTransformer) : SelectQuery → SelectQuery × Bool
  | .mk from_ where_ rest =>
    let f := processExprSubqueries transformer from_
    if f.2 then (.mk f.1 where_ rest, true)
    else
      let w := transformExpr transformer where_
      if w.2 then (.mk f.1 w.1 rest, true) else (.mk f.1 where_ rest, false)

def processExprSubqueries (transformer : FilterTransformer) : Expr → Expr × Bool
  | .subQuery select =>
    let s := processWhereClause transformer select
    (.subQuery s.1, s.2)
  | .binaryOperation l operation r hasGlobal hasNot =>
    let l' := processExprSubqueries transformer l
    let r' := processExprSubqueries transformer r
    (.binaryOperation l'.1 operation r'.1 hasGlobal hasNot, l'.2 || r'.2)
  | .joinExpr l r constraints =>
    let l' := processExprSubqueries transformer l
    let r' := processExprSubqueries transformer r
    let c' := processExprSubqueries transformer constraints
    (.joinExpr l'.1 r'.1 c'.1, l'.2 || r'.2 || c'.2)
  | .tableExpr e =>
    let e' := processExprSubqueries transformer e
    (.tableExpr e'.1, e'.2)
  | .aliasExpr e alias_ =>
    let e' := processExprSubqueries transformer e
    (.aliasExpr e'.1 alias_, e'.2)
  | .functionExpr name params =>
    let p := processListSubqueries transformer params
    (.functionExpr name p.1, p.2)
  | e => (e, false)

def processListSubqueries (transformer : FilterTransformer) : ExprList → ExprList × Bool
  | .nil => (.nil, false)
  | .cons item items =>
    let i := processExprSubqueries transformer item
    let is := processListSubqueries transformer items
    (.cons i.1 is.1, i.2 || is.2)

def transformExpr (transformer : FilterTransformer) : Expr → Expr × Bool
  | .nil => (.nil, false)
  | .subQuery select =>
    let s := processWhereClause transformer select
    (.subQuery s.1, s.2)
  | .binaryOperation l operation r hasGlobal hasNot =>
    let expr := Expr.binaryOperation l operation r hasGlobal hasNot
    let r' := transformExpr transformer r
    if (operation = "IN" ∨ operation = "NOT IN") ∧ r.isSubQuery then
      match (findVariables l).head?.bind (fun v => act transformer v expr) with
      | some result => result
      | none => if r'.2 then (.binaryOperation l operation r'.1 hasGlobal hasNot, true) else (expr, false)
    else
      match (directVariable l r).bind (fun v => act transformer v expr) with
      | some result => result
      | none =>
        let l' := transformExpr transformer l
        if l'.2 || r'.2 then (rebuild l'.1 operation r'.1 hasGlobal hasNot, true)
        else transformOther transformer expr
  | expr => transformOther transformer expr

end

/-! ## Statements -/

inductive Statement where
  | selectQuery (select : SelectQuery)
  | other (text : String)
  deriving DecidableEq

def processStatement (transformer : FilterTransformer) : Statement → Statement × Bool
  | .selectQuery select =>
    let s := processWhereClause transformer select
    (.selectQuery s.1, s.2)
  | .other text => (.other text, false)

/-- `ProcessQuery`, on the statements of the query: the statements to print, when any was modified. -/
def processQuery (transformer : FilterTransformer) (stmts : List Statement) : Option (List Statement) :=
  let processed := stmts.map (processStatement transformer)
  if processed.any Prod.snd then some (processed.map Prod.fst) else none

/-! ## The transformer -/

structure VariableValue where
  isSelectAll : Bool
  fieldType : String
  deriving DecidableEq, Repr

def transformFilter (variables' : GoMap String VariableValue) (variableName : String) (_expr : Expr) : FilterAction :=
  match variables'.lookup variableName with
  | none => .keepFilter
  | some varInfo =>
    if varInfo.isSelectAll then .removeFilter
    else if varInfo.fieldType = "map" then .replaceWithExistsCheck
    else .keepFilter

/-- A transformer that asks to remove the filters of some variables and to keep all others. -/
def removing (removed : String → Bool) : FilterTransformer :=
  fun variableName _ => if removed variableName then .removeFilter else .keepFilter

def selectAll (variables' : GoMap String VariableValue) (variableName : String) : Bool :=
  (variables'.lookup variableName).any VariableValue.isSelectAll

theorem transformFilter_eq_removing {variables' : GoMap String VariableValue}
    (h : ∀ name varInfo, variables'.lookup name = some varInfo → varInfo.fieldType = "map" → varInfo.isSelectAll = true) :
    transformFilter variables' = removing (selectAll variables') := by
  funext name e
  unfold transformFilter removing selectAll
  cases hv : variables'.lookup name with
  | none => rfl
  | some varInfo =>
    cases ha : varInfo.isSelectAll with
    | true => simp [ha]
    | false =>
      have hm : varInfo.fieldType ≠ "map" := fun hm => by simp [h name varInfo hv hm] at ha
      simp [ha, hm]

end Variables
end DsApm
