import DsApm.Lib.GoMap
import DsApm.Variables.FilterGrammar
/-!
# ReplaceVisitor — `variables/variable_replace_visitor.go`

The visitor prints a syntax tree, with the variables replaced.  A condition that is to be removed is printed as
`specialSkipMarker`.  The tree is what the parser gives for an expression without syntax errors; a number is its text as
`%v` prints it, and `other` is the text of a value that is neither a string, a number, a bool nor a list.
-/
namespace DsApm
namespace Variables

inductive VariableType where
  | query | dynamic | custom | text
  deriving DecidableEq, Repr

inductive VarValue where
  | string (s : Text)
  | strings (items : List Text)
  | array (items : List VarValue)
  | number (text : Text)
  | bool (b : Bool)
  | other (text : Text)

structure VariableItem where
  type : VariableType
  value : VarValue

def specialSkipMarker : Text := "__SKIP_CONDITION__".toList

/-! ## Values -/

/-- `fmt.Sprintf("'%s'", strings.ReplaceAll(val, "'", "\\'"))`. -/
def quoteValue (val : Text) : Text := '\'' :: (val.flatMap (fun c => if c = '\'' then ['\\', '\''] else [c]) ++ ['\''])

def bracketed (parts : List Text) : Text := '[' :: ([',', ' '].intercalate parts ++ [']'])

def formatBool (b : Bool) : Text := if b then ['t', 'r', 'u', 'e'] else ['f', 'a', 'l', 's', 'e']

mutual

def formatVariableValue : VarValue → Text
  | .string val => quoteValue val
  | .strings items => bracketed (items.map quoteValue)
  | .array items => bracketed (formatVariableValues items)
  | .number text => text
  | .bool b => formatBool b
  | .other text => text

def formatVariableValues : List VarValue → List Text
  | [] => []
  | item :: items => formatVariableValue item :: formatVariableValues items

end

def trimQuotes : Text → Text
  | [] => []
  | q :: rest => if (q = '"' ∨ q = '\'') ∧ rest.getLast? = some q then rest.dropLast else q :: rest

section
variable (variables' : GoMap Text VariableItem)

/-- The variable that a text names, with or without its `$` in the map. -/
def variableOf : Text → Option VariableItem
  | '$' :: name =>
    match variables'.lookup ('$' :: name) with
    | some varItem => some varItem
    | none => if name = [] then none else variables'.lookup name
  | _ => none

def VariableItem.isAll (varItem : VariableItem) : Bool :=
  varItem.type == .dynamic && match varItem.value with
    | .string allVal => allVal == "__all__".toList
    | _ => false

def replaced (varItem : VariableItem) : Text :=
  if varItem.isAll then specialSkipMarker else formatVariableValue varItem.value

def Value.originalValue : Value → Text
  | .literal (.quoted w) => trimQuotes w.text
  | .literal (.number w) => w.text
  | .literal (.bool w) => w.text
  | .key w => w.text

def visitValue (v : Value) : Text :=
  match variableOf variables' v.originalValue with
  | some varItem => replaced varItem
  | none =>
    match v with
    | .literal (.quoted w) => if v.originalValue.head? = some '$' then v.originalValue else w.text
    | _ => v.originalValue

def visitKey (w : Word .key) : Text :=
  match variableOf variables' w.text with
  | some varItem => replaced varItem
  | none => w.text

def visitValueList (vs : ValueList) : Text :=
  if vs.values.any (fun v => visitValue variables' v == specialSkipMarker) then specialSkipMarker
  else '(' :: ([',', ' '].intercalate (vs.values.map (visitValue variables')) ++ [')'])

def visitInClause : InClause → Text
  | .valueList vs => visitValueList variables' vs
  | .value v => visitValue variables' v

/-! ## Conditions -/

def Operator.text : Operator → Text
  | .equals => [' ', '=', ' ']
  | .notEquals => [' ', '!', '=', ' ']
  | .neq => [' ', '<', '>', ' ']
  | .lt => [' ', '<', ' ']
  | .le => [' ', '<', '=', ' ']
  | .gt => [' ', '>', ' ']
  | .ge => [' ', '>', '=', ' ']
  | .like => [' ', 'L', 'I', 'K', 'E', ' ']
  | .ilike => [' ', 'I', 'L', 'I', 'K', 'E', ' ']
  | .regexp => [' ', 'R', 'E', 'G', 'E', 'X', 'P', ' ']
  | .contains => [' ', 'C', 'O', 'N', 'T', 'A', 'I', 'N', 'S', ' ']
  | .notLike => [' ', 'N', 'O', 'T', ' ', 'L', 'I', 'K', 'E', ' ']
  | .notIlike => [' ', 'N', 'O', 'T', ' ', 'I', 'L', 'I', 'K', 'E', ' ']
  | .notRegexp => [' ', 'N', 'O', 'T', ' ', 'R', 'E', 'G', 'E', 'X', 'P', ' ']
  | .notContains => [' ', 'N', 'O', 'T', ' ', 'C', 'O', 'N', 'T', 'A', 'I', 'N', 'S', ' ']

def notText (not' : Bool) : Text := if not' then [' ', 'N', 'O', 'T'] else []

def visitComparison : Comparison → Text
  | .operator key op v =>
    if visitValue variables' v = specialSkipMarker then specialSkipMarker
    else visitKey variables' key ++ op.text ++ visitValue variables' v
  | .between key not' lo hi =>
    if visitValue variables' lo = specialSkipMarker ∨ visitValue variables' hi = specialSkipMarker then specialSkipMarker
    else visitKey variables' key ++ notText not' ++ [' ', 'B', 'E', 'T', 'W', 'E', 'E', 'N', ' '] ++
      visitValue variables' lo ++ [' ', 'A', 'N', 'D', ' '] ++ visitValue variables' hi
  | .inClause key not' c =>
    if visitInClause variables' c = specialSkipMarker then specialSkipMarker
    else visitKey variables' key ++ notText not' ++ [' ', 'I', 'N', ' '] ++ visitInClause variables' c
  | .exists' key not' => visitKey variables' key ++ notText not' ++ [' ', 'E', 'X', 'I', 'S', 'T', 'S']

/-- The value list is printed in parentheses, so the brackets are never added. -/
def visitArray (vs : ValueList) : Text :=
  let valueList := visitValueList variables' vs
  if valueList.head? = some '(' then valueList else '[' :: (valueList ++ [']'])

def visitFunctionParam : FunctionParam → Text
  | .key w => visitKey variables' w
  | .value l => visitValue variables' (.literal l)
  | .array vs => visitArray variables' vs

def visitFunctionParamList (ps : FunctionParamList) : Text :=
  [',', ' '].intercalate ((ps.first :: ps.rest).map (visitFunctionParam variables'))

def FunctionName.text : FunctionName → Text
  | .has => ['h', 'a', 's']
  | .hasAny => ['h', 'a', 's', 'A', 'n', 'y']
  | .hasAll => ['h', 'a', 's', 'A', 'l', 'l']
  | .hasToken => ['h', 'a', 's', 'T', 'o', 'k', 'e', 'n']

def visitCondition : Condition → Text
  | .comparison c => visitComparison variables' c
  | .functionCall name params => name.text ++ '(' :: (visitFunctionParamList variables' params ++ [')'])
  | .quotedText w => w.text
  | .freeText w => w.text
  | .key w => visitKey variables' w
  | .number w => visitValue variables' (.literal (.number w))
  | .bool w => visitValue variables' (.literal (.bool w))

/-! ## Expressions -/

def kept (part : Text) : List Text := if part = specialSkipMarker ∨ part = [] then [] else [part]

def joinedParts (sep : Text) (parts : List Text) : Text := if parts = [] then specialSkipMarker else sep.intercalate parts

mutual

def orParts : OrExpression → List Text
  | .one a => kept (joinedParts [' ', 'A', 'N', 'D', ' '] (andParts a))
  | .cons a rest => kept (joinedParts [' ', 'A', 'N', 'D', ' '] (andParts a)) ++ orParts rest

def andParts : AndExpression → List Text
  | .one u => kept (visitUnaryExpression u)
  | .cons u rest => kept (visitUnaryExpression u) ++ andParts rest

def visitUnaryExpression : UnaryExpression → Text
  | .mk not' p =>
    let result := visitPrimary p
    if result = specialSkipMarker then specialSkipMarker
    else if not' then ['N', 'O', 'T', ' '] ++ result else result

def visitPrimary : Primary → Text
  | .group e => '(' :: (joinedParts [' ', 'O', 'R', ' '] (orParts e) ++ [')'])
  | .condition c => visitCondition variables' c

end

def visitOrExpression (e : OrExpression) : Text := joinedParts [' ', 'O', 'R', ' '] (orParts variables' e)

def visitAndExpression (a : AndExpression) : Text := joinedParts [' ', 'A', 'N', 'D', ' '] (andParts variables' a)

def replaceVariablesInExpression (e : OrExpression) : Text :=
  let result := visitOrExpression variables' e
  if result = specialSkipMarker then [] else result

end

end Variables
end DsApm
