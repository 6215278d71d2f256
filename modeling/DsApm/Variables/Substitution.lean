import DsApm.Variables.ReplaceVisitor
/-!
# Substitution — what the replacement of variables is to be

`Substituted` relates a tree to the tree with its variables replaced: every variable by a literal, or a list of literals, that
stands for its value, and every condition with a variable set to all taken out, together with the groups and negations that
become empty.  A literal stands for the text that the query builder reads from it (`unquoted`).  `Meets` is the condition
under which the visitor prints such a tree.
-/
namespace DsApm
namespace Variables

/-! ## Literals -/

def replacePair (a b new : Char) : Text → Text
  | c :: d :: s => if c = a ∧ d = b then new :: replacePair a b new s else c :: replacePair a b new (d :: s)
  | s => s

/-- `trimQuotes` of the query builder's visitor: the text of a quoted literal. -/
def unquoted (s : Text) : Text := replacePair '\\' '\'' '\'' (replacePair '\\' '\\' '\\' (trimQuotes s))

def Denotes : Literal → VarValue → Prop
  | .quoted w, .string s => unquoted w.text = s
  | .number w, .number text => w.text = text
  | .bool w, .bool b => w.text = formatBool b
  | _, _ => False

def VarValue.items : VarValue → Option (List VarValue)
  | .strings items => some (items.map .string)
  | .array items => some items
  | _ => none

def DenotesList (vs : ValueList) (val : VarValue) : Prop :=
  ∃ items, val.items = some items ∧ List.Forall₂ (fun v item => ∃ l, v = Value.literal l ∧ Denotes l item) vs.values items

def FunctionParamList.params (ps : FunctionParamList) : List FunctionParam := ps.first :: ps.rest

def Literal.condition : Literal → Condition
  | .quoted w => .quotedText w
  | .number w => .number w
  | .bool w => .bool w

section
variable (variables' : GoMap Text VariableItem)

/-! ## Conditions that are taken out -/

def IsAll (text : Text) : Prop := ∃ varItem, variableOf variables' text = some varItem ∧ varItem.isAll = true

def Value.All (v : Value) : Prop := IsAll variables' v.originalValue

def InClause.All : InClause → Prop
  | .valueList vs => ∃ v ∈ vs.values, v.All variables'
  | .value v => v.All variables'

def FunctionParam.All : FunctionParam → Prop
  | .key w => IsAll variables' w.text
  | .value l => (Value.literal l).All variables'
  | .array vs => ∃ v ∈ vs.values, v.All variables'

def Condition.Removed : Condition → Prop
  | .comparison (.operator k _ v) => IsAll variables' k.text ∨ v.All variables'
  | .comparison (.between k _ lo hi) => IsAll variables' k.text ∨ lo.All variables' ∨ hi.All variables'
  | .comparison (.inClause k _ c) => IsAll variables' k.text ∨ c.All variables'
  | .comparison (.exists' k _) => IsAll variables' k.text
  | .functionCall _ ps => ∃ p ∈ ps.params, p.All variables'
  | .key w => IsAll variables' w.text
  | .quotedText _ | .freeText _ | .number _ | .bool _ => False

/-! ## Replaced variables -/

def Value.Replaced (v v' : Value) : Prop :=
  match variableOf variables' v.originalValue with
  | some varItem => ∃ l, v' = .literal l ∧ Denotes l varItem.value
  | none => v' = v

def InClause.Replaced : InClause → InClause → Prop
  | .valueList vs, c' => ∃ vs', c' = .valueList vs' ∧ List.Forall₂ (Value.Replaced variables') vs.values vs'.values
  | .value v, c' =>
    (∃ v', c' = .value v' ∧ v.Replaced variables' v') ∨
      ∃ varItem vs, variableOf variables' v.originalValue = some varItem ∧ c' = .valueList vs ∧ DenotesList vs varItem.value

def Comparison.Replaced : Comparison → Comparison → Prop
  | .operator key op v, c' =>
    variableOf variables' key.text = none ∧ ∃ v', c' = .operator key op v' ∧ v.Replaced variables' v'
  | .between key not' lo hi, c' =>
    variableOf variables' key.text = none ∧
      ∃ lo' hi', c' = .between key not' lo' hi' ∧ lo.Replaced variables' lo' ∧ hi.Replaced variables' hi'
  | .inClause key not' c, c' =>
    variableOf variables' key.text = none ∧ ∃ d, c' = .inClause key not' d ∧ c.Replaced variables' d
  | .exists' key not', c' => variableOf variables' key.text = none ∧ c' = .exists' key not'

def ParamReplaced (text : Text) (p p' : FunctionParam) : Prop :=
  match variableOf variables' text with
  | some varItem => (∃ l, p' = .value l ∧ Denotes l varItem.value) ∨ ∃ vs, p' = .array vs ∧ DenotesList vs varItem.value
  | none => p' = p

def FunctionParam.Replaced : FunctionParam → FunctionParam → Prop
  | .key w, p' => ParamReplaced variables' w.text (.key w) p'
  | .value l, p' => ParamReplaced variables' (Value.literal l).originalValue (.value l) p'
  | .array vs, p' => ∃ vs', p' = .array vs' ∧ List.Forall₂ (Value.Replaced variables') vs.values vs'.values

def Condition.Replaced : Condition → Condition → Prop
  | .comparison c, c' => ∃ d, c' = .comparison d ∧ c.Replaced variables' d
  | .functionCall name ps, c' =>
    ∃ ps', c' = .functionCall name ps' ∧ List.Forall₂ (FunctionParam.Replaced variables') ps.params ps'.params
  | .key w, c' =>
    match variableOf variables' w.text with
    | some varItem => ∃ l, c' = l.condition ∧ Denotes l varItem.value
    | none => c' = .key w
  | .quotedText w, c' => c' = .quotedText w
  | .freeText w, c' => c' = .freeText w
  | .number w, c' => c' = .number w
  | .bool w, c' => c' = .bool w

def Condition.Substituted (c : Condition) (c' : Option Condition) : Prop :=
  (c.Removed variables' ∧ c' = none) ∨ (¬c.Removed variables' ∧ ∃ d, c' = some d ∧ c.Replaced variables' d)

/-! ## Expressions -/

def orOf : Option AndExpression → Option OrExpression → Option OrExpression
  | none, rest => rest
  | some a, none => some (.one a)
  | some a, some rest => some (.cons a rest)

def andOf : Option UnaryExpression → Option AndExpression → Option AndExpression
  | none, rest => rest
  | some u, none => some (.one u)
  | some u, some rest => some (.cons u rest)

mutual

def OrExpression.Substituted : OrExpression → Option OrExpression → Prop
  | .one a, e' => ∃ a', a.Substituted a' ∧ e' = orOf a' none
  | .cons a rest, e' => ∃ a' rest', a.Substituted a' ∧ rest.Substituted rest' ∧ e' = orOf a' rest'

def AndExpression.Substituted : AndExpression → Option AndExpression → Prop
  | .one u, a' => ∃ u', u.Substituted u' ∧ a' = andOf u' none
  | .cons u rest, a' => ∃ u' rest', u.Substituted u' ∧ rest.Substituted rest' ∧ a' = andOf u' rest'

def UnaryExpression.Substituted : UnaryExpression → Option UnaryExpression → Prop
  | .mk not' p, u' => ∃ p', p.Substituted p' ∧ u' = p'.map (.mk not')

def Primary.Substituted : Primary → Option Primary → Prop
  | .group e, p' => ∃ e', e.Substituted e' ∧ p' = e'.map .group
  | .condition c, p' => ∃ c', c.Substituted variables' c' ∧ p' = c'.map .condition

end

mutual

def OrExpression.Gone : OrExpression → Prop
  | .one a => a.Gone
  | .cons a rest => a.Gone ∧ rest.Gone

def AndExpression.Gone : AndExpression → Prop
  | .one u => u.Gone
  | .cons u rest => u.Gone ∧ rest.Gone

def UnaryExpression.Gone : UnaryExpression → Prop
  | .mk _ p => p.Gone

def Primary.Gone : Primary → Prop
  | .group e => e.Gone
  | .condition c => c.Removed variables'

end

/-! ## When the visitor prints what it should -/

/-- Every backslash of a text stands before a character that is neither a backslash nor a quote. -/
def PlainBackslashes (s : Text) : Prop := List.IsChain (fun c d => c = '\\' → d ≠ '\\' ∧ d ≠ '\'') (s ++ ['\''])

def VarValue.Scalar : VarValue → Prop
  | .string s => PlainBackslashes s
  | .number text => kindOf text = some .number
  | .bool _ => True
  | _ => False

def VarValue.Listing (val : VarValue) : Prop := ∃ items, val.items = some items ∧ items ≠ [] ∧ ∀ item ∈ items, item.Scalar

/-- A value is a variable with a scalar, or it is printed as it is: no quoted text with a `$` at its start, and not the
marker. -/
def Value.Fine (v : Value) : Prop :=
  match variableOf variables' v.originalValue with
  | some varItem => varItem.isAll = false ∧ varItem.value.Scalar
  | none =>
    match v with
    | .literal (.quoted w) => (trimQuotes w.text).head? ≠ some '$'
    | .key w => w.text ≠ specialSkipMarker
    | _ => True

def InClause.Fine : InClause → Prop
  | .valueList vs => ∀ v ∈ vs.values, v.Fine variables'
  | .value v =>
    v.Fine variables' ∨ ∃ varItem, variableOf variables' v.originalValue = some varItem ∧ varItem.isAll = false ∧ varItem.value.Listing

def KeyFine (w : Word .key) : Prop := variableOf variables' w.text = none

def Comparison.Meets : Comparison → Prop
  | .operator key _ v => v.All variables' ∨ KeyFine variables' key ∧ v.Fine variables'
  | .between key _ lo hi =>
    (lo.All variables' ∨ hi.All variables') ∨ KeyFine variables' key ∧ lo.Fine variables' ∧ hi.Fine variables'
  | .inClause key _ c => c.All variables' ∨ KeyFine variables' key ∧ c.Fine variables'
  | .exists' key _ => KeyFine variables' key

/-- A parameter may be a list; an array that is written out is never printed as one. -/
def FunctionParam.Meets : FunctionParam → Prop
  | .key w =>
    ∀ varItem, variableOf variables' w.text = some varItem →
      varItem.isAll = false ∧ (varItem.value.Scalar ∨ varItem.value.Listing)
  | .value l =>
    (Value.literal l).Fine variables' ∨
      ∃ varItem, variableOf variables' (Value.literal l).originalValue = some varItem ∧ varItem.isAll = false ∧ varItem.value.Listing
  | .array _ => False

def Condition.Meets : Condition → Prop
  | .comparison c => c.Meets variables'
  | .functionCall _ ps => ∀ p ∈ ps.params, p.Meets variables'
  | .key w => (Value.key w).All variables' ∨ (Value.key w).Fine variables'
  | .quotedText _ | .freeText _ | .number _ | .bool _ => True

mutual

def OrExpression.Meets : OrExpression → Prop
  | .one a => a.Meets
  | .cons a rest => a.Meets ∧ rest.Meets

def AndExpression.Meets : AndExpression → Prop
  | .one u => u.Meets
  | .cons u rest => u.Meets ∧ rest.Meets

def UnaryExpression.Meets : UnaryExpression → Prop
  | .mk _ p => p.Meets

def Primary.Meets : Primary → Prop
  | .group e => e.Meets ∧ ¬e.Gone variables'
  | .condition c => c.Meets variables'

end

end

end Variables
end DsApm
