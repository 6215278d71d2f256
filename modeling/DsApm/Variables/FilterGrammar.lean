import DsApm.Variables.FilterLexer
/-!
# FilterGrammar — the parser rules of `grammar/FilterQuery.g4`

The syntax trees as the visitors look at them: the choices of the rules and the texts of the tokens, without punctuation.  Where
two alternatives take the same tokens the tree has the one that the parser takes: a single KEY is a `key`, a single
QUOTED_TEXT is full text.  `Yields` says which tokens a rule takes for a tree, and `Parses` that a text is read so.
-/
namespace DsApm
namespace Variables

inductive Literal where
  | quoted (w : Word .quotedText)
  | number (w : Word .number)
  | bool (w : Word .bool)

inductive Value where
  | literal (l : Literal)
  | key (w : Word .key)

structure ValueList where
  first : Value
  rest : List Value

def ValueList.values (vs : ValueList) : List Value := vs.first :: vs.rest

inductive InClause where
  | valueList (vs : ValueList)
  | value (v : Value)

inductive Operator where
  | equals | notEquals | neq | lt | le | gt | ge | like | ilike | regexp | contains
  | notLike | notIlike | notRegexp | notContains
  deriving DecidableEq, Repr

inductive Comparison where
  | operator (key : Word .key) (op : Operator) (v : Value)
  | between (key : Word .key) (not' : Bool) (lo hi : Value)
  | inClause (key : Word .key) (not' : Bool) (c : InClause)
  | exists' (key : Word .key) (not' : Bool)

inductive FunctionName where
  | hasToken | has | hasAny | hasAll
  deriving DecidableEq, Repr

inductive FunctionParam where
  | key (w : Word .key)
  | value (l : Literal)
  | array (vs : ValueList)

structure FunctionParamList where
  first : FunctionParam
  rest : List FunctionParam

inductive Condition where
  | comparison (c : Comparison)
  | functionCall (name : FunctionName) (params : FunctionParamList)
  | quotedText (w : Word .quotedText)
  | freeText (w : Word .freeText)
  | key (w : Word .key)
  | number (w : Word .number)
  | bool (w : Word .bool)

mutual

inductive OrExpression where
  | one (a : AndExpression)
  | cons (a : AndExpression) (rest : OrExpression)

inductive AndExpression where
  | one (u : UnaryExpression)
  | cons (u : UnaryExpression) (rest : AndExpression)

inductive UnaryExpression where
  | mk (not' : Bool) (p : Primary)

inductive Primary where
  | group (e : OrExpression)
  | condition (c : Condition)

end

/-! ## The tokens of a tree -/

def Word.token {k : Kind} (w : Word k) : Token := Token.of (k, w.text)

def mark (k : Kind) : Token := ⟨k, []⟩

def Literal.token : Literal → Token
  | .quoted w => w.token
  | .number w => w.token
  | .bool w => w.token

def Value.token : Value → Token
  | .literal l => l.token
  | .key w => w.token

def ValueList.tokens (vs : ValueList) : List Token := vs.first.token :: vs.rest.flatMap (fun v => [mark .comma, v.token])

def InClause.Yields : InClause → List Token → Prop
  | .valueList vs, ts => ts = mark .lparen :: (vs.tokens ++ [mark .rparen]) ∨ ts = mark .lbrack :: (vs.tokens ++ [mark .rbrack])
  | .value v, ts => ts = [v.token]

def Operator.tokens : Operator → List Token
  | .equals => [mark .equals]
  | .notEquals => [mark .notEquals]
  | .neq => [mark .neq]
  | .lt => [mark .lt]
  | .le => [mark .le]
  | .gt => [mark .gt]
  | .ge => [mark .ge]
  | .like => [mark .like]
  | .ilike => [mark .ilike]
  | .regexp => [mark .regexp]
  | .contains => [mark .contains]
  | .notLike => [mark .not', mark .like]
  | .notIlike => [mark .not', mark .ilike]
  | .notRegexp => [mark .not', mark .regexp]
  | .notContains => [mark .not', mark .contains]

def negation (not' : Bool) : List Token := if not' then [mark .not'] else []

def Comparison.Yields : Comparison → List Token → Prop
  | .operator key op v, ts => ts = key.token :: (op.tokens ++ [v.token])
  | .between key not' lo hi, ts =>
    ts = key.token :: (negation not' ++ [mark .between, lo.token, mark .and', hi.token])
  | .inClause key not' c, ts => ∃ us, c.Yields us ∧ ts = key.token :: (negation not' ++ mark .in' :: us)
  | .exists' key not', ts => ts = key.token :: (negation not' ++ [mark .exists'])

def FunctionName.kind : FunctionName → Kind
  | .hasToken => .hasToken
  | .has => .has
  | .hasAny => .hasAny
  | .hasAll => .hasAll

def FunctionParam.tokens : FunctionParam → List Token
  | .key w => [w.token]
  | .value l => [l.token]
  | .array vs => mark .lbrack :: (vs.tokens ++ [mark .rbrack])

def FunctionParamList.tokens (ps : FunctionParamList) : List Token :=
  ps.first.tokens ++ ps.rest.flatMap (fun p => mark .comma :: p.tokens)

def Condition.Yields : Condition → List Token → Prop
  | .comparison c, ts => c.Yields ts
  | .functionCall name params, ts => ts = mark name.kind :: mark .lparen :: (params.tokens ++ [mark .rparen])
  | .quotedText w, ts => ts = [w.token]
  | .freeText w, ts => ts = [w.token]
  | .key w, ts => ts = [w.token]
  | .number w, ts => ts = [w.token]
  | .bool w, ts => ts = [w.token]

mutual

def OrExpression.Yields : OrExpression → List Token → Prop
  | .one a, ts => a.Yields ts
  | .cons a rest, ts => ∃ us vs, a.Yields us ∧ rest.Yields vs ∧ ts = us ++ mark .or' :: vs

def AndExpression.Yields : AndExpression → List Token → Prop
  | .one u, ts => u.Yields ts
  | .cons u rest, ts => ∃ us vs, u.Yields us ∧ rest.Yields vs ∧ (ts = us ++ mark .and' :: vs ∨ ts = us ++ vs)

def UnaryExpression.Yields : UnaryExpression → List Token → Prop
  | .mk not' p, ts => ∃ us, p.Yields us ∧ ts = negation not' ++ us

def Primary.Yields : Primary → List Token → Prop
  | .group e, ts => ∃ us, e.Yields us ∧ ts = mark .lparen :: (us ++ [mark .rparen])
  | .condition c, ts => c.Yields ts

end

def Parses (s : Text) (e : OrExpression) : Prop := ∃ ts, lexed s = some ts ∧ e.Yields ts

end Variables
end DsApm
