import DsApm.Variables.QueryProcessor
/-!
# Filters — a statement without the filters of some variables

What the processor is for.  AND, OR and parentheses join conditions, and every other expression of a WHERE is one
condition.  `dropFilters` takes the filters of the removed variables out of one WHERE, and `prune` does so for every WHERE of
a statement, at any depth.  What is left has every operand (`SelectQuery.whole_prune`) and no filter of a removed variable
(`SelectQuery.prune_prune`).
-/
namespace DsApm
namespace Variables

def Logical (operation : String) : Prop := operation = "AND" ∨ operation = "OR"

instance : DecidablePred Logical := fun operation => inferInstanceAs (Decidable (operation = "AND" ∨ operation = "OR"))

/-- `… IN (SELECT …)`. -/
def InSubQuery (operation : String) (r : Expr) : Prop := (operation = "IN" ∨ operation = "NOT IN") ∧ r.isSubQuery

instance (operation : String) (r : Expr) : Decidable (InSubQuery operation r) :=
  inferInstanceAs (Decidable ((operation = "IN" ∨ operation = "NOT IN") ∧ r.isSubQuery))

theorem InSubQuery.not_logical {operation : String} {r : Expr} (h : InSubQuery operation r) : ¬Logical operation := by
  rintro (rfl | rfl) <;> rcases h.1 with h | h <;> exact absurd h (by decide)

@[simp] theorem isNil_iff {e : Expr} : e.isNil = true ↔ e = .nil := by
  cases e <;> simp [Expr.isNil]

def Expr.isOperation : Expr → Bool
  | .binaryOperation _ _ _ _ _ => true
  | _ => false

def Expr.isLogical : Expr → Bool
  | .binaryOperation _ operation _ _ _ => decide (Logical operation)
  | _ => false

/-- A condition of a WHERE: AND, OR and parentheses are taken apart. -/
def Expr.isCondition : Expr → Bool
  | .binaryOperation _ operation _ _ _ => !decide (Logical operation)
  | .paramExprList (.cons (.columnExpr _) .nil) => false
  | _ => true

theorem isCondition_paramExprList (items : ExprList) :
    (Expr.paramExprList items).isCondition = true ∨ ∃ e, items = .cons (.columnExpr e) .nil := by
  unfold Expr.isCondition
  split
  · contradiction
  · rename_i e h
    exact Or.inr ⟨e, Expr.paramExprList.inj h⟩
  · exact Or.inl rfl

theorem Expr.conditionsInduction {motive : Expr → Prop}
    (logical : ∀ l operation r hasGlobal hasNot, Logical operation → motive l → motive r →
      motive (.binaryOperation l operation r hasGlobal hasNot))
    (group : ∀ e, motive e → motive (.paramExprList (.cons (.columnExpr e) .nil)))
    (condition : ∀ e, e.isCondition = true → motive e) : ∀ e, motive e
  | .binaryOperation l operation r hasGlobal hasNot => by
    by_cases h : Logical operation
    · exact logical l operation r hasGlobal hasNot h (conditionsInduction logical group condition l)
        (conditionsInduction logical group condition r)
    · exact condition _ (by simp [isCondition, h])
  | .paramExprList items => by
    rcases isCondition_paramExprList items with h | ⟨e, rfl⟩
    · exact condition _ h
    · exact group e (conditionsInduction logical group condition e)
  | .functionExpr _ _ | .columnExpr _ | .selectItem _ | .indexOperation _ _ | .subQuery _ | .joinExpr _ _ _ | .tableExpr _
  | .aliasExpr _ _ | .nil | .ident _ | .other _ => condition _ rfl
termination_by e => sizeOf e

theorem Expr.operandInduction {motive : Expr → Prop}
    (operation : ∀ l o r hasGlobal hasNot, motive l → motive r → motive (.binaryOperation l o r hasGlobal hasNot))
    (single : ∀ e, e.isOperation = false → motive e) : ∀ e, motive e
  | .binaryOperation l o r hasGlobal hasNot =>
    operation l o r hasGlobal hasNot (operandInduction operation single l) (operandInduction operation single r)
  | .functionExpr _ _ | .columnExpr _ | .paramExprList _ | .selectItem _ | .indexOperation _ _ | .subQuery _
  | .joinExpr _ _ _ | .tableExpr _ | .aliasExpr _ _ | .nil | .ident _ | .other _ => single _ rfl

/-! ## Whole trees -/

mutual

/-- Every operation has both operands, and AND and OR bind weaker than all others: the trees that the parser gives. -/
def Expr.Whole : Expr → Prop
  | .binaryOperation l operation r _ _ =>
    (l ≠ .nil ∧ r ≠ .nil) ∧ (¬Logical operation → l.isLogical = false ∧ r.isLogical = false) ∧ l.Whole ∧ r.Whole
  | .subQuery select => select.Whole
  | .functionExpr _ params => params.Whole
  | .columnExpr e => e.Whole
  | .paramExprList items => items.Whole
  | .selectItem e => e.Whole
  | .indexOperation o i => o.Whole ∧ i.Whole
  | .joinExpr l r c => l.Whole ∧ r.Whole ∧ c.Whole
  | .tableExpr e => e.Whole
  | .aliasExpr e _ => e.Whole
  | .nil | .ident _ | .other _ => True

def ExprList.Whole : ExprList → Prop
  | .nil => True
  | .cons item items => item.Whole ∧ items.Whole

def SelectQuery.Whole : SelectQuery → Prop
  | .mk from_ where_ _ => from_.Whole ∧ where_.Whole

end

/-! ## One WHERE -/

def join (l : Expr) (operation : String) (r : Expr) (hasGlobal hasNot : Bool) : Expr :=
  if l.isNil then r else if r.isNil then l else .binaryOperation l operation r hasGlobal hasNot

def group (e : Expr) : Expr := if e.isNil then .nil else .paramExprList (.cons (.columnExpr e) .nil)

section
variable (removed : String → Bool)

/-- A condition is a filter of a removed variable when an operand of its operations is a simple expression with the
variable; what stands before IN and a subquery is looked at as a whole. -/
def Expr.refers : Expr → Bool
  | .binaryOperation l operation r _ _ =>
    if InSubQuery operation r then (findVariables l).any removed else l.refers || r.refers
  | e => !isComplexExpression e && (findVariables e).any removed

variable {e : Expr}

variable {removed} in
theorem refers_of_not_operation (h : e.isOperation = false) :
    e.refers removed = (!isComplexExpression e && (findVariables e).any removed) := by
  cases e with
  | binaryOperation _ _ _ _ _ => cases h
  | _ => rw [Expr.refers]; simp

/-- The conditions of one WHERE, without the filters of the removed variables. -/
def Expr.dropFilters : Expr → Expr
  | .binaryOperation l operation r hasGlobal hasNot =>
    if Logical operation then join l.dropFilters operation r.dropFilters hasGlobal hasNot
    else if (Expr.binaryOperation l operation r hasGlobal hasNot).refers removed then .nil
    else .binaryOperation l operation r hasGlobal hasNot
  | .paramExprList (.cons (.columnExpr e) .nil) => group e.dropFilters
  | e => if e.refers removed then .nil else e

/-! ## Every WHERE -/

mutual

/-- An expression with the filters of the removed variables taken out of its subqueries. -/
def Expr.prune : Expr → Expr
  | .binaryOperation l operation r hasGlobal hasNot => .binaryOperation l.prune operation r.prune hasGlobal hasNot
  | .subQuery select => .subQuery select.prune
  | .functionExpr name ps => .functionExpr name ps.prune
  | .columnExpr e => .columnExpr e.prune
  | .paramExprList items => .paramExprList items.prune
  | .selectItem e => .selectItem e.prune
  | .indexOperation o i => .indexOperation o.prune i.prune
  | .joinExpr l r c => .joinExpr l.prune r.prune c.prune
  | .tableExpr e => .tableExpr e.prune
  | .aliasExpr e alias_ => .aliasExpr e.prune alias_
  | .nil => .nil
  | .ident name => .ident name
  | .other text => .other text

def ExprList.prune : ExprList → ExprList
  | .nil => .nil
  | .cons item items => .cons item.prune items.prune

def SelectQuery.prune : SelectQuery → SelectQuery
  | .mk from_ where_ rest => .mk from_.prune (where_.prune.dropFilters removed) rest

end

/-! ### Subqueries do not matter to what an expression refers to -/

mutual

theorem findVariables_prune : ∀ e : Expr, findVariables (e.prune removed) = findVariables e
  | .binaryOperation l _ r _ _ => by simp only [Expr.prune, findVariables, findVariables_prune l, findVariables_prune r]
  | .functionExpr _ ps => by simp only [Expr.prune, findVariables, findVariablesList_prune ps]
  | .columnExpr e => by simp only [Expr.prune, findVariables, findVariables_prune e]
  | .paramExprList items => by simp only [Expr.prune, findVariables, findVariablesList_prune items]
  | .selectItem e => by simp only [Expr.prune, findVariables, findVariables_prune e]
  | .indexOperation o i => by simp only [Expr.prune, findVariables, findVariables_prune o, findVariables_prune i]
  | .subQuery _ | .joinExpr _ _ _ | .tableExpr _ | .aliasExpr _ _ | .nil | .ident _ | .other _ => by
    simp only [Expr.prune, findVariables]

theorem findVariablesList_prune : ∀ items : ExprList, findVariablesList (items.prune removed) = findVariablesList items
  | .nil => rfl
  | .cons item items => by
    simp only [ExprList.prune, findVariablesList, findVariables_prune item, findVariablesList_prune items]

end

mutual

theorem isComplexExpression_prune : ∀ e : Expr, isComplexExpression (e.prune removed) = isComplexExpression e
  | .functionExpr _ ps => by simp only [Expr.prune, isComplexExpression, isComplexList_prune ps]
  | .binaryOperation _ _ _ _ _ | .columnExpr _ | .paramExprList _ | .selectItem _ | .indexOperation _ _ | .subQuery _
  | .joinExpr _ _ _ | .tableExpr _ | .aliasExpr _ _ | .nil | .ident _ | .other _ => by
    simp only [Expr.prune, isComplexExpression]

theorem isComplexList_prune : ∀ items : ExprList, isComplexList (items.prune removed) = isComplexList items
  | .nil => rfl
  | .cons item items => by
    simp only [ExprList.prune, isComplexList, isComplexExpression_prune item, isComplexList_prune items]

end

@[simp] theorem isSubQuery_prune (e : Expr) : (e.prune removed).isSubQuery = e.isSubQuery := by
  cases e <;> rfl

@[simp] theorem isLogical_prune (e : Expr) : (e.prune removed).isLogical = e.isLogical := by
  cases e <;> rfl

@[simp] theorem prune_eq_nil : e.prune removed = .nil ↔ e = .nil := by
  cases e <;> simp [Expr.prune]

variable {operation : String}

@[simp] theorem inSubQuery_prune {r : Expr} :
    InSubQuery operation (r.prune removed) ↔ InSubQuery operation r := by
  unfold InSubQuery
  rw [isSubQuery_prune]

@[simp] theorem refers_prune : ∀ e : Expr, (e.prune removed).refers removed = e.refers removed
  | .binaryOperation l operation r _ _ => by
    simp only [Expr.prune, Expr.refers, inSubQuery_prune, findVariables_prune, refers_prune l, refers_prune r]
  | .functionExpr _ _ | .columnExpr _ | .paramExprList _ | .selectItem _ | .indexOperation _ _ | .subQuery _
  | .joinExpr _ _ _ | .tableExpr _ | .aliasExpr _ _ | .nil | .ident _ | .other _ => by
    rw [refers_of_not_operation (by rfl), refers_of_not_operation (by rfl), findVariables_prune, isComplexExpression_prune]

/-! ### What is left of one WHERE -/

variable {removed}

theorem dropFilters_logical (h : Logical operation) (l r : Expr) (hasGlobal hasNot : Bool) :
    (Expr.binaryOperation l operation r hasGlobal hasNot).dropFilters removed =
      join (l.dropFilters removed) operation (r.dropFilters removed) hasGlobal hasNot := by
  rw [Expr.dropFilters, if_pos h]

theorem dropFilters_condition (h : e.isCondition = true) :
    e.dropFilters removed = if e.refers removed then .nil else e := by
  unfold Expr.isCondition at h
  split at h
  · rw [Expr.dropFilters, if_neg (by simpa using h)]
  · contradiction
  · rename_i hop hgroup
    rw [Expr.dropFilters]
    · exact fun _ _ _ _ _ he => hop _ _ _ _ _ he
    · exact fun _ he => hgroup _ he

def Expr.Filled : Expr → Prop
  | .nil => False
  | .binaryOperation l _ r _ _ => l.Filled ∧ r.Filled
  | _ => True

variable (removed) in
/-- A WHERE whose conditions have all their operands, none of them a filter of a removed variable. -/
def Expr.Sound : Expr → Prop
  | .binaryOperation l operation r hasGlobal hasNot =>
    if Logical operation then l.Sound ∧ r.Sound
    else (l.Filled ∧ r.Filled) ∧ (Expr.binaryOperation l operation r hasGlobal hasNot).refers removed = false
  | .paramExprList (.cons (.columnExpr e) .nil) => e.Sound
  | e => e.Filled ∧ e.refers removed = false

def Expr.conditions : Expr → Nat
  | .nil => 0
  | .binaryOperation l operation r _ _ => if Logical operation then l.conditions + r.conditions else 1
  | .paramExprList (.cons (.columnExpr e) .nil) => e.conditions
  | _ => 1

theorem sound_logical (h : Logical operation) (l r : Expr) (hasGlobal hasNot : Bool) :
    (Expr.binaryOperation l operation r hasGlobal hasNot).Sound removed ↔ l.Sound removed ∧ r.Sound removed := by
  rw [Expr.Sound, if_pos h]

theorem sound_condition (h : e.isCondition = true) :
    e.Sound removed ↔ e.Filled ∧ e.refers removed = false := by
  unfold Expr.isCondition at h
  split at h
  · rw [Expr.Sound, if_neg (by simpa using h), Expr.Filled]
  · contradiction
  · rename_i hop hgroup
    rw [Expr.Sound]
    · exact fun _ _ _ _ _ he => hop _ _ _ _ _ he
    · exact fun _ he => hgroup _ he

theorem conditions_logical (h : Logical operation) (l r : Expr) (hasGlobal hasNot : Bool) :
    (Expr.binaryOperation l operation r hasGlobal hasNot).conditions = l.conditions + r.conditions := by
  rw [Expr.conditions, if_pos h]

theorem conditions_condition (h : e.isCondition = true) (hne : e ≠ .nil) : e.conditions = 1 := by
  unfold Expr.isCondition at h
  split at h
  · rw [Expr.conditions, if_neg (by simpa using h)]
  · contradiction
  · rename_i hop hgroup
    rw [Expr.conditions]
    · exact fun he => hne he
    · exact fun _ _ _ _ _ he => hop _ _ _ _ _ he
    · exact fun _ he => hgroup _ he

theorem not_sound_nil : ¬Expr.Sound removed .nil := fun h => h.1

theorem conditions_join (l : Expr) (h : Logical operation) (r : Expr) (hasGlobal hasNot : Bool) :
    (join l operation r hasGlobal hasNot).conditions = l.conditions + r.conditions := by
  unfold join
  split_ifs with hl hr
  · cases l <;> first | contradiction | simp [Expr.conditions]
  · cases r <;> first | contradiction | simp [Expr.conditions]
  · exact conditions_logical h l r hasGlobal hasNot

theorem sound_join {l r : Expr} (h : Logical operation) {hasGlobal hasNot : Bool}
    (hl : l = .nil ∨ l.Sound removed) (hr : r = .nil ∨ r.Sound removed) :
    join l operation r hasGlobal hasNot = .nil ∨ (join l operation r hasGlobal hasNot).Sound removed := by
  unfold join
  split_ifs with hln hrn
  · exact hr
  · exact hl
  · have hl' := hl.resolve_left (by rintro rfl; exact hln rfl)
    have hr' := hr.resolve_left (by rintro rfl; exact hrn rfl)
    exact Or.inr ((sound_logical h l r hasGlobal hasNot).2 ⟨hl', hr'⟩)

theorem Expr.Whole.filled : ∀ {e : Expr}, e.Whole → e ≠ .nil → e.Filled := by
  intro e
  induction e using Expr.operandInduction with
  | operation l o r hasGlobal hasNot hl hr => exact fun hw _ => ⟨hl hw.2.2.1 hw.1.1, hr hw.2.2.2 hw.1.2⟩
  | single e he =>
    intro _ hne
    cases e <;> first | contradiction | trivial

theorem dropFilters_sound (e : Expr) (hw : e.Whole) : e.dropFilters removed = .nil ∨ (e.dropFilters removed).Sound removed := by
  induction e using Expr.conditionsInduction with
  | logical l operation r hasGlobal hasNot h hl hr =>
    rw [dropFilters_logical h]
    exact sound_join h (hl hw.2.2.1) (hr hw.2.2.2)
  | group e he =>
    rw [Expr.dropFilters, group]
    rcases he hw.1 with hn | hs
    · exact Or.inl (by rw [hn]; rfl)
    · split_ifs with hn
      · exact Or.inl rfl
      · exact Or.inr hs
  | condition e he =>
    rw [dropFilters_condition he]
    split_ifs with hr
    · exact Or.inl rfl
    · by_cases hne : e = .nil
      · exact Or.inl hne
      · exact Or.inr ((sound_condition he).2 ⟨hw.filled hne, by simpa using hr⟩)

theorem Expr.Sound.dropFilters_eq (hs : e.Sound removed) : e.dropFilters removed = e := by
  induction e using Expr.conditionsInduction with
  | logical l operation r hasGlobal hasNot h hl hr =>
    rw [sound_logical h] at hs
    rw [dropFilters_logical h, hl hs.1, hr hs.2, join, if_neg, if_neg]
    · intro hn
      cases r <;> first | contradiction | exact not_sound_nil hs.2
    · intro hn
      cases l <;> first | contradiction | exact not_sound_nil hs.1
  | group e he =>
    rw [Expr.dropFilters, he hs, group, if_neg]
    intro hn
    cases e <;> first | contradiction | exact not_sound_nil hs
  | condition e he => rw [dropFilters_condition he, if_neg (by simp [((sound_condition he).1 hs).2])]

theorem Expr.Sound.one_le_conditions (hs : e.Sound removed) : 1 ≤ e.conditions := by
  induction e using Expr.conditionsInduction with
  | logical l operation r hasGlobal hasNot h hl hr =>
    rw [conditions_logical h]
    exact Nat.le_add_right_of_le (hl ((sound_logical h l r hasGlobal hasNot).1 hs).1)
  | group e he => exact he hs
  | condition e he =>
    rw [conditions_condition he]
    rintro rfl
    exact not_sound_nil hs

theorem whole_join {l r : Expr} (h : Logical operation) {hasGlobal hasNot : Bool} (hl : l.Whole)
    (hr : r.Whole) : (join l operation r hasGlobal hasNot).Whole := by
  unfold join
  split_ifs with hln hrn
  · exact hr
  · exact hl
  · exact ⟨⟨by rintro rfl; exact hln rfl, by rintro rfl; exact hrn rfl⟩, fun hn => absurd h hn, hl, hr⟩

theorem whole_dropFilters (e : Expr) (hw : e.Whole) : (e.dropFilters removed).Whole := by
  induction e using Expr.conditionsInduction with
  | logical l operation r hasGlobal hasNot h hl hr =>
    rw [dropFilters_logical h]
    exact whole_join h (hl hw.2.2.1) (hr hw.2.2.2)
  | group e he =>
    rw [Expr.dropFilters, group]
    split_ifs
    · trivial
    · exact ⟨he hw.1, trivial⟩
  | condition e he =>
    rw [dropFilters_condition he]
    split_ifs
    · trivial
    · exact hw

/-! ### What is left of a statement -/

mutual

theorem Expr.whole_prune : ∀ e : Expr, e.Whole → (e.prune removed).Whole
  | .binaryOperation l operation r _ _, hw => by
    refine ⟨?_, ?_, l.whole_prune hw.2.2.1, r.whole_prune hw.2.2.2⟩
    · simpa using hw.1
    · simpa using hw.2.1
  | .subQuery select, hw => select.whole_prune hw
  | .functionExpr _ ps, hw => ps.whole_prune hw
  | .columnExpr e, hw => e.whole_prune hw
  | .paramExprList items, hw => items.whole_prune hw
  | .selectItem e, hw => e.whole_prune hw
  | .indexOperation o i, hw => ⟨o.whole_prune hw.1, i.whole_prune hw.2⟩
  | .joinExpr l r c, hw => ⟨l.whole_prune hw.1, r.whole_prune hw.2.1, c.whole_prune hw.2.2⟩
  | .tableExpr e, hw => e.whole_prune hw
  | .aliasExpr e _, hw => e.whole_prune hw
  | .nil, hw | .ident _, hw | .other _, hw => hw

theorem ExprList.whole_prune : ∀ items : ExprList, items.Whole → (items.prune removed).Whole
  | .nil, hw => hw
  | .cons item items, hw => ⟨item.whole_prune hw.1, items.whole_prune hw.2⟩

/-- **Every operation of a pruned statement has both operands.** -/
theorem SelectQuery.whole_prune : ∀ s : SelectQuery, s.Whole → (s.prune removed).Whole
  | .mk from_ where_ _, hw => ⟨from_.whole_prune hw.1, whole_dropFilters _ (where_.whole_prune hw.2)⟩

end

@[simp] theorem isCondition_prune (e : Expr) : (e.prune removed).isCondition = e.isCondition := by
  cases e with
  | paramExprList items =>
    rcases items with _ | ⟨item, _ | ⟨_, _⟩⟩
    · rfl
    · cases item <;> rfl
    · cases item <;> rfl
  | _ => rfl

theorem prune_join (l : Expr) (operation : String) (r : Expr) (hasGlobal hasNot : Bool) :
    (join l operation r hasGlobal hasNot).prune removed =
      join (l.prune removed) operation (r.prune removed) hasGlobal hasNot := by
  have hnil : ∀ e : Expr, (e.prune removed).isNil = e.isNil := fun e => by cases e <;> rfl
  unfold join
  rw [hnil l, hnil r]
  split_ifs <;> rfl

@[simp] theorem conditions_prune (e : Expr) : (e.prune removed).conditions = e.conditions := by
  induction e using Expr.conditionsInduction with
  | logical l operation r hasGlobal hasNot h hl hr => rw [Expr.prune, conditions_logical h, conditions_logical h, hl, hr]
  | group e he => exact he
  | condition e he =>
    by_cases hne : e = .nil
    · rw [hne]; rfl
    · rw [conditions_condition he hne, conditions_condition (by simpa using he) (by simpa using hne)]

theorem prune_dropFilters (e : Expr) :
    (e.dropFilters removed).prune removed = (e.prune removed).dropFilters removed := by
  induction e using Expr.conditionsInduction with
  | logical l operation r hasGlobal hasNot h hl hr =>
    rw [Expr.prune, dropFilters_logical h, dropFilters_logical h, prune_join, hl, hr]
  | group e he =>
    have hp : (Expr.paramExprList (.cons (.columnExpr e) .nil)).prune removed
        = .paramExprList (.cons (.columnExpr (e.prune removed)) .nil) := rfl
    rw [hp, Expr.dropFilters, Expr.dropFilters, ← he]
    cases e.dropFilters removed <;> rfl
  | condition e he =>
    rw [dropFilters_condition he, dropFilters_condition (by simpa using he), refers_prune]
    split_ifs <;> rfl

mutual

theorem Expr.prune_prune : ∀ e : Expr, e.Whole → (e.prune removed).prune removed = e.prune removed
  | .binaryOperation l operation r _ _, hw => by
    simp only [Expr.prune, l.prune_prune hw.2.2.1, r.prune_prune hw.2.2.2]
  | .subQuery select, hw => by simp only [Expr.prune, select.prune_prune hw]
  | .functionExpr _ ps, hw => by simp only [Expr.prune, ps.prune_prune hw]
  | .columnExpr e, hw => by simp only [Expr.prune, e.prune_prune hw]
  | .paramExprList items, hw => by simp only [Expr.prune, items.prune_prune hw]
  | .selectItem e, hw => by simp only [Expr.prune, e.prune_prune hw]
  | .indexOperation o i, hw => by simp only [Expr.prune, o.prune_prune hw.1, i.prune_prune hw.2]
  | .joinExpr l r c, hw => by simp only [Expr.prune, l.prune_prune hw.1, r.prune_prune hw.2.1, c.prune_prune hw.2.2]
  | .tableExpr e, hw => by simp only [Expr.prune, e.prune_prune hw]
  | .aliasExpr e _, hw => by simp only [Expr.prune, e.prune_prune hw]
  | .nil, _ | .ident _, _ | .other _, _ => rfl

theorem ExprList.prune_prune : ∀ items : ExprList, items.Whole → (items.prune removed).prune removed = items.prune removed
  | .nil, _ => rfl
  | .cons item items, hw => by simp only [ExprList.prune, item.prune_prune hw.1, items.prune_prune hw.2]

/-- **A pruned statement has no filter of a removed variable left, in any WHERE.** -/
theorem SelectQuery.prune_prune : ∀ s : SelectQuery, s.Whole → (s.prune removed).prune removed = s.prune removed
  | .mk from_ where_ _, hw => by
    have hagain : ((where_.prune removed).dropFilters removed).dropFilters removed = (where_.prune removed).dropFilters removed := by
      rcases @dropFilters_sound removed _ (where_.whole_prune hw.2) with hn | hs
      · rw [hn]; rfl
      · exact hs.dropFilters_eq
    simp only [SelectQuery.prune, prune_dropFilters, from_.prune_prune hw.1, where_.prune_prune hw.2, hagain]

end

end

end Variables
end DsApm
