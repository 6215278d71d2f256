import DsApm.Variables.Removal
/-!
# Processing — when a query is left without exactly the filters of the removed variables

`SelectQuery.Meets` is the condition, by recursion over the statement: what the processor takes for one filter holds nothing
else, each filter of a removed variable is taken, OR loses no side, nothing is to be removed from a subquery that it does not
reach, and from a WHERE after a subquery of FROM was modified.
-/
namespace DsApm
namespace Variables

section
variable (removed : String → Bool)

def Expr.remaining (e : Expr) : Expr := (e.prune removed).dropFilters removed

mutual

/-- What a SELECT has to meet: a WHERE is looked at only when no subquery of FROM was modified. -/
def SelectQuery.Meets : SelectQuery → Prop
  | .mk from_ where_ _ =>
    from_.MeetsFrom ∧ if from_.prune removed = from_ then where_.MeetsWhere else where_.remaining removed = where_

/-- The subqueries of FROM are reached through operations, joins, tables, aliases and arguments. -/
def Expr.MeetsFrom : Expr → Prop
  | .subQuery select => select.Meets
  | .binaryOperation l _ r _ _ => l.MeetsFrom ∧ r.MeetsFrom
  | .joinExpr l r c => l.MeetsFrom ∧ r.MeetsFrom ∧ c.MeetsFrom
  | .tableExpr e => e.MeetsFrom
  | .aliasExpr e _ => e.MeetsFrom
  | .functionExpr _ params => params.MeetsFrom
  | e => e.prune removed = e

def ExprList.MeetsFrom : ExprList → Prop
  | .nil => True
  | .cons item items => item.MeetsFrom ∧ items.MeetsFrom

/-- A condition without a removed variable: its subqueries are reached through operations, and not before IN. -/
def Expr.MeetsOperand : Expr → Prop
  | .subQuery select => select.Meets
  | .binaryOperation l operation r _ _ =>
    if InSubQuery operation r then l.prune removed = l ∧ r.MeetsOperand else l.MeetsOperand ∧ r.MeetsOperand
  | e => e.prune removed = e

def Expr.MeetsWhere : Expr → Prop
  | .subQuery select => select.Meets
  | .binaryOperation l operation r hasGlobal hasNot =>
    let e := Expr.binaryOperation l operation r hasGlobal hasNot
    if Logical operation then
      if e.taken removed then e.remaining removed = .nil
      else (l.MeetsWhere ∧ r.MeetsWhere) ∧ (operation = "OR" → l.remaining removed ≠ .nil ∧ r.remaining removed ≠ .nil)
    else if e.refers removed then e.gone removed = true
    else if InSubQuery operation r then l.prune removed = l ∧ r.MeetsOperand else l.MeetsOperand ∧ r.MeetsOperand
  | .nil => True
  | e => if e.taken removed then e.remaining removed = .nil else e.remaining removed = e

end

variable {removed}

/-! ## How many conditions are left -/

variable {operation : String}

theorem remaining_logical (h : Logical operation) (l r : Expr) (hasGlobal hasNot : Bool) :
    (Expr.binaryOperation l operation r hasGlobal hasNot).remaining removed =
      join (l.remaining removed) operation (r.remaining removed) hasGlobal hasNot := by
  rw [Expr.remaining, Expr.prune, dropFilters_logical h, Expr.remaining, Expr.remaining]

variable {e : Expr}

theorem remaining_condition (h : e.isCondition = true) :
    e.remaining removed = if e.refers removed then .nil else e.prune removed := by
  rw [Expr.remaining, dropFilters_condition (by simpa using h), refers_prune]

theorem remaining_sound (hw : e.Whole) : e.remaining removed = .nil ∨ (e.remaining removed).Sound removed :=
  dropFilters_sound _ (e.whole_prune hw)

theorem remaining_of_sound (h : e.Sound removed) : e.remaining removed = e.prune removed := by
  rw [Expr.remaining, ← prune_dropFilters, h.dropFilters_eq]

variable {r : Expr}

theorem not_inSubQuery_of_logical (h : Logical operation) : ¬InSubQuery operation r :=
  fun hin => hin.not_logical h

variable {l : Expr} {hasGlobal hasNot : Bool}

theorem transformExpr_logical (h : Logical operation)
    (ht : (Expr.binaryOperation l operation r hasGlobal hasNot).taken removed = false) (hl : l ≠ .nil) (hr : r ≠ .nil) :
    (transformExpr (removing removed) (.binaryOperation l operation r hasGlobal hasNot)).1 =
      if operation = "OR"
        then .binaryOperation (transformExpr (removing removed) l).1 operation (transformExpr (removing removed) r).1 hasGlobal hasNot
        else join (transformExpr (removing removed) l).1 operation (transformExpr (removing removed) r).1 hasGlobal hasNot := by
  rw [transformExpr_operation_fst (not_inSubQuery_of_logical h) ht hl hr]
  rcases h with rfl | rfl
  · rw [rebuild_and, if_neg (by decide)]
  · rw [rebuild, if_neg (by decide), if_neg (by simp [comparisonOperations]), if_pos rfl]

theorem sound_of_join (h : Logical operation)
    (hs : join l operation r hasGlobal hasNot = .nil ∨ (join l operation r hasGlobal hasNot).Sound removed) :
    (l = .nil ∨ l.Sound removed) ∧ (r = .nil ∨ r.Sound removed) := by
  unfold join at hs
  split_ifs at hs with hl hr
  · exact ⟨Or.inl (isNil_iff.1 hl), hs⟩
  · exact ⟨hs, Or.inl (isNil_iff.1 hr)⟩
  · have hs := (sound_logical h l r hasGlobal hasNot).1 (hs.resolve_left (by simp))
    exact ⟨Or.inr hs.1, Or.inr hs.2⟩

/-- **The processor leaves no more conditions than it should, where it leaves nothing or a sound WHERE.** -/
theorem conditions_transformExpr_le (e : Expr) (hw : e.Whole)
    (hs : (transformExpr (removing removed) e).1 = .nil ∨ (transformExpr (removing removed) e).1.Sound removed) :
    (transformExpr (removing removed) e).1.conditions ≤ (e.remaining removed).conditions := by
  induction e using Expr.conditionsInduction with
  | logical l operation r hasGlobal hasNot h ihl ihr =>
    rcases hs with hn | hs
    · rw [hn]; exact Nat.zero_le _
    have ht : (Expr.binaryOperation l operation r hasGlobal hasNot).taken removed = false := by
      by_contra ht
      rw [transformExpr_of_taken (by simpa using ht)] at hs
      exact not_sound_nil hs
    rw [transformExpr_logical h ht hw.1.1 hw.1.2] at hs ⊢
    rw [remaining_logical h, conditions_join _ h]
    split_ifs at hs ⊢ with ho
    · rw [sound_logical h] at hs
      rw [conditions_logical h]
      exact Nat.add_le_add (ihl hw.2.2.1 (Or.inr hs.1)) (ihr hw.2.2.2 (Or.inr hs.2))
    · have hsides := sound_of_join h (Or.inr hs)
      rw [conditions_join _ h]
      exact Nat.add_le_add (ihl hw.2.2.1 hsides.1) (ihr hw.2.2.2 hsides.2)
  | group e _ =>
    rw [transformExpr_single rfl rfl] at hs ⊢
    split_ifs at hs ⊢
    · exact Nat.zero_le _
    · rcases hs with hn | hs
      · cases hn
      · rw [remaining_of_sound hs, conditions_prune]
  | condition e he =>
    rcases hs with hn | hs
    · rw [hn]; exact Nat.zero_le _
    have hc := @isCondition_transformExpr removed e hw he
    have hne : (transformExpr (removing removed) e).1 ≠ .nil := fun hn => not_sound_nil (hn ▸ hs)
    have hf := (sound_condition hc).1 hs
    have href := (refers_transformExpr hw (isLogical_of_isCondition he) hf.1).1
    have hnil : e ≠ .nil := by
      rintro rfl
      exact hne (by rw [transformExpr])
    rw [remaining_condition he, ← href, hf.2, if_neg Bool.false_ne_true, conditions_condition hc hne,
      conditions_prune, conditions_condition he hnil]

/-! ## When the result is right -/

theorem eq_nil_of_conditions (h : e = .nil ∨ e.Sound removed) (hc : e.conditions = 0) : e = .nil :=
  h.resolve_right (fun hs => by have := hs.one_le_conditions; omega)

/-- Two joined conditions are right when both are: with the conditions that are left counted, neither side can stand for the
other. -/
theorem join_eq_join {l' r' : Expr} (h : Logical operation)
    (hl : l = .nil ∨ l.Sound removed) (hr : r = .nil ∨ r.Sound removed)
    (hl' : l' = .nil ∨ l'.Sound removed) (hr' : r' = .nil ∨ r'.Sound removed)
    (hcl : l.conditions ≤ l'.conditions) (hcr : r.conditions ≤ r'.conditions)
    (heq : join l operation r hasGlobal hasNot = join l' operation r' hasGlobal hasNot) : l = l' ∧ r = r' := by
  have hc := congrArg Expr.conditions heq
  rw [conditions_join l h, conditions_join l' h] at hc
  have hlc : l.conditions = l'.conditions := by omega
  have hrc : r.conditions = r'.conditions := by omega
  have hnil : ∀ {e e' : Expr}, (e = .nil ∨ e.Sound removed) → (e' = .nil ∨ e'.Sound removed) →
      e.conditions = e'.conditions → (e = .nil ↔ e' = .nil) := by
    intro e e' he he' hee
    constructor
    · rintro rfl
      exact eq_nil_of_conditions he' hee.symm
    · rintro rfl
      exact eq_nil_of_conditions he hee
  have hln := hnil hl hl' hlc
  have hrn := hnil hr hr' hrc
  unfold join at heq
  simp only [isNil_iff, hln, hrn] at heq
  by_cases hl0 : l' = .nil
  · simp only [hl0, ↓reduceIte] at heq
    exact ⟨(hln.2 hl0).trans hl0.symm, heq⟩
  · by_cases hr0 : r' = .nil
    · simp only [hl0, hr0, ↓reduceIte] at heq
      exact ⟨heq, (hrn.2 hr0).trans hr0.symm⟩
    · simp only [hl0, hr0, ↓reduceIte, Expr.binaryOperation.injEq] at heq
      exact ⟨heq.1, heq.2.2.1⟩

theorem transformExpr_logical_eq_remaining (h : Logical operation)
    (hw : (Expr.binaryOperation l operation r hasGlobal hasNot).Whole)
    (ht : (Expr.binaryOperation l operation r hasGlobal hasNot).taken removed = false) :
    (transformExpr (removing removed) (.binaryOperation l operation r hasGlobal hasNot)).1 =
        (Expr.binaryOperation l operation r hasGlobal hasNot).remaining removed ↔
      ((transformExpr (removing removed) l).1 = l.remaining removed ∧
        (transformExpr (removing removed) r).1 = r.remaining removed) ∧
      (operation = "OR" → l.remaining removed ≠ .nil ∧ r.remaining removed ≠ .nil) := by
  have hrl := @remaining_sound removed l hw.2.2.1
  have hrr := @remaining_sound removed r hw.2.2.2
  have hsound := @remaining_sound removed _ hw
  rw [remaining_logical h] at hsound
  rw [transformExpr_logical h ht hw.1.1 hw.1.2, remaining_logical h]
  split_ifs with ho
  · constructor
    · intro heq
      rw [← heq] at hsound
      have hs := (sound_logical h _ _ _ _).1 (hsound.resolve_left (by simp))
      have hjoin : ∀ {a b : Expr}, a.Sound removed → b.Sound removed →
          join a operation b hasGlobal hasNot = .binaryOperation a operation b hasGlobal hasNot := by
        intro a b ha hb
        rw [join, if_neg, if_neg]
        · exact fun hn => not_sound_nil (isNil_iff.1 hn ▸ hb)
        · exact fun hn => not_sound_nil (isNil_iff.1 hn ▸ ha)
      rw [← hjoin hs.1 hs.2] at heq
      obtain ⟨hl, hr⟩ := join_eq_join h (Or.inr hs.1) (Or.inr hs.2) hrl hrr
        (conditions_transformExpr_le l hw.2.2.1 (Or.inr hs.1)) (conditions_transformExpr_le r hw.2.2.2 (Or.inr hs.2)) heq
      refine ⟨⟨hl, hr⟩, fun _ => ⟨?_, ?_⟩⟩
      · rintro hn
        exact not_sound_nil (hn ▸ hl ▸ hs.1)
      · rintro hn
        exact not_sound_nil (hn ▸ hr ▸ hs.2)
    · rintro ⟨⟨hl, hr⟩, hne⟩
      rw [hl, hr, join, if_neg (by simpa using (hne ho).1), if_neg (by simpa using (hne ho).2)]
  · constructor
    · intro heq
      rw [← heq] at hsound
      have hsides := sound_of_join h hsound
      exact ⟨join_eq_join h hsides.1 hsides.2 hrl hrr (conditions_transformExpr_le l hw.2.2.1 hsides.1)
        (conditions_transformExpr_le r hw.2.2.2 hsides.2) heq, fun hor => absurd hor ho⟩
    · rintro ⟨⟨hl, hr⟩, -⟩
      rw [hl, hr]

theorem refers_of_isSubQuery (h : e.isSubQuery = true) : e.refers removed = false := by
  cases e <;> first | rfl | cases h

theorem taken_of_refers (h : e.refers removed = false) : e.taken removed = false := by
  by_contra ht
  rw [refers_of_taken (by simpa using ht)] at h
  cases h

theorem transformExpr_eq_prune (h : ¬Logical operation)
    (hw : (Expr.binaryOperation l operation r hasGlobal hasNot).Whole)
    (hr : (Expr.binaryOperation l operation r hasGlobal hasNot).refers removed = false) :
    (transformExpr (removing removed) (.binaryOperation l operation r hasGlobal hasNot)).1 =
        (Expr.binaryOperation l operation r hasGlobal hasNot).prune removed ↔
      if InSubQuery operation r then l.prune removed = l ∧ (transformExpr (removing removed) r).1 = r.prune removed
      else (transformExpr (removing removed) l).1 = l.prune removed ∧
        (transformExpr (removing removed) r).1 = r.prune removed := by
  obtain ⟨⟨hwl, hnl, hll⟩, hwr, hnr, hlr⟩ := hw.sides h
  have ht := taken_of_refers hr
  have hkeep : ∀ {e : Expr}, e.Whole → e ≠ .nil → e.isLogical = false → e.refers removed = false →
      (transformExpr (removing removed) e).1 ≠ .nil := by
    intro e hwe hne hle hre hn
    rw [refers_of_gone ((transformExpr_eq_nil hwe hne hle).1 hn)] at hre
    cases hre
  split_ifs with hin
  · rw [transformExpr_inSubQuery_fst hin ht, Expr.prune, Expr.binaryOperation.injEq]
    exact ⟨fun heq => ⟨heq.1.symm, heq.2.2.1⟩, fun heq => ⟨heq.1.symm, rfl, heq.2, rfl, rfl⟩⟩
  · rw [Expr.refers_operation hin, Bool.or_eq_false_iff] at hr
    rw [transformExpr_operation_fst hin ht hnl hnr,
      rebuild_of_ne_nil operation _ _ (hkeep hwl hnl hll hr.1) (hkeep hwr hnr hlr hr.2), Expr.prune,
      Expr.binaryOperation.injEq]
    exact ⟨fun heq => ⟨heq.1, heq.2.2.1⟩, fun heq => ⟨heq.1, rfl, heq.2, rfl, rfl⟩⟩

mutual

theorem processWhereClause_eq_prune : ∀ s : SelectQuery, s.Whole →
    ((processWhereClause (removing removed) s).1 = s.prune removed ↔ s.Meets removed)
  | .mk from_ where_ rest, hw => by
    have hfrom := processExprSubqueries_eq_prune from_ hw.1
    have hwhere := transformExpr_eq_remaining where_ hw.2
    have hflag := (@processExprSubqueries_change removed from_).flag_iff
    rw [SelectQuery.Meets, ← hfrom, ← hwhere, processWhereClause, SelectQuery.prune]
    by_cases hf : (processExprSubqueries (removing removed) from_).1 = from_.prune removed
    · rw [hf] at hflag ⊢
      by_cases hfp : from_.prune removed = from_
      · have hfc : (processExprSubqueries (removing removed) from_).2 = false := by
          simpa using mt hflag.1 (not_not.2 hfp)
        cases hwc : (transformExpr (removing removed) where_).2 with
        | true => simp [hfc, hwc, hfp, Expr.remaining]
        | false =>
          have hwe := (transformExpr_change where_).eq hwc
          simp [hfc, hwc, hfp, hwe, Expr.remaining]
      · simp [hflag.2 hfp, hfp, Expr.remaining, eq_comm]
    · refine iff_of_false ?_ (fun h => hf h.1)
      cases hfc : (processExprSubqueries (removing removed) from_).2 with
      | true => simp [hf]
      | false => cases hwc : (transformExpr (removing removed) where_).2 <;> simp [hwc, hf]

theorem processExprSubqueries_eq_prune : ∀ e : Expr, e.Whole →
    ((processExprSubqueries (removing removed) e).1 = e.prune removed ↔ e.MeetsFrom removed)
  | .subQuery select, hw => by
    simp only [processExprSubqueries, Expr.prune, Expr.MeetsFrom, Expr.subQuery.injEq, processWhereClause_eq_prune select hw]
  | .binaryOperation l operation r hasGlobal hasNot, hw => by
    simp only [processExprSubqueries, Expr.prune, Expr.MeetsFrom, Expr.binaryOperation.injEq, true_and, and_true,
      processExprSubqueries_eq_prune l hw.2.2.1, processExprSubqueries_eq_prune r hw.2.2.2]
  | .joinExpr l r c, hw => by
    simp only [processExprSubqueries, Expr.prune, Expr.MeetsFrom, Expr.joinExpr.injEq, processExprSubqueries_eq_prune l hw.1,
      processExprSubqueries_eq_prune r hw.2.1, processExprSubqueries_eq_prune c hw.2.2]
  | .tableExpr e, hw => by
    simp only [processExprSubqueries, Expr.prune, Expr.MeetsFrom, Expr.tableExpr.injEq, processExprSubqueries_eq_prune e hw]
  | .aliasExpr e alias_, hw => by
    simp only [processExprSubqueries, Expr.prune, Expr.MeetsFrom, Expr.aliasExpr.injEq, and_true,
      processExprSubqueries_eq_prune e hw]
  | .functionExpr name params, hw => by
    simp only [processExprSubqueries, Expr.prune, Expr.MeetsFrom, Expr.functionExpr.injEq, true_and,
      processListSubqueries_eq_prune params hw]
  | .columnExpr _, _ | .paramExprList _, _ | .selectItem _, _ | .indexOperation _ _, _ | .nil, _ | .ident _, _
  | .other _, _ => by
    simp only [processExprSubqueries, Expr.MeetsFrom, eq_comm]

theorem processListSubqueries_eq_prune : ∀ items : ExprList, items.Whole →
    ((processListSubqueries (removing removed) items).1 = items.prune removed ↔ items.MeetsFrom removed)
  | .nil, _ => by simp only [processListSubqueries, ExprList.prune, ExprList.MeetsFrom]
  | .cons item items, hw => by
    simp only [processListSubqueries, ExprList.prune, ExprList.MeetsFrom, ExprList.cons.injEq,
      processExprSubqueries_eq_prune item hw.1, processListSubqueries_eq_prune items hw.2]

theorem transformExpr_operand : ∀ e : Expr, e.Whole → e.isLogical = false → e.refers removed = false →
    ((transformExpr (removing removed) e).1 = e.prune removed ↔ e.MeetsOperand removed)
  | .subQuery select, hw, _, _ => by
    rw [transformExpr_subQuery, Expr.prune, Expr.MeetsOperand, Expr.subQuery.injEq, processWhereClause_eq_prune select hw]
  | .binaryOperation l operation r hasGlobal hasNot, hw, hl, hr => by
    have ho : ¬Logical operation := by simpa [Expr.isLogical] using hl
    obtain ⟨⟨hwl, -, hll⟩, hwr, -, hlr⟩ := hw.sides ho
    rw [transformExpr_eq_prune ho hw hr, Expr.MeetsOperand]
    rw [Expr.refers] at hr
    split_ifs at hr ⊢ with hin
    · rw [transformExpr_operand r hwr hlr (refers_of_isSubQuery hin.2)]
    · rw [Bool.or_eq_false_iff] at hr
      rw [transformExpr_operand l hwl hll hr.1, transformExpr_operand r hwr hlr hr.2]
  | .functionExpr _ _, _, _, hr | .columnExpr _, _, _, hr | .paramExprList _, _, _, hr | .selectItem _, _, _, hr
  | .indexOperation _ _, _, _, hr | .joinExpr _ _ _, _, _, hr | .tableExpr _, _, _, hr | .aliasExpr _ _, _, _, hr
  | .nil, _, _, hr | .ident _, _, _, hr | .other _, _, _, hr => by
    rw [transformExpr_single rfl rfl, taken_of_refers hr]
    simp only [Bool.false_eq_true, ↓reduceIte, Expr.MeetsOperand, eq_comm]

theorem transformExpr_eq_remaining : ∀ e : Expr, e.Whole →
    ((transformExpr (removing removed) e).1 = e.remaining removed ↔ e.MeetsWhere removed)
  | .subQuery select, hw => by
    rw [transformExpr_subQuery, remaining_condition rfl, refers_of_isSubQuery rfl, if_neg Bool.false_ne_true, Expr.prune,
      Expr.MeetsWhere, Expr.subQuery.injEq, processWhereClause_eq_prune select hw]
  | .binaryOperation l operation r hasGlobal hasNot, hw => by
    rw [Expr.MeetsWhere]
    by_cases h : Logical operation
    · rw [if_pos h]
      cases ht : (Expr.binaryOperation l operation r hasGlobal hasNot).taken removed with
      | true => simp only [transformExpr_of_taken ht, ↓reduceIte, eq_comm]
      | false =>
        rw [transformExpr_logical_eq_remaining h hw ht, transformExpr_eq_remaining l hw.2.2.1,
          transformExpr_eq_remaining r hw.2.2.2, if_neg Bool.false_ne_true]
    · have hc : (Expr.binaryOperation l operation r hasGlobal hasNot).isCondition = true := by simp [Expr.isCondition, h]
      rw [if_neg h, remaining_condition hc]
      cases hr : (Expr.binaryOperation l operation r hasGlobal hasNot).refers removed with
      | true =>
        rw [if_pos rfl, if_pos rfl]
        exact transformExpr_eq_nil hw (by simp) (isLogical_of_isCondition hc)
      | false =>
        obtain ⟨⟨hwl, -, hll⟩, hwr, -, hlr⟩ := hw.sides h
        rw [if_neg Bool.false_ne_true, if_neg Bool.false_ne_true, transformExpr_eq_prune h hw hr]
        rw [Expr.refers] at hr
        split_ifs at hr ⊢ with hin
        · rw [transformExpr_operand r hwr hlr (refers_of_isSubQuery hin.2)]
        · rw [Bool.or_eq_false_iff] at hr
          rw [transformExpr_operand l hwl hll hr.1, transformExpr_operand r hwr hlr hr.2]
  | .nil, _ => by
    rw [Expr.MeetsWhere, transformExpr]
    exact iff_of_true rfl trivial
  | .functionExpr _ _, _ | .columnExpr _, _ | .paramExprList _, _ | .selectItem _, _ | .indexOperation _ _, _
  | .joinExpr _ _ _, _ | .tableExpr _, _ | .aliasExpr _ _, _ | .ident _, _ | .other _, _ => by
    rw [transformExpr_single rfl rfl, Expr.MeetsWhere]
    · split_ifs <;> rw [eq_comm]
    all_goals simp

end

/-! ## Queries -/

def Statement.Whole : Statement → Prop
  | .selectQuery select => select.Whole
  | .other _ => True

section
variable (removed)

def Statement.prune : Statement → Statement
  | .selectQuery select => .selectQuery (select.prune removed)
  | .other text => .other text

def Statement.Meets : Statement → Prop
  | .selectQuery select => select.Meets removed
  | .other _ => True

/-- The statements `out` are the statements `stmts` without the filters of the removed variables. -/
structure FiltersRemoved (stmts out : List Statement) : Prop where
  /-- Every operation has both operands. -/
  whole : ∀ stmt ∈ out, stmt.Whole
  /-- No filter of a removed variable is left in any WHERE. -/
  clean : ∀ stmt ∈ out, stmt.prune removed = stmt
  /-- All other conditions, subqueries and clauses are what they were. -/
  kept : out = stmts.map (Statement.prune removed)

end

theorem Statement.whole_prune : ∀ stmt : Statement, stmt.Whole → (stmt.prune removed).Whole
  | .selectQuery select, hw => select.whole_prune hw
  | .other _, _ => trivial

theorem Statement.prune_prune : ∀ stmt : Statement, stmt.Whole → (stmt.prune removed).prune removed = stmt.prune removed
  | .selectQuery select, hw => congrArg Statement.selectQuery (select.prune_prune hw)
  | .other _, _ => rfl

theorem filtersRemoved_iff {stmts out : List Statement} (hw : ∀ stmt ∈ stmts, stmt.Whole) :
    FiltersRemoved removed stmts out ↔ out = stmts.map (Statement.prune removed) := by
  constructor
  · exact FiltersRemoved.kept
  · rintro rfl
    refine ⟨fun out hout => ?_, fun out hout => ?_, rfl⟩
    · obtain ⟨stmt, hstmt, rfl⟩ := List.mem_map.1 hout
      exact stmt.whole_prune (hw stmt hstmt)
    · obtain ⟨stmt, hstmt, rfl⟩ := List.mem_map.1 hout
      exact stmt.prune_prune (hw stmt hstmt)

/-- The statements after `ProcessQuery`: where none was modified they are the processed ones too. -/
theorem processQuery_getD (stmts : List Statement) :
    (processQuery (removing removed) stmts).getD stmts = stmts.map (fun stmt => (processStatement (removing removed) stmt).1) := by
  unfold processQuery
  simp only [List.map_map]
  split_ifs with h
  · rfl
  · have hkeep : ∀ stmt ∈ stmts, (processStatement (removing removed) stmt).1 = stmt := by
      intro stmt hstmt
      have hflag : (processStatement (removing removed) stmt).2 = false := by
        by_contra hc
        exact h (List.any_eq_true.2 ⟨_, List.mem_map_of_mem hstmt, by simpa using hc⟩)
      cases stmt with
      | selectQuery select => exact congrArg Statement.selectQuery ((processWhereClause_change select).eq hflag)
      | other _ => rfl
    rw [Option.getD_none]
    exact (List.map_id' stmts).symm.trans (List.map_congr_left (fun stmt hstmt => (hkeep stmt hstmt).symm))

/-- **`ProcessQuery` takes exactly the filters of the removed variables out of a query when every SELECT of it meets the
condition, and only then.** -/
theorem processQuery_removes_iff (removed : String → Bool) (stmts : List Statement) (hw : ∀ stmt ∈ stmts, stmt.Whole) :
    FiltersRemoved removed stmts ((processQuery (removing removed) stmts).getD stmts) ↔
      ∀ stmt ∈ stmts, stmt.Meets removed := by
  have hone : ∀ stmt ∈ stmts,
      ((processStatement (removing removed) stmt).1 = stmt.prune removed ↔ stmt.Meets removed) := by
    intro stmt hstmt
    cases stmt with
    | selectQuery select =>
      rw [processStatement, Statement.prune, Statement.selectQuery.injEq]
      exact processWhereClause_eq_prune select (hw _ hstmt)
    | other _ => exact iff_of_true rfl trivial
  rw [filtersRemoved_iff hw, processQuery_getD]
  constructor
  · intro heq stmt hstmt
    exact (hone stmt hstmt).1 (List.map_inj_left.1 heq stmt hstmt)
  · intro h
    exact List.map_congr_left (fun stmt hstmt => (hone stmt hstmt).2 (h stmt hstmt))

def serviceFilter : Expr := .binaryOperation (.ident "service_name") "=" (.ident "$service_name") false false

def kindFilter : Expr := .binaryOperation (.ident "kind") "=" (.other "'server'") false false

/-- `SELECT trace_id FROM spans WHERE op IN (SELECT op FROM operations WHERE service_name = $service_name AND
kind = 'server')`. -/
def operationsQuery : Statement :=
  .selectQuery (.mk (.tableExpr (.ident "spans"))
    (.binaryOperation (.ident "op") "IN" (.subQuery (.mk (.tableExpr (.ident "operations"))
      (.binaryOperation serviceFilter "AND" kindFilter false false) "SELECT op")) false false) "SELECT trace_id")

theorem operationsQuery_removes :
    FiltersRemoved (· == "service_name") [operationsQuery]
      ((processQuery (removing (· == "service_name")) [operationsQuery]).getD [operationsQuery]) := by
  refine (processQuery_removes_iff _ _ ?_).2 ?_
  · simp [operationsQuery, serviceFilter, kindFilter, Statement.Whole, SelectQuery.Whole, Expr.Whole, Expr.isLogical, Logical]
  · have hservice : serviceFilter.MeetsWhere (· == "service_name") := by
      have hr : serviceFilter.refers (· == "service_name") = true := by decide +kernel
      have hg : serviceFilter.gone (· == "service_name") = true := by decide +kernel
      unfold serviceFilter at hr hg ⊢
      simp [Expr.MeetsWhere, Logical, hr, hg]
    have hkind : kindFilter.MeetsWhere (· == "service_name") := by
      have hr : kindFilter.refers (· == "service_name") = false := by decide +kernel
      unfold kindFilter at hr ⊢
      simp [Expr.MeetsWhere, Expr.MeetsOperand, Expr.prune, Logical, InSubQuery, hr]
    have hand : (Expr.binaryOperation serviceFilter "AND" kindFilter false false).taken (· == "service_name") = false := by
      decide +kernel
    have hin : (Expr.binaryOperation (.ident "op") "IN" (.subQuery (.mk (.tableExpr (.ident "operations"))
        (.binaryOperation serviceFilter "AND" kindFilter false false) "SELECT op")) false false).refers
          (· == "service_name") = false := by
      decide +kernel
    simp [operationsQuery, Statement.Meets, SelectQuery.Meets, Expr.MeetsFrom, Expr.MeetsWhere, Expr.MeetsOperand, Expr.prune,
      Logical, InSubQuery, Expr.isSubQuery, hservice, hkind, hand, hin]

def orQuery : Statement :=
  .selectQuery (.mk (.tableExpr (.ident "t"))
    (.binaryOperation (.binaryOperation (.ident "a") "=" (.ident "$x") false false) "OR"
      (.binaryOperation (.ident "b") "=" (.other "1") false false) false false) "SELECT a")

/-- OR loses its left side. -/
theorem orQuery_breaks :
    ¬∀ (removed : String → Bool) (stmts : List Statement), (∀ stmt ∈ stmts, stmt.Whole) →
      FiltersRemoved removed stmts ((processQuery (removing removed) stmts).getD stmts) := by
  intro h
  have hw : orQuery.Whole := by simp [orQuery, Statement.Whole, SelectQuery.Whole, Expr.Whole, Expr.isLogical, Logical]
  have hout : (processQuery (removing (· == "x")) [orQuery]).getD [orQuery] =
      [.selectQuery (.mk (.tableExpr (.ident "t")) (.binaryOperation .nil "OR"
        (.binaryOperation (.ident "b") "=" (.other "1") false false) false false) "SELECT a")] := by
    decide +kernel
  have hf := (h (· == "x") [orQuery] (by simpa using hw)).whole
  rw [hout] at hf
  have hor := hf _ List.mem_cons_self
  exact hor.2.1.1 rfl

end

end Variables
end DsApm
