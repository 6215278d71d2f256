import DsApm.Variables.Filters
/-!
# Removal — where the processor removes exactly the filters of the removed variables

One lemma says what `transformExpr` makes of each kind of expression (`transformExpr_taken` to `transformExpr_operation`).
What it changes gets smaller, so the flag of a result says whether it is another expression (`processWhereClause_change`).
The result is the pruned statement exactly under `Meets`: by mutual recursion, where two joined conditions are told apart by
the number of conditions that are left of each (`sound_conditions_le`).
-/
namespace DsApm
namespace Variables

open Bool

section
variable (removed : String → Bool)

/-! ## What the processor does to an expression -/

/-- The processor takes the whole of an expression for a filter of a removed variable. -/
def Expr.taken : Expr → Bool
  | .binaryOperation l operation r _ _ =>
    if InSubQuery operation r then (findVariables l).head?.any removed else (directVariable l r).any removed
  | e => !isComplexExpression e && (findVariables e).head?.any removed

/-- The processor leaves nothing of a condition: it takes the whole for a filter, or one side of an operation that goes with
its operand. -/
def Expr.gone : Expr → Bool
  | .binaryOperation l operation r hasGlobal hasNot =>
    (Expr.binaryOperation l operation r hasGlobal hasNot).taken removed ||
      (!decide (InSubQuery operation r) && decide (operation ∈ comparisonOperations) && (l.gone || r.gone))
  | e => e.taken removed

theorem act_removing (name : String) (e : Expr) :
    act (removing removed) name e = if removed name then some (.nil, true) else none := by
  unfold act removing
  cases removed name <;> rfl

variable {removed}

variable {e : Expr}

theorem taken_of_not_operation (h : e.isOperation = false) :
    e.taken removed = (!isComplexExpression e && (findVariables e).head?.any removed) := by
  cases e with
  | binaryOperation _ _ _ _ _ => cases h
  | _ => rw [Expr.taken]; simp

theorem gone_of_not_operation (h : e.isOperation = false) : e.gone removed = e.taken removed := by
  cases e with
  | binaryOperation _ _ _ _ _ => cases h
  | _ => rw [Expr.gone]; simp

theorem transformOther_single (h : e.isOperation = false) :
    transformOther (removing removed) e = if e.taken removed then (.nil, true) else (e, false) := by
  rw [taken_of_not_operation h]
  unfold transformOther
  cases findVariables e with
  | nil => simp
  | cons v vs => cases hc : isComplexExpression e <;> cases hv : removed v <;> simp [act_removing, hv]

theorem transformOther_operation (l : Expr) (operation : String) (r : Expr) (hasGlobal hasNot : Bool) :
    transformOther (removing removed) (.binaryOperation l operation r hasGlobal hasNot) =
      (.binaryOperation l operation r hasGlobal hasNot, false) := by
  unfold transformOther
  cases findVariables (.binaryOperation l operation r hasGlobal hasNot) with
  | nil => rfl
  | cons _ _ => rfl

theorem transformExpr_single (h : e.isOperation = false) (hs : e.isSubQuery = false) :
    transformExpr (removing removed) e = if e.taken removed then (.nil, true) else (e, false) := by
  rw [← transformOther_single h]
  cases e with
  | binaryOperation _ _ _ _ _ => cases h
  | subQuery _ => cases hs
  | _ => rw [transformExpr] <;> first | rfl | (intros; contradiction)

variable {l r : Expr} {operation : String}

theorem transformExpr_inSubQuery (h : InSubQuery operation r) (hasGlobal hasNot : Bool) :
    transformExpr (removing removed) (.binaryOperation l operation r hasGlobal hasNot) =
      if (Expr.binaryOperation l operation r hasGlobal hasNot).taken removed then (.nil, true)
      else if (transformExpr (removing removed) r).2
        then (.binaryOperation l operation (transformExpr (removing removed) r).1 hasGlobal hasNot, true)
        else (.binaryOperation l operation r hasGlobal hasNot, false) := by
  have hc : (operation = "IN" ∨ operation = "NOT IN") ∧ r.isSubQuery := h
  rw [transformExpr, if_pos hc, Expr.taken, if_pos h]
  cases (findVariables l).head? with
  | none => rfl
  | some v => cases hv : removed v <;> simp [act_removing, hv]

theorem transformExpr_operation (h : ¬InSubQuery operation r) (hasGlobal hasNot : Bool) :
    transformExpr (removing removed) (.binaryOperation l operation r hasGlobal hasNot) =
      if (Expr.binaryOperation l operation r hasGlobal hasNot).taken removed then (.nil, true)
      else if (transformExpr (removing removed) l).2 || (transformExpr (removing removed) r).2
        then (rebuild (transformExpr (removing removed) l).1 operation (transformExpr (removing removed) r).1 hasGlobal hasNot, true)
        else (.binaryOperation l operation r hasGlobal hasNot, false) := by
  have hc : ¬((operation = "IN" ∨ operation = "NOT IN") ∧ r.isSubQuery) := h
  rw [transformExpr, if_neg hc, Expr.taken, if_neg h, transformOther_operation]
  cases directVariable l r with
  | none => rfl
  | some v => cases hv : removed v <;> simp [act_removing, hv]

/-! ## What changes gets smaller -/

def Shrinks {α : Type} [SizeOf α] (a : α) (out : α × Bool) : Prop := if out.2 then sizeOf out.1 < sizeOf a else out.1 = a

theorem Shrinks.le {α : Type} [SizeOf α] {a : α} {out : α × Bool} (h : Shrinks a out) : sizeOf out.1 ≤ sizeOf a := by
  unfold Shrinks at h
  split_ifs at h with hc
  · exact Nat.le_of_lt h
  · rw [h]

theorem Shrinks.eq {α : Type} [SizeOf α] {a : α} {out : α × Bool} (h : Shrinks a out) (hc : out.2 = false) : out.1 = a := by
  simpa [Shrinks, hc] using h

theorem Shrinks.lt {α : Type} [SizeOf α] {a : α} {out : α × Bool} (h : Shrinks a out) (hc : out.2 = true) :
    sizeOf out.1 < sizeOf a := by
  simpa [Shrinks, hc] using h

theorem Shrinks.flag_iff {α : Type} [SizeOf α] {a : α} {out : α × Bool} (h : Shrinks a out) : out.2 = true ↔ out.1 ≠ a := by
  constructor
  · intro hc ha
    have hlt := h.lt hc
    rw [ha] at hlt
    exact Nat.lt_irrefl _ hlt
  · intro hne
    by_contra hc
    exact hne (h.eq (by simpa using hc))

theorem Shrinks.map {α β : Type} [SizeOf α] [SizeOf β] {a : α} {out : α × Bool} (h : Shrinks a out) (f : α → β)
    (hf : ∀ x y, sizeOf x < sizeOf y → sizeOf (f x) < sizeOf (f y)) : Shrinks (f a) (f out.1, out.2) := by
  cases hc : out.2 with
  | true => simpa [Shrinks] using hf _ _ (h.lt hc)
  | false => simp [Shrinks, h.eq hc]

theorem Shrinks.map₂ {α β γ : Type} [SizeOf α] [SizeOf β] [SizeOf γ] {a : α} {b : β} {out : α × Bool} {out' : β × Bool}
    (h : Shrinks a out) (h' : Shrinks b out') (f : α → β → γ)
    (hf : ∀ x y x' y', sizeOf x + sizeOf x' < sizeOf y + sizeOf y' → sizeOf (f x x') < sizeOf (f y y')) :
    Shrinks (f a b) (f out.1 out'.1, out.2 || out'.2) := by
  cases hc : out.2 with
  | true =>
    have hlt := hf _ _ _ _ (Nat.add_lt_add_of_lt_of_le (h.lt hc) h'.le)
    simpa [Shrinks] using hlt
  | false =>
    cases hc' : out'.2 with
    | true =>
      have hlt := hf _ _ _ _ (Nat.add_lt_add_of_le_of_lt h.le (h'.lt hc'))
      simpa [Shrinks] using hlt
    | false => simp [Shrinks, h.eq hc, h'.eq hc']

theorem sizeOf_rebuild {l' r' : Expr} (operation : String) (hasGlobal hasNot : Bool)
    (h : sizeOf l' + sizeOf r' < sizeOf l + sizeOf r) :
    sizeOf (rebuild l' operation r' hasGlobal hasNot) < sizeOf (Expr.binaryOperation l operation r hasGlobal hasNot) := by
  unfold rebuild
  split_ifs <;> simp only [Expr.binaryOperation.sizeOf_spec, Expr.nil.sizeOf_spec] <;> omega

theorem sizeOf_nil_lt (h : e ≠ .nil) : sizeOf Expr.nil < sizeOf e := by
  have hs : ∀ text : String, 0 < sizeOf text := fun text => by cases text; simp only [String.ofByteArray.sizeOf_spec]; omega
  have he : ∀ e : Expr, 0 < sizeOf e := fun e => by cases e <;> simp <;> omega
  have hi : ∀ items : ExprList, 0 < sizeOf items := fun items => by
    cases items <;> simp only [ExprList.nil.sizeOf_spec, ExprList.cons.sizeOf_spec] <;> omega
  have hq : ∀ s : SelectQuery, 0 < sizeOf s := fun s => by cases s; simp only [SelectQuery.mk.sizeOf_spec]; omega
  cases e with
  | nil => exact absurd rfl h
  | indexOperation o i => have := he o; simp; omega
  | joinExpr l r c => have := he l; simp; omega
  | aliasExpr e alias_ => have := he e; simp; omega
  | functionExpr name params => have := hs name; simp; omega
  | _ => simp [hs, he, hi, hq]

mutual

theorem processWhereClause_change : ∀ s : SelectQuery, Shrinks s (processWhereClause (removing removed) s)
  | .mk from_ where_ rest => by
    have hf := processExprSubqueries_change from_
    have hw := transformExpr_change where_
    rw [processWhereClause]
    cases hfc : (processExprSubqueries (removing removed) from_).2 with
    | true =>
      have hlt := hf.lt hfc
      simp only [Shrinks, ↓reduceIte, SelectQuery.mk.sizeOf_spec]
      omega
    | false =>
      cases hwc : (transformExpr (removing removed) where_).2 with
      | true =>
        have hlt := hw.lt hwc
        simp only [Shrinks, hwc, false_eq_true, ↓reduceIte, SelectQuery.mk.sizeOf_spec, hf.eq hfc]
        omega
      | false => simp [Shrinks, hwc, hf.eq hfc]

theorem processExprSubqueries_change : ∀ e : Expr, Shrinks e (processExprSubqueries (removing removed) e)
  | .subQuery select => by
    rw [processExprSubqueries]
    exact (processWhereClause_change select).map Expr.subQuery (fun _ _ h => by simpa using h)
  | .binaryOperation l operation r hasGlobal hasNot => by
    rw [processExprSubqueries]
    exact (processExprSubqueries_change l).map₂ (processExprSubqueries_change r)
      (fun l' r' => Expr.binaryOperation l' operation r' hasGlobal hasNot)
      (fun _ _ _ _ h => by simp only [Expr.binaryOperation.sizeOf_spec]; omega)
  | .joinExpr l r c => by
    rw [processExprSubqueries]
    have hc := (processExprSubqueries_change l).map₂ (processExprSubqueries_change r) Prod.mk
      (fun _ _ _ _ h => by simp only [Prod.mk.sizeOf_spec]; omega)
    exact hc.map₂ (processExprSubqueries_change c) (fun lr c' => Expr.joinExpr lr.1 lr.2 c')
      (fun x y _ _ h => by
        obtain ⟨_, _⟩ := x
        obtain ⟨_, _⟩ := y
        simp only [Expr.joinExpr.sizeOf_spec, Prod.mk.sizeOf_spec] at *
        omega)
  | .tableExpr e => by
    rw [processExprSubqueries]
    exact (processExprSubqueries_change e).map Expr.tableExpr (fun _ _ h => by simpa using h)
  | .aliasExpr e alias_ => by
    rw [processExprSubqueries]
    exact (processExprSubqueries_change e).map (fun e' => Expr.aliasExpr e' alias_)
      (fun _ _ h => by simp only [Expr.aliasExpr.sizeOf_spec]; omega)
  | .functionExpr name ps => by
    rw [processExprSubqueries]
    exact (processListSubqueries_change ps).map (Expr.functionExpr name)
      (fun _ _ h => by simp only [Expr.functionExpr.sizeOf_spec]; omega)
  | .columnExpr _ | .paramExprList _ | .selectItem _ | .indexOperation _ _ | .nil | .ident _ | .other _ => by
    simp [processExprSubqueries, Shrinks]

theorem processListSubqueries_change : ∀ items : ExprList, Shrinks items (processListSubqueries (removing removed) items)
  | .nil => by simp [processListSubqueries, Shrinks]
  | .cons item items => by
    rw [processListSubqueries]
    exact (processExprSubqueries_change item).map₂ (processListSubqueries_change items) ExprList.cons
      (fun _ _ _ _ h => by simp only [ExprList.cons.sizeOf_spec]; omega)

theorem transformExpr_change : ∀ e : Expr, Shrinks e (transformExpr (removing removed) e)
  | .subQuery select => by
    rw [transformExpr]
    exact (processWhereClause_change select).map Expr.subQuery (fun _ _ h => by simpa using h)
  | .binaryOperation l operation r hasGlobal hasNot => by
    have hl := transformExpr_change l
    have hr := transformExpr_change r
    have hnil : sizeOf Expr.nil < sizeOf (Expr.binaryOperation l operation r hasGlobal hasNot) := sizeOf_nil_lt (by simp)
    by_cases h : InSubQuery operation r
    · rw [transformExpr_inSubQuery h]
      split_ifs with ht hc
      · simpa only [Shrinks, ↓reduceIte] using hnil
      · have hlt := hr.lt hc
        simp only [Shrinks, ↓reduceIte, Expr.binaryOperation.sizeOf_spec]
        omega
      · simp [Shrinks]
    · rw [transformExpr_operation h]
      split_ifs with ht hc
      · simpa only [Shrinks, ↓reduceIte] using hnil
      · have hlt : sizeOf (transformExpr (removing removed) l).1 + sizeOf (transformExpr (removing removed) r).1
            < sizeOf l + sizeOf r := by
          rcases or_eq_true_iff.1 hc with hc | hc
          · exact Nat.add_lt_add_of_lt_of_le (hl.lt hc) hr.le
          · exact Nat.add_lt_add_of_le_of_lt hl.le (hr.lt hc)
        simpa [Shrinks] using sizeOf_rebuild operation hasGlobal hasNot hlt
      · simp [Shrinks]
  | .nil => by simp [transformExpr, Shrinks]
  | .functionExpr _ _ | .columnExpr _ | .paramExprList _ | .selectItem _ | .indexOperation _ _ | .joinExpr _ _ _
  | .tableExpr _ | .aliasExpr _ _ | .ident _ | .other _ => by
    rw [transformExpr_single (by rfl) (by rfl)]
    split_ifs
    · simpa only [Shrinks, ↓reduceIte] using sizeOf_nil_lt (by simp)
    · simp [Shrinks]

end

/-! ## Filters, as the processor sees them -/

theorem Expr.refers_operation (h : ¬InSubQuery operation r) (hasGlobal hasNot : Bool) :
    (Expr.binaryOperation l operation r hasGlobal hasNot).refers removed = (l.refers removed || r.refers removed) := by
  rw [Expr.refers, if_neg h]

theorem refers_of_mem {v : String} (hc : isComplexExpression e = false) (hv : v ∈ findVariables e)
    (hr : removed v = true) : e.refers removed = true := by
  have ho : e.isOperation = false := by cases e <;> first | rfl | contradiction
  rw [refers_of_not_operation ho, hc]
  exact List.any_eq_true.2 ⟨v, hv, hr⟩

theorem refers_of_taken (h : e.taken removed = true) : e.refers removed = true := by
  cases e with
  | binaryOperation l operation r hasGlobal hasNot =>
    rw [Expr.taken] at h
    by_cases hin : InSubQuery operation r
    · rw [if_pos hin] at h
      rw [Expr.refers, if_pos hin]
      cases hv : findVariables l with
      | nil => simp [hv] at h
      | cons v vs => simpa [hv] using Or.inl (by simpa [hv] using h)
    · rw [if_neg hin] at h
      rw [Expr.refers_operation hin, or_eq_true]
      unfold directVariable at h
      split at h
      · rename_i v vs hl hr
        split_ifs at h with hc
        · simp only [and_eq_true, not_eq_eq_eq_not, Bool.not_true] at hc
          exact Or.inl (refers_of_mem hc.1 (by rw [hl]; exact List.mem_cons_self) (by simpa using h))
        · simp at h
      · rename_i v vs hl hr
        split_ifs at h with hc
        · simp only [and_eq_true, not_eq_eq_eq_not, Bool.not_true] at hc
          exact Or.inr (refers_of_mem hc.2 (by rw [hr]; exact List.mem_cons_self) (by simpa using h))
        · simp at h
      · simp at h
  | _ =>
    rw [taken_of_not_operation (by rfl), and_eq_true] at h
    rw [refers_of_not_operation (by rfl), h.1, Bool.true_and]
    have h' := h.2
    revert h'
    cases findVariables _ with
    | nil => simp
    | cons v vs => simpa using fun hv => Or.inl hv

theorem refers_of_gone (h : e.gone removed = true) : e.refers removed = true := by
  induction e using Expr.operandInduction with
  | operation l o r hasGlobal hasNot hl hr =>
    rw [Expr.gone, or_eq_true] at h
    rcases h with h | h
    · exact refers_of_taken h
    · simp only [and_eq_true, or_eq_true, not_eq_eq_eq_not, Bool.not_true, decide_eq_false_iff_not] at h
      rw [Expr.refers_operation h.1.1, or_eq_true]
      exact h.2.imp hl hr
  | single e he =>
    rw [gone_of_not_operation he] at h
    exact refers_of_taken h

/-! ## What the processor makes of a WHERE -/

theorem rebuild_and (l r : Expr) (hasGlobal hasNot : Bool) : rebuild l "AND" r hasGlobal hasNot = join l "AND" r hasGlobal hasNot := by
  rw [rebuild, if_pos rfl, join]

theorem rebuild_of_ne_nil (operation : String) (hasGlobal hasNot : Bool) (hl : l ≠ .nil) (hr : r ≠ .nil) :
    rebuild l operation r hasGlobal hasNot = .binaryOperation l operation r hasGlobal hasNot := by
  have hnil : ∀ {e : Expr}, e ≠ .nil → e.isNil = false := fun {e} he => by cases e <;> first | rfl | exact absurd rfl he
  simp [rebuild, hnil hl, hnil hr]

variable {hasGlobal hasNot : Bool}

theorem transformExpr_operation_fst (h : ¬InSubQuery operation r)
    (ht : (Expr.binaryOperation l operation r hasGlobal hasNot).taken removed = false) (hl : l ≠ .nil) (hr : r ≠ .nil) :
    (transformExpr (removing removed) (.binaryOperation l operation r hasGlobal hasNot)).1 =
      rebuild (transformExpr (removing removed) l).1 operation (transformExpr (removing removed) r).1 hasGlobal hasNot := by
  rw [transformExpr_operation h, ht]
  cases hlc : (transformExpr (removing removed) l).2 with
  | true => simp
  | false =>
    cases hrc : (transformExpr (removing removed) r).2 with
    | true => simp
    | false =>
      rw [(transformExpr_change l).eq hlc, (transformExpr_change r).eq hrc, rebuild_of_ne_nil operation _ _ hl hr]
      simp

theorem transformExpr_inSubQuery_fst (h : InSubQuery operation r)
    (ht : (Expr.binaryOperation l operation r hasGlobal hasNot).taken removed = false) :
    (transformExpr (removing removed) (.binaryOperation l operation r hasGlobal hasNot)).1 =
      .binaryOperation l operation (transformExpr (removing removed) r).1 hasGlobal hasNot := by
  rw [transformExpr_inSubQuery h, ht]
  cases hrc : (transformExpr (removing removed) r).2 with
  | true => simp
  | false => simp [(transformExpr_change r).eq hrc]

theorem transformExpr_subQuery (select : SelectQuery) :
    (transformExpr (removing removed) (.subQuery select)).1 = .subQuery (processWhereClause (removing removed) select).1 := by
  rw [transformExpr]

theorem transformExpr_of_taken (h : e.taken removed = true) : (transformExpr (removing removed) e).1 = .nil := by
  cases e with
  | binaryOperation l operation r hasGlobal hasNot =>
    by_cases hin : InSubQuery operation r
    · rw [transformExpr_inSubQuery hin, if_pos h]
    · rw [transformExpr_operation hin, if_pos h]
  | subQuery _ => simp [Expr.taken, findVariables] at h
  | _ => rw [transformExpr_single (by rfl) (by rfl), if_pos h]

theorem rebuild_eq_nil (h : ¬Logical operation) :
    rebuild l operation r hasGlobal hasNot = .nil ↔ operation ∈ comparisonOperations ∧ (l = .nil ∨ r = .nil) := by
  rw [rebuild, if_neg (fun ha => h (Or.inl ha))]
  split_ifs with hc <;> simp only [or_eq_true, isNil_iff] at hc
  · exact iff_of_true rfl hc.symm
  · exact iff_of_false (by simp) (fun hn => hc hn.symm)

theorem rebuild_not_logical (h : ¬Logical operation) (hasGlobal hasNot : Bool) :
    rebuild l operation r hasGlobal hasNot = .nil ∨
      rebuild l operation r hasGlobal hasNot = .binaryOperation l operation r hasGlobal hasNot := by
  rw [rebuild, if_neg (fun ha => h (Or.inl ha))]
  split_ifs
  · exact Or.inl rfl
  · exact Or.inr rfl

theorem Expr.Whole.sides
    (hw : (Expr.binaryOperation l operation r hasGlobal hasNot).Whole) (h : ¬Logical operation) :
    (l.Whole ∧ l ≠ .nil ∧ l.isLogical = false) ∧ r.Whole ∧ r ≠ .nil ∧ r.isLogical = false :=
  ⟨⟨hw.2.2.1, hw.1.1, (hw.2.1 h).1⟩, hw.2.2.2, hw.1.2, (hw.2.1 h).2⟩

theorem transformExpr_eq_nil (hw : e.Whole) (hne : e ≠ .nil) (hl : e.isLogical = false) :
    (transformExpr (removing removed) e).1 = .nil ↔ e.gone removed = true := by
  induction e using Expr.operandInduction with
  | operation l o r hasGlobal hasNot ihl ihr =>
    have ho : ¬Logical o := by simpa [Expr.isLogical] using hl
    obtain ⟨⟨hwl, hnl, hll⟩, hwr, hnr, hlr⟩ := hw.sides ho
    cases ht : (Expr.binaryOperation l o r hasGlobal hasNot).taken removed with
    | true => simp [transformExpr_of_taken ht, Expr.gone, ht]
    | false =>
      by_cases hin : InSubQuery o r
      · rw [transformExpr_inSubQuery_fst hin ht]
        simp [Expr.gone, ht, hin]
      · rw [transformExpr_operation_fst hin ht hnl hnr, rebuild_eq_nil ho, ihl hwl hnl hll, ihr hwr hnr hlr]
        simp [Expr.gone, ht, hin]
  | single e he =>
    rw [gone_of_not_operation he]
    cases hs : e.isSubQuery with
    | true =>
      cases e with
      | subQuery select => rw [transformExpr_subQuery]; simp [Expr.taken, findVariables]
      | _ => cases hs
    | false =>
      rw [transformExpr_single he hs]
      cases e.taken removed with
      | true => simp
      | false => simpa using hne

theorem refers_transformExpr (hw : e.Whole) (hl : e.isLogical = false)
    (hf : (transformExpr (removing removed) e).1.Filled) :
    (transformExpr (removing removed) e).1.refers removed = e.refers removed ∧
      (transformExpr (removing removed) e).1.isSubQuery = e.isSubQuery := by
  induction e using Expr.operandInduction with
  | operation l o r hasGlobal hasNot ihl ihr =>
    have ho : ¬Logical o := by simpa [Expr.isLogical] using hl
    obtain ⟨⟨hwl, hnl, hll⟩, hwr, hnr, hlr⟩ := hw.sides ho
    cases ht : (Expr.binaryOperation l o r hasGlobal hasNot).taken removed with
    | true =>
      rw [transformExpr_of_taken ht] at hf
      exact hf.elim
    | false =>
      by_cases hin : InSubQuery o r
      · rw [transformExpr_inSubQuery_fst hin ht] at hf ⊢
        have hsub := (ihr hwr hlr hf.2).2
        refine ⟨?_, rfl⟩
        rw [Expr.refers, Expr.refers, if_pos hin, if_pos ⟨hin.1, hsub.trans hin.2⟩]
      · rw [transformExpr_operation_fst hin ht hnl hnr] at hf ⊢
        rcases rebuild_not_logical ho hasGlobal hasNot with hn | hb
        · rw [hn] at hf
          exact hf.elim
        · rw [hb] at hf ⊢
          have hil := ihl hwl hll hf.1
          have hir := ihr hwr hlr hf.2
          have hin' : ¬InSubQuery o (transformExpr (removing removed) r).1 := fun h => hin ⟨h.1, hir.2.symm.trans h.2⟩
          refine ⟨?_, rfl⟩
          rw [Expr.refers_operation hin', Expr.refers_operation hin, hil.1, hir.1]
  | single e he =>
    cases hs : e.isSubQuery with
    | true =>
      cases e with
      | subQuery select => exact ⟨by rw [transformExpr_subQuery]; rfl, by rw [transformExpr_subQuery]; rfl⟩
      | _ => cases hs
    | false =>
      rw [transformExpr_single he hs] at hf ⊢
      cases ht : e.taken removed with
      | true => simp [ht, Expr.Filled] at hf
      | false => simp [hs]

theorem isLogical_of_isCondition (h : e.isCondition = true) : e.isLogical = false := by
  cases e with
  | binaryOperation _ _ _ _ _ => simpa [Expr.isLogical, Expr.isCondition] using h
  | _ => rfl

theorem isCondition_transformExpr (hw : e.Whole) (h : e.isCondition = true) :
    (transformExpr (removing removed) e).1.isCondition = true := by
  cases ho : e.isOperation with
  | true =>
    cases e with
    | binaryOperation l o r hasGlobal hasNot =>
      have hl : ¬Logical o := by simpa [Expr.isCondition] using h
      cases ht : (Expr.binaryOperation l o r hasGlobal hasNot).taken removed with
      | true => rw [transformExpr_of_taken ht]; rfl
      | false =>
        by_cases hin : InSubQuery o r
        · rw [transformExpr_inSubQuery_fst hin ht]
          exact h
        · rw [transformExpr_operation_fst hin ht hw.1.1 hw.1.2]
          rcases rebuild_not_logical hl hasGlobal hasNot with hn | hb
          · rw [hn]; rfl
          · rw [hb]; exact h
    | _ => cases ho
  | false =>
    cases hs : e.isSubQuery with
    | true =>
      cases e with
      | subQuery select => rw [transformExpr_subQuery]; rfl
      | _ => cases hs
    | false =>
      rw [transformExpr_single ho hs]
      split_ifs
      · rfl
      · exact h

end

end Variables
end DsApm
