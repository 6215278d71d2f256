import DsApm.SqlSchema.InMemory
/-!
# Matching — when constraints are taken for one another

`Equals` looks for the other's columns among the constraint's.  A unique constraint over more columns is therefore taken for one
over fewer, and the one dropped is the first in the list that has the columns (`matching_iff`).
-/
namespace DsApm
namespace SqlSchema

/-- `Equals` is an equivalence on these constraints. -/
structure EquivalenceOn (S : Constraint → Prop) : Prop where
  refl : ∀ c, S c → c.equals c = true
  symm : ∀ c d, S c → S d → c.equals d = true → d.equals c = true
  trans : ∀ c d e, S c → S d → S e → c.equals d = true → d.equals e = true → c.equals e = true

/-- The other's columns are all found, and the constraint has more: for primary keys although it is over as many. -/
def Constraint.Overlooks : Constraint → Constraint → Prop
  | .primaryKey c, .primaryKey d => c.columnNames.length = d.columnNames.length ∧ d.columnNames ⊆ c.columnNames ∧
      ¬c.columnNames ⊆ d.columnNames
  | .unique c, .unique d => d.columnNames ⊆ c.columnNames ∧ ¬c.columnNames ⊆ d.columnNames
  | _, _ => False

/-- Dropping the unique constraint drops the one at a place where it is in the list, and keeps the others. -/
def Operator.DropsOnly (operator : Operator) (table : Table) (us : List UniqueConstraint) (u : UniqueConstraint) : Prop :=
  ∃ i, us[i]? = some u ∧ findUniqueConstraint us (.unique u) = some i ∧
    operator.dropConstraint table us (.unique u) = (table,
      if operator.support.sCreateAndDropConstraint then [(Constraint.unique u).toDropSQL table.name]
      else operator.recreateTable table (us.eraseIdx i))

/-! ## Equality -/

theorem PrimaryKeyConstraint.equals_iff {c d : PrimaryKeyConstraint} :
    c.equals d = true ↔ c.columnNames.length = d.columnNames.length ∧ d.columnNames ⊆ c.columnNames := by
  unfold PrimaryKeyConstraint.equals
  rw [Bool.and_eq_true, beq_iff_eq, List.all_eq_true]
  refine and_congr_right fun _ => forall₂_congr fun column _ => ?_
  exact List.contains_iff_mem

theorem Constraint.equals_refl (c : Constraint) : c.equals c = true := by
  cases c with
  | primaryKey c => exact PrimaryKeyConstraint.equals_iff.2 ⟨rfl, List.Subset.refl _⟩
  | foreignKey c => exact ForeignKeyConstraint.equals_iff.2 rfl
  | unique c => exact UniqueConstraint.equals_iff.2 (List.Subset.refl _)

theorem Constraint.equals_trans {c d e : Constraint} (hcd : c.equals d = true) (hde : d.equals e = true) : c.equals e = true := by
  cases c with
  | primaryKey c =>
    cases d with
    | primaryKey d =>
      cases e with
      | primaryKey e =>
        obtain ⟨hlen, hsub⟩ := PrimaryKeyConstraint.equals_iff.1 hcd
        obtain ⟨hlen', hsub'⟩ := PrimaryKeyConstraint.equals_iff.1 hde
        exact PrimaryKeyConstraint.equals_iff.2 ⟨hlen.trans hlen', List.Subset.trans hsub' hsub⟩
      | foreignKey _ | unique _ => cases hde
    | foreignKey _ | unique _ => cases hcd
  | foreignKey c =>
    cases d with
    | foreignKey d =>
      cases e with
      | foreignKey e =>
        exact ForeignKeyConstraint.equals_iff.2
          ((ForeignKeyConstraint.equals_iff.1 hcd).trans (ForeignKeyConstraint.equals_iff.1 hde))
      | primaryKey _ | unique _ => cases hde
    | primaryKey _ | unique _ => cases hcd
  | unique c =>
    cases d with
    | unique d =>
      cases e with
      | unique e =>
        exact UniqueConstraint.equals_iff.2
          (List.Subset.trans (UniqueConstraint.equals_iff.1 hde) (UniqueConstraint.equals_iff.1 hcd))
      | primaryKey _ | foreignKey _ => cases hde
    | primaryKey _ | foreignKey _ => cases hcd

/-- **The comparison is one-sided** exactly when it overlooks columns. -/
theorem Constraint.equals_symm_iff (c d : Constraint) : (c.equals d = true → d.equals c = true) ↔ ¬c.Overlooks d := by
  cases c with
  | primaryKey c =>
    cases d with
    | primaryKey d =>
      simp only [Constraint.equals, PrimaryKeyConstraint.equals_iff, Constraint.Overlooks]
      constructor
      · rintro h ⟨hlen, hsub, hnot⟩
        exact hnot (h ⟨hlen, hsub⟩).2
      · rintro h ⟨hlen, hsub⟩
        exact ⟨hlen.symm, by_contra fun hnot => h ⟨hlen, hsub, hnot⟩⟩
    | foreignKey _ | unique _ => simp [Constraint.equals, Constraint.Overlooks]
  | foreignKey c =>
    cases d with
    | foreignKey d =>
      simp only [Constraint.equals, ForeignKeyConstraint.equals_iff, Constraint.Overlooks, not_false_eq_true, iff_true]
      exact Eq.symm
    | primaryKey _ | unique _ => simp [Constraint.equals, Constraint.Overlooks]
  | unique c =>
    cases d with
    | unique d =>
      simp only [Constraint.equals, UniqueConstraint.equals_iff, Constraint.Overlooks]
      constructor
      · rintro h ⟨hsub, hnot⟩
        exact hnot (h hsub)
      · intro h hsub
        exact by_contra fun hnot => h ⟨hsub, hnot⟩
    | primaryKey _ | foreignKey _ => simp [Constraint.equals, Constraint.Overlooks]

theorem equivalenceOn_iff {S : Constraint → Prop} : EquivalenceOn S ↔ ∀ c d, S c → S d → ¬c.Overlooks d := by
  constructor
  · intro h c d hc hd
    exact (Constraint.equals_symm_iff c d).1 (h.symm c d hc hd)
  · intro h
    refine ⟨fun c _ => Constraint.equals_refl c, fun c d hc hd => (Constraint.equals_symm_iff c d).2 (h c d hc hd), ?_⟩
    intro c d e _ _ _ hcd hde
    exact Constraint.equals_trans hcd hde

/-! ## The constraint that is dropped -/

theorem dropConstraint_unique (operator : Operator) (table : Table) {us : List UniqueConstraint} {u found : UniqueConstraint}
    {i : Nat} (hfind : findUniqueConstraint us (.unique u) = some i) (hget : us[i]? = some found) :
    operator.dropConstraint table us (.unique u) = (table,
      if operator.support.sCreateAndDropConstraint then [(Constraint.unique found).toDropSQL table.name]
      else operator.recreateTable table (us.eraseIdx i)) := by
  have htable : table.dropConstraint (.unique u) = (table, none) := by
    unfold Table.dropConstraint
    cases table.primaryKeyConstraint <;> rfl
  unfold Operator.dropConstraint
  simp only [htable, hfind, hget]

theorem finds_iff {us : List UniqueConstraint} {u : UniqueConstraint} :
    (∃ i, us[i]? = some u ∧ findUniqueConstraint us (.unique u) = some i) ↔
      ∃ before after, us = before ++ u :: after ∧ ∀ v ∈ before, ¬u.columnNames ⊆ v.columnNames := by
  have hself : u.equals u = true := Constraint.equals_refl (.unique u)
  constructor
  · rintro ⟨i, hget, hfind⟩
    obtain ⟨hlt, rfl⟩ := List.getElem?_eq_some_iff.1 hget
    refine ⟨us.take i, us.drop (i + 1), ?_, ?_⟩
    · rw [← List.drop_eq_getElem_cons hlt, List.take_append_drop]
    · intro v hv hsub
      obtain ⟨j, hj, rfl⟩ := List.mem_take_iff_getElem.1 hv
      obtain ⟨-, hbefore⟩ := List.findIdx?_eq_some_iff_getElem.1 hfind |>.2
      exact hbefore j (by omega) (UniqueConstraint.equals_iff.2 hsub)
  · rintro ⟨before, after, rfl, hbefore⟩
    have hnone : before.findIdx? (fun v => v.equals u) = none := by
      rw [List.findIdx?_eq_none_iff]
      intro v hv
      exact Bool.eq_false_iff.2 fun heq => hbefore v hv (UniqueConstraint.equals_iff.1 heq)
    refine ⟨before.length, by simp, ?_⟩
    rw [findUniqueConstraint, List.findIdx?_append, hnone, List.findIdx?_cons, hself]
    simp

theorem dropsOnly_iff (operator : Operator) (table : Table) (us : List UniqueConstraint) (u : UniqueConstraint) :
    operator.DropsOnly table us u ↔
      ∃ before after, us = before ++ u :: after ∧ ∀ v ∈ before, ¬u.columnNames ⊆ v.columnNames := by
  rw [← finds_iff]
  constructor
  · rintro ⟨i, hget, hfind, -⟩
    exact ⟨i, hget, hfind⟩
  · rintro ⟨i, hget, hfind⟩
    exact ⟨i, hget, hfind, dropConstraint_unique operator table hfind hget⟩

/-- **Constraint matching**: `Equals` is an equivalence that tells column sets apart, and dropping a unique constraint drops that one
only, exactly when no constraint overlooks columns of another and none before the dropped one has all its columns. -/
theorem matching_iff (S : Constraint → Prop) (operator : Operator) (table : Table) (us : List UniqueConstraint)
    (u : UniqueConstraint) :
    EquivalenceOn S ∧ (∀ c d, S (.unique c) → S (.unique d) → (Constraint.unique c).equals (.unique d) = true →
        ∀ column, column ∈ c.columnNames ↔ column ∈ d.columnNames) ∧ operator.DropsOnly table us u ↔
      (∀ c d, S c → S d → ¬c.Overlooks d) ∧
        ∃ before after, us = before ++ u :: after ∧ ∀ v ∈ before, ¬u.columnNames ⊆ v.columnNames := by
  rw [equivalenceOn_iff, dropsOnly_iff]
  constructor
  · rintro ⟨hequiv, -, hdrop⟩
    exact ⟨hequiv, hdrop⟩
  · rintro ⟨hequiv, hdrop⟩
    refine ⟨hequiv, ?_, hdrop⟩
    intro c d hc hd hcd column
    have hdc : (Constraint.unique d).equals (.unique c) = true := (Constraint.equals_symm_iff _ _).2 (hequiv _ _ hc hd) hcd
    exact ⟨fun h => UniqueConstraint.equals_iff.1 hdc column h, fun h => UniqueConstraint.equals_iff.1 hcd column h⟩

/-- A constraint over two columns is taken for the one over the first of them, and dropped in its place. -/
theorem wider_dropped :
    (Constraint.unique ⟨["email", "org_id"], ""⟩).equals (.unique ⟨["email"], ""⟩) = true ∧
      (Constraint.unique ⟨["email"], ""⟩).equals (.unique ⟨["email", "org_id"], ""⟩) = false ∧
      (Operator.dropConstraint ⟨formatter, .all⟩ ⟨"users", [], none, []⟩ [⟨["email", "org_id"], ""⟩, ⟨["email"], ""⟩]
        (.unique ⟨["email"], ""⟩)).2 = [.dropConstraint "users" "uq_users_email_org_id"] := by
  decide

end SqlSchema
end DsApm
