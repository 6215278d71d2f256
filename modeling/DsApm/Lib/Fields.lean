import DsApm.Lib.Separated
/-!
# Fields — names and values written one after the other

Each name is written with its value, between separators; a name without a value is left out.  Nothing is escaped, so two records
are also written alike when, where they first differ, one value goes on as the other's later fields do (`joined_eq_iff`).
-/
namespace Fields

open List

variable {κ α : Type*} (sep eq : α) (name : κ → List α)

def fields (v : κ → List α) (ks : List κ) : List (List α) :=
  ks.filterMap fun k => if v k = [] then none else some (name k ++ eq :: v k)

def written (v : κ → List α) (ks : List κ) : List α := (fields eq name v ks).flatMap (sep :: ·)

/-- Where the values first differ, the second is the first and more, and with this the first's later fields begin. -/
inductive Overruns (v w : κ → List α) : List κ → Prop where
  | here {k : κ} {ks : List κ} (more : List α) (hv : v k ≠ []) (hmore : more ≠ []) (hw : w k = v k ++ more)
      (hrest : written sep eq name v ks = more ++ written sep eq name w ks) : Overruns v w (k :: ks)
  | later {k : κ} {ks : List κ} (hk : v k = w k) (hrest : Overruns v w ks) : Overruns v w (k :: ks)

variable {sep eq name} {v w : κ → List α}

theorem Overruns.differ {ks : List κ} (h : Overruns sep eq name v w ks) : ∃ k ∈ ks, v k ≠ w k := by
  induction h with
  | @here k ks more hv hmore hw hrest =>
    refine ⟨k, mem_cons_self, fun heq => hmore ?_⟩
    rw [heq] at hw
    exact self_eq_append_right.1 hw
  | later hk hrest ih =>
    obtain ⟨k, hk, hne⟩ := ih
    exact ⟨k, mem_cons_of_mem _ hk, hne⟩

theorem written_cons_of_nil {k : κ} {ks : List κ} (hk : v k = []) : written sep eq name v (k :: ks) = written sep eq name v ks := by
  simp [written, fields, hk]

theorem written_cons_of_ne {k : κ} {ks : List κ} (hk : v k ≠ []) :
    written sep eq name v (k :: ks) = sep :: (name k ++ eq :: (v k ++ written sep eq name v ks)) := by
  simp [written, fields, hk]

theorem joined_eq_iff_written {ks : List κ} :
    [sep].intercalate (fields eq name v ks) = [sep].intercalate (fields eq name w ks) ↔
      written sep eq name v ks = written sep eq name w ks := by
  have hnil : ∀ u : κ → List α, fields eq name u ks = [] ∨
      written sep eq name u ks = sep :: [sep].intercalate (fields eq name u ks) ∧
        [sep].intercalate (fields eq name u ks) ≠ [] := by
    intro u
    cases hf : fields eq name u ks with
    | nil => exact .inl rfl
    | cons f fs =>
      refine .inr ⟨?_, fun hempty => ?_⟩
      · rw [written, hf, Separated.cons_intercalate sep (cons_ne_nil f fs)]
      · obtain ⟨k, -, hk⟩ := mem_filterMap.1 (show f ∈ fields eq name u ks from hf ▸ mem_cons_self)
        split at hk
        · cases hk
        · cases hk
          cases fs <;> simp at hempty
  rcases hnil v with hv | ⟨hv, hvne⟩ <;> rcases hnil w with hw | ⟨hw, hwne⟩
  · simp [written, hv, hw]
  · rw [hw, hv, written, hv]
    simpa using hwne.symm
  · rw [hv, hw, written, hw]
    simpa using hvne
  · rw [hv, hw, List.cons.injEq, and_iff_right rfl]

theorem written_ne {k : κ} (hname : Function.Injective name) (hkeq : eq ∉ name k) (t : List α) : ∀ {ks : List κ},
    (∀ k ∈ ks, eq ∉ name k) → k ∉ ks → written sep eq name v ks ≠ sep :: (name k ++ eq :: t)
  | [], _, _, h => nomatch h
  | k' :: ks, heq, hk, h => by
    rw [mem_cons, not_or] at hk
    rw [forall_mem_cons] at heq
    by_cases hv : v k' = []
    · rw [written_cons_of_nil hv] at h
      exact written_ne hname hkeq t heq.2 hk.2 h
    · rw [written_cons_of_ne hv, List.cons.injEq, and_iff_right rfl] at h
      exact hk.1 (hname (Separated.append_cons_inj heq.1 hkeq h).1).symm

/-- **Two records are written alike** when their values are the same, or one value overruns. -/
theorem written_eq_iff (hname : Function.Injective name) : ∀ {ks : List κ}, (∀ k ∈ ks, eq ∉ name k) → ks.Nodup →
    (written sep eq name v ks = written sep eq name w ks ↔
      (∀ k ∈ ks, v k = w k) ∨ Overruns sep eq name v w ks ∨ Overruns sep eq name w v ks)
  | [], _, _ => by simp [written, fields]
  | k :: ks, heq, hk => by
    rw [nodup_cons] at hk
    rw [forall_mem_cons] at heq
    have ih := written_eq_iff hname heq.2 hk.2
    by_cases hsame : v k = w k
    · -- the values agree here, so the rest decides
      have hover : ∀ {v w : κ → List α}, v k = w k →
          (Overruns sep eq name v w (k :: ks) ↔ Overruns sep eq name v w ks) := by
        intro v w hsame
        refine ⟨fun h => ?_, .later hsame⟩
        cases h with
        | here more hv hmore hw hrest => exact absurd (self_eq_append_right.1 (hsame.trans hw)) hmore
        | later _ hrest => exact hrest
      rw [forall_mem_cons, and_iff_right hsame, hover hsame, hover hsame.symm, ← ih]
      by_cases hv : v k = []
      · rw [written_cons_of_nil hv, written_cons_of_nil (hsame ▸ hv)]
      · rw [written_cons_of_ne hv, written_cons_of_ne (hsame ▸ hv), hsame]
        simp
    · have hover : ∀ {v w : κ → List α}, v k ≠ w k → (Overruns sep eq name v w (k :: ks) ↔
          v k ≠ [] ∧ ∃ more, w k = v k ++ more ∧ written sep eq name v ks = more ++ written sep eq name w ks) := by
        intro v w hne
        constructor
        · intro h
          cases h with
          | here more hv hmore hw hrest => exact ⟨hv, more, hw, hrest⟩
          | later hsame _ => exact absurd hsame hne
        · rintro ⟨hv, more, hw, hrest⟩
          refine .here more hv (fun hnil => hne ?_) hw hrest
          rw [hw, hnil, append_nil]
      have hall : ¬∀ k' ∈ k :: ks, v k' = w k' := fun h => hsame (h k mem_cons_self)
      rw [hover hsame, hover (Ne.symm hsame), or_iff_right hall]
      by_cases hv : v k = []
      · have hw : w k ≠ [] := fun hw => hsame (hv.trans hw.symm)
        rw [written_cons_of_nil hv, written_cons_of_ne hw, iff_false_left (written_ne hname heq.1 _ heq.2 hk.1)]
        simp [hv, hw]
      · by_cases hw : w k = []
        · rw [written_cons_of_nil hw, written_cons_of_ne hv, iff_false_left (written_ne hname heq.1 _ heq.2 hk.1).symm]
          simp [hv, hw]
        · rw [written_cons_of_ne hv, written_cons_of_ne hw, List.cons.injEq, and_iff_right rfl, append_cancel_left_eq,
            List.cons.injEq, and_iff_right rfl, append_eq_append_iff, and_iff_right hv, and_iff_right hw]

/-- **Two records are joined alike** when their values are the same, or one value overruns. -/
theorem joined_eq_iff (hname : Function.Injective name) {ks : List κ} (heq : ∀ k ∈ ks, eq ∉ name k) (hks : ks.Nodup) :
    [sep].intercalate (fields eq name v ks) = [sep].intercalate (fields eq name w ks) ↔
      (∀ k ∈ ks, v k = w k) ∨ Overruns sep eq name v w ks ∨ Overruns sep eq name w v ks := by
  rw [joined_eq_iff_written, written_eq_iff hname heq hks]

theorem joined_inj_iff (hname : Function.Injective name) {ks : List κ} (heq : ∀ k ∈ ks, eq ∉ name k) (hks : ks.Nodup) :
    ([sep].intercalate (fields eq name v ks) = [sep].intercalate (fields eq name w ks) ↔ ∀ k ∈ ks, v k = w k) ↔
      ¬(Overruns sep eq name v w ks ∨ Overruns sep eq name w v ks) := by
  rw [joined_eq_iff hname heq hks]
  constructor
  · intro h hover
    have hall := h.1 (.inr hover)
    rcases hover with hover | hover
    · obtain ⟨k, hk, hne⟩ := hover.differ
      exact hne (hall k hk)
    · obtain ⟨k, hk, hne⟩ := hover.differ
      exact hne (hall k hk).symm
  · intro h
    rw [or_iff_left h]

end Fields
