import Mathlib.Data.List.Nodup
/-!
# SqlTable — keyed tables and the statements that change them

A table is its list of rows with distinct primary keys; the key condition is part of the type, so no statement can
break it.  `insert?` refuses a key that is taken (a `PRIMARY KEY` violation), `update` is `UPDATE … SET … WHERE …`,
`upsert` is `INSERT … ON CONFLICT (key) DO UPDATE SET … WHERE …`, and `count` is both `SELECT COUNT(*) … WHERE …`
and, read before an `update` with the same condition, its number of affected rows.

A `SET` never touches the key, so `update` and `upsert` ask for that.
-/
namespace SqlTable

open List

variable {κ ρ : Type}

/-- **A table**: rows whose keys are pairwise different. -/
structure Table (κ ρ : Type) (key : ρ → κ) where
  rows : List ρ
  nodup : (rows.map key).Nodup

variable {key : ρ → κ}

namespace Table

def setWhere (p : ρ → Bool) (f : ρ → ρ) (r : ρ) : ρ := if p r then f r else r

theorem key_setWhere (p : ρ → Bool) (f : ρ → ρ) (hf : ∀ r, key (f r) = key r) (r : ρ) :
    key (setWhere p f r) = key r := by
  unfold setWhere; split
  · exact hf r
  · rfl

def empty : Table κ ρ key := ⟨[], List.nodup_nil⟩

def find? [DecidableEq κ] (t : Table κ ρ key) (k : κ) : Option ρ := t.rows.find? (fun r => decide (key r = k))

def count (t : Table κ ρ key) (p : ρ → Bool) : Nat := t.rows.countP p

def insert? [DecidableEq κ] (t : Table κ ρ key) (r : ρ) : Option (Table κ ρ key) :=
  if h : key r ∈ t.rows.map key then none
  else some ⟨t.rows ++ [r], by
    rw [List.map_append, List.map_singleton]
    exact List.nodup_append.2 ⟨t.nodup, List.nodup_singleton _, fun a ha b hb hab => by
      rw [List.mem_singleton] at hb
      exact h (by rw [← hb, ← hab]; exact ha)⟩⟩

def update (t : Table κ ρ key) (p : ρ → Bool) (f : ρ → ρ) (hf : ∀ r, key (f r) = key r) : Table κ ρ key :=
  ⟨t.rows.map (setWhere p f), by
    rw [List.map_map]
    have : key ∘ setWhere p f = key := funext (key_setWhere p f hf)
    rw [this]; exact t.nodup⟩

def delete (t : Table κ ρ key) (p : ρ → Bool) : Table κ ρ key :=
  ⟨t.rows.filter (fun r => !p r), ((List.filter_sublist).map key).nodup t.nodup⟩

/-- `INSERT r ON CONFLICT (key) DO UPDATE SET f WHERE p`, with the number of affected rows. -/
def upsert [DecidableEq κ] (t : Table κ ρ key) (r : ρ) (p : ρ → Bool) (f : ρ → ρ) (hf : ∀ r, key (f r) = key r) :
    Table κ ρ key × Nat :=
  match t.insert? r with
  | some t' => (t', 1)
  | none => (t.update (fun q => decide (key q = key r) && p q) f hf, t.count (fun q => decide (key q = key r) && p q))

theorem ext_rows {t t' : Table κ ρ key} (h : t.rows = t'.rows) : t = t' := by
  cases t; cases t'; simpa using h

@[simp] theorem rows_empty : (empty : Table κ ρ key).rows = [] := rfl
@[simp] theorem rows_update (t : Table κ ρ key) (p : ρ → Bool) (f : ρ → ρ) (hf : ∀ r, key (f r) = key r) :
    (t.update p f hf).rows = t.rows.map (setWhere p f) := rfl

@[simp] theorem rows_delete (t : Table κ ρ key) (p : ρ → Bool) : (t.delete p).rows = t.rows.filter (fun r => !p r) := rfl

theorem eq_of_key (t : Table κ ρ key) {r r' : ρ} (h : r ∈ t.rows) (h' : r' ∈ t.rows) (hk : key r = key r') : r = r' :=
  inj_on_of_nodup_map t.nodup h h' hk

/-! ## Reading -/

theorem find?_eq_some [DecidableEq κ] (t : Table κ ρ key) (k : κ) (r : ρ) :
    t.find? k = some r ↔ r ∈ t.rows ∧ key r = k := by
  unfold find?
  constructor
  · intro h
    exact ⟨mem_of_find?_eq_some h, by simpa using List.find?_some h⟩
  · rintro ⟨hr, hk⟩
    cases hf : t.rows.find? (fun r => decide (key r = k)) with
    | none =>
      have := List.find?_eq_none.1 hf r hr
      simp [hk] at this
    | some r' =>
      have hk' : key r' = k := by simpa using List.find?_some hf
      rw [t.eq_of_key (mem_of_find?_eq_some hf) hr (hk'.trans hk.symm)]

theorem find?_eq_none [DecidableEq κ] (t : Table κ ρ key) (k : κ) : t.find? k = none ↔ ∀ r ∈ t.rows, key r ≠ k := by
  unfold find?; simp [List.find?_eq_none]

theorem find?_of_mem [DecidableEq κ] (t : Table κ ρ key) {r : ρ} (h : r ∈ t.rows) : t.find? (key r) = some r :=
  (t.find?_eq_some _ _).2 ⟨h, rfl⟩

@[simp] theorem find?_empty [DecidableEq κ] (k : κ) : (empty : Table κ ρ key).find? k = none := rfl

theorem count_eq_zero (t : Table κ ρ key) (p : ρ → Bool) : t.count p = 0 ↔ ∀ r ∈ t.rows, p r ≠ true := by
  unfold count; rw [countP_eq_zero]

/-! ## INSERT -/

theorem insert?_eq_some [DecidableEq κ] (t t' : Table κ ρ key) (r : ρ) :
    t.insert? r = some t' ↔ t.find? (key r) = none ∧ t'.rows = t.rows ++ [r] := by
  unfold insert?
  rw [find?_eq_none]
  split
  · rename_i h
    obtain ⟨q, hq, hqk⟩ := List.mem_map.1 h
    exact ⟨fun hc => (nomatch hc), fun hc => absurd hqk (hc.1 q hq)⟩
  · rename_i h
    constructor
    · intro hc
      rw [Option.some.injEq] at hc
      subst hc
      exact ⟨fun q hq hqk => h (List.mem_map.2 ⟨q, hq, hqk⟩), rfl⟩
    · rintro ⟨-, hr⟩
      rw [Option.some.injEq]
      exact ext_rows hr.symm

theorem insert?_eq_none [DecidableEq κ] (t : Table κ ρ key) (r : ρ) :
    t.insert? r = none ↔ ∃ q, t.find? (key r) = some q := by
  unfold insert?
  split
  · rename_i h
    obtain ⟨q, hq, hqk⟩ := List.mem_map.1 h
    exact ⟨fun _ => ⟨q, (t.find?_eq_some _ _).2 ⟨hq, hqk⟩⟩, fun _ => rfl⟩
  · rename_i h
    refine ⟨fun hc => (nomatch hc), fun ⟨q, hq⟩ => ?_⟩
    obtain ⟨hm, hk⟩ := (t.find?_eq_some _ _).1 hq
    exact absurd (List.mem_map.2 ⟨q, hm, hk⟩) h

theorem find?_insert [DecidableEq κ] {t t' : Table κ ρ key} {r : ρ} (h : t.insert? r = some t') (k : κ) :
    t'.find? k = if key r = k then some r else t.find? k := by
  obtain ⟨hnone, hrows⟩ := (t.insert?_eq_some t' r).1 h
  unfold find? at hnone ⊢
  rw [hrows, List.find?_append]
  by_cases hk : key r = k
  · subst hk; simp [hnone]
  · simp [hk]

theorem count_insert [DecidableEq κ] {t t' : Table κ ρ key} {r : ρ} (h : t.insert? r = some t') (p : ρ → Bool) :
    t'.count p = t.count p + if p r then 1 else 0 := by
  unfold count
  rw [((t.insert?_eq_some t' r).1 h).2, countP_append, countP_singleton]

/-! ## UPDATE -/

theorem find?_update [DecidableEq κ] (t : Table κ ρ key) (p : ρ → Bool) (f : ρ → ρ) (hf : ∀ r, key (f r) = key r)
    (k : κ) : (t.update p f hf).find? k = (t.find? k).map (setWhere p f) := by
  unfold find?
  rw [rows_update, List.find?_map]
  congr 1
  have : ((fun r => decide (key r = k)) ∘ setWhere p f) = fun r => decide (key r = k) :=
    funext (fun r => by simp [key_setWhere p f hf r])
  rw [this]

theorem count_update (t : Table κ ρ key) (p : ρ → Bool) (f : ρ → ρ) (hf : ∀ r, key (f r) = key r) (q : ρ → Bool) :
    (t.update p f hf).count q = t.count (fun r => q (setWhere p f r)) := by
  unfold count
  rw [rows_update, countP_map]
  rfl

theorem map_update {γ : Type} (t : Table κ ρ key) (p : ρ → Bool) (f : ρ → ρ) (hf : ∀ r, key (f r) = key r) (g : ρ → γ)
    (hg : ∀ r, g (f r) = g r) : (t.update p f hf).rows.map g = t.rows.map g := by
  rw [rows_update, List.map_map]
  apply map_congr_left
  intro r _
  simp only [Function.comp_apply, setWhere]
  split
  · exact hg r
  · rfl

theorem update_of_none (t : Table κ ρ key) (p : ρ → Bool) (f : ρ → ρ) (hf : ∀ r, key (f r) = key r)
    (h : ∀ r ∈ t.rows, p r ≠ true) : t.update p f hf = t := by
  apply ext_rows
  rw [rows_update]
  conv => rhs; rw [← List.map_id t.rows]
  apply map_congr_left
  intro r hr
  simp [setWhere, h r hr]

theorem count_key [DecidableEq κ] (t : Table κ ρ key) (k : κ) (p : ρ → Bool) :
    t.count (fun r => decide (key r = k) && p r) = match t.find? k with
      | some r => if p r then 1 else 0
      | none => 0 := by
  obtain ⟨rows, nd⟩ := t
  unfold count find?
  induction rows with
  | nil => rfl
  | cons r rows ih =>
    rw [map_cons, nodup_cons] at nd
    rw [countP_cons, List.find?_cons]
    by_cases hk : key r = k
    · have hz : rows.countP (fun r => decide (key r = k) && p r) = 0 := by
        rw [countP_eq_zero]
        intro q hq hc
        simp only [Bool.and_eq_true, decide_eq_true_eq] at hc
        exact nd.1 (List.mem_map.2 ⟨q, hq, hc.1.trans hk.symm⟩)
      simp [hk, hz]
    · simpa [hk] using ih nd.2

/-- **Counting after a statement about one key**: the row it changes is taken out of the count and put back as it is
now. -/
theorem count_update_key [DecidableEq κ] (t : Table κ ρ key) (k : κ) (p : ρ → Bool) (f : ρ → ρ)
    (hf : ∀ r, key (f r) = key r) (q : ρ → Bool) {r : ρ} (hr : t.find? k = some r) (hp : p r = true) :
    (t.update (fun r => decide (key r = k) && p r) f hf).count q + (if q r then 1 else 0) =
      t.count q + if q (f r) then 1 else 0 := by
  rw [count_update]
  obtain ⟨rows, nd⟩ := t
  unfold count
  unfold find? at hr
  induction rows with
  | nil => cases hr
  | cons x rows ih =>
    rw [map_cons, nodup_cons] at nd
    rw [countP_cons, countP_cons]
    by_cases hk : key x = k
    · have hx : x = r := by simpa [hk] using hr
      subst hx
      have hrest : rows.countP (fun r => q (setWhere (fun r => decide (key r = k) && p r) f r)) = rows.countP q := by
        apply countP_congr
        intro y hy
        have hyk : key y ≠ k := fun hc => nd.1 (List.mem_map.2 ⟨y, hy, hc.trans hk.symm⟩)
        simp [setWhere, hyk]
      rw [hrest]
      simp only [setWhere, hk, hp, decide_true, Bool.and_self, if_true]
      omega
    · have hr' : rows.find? (fun r => decide (key r = k)) = some r := by simpa [hk] using hr
      have := ih nd.2 hr'
      simp only at this
      simp only [setWhere, hk, decide_false, Bool.false_and, Bool.false_eq_true, if_false] at this ⊢
      omega

structure Replaced [DecidableEq κ] (t t' : Table κ ρ key) (k : κ) (r r' : ρ) : Prop where
  old : t.find? k = some r
  find : ∀ k', t'.find? k' = if k' = k then some r' else t.find? k'
  count : ∀ q, t'.count q + (if q r then 1 else 0) = t.count q + if q r' then 1 else 0

/-- **A statement about one key replaces its row when the rest of the condition holds of it.** -/
theorem replaced_update [DecidableEq κ] (t : Table κ ρ key) (k : κ) (p : ρ → Bool) (f : ρ → ρ)
    (hf : ∀ r, key (f r) = key r) {r : ρ} (hr : t.find? k = some r) (hp : p r = true) :
    Replaced t (t.update (fun r => decide (key r = k) && p r) f hf) k r (f r) := by
  refine ⟨hr, fun k' => ?_, fun q => count_update_key t k p f hf q hr hp⟩
  rw [find?_update]
  by_cases hk : k' = k
  · subst hk
    have hkey : key r = k' := ((t.find?_eq_some _ _).1 hr).2
    rw [if_pos rfl, hr]
    simp [setWhere, hkey, hp]
  · rw [if_neg hk]
    cases hr' : t.find? k' with
    | none => rfl
    | some r' =>
      have hkey : key r' = k' := ((t.find?_eq_some _ _).1 hr').2
      simp [setWhere, hkey, hk]

theorem update_key_of_miss [DecidableEq κ] (t : Table κ ρ key) (k : κ) (p : ρ → Bool) (f : ρ → ρ)
    (hf : ∀ r, key (f r) = key r) (h : ∀ r, t.find? k = some r → p r ≠ true) :
    t.update (fun r => decide (key r = k) && p r) f hf = t := by
  apply update_of_none
  intro r hr hc
  simp only [Bool.and_eq_true, decide_eq_true_eq] at hc
  exact h r ((t.find?_eq_some _ _).2 ⟨hr, hc.1⟩) hc.2

/-! ## INSERT … ON CONFLICT -/

theorem upsert_of_zero [DecidableEq κ] (t : Table κ ρ key) (r : ρ) (p : ρ → Bool) (f : ρ → ρ)
    (hf : ∀ r, key (f r) = key r) (h : (t.upsert r p f hf).2 = 0) : (t.upsert r p f hf).1 = t := by
  unfold upsert at h ⊢
  split at h
  · cases h
  · exact t.update_of_none _ _ hf ((t.count_eq_zero _).1 h)

/-- **An upsert that affects a row** made it, or found one its condition holds of. -/
theorem find?_upsert [DecidableEq κ] (t : Table κ ρ key) (r : ρ) (p : ρ → Bool) (f : ρ → ρ)
    (hf : ∀ r, key (f r) = key r) (h : (t.upsert r p f hf).2 ≠ 0) :
    (∀ q, t.find? (key r) = some q → p q = true) ∧
    ∀ k, (t.upsert r p f hf).1.find? k =
      if key r = k then some ((t.find? (key r)).elim r f) else t.find? k := by
  unfold upsert at h ⊢
  split at h
  · rename_i t' hi
    have hnone := ((t.insert?_eq_some t' r).1 hi).1
    refine ⟨fun q hq => ?_, fun k => ?_⟩
    · rw [hnone] at hq; cases hq
    · rw [find?_insert hi, hnone]; rfl
  · rename_i hi
    obtain ⟨q, hq⟩ := (t.insert?_eq_none r).1 hi
    simp only [t.count_key, hq] at h
    have hp : p q = true := by
      by_contra hc
      rw [if_neg hc] at h
      exact h rfl
    refine ⟨fun q' hq' => ?_, fun k => ?_⟩
    · rw [hq, Option.some.injEq] at hq'
      rw [← hq']; exact hp
    · rw [find?_update, hq]
      by_cases hk : key r = k
      · subst hk
        have hqk : key q = key r := ((t.find?_eq_some _ _).1 hq).2
        simp [hq, setWhere, hqk, hp]
      · rw [if_neg hk]
        cases hf' : t.find? k with
        | none => rfl
        | some q' =>
          have hqk : key q' = k := ((t.find?_eq_some _ _).1 hf').2
          have hne : key q' ≠ key r := fun hc => hk (by rw [← hc, hqk])
          simp [setWhere, hne]

end Table
end SqlTable
