import Mathlib.Data.List.Induction
import Mathlib.Data.List.Nodup
/-!
# PathMap — values under paths in nested maps

A map whose values are leaves or maps again.  A value is put under a path by descending through maps; a leaf in the way
gives way to a map, and a map is never replaced by a leaf.  What is then found under a path does not depend on the order in
which the values were put, except for the values of one and the same path (`read_build`).
-/
namespace PathMap

open List

variable {κ α : Type}

inductive Node (κ α : Type) where
  | leaf (value : α)
  | map (children : κ → Option (Node κ α))

abbrev Children (κ α : Type) := κ → Option (Node κ α)

def empty : Children κ α := fun _ => none

def below (m : Children κ α) (k : κ) : Children κ α :=
  match m k with
  | some (.map children) => children
  | _ => empty

def isMapAt (m : Children κ α) (k : κ) : Bool :=
  match m k with
  | some (.map _) => true
  | _ => false

section
variable [DecidableEq κ]

def put : List κ → α → Children κ α → Children κ α
  | [], _, m => m
  | [k], a, m => if isMapAt m k then m else Function.update m k (some (.leaf a))
  | k :: rest, a, m => Function.update m k (some (.map (put rest a (below m k))))

def build (l : List (List κ × α)) : Children κ α := l.foldl (fun m x => put x.1 x.2 m) empty

end

def read : List κ → Children κ α → Option α
  | [], _ => none
  | [k], m =>
    match m k with
    | some (.leaf a) => some a
    | _ => none
  | k :: rest, m => read rest (below m k)

def branches : List κ → Children κ α → Bool
  | [], _ => true
  | [k], m => isMapAt m k
  | k :: rest, m => branches rest (below m k)

def Below (p q : List κ) : Prop := ∃ k rest, q = p ++ k :: rest

instance [DecidableEq κ] (p q : List κ) : Decidable (Below p q) :=
  decidable_of_iff (p <+: q ∧ p ≠ q) (by
    constructor
    · rintro ⟨⟨t, rfl⟩, hne⟩
      cases t with
      | nil => exact absurd (List.append_nil p).symm hne
      | cons k rest => exact ⟨k, rest, rfl⟩
    · rintro ⟨k, rest, rfl⟩
      exact ⟨List.prefix_append _ _, fun h => by simpa using congrArg List.length h⟩)

theorem below_cons {k k' : κ} {p q : List κ} : Below (k :: p) (k' :: q) ↔ k = k' ∧ Below p q := by
  unfold Below
  constructor
  · rintro ⟨j, rest, h⟩
    rw [cons_append, List.cons.injEq] at h
    exact ⟨h.1.symm, j, rest, h.2⟩
  · rintro ⟨rfl, j, rest, rfl⟩
    exact ⟨j, rest, rfl⟩

theorem not_below_nil (p : List κ) : ¬ Below p [] := by
  rintro ⟨k, rest, h⟩
  exact append_ne_nil_of_right_ne_nil p (cons_ne_nil _ _) h.symm

theorem below_nil {q : List κ} : Below [] q ↔ q ≠ [] := by
  cases q with
  | nil => exact ⟨fun h => absurd h (not_below_nil _), fun h => absurd rfl h⟩
  | cons k rest => exact ⟨fun _ => cons_ne_nil _ _, fun _ => ⟨k, rest, rfl⟩⟩

theorem below_eq_empty {m : Children κ α} {k : κ} (h : isMapAt m k = false) : below m k = empty := by
  unfold isMapAt at h
  unfold below
  split at h
  · cases h
  · rfl

/-! ## After one value -/

section
variable [DecidableEq κ]

theorem below_update (m : Children κ α) (k k' : κ) (c : Children κ α) :
    below (Function.update m k (some (.map c))) k' = if k' = k then c else below m k' := by
  unfold below
  by_cases h : k' = k
  · rw [if_pos h, h, Function.update_self]
  · rw [if_neg h, Function.update_of_ne h]

theorem below_put (k k' : κ) (rest : List κ) (a : α) (m : Children κ α) :
    below (put (k :: rest) a m) k' = if k' = k then put rest a (below m k) else below m k' := by
  cases rest with
  | cons j rest => rw [put, below_update]; exact cons_ne_nil _ _
  | nil =>
    rw [put, put]
    cases hm : isMapAt m k with
    | true =>
      rw [if_pos rfl]
      split
      · rename_i h; rw [h]
      · rfl
    | false =>
      rw [if_neg Bool.false_ne_true]
      by_cases h : k' = k
      · rw [if_pos h, h, below_eq_empty hm, below_eq_empty]
        unfold isMapAt
        rw [Function.update_self]
      · rw [if_neg h]
        unfold below
        rw [Function.update_of_ne h]

theorem isMapAt_put (k k' : κ) (rest : List κ) (a : α) (m : Children κ α) :
    isMapAt (put (k :: rest) a m) k' = (isMapAt m k' || decide (k' = k ∧ rest ≠ [])) := by
  cases rest with
  | cons j rest =>
    rw [put]
    · unfold isMapAt
      by_cases h : k' = k
      · rw [h, Function.update_self]; simp
      · rw [Function.update_of_ne h]; simp [h]
    · exact cons_ne_nil _ _
  | nil =>
    have hfalse : decide (k' = k ∧ ([] : List κ) ≠ []) = false := by simp
    rw [put, hfalse, Bool.or_false]
    cases hm : isMapAt m k with
    | true => rw [if_pos rfl]
    | false =>
      rw [if_neg Bool.false_ne_true]
      by_cases h : k' = k
      · rw [h, hm]
        unfold isMapAt
        rw [Function.update_self]
      · unfold isMapAt
        rw [Function.update_of_ne h]

omit [DecidableEq κ] in
theorem read_cons_cons (k j : κ) (rest : List κ) (m : Children κ α) :
    read (k :: j :: rest) m = read (j :: rest) (below m k) := rfl

omit [DecidableEq κ] in
theorem branches_cons_cons (k j : κ) (rest : List κ) (m : Children κ α) :
    branches (k :: j :: rest) m = branches (j :: rest) (below m k) := rfl

theorem branches_put {p : List κ} (hp : p ≠ []) (q : List κ) (a : α) (m : Children κ α) :
    branches p (put q a m) = (branches p m || decide (Below p q)) := by
  induction p generalizing q m with
  | nil => exact absurd rfl hp
  | cons k p ih =>
    cases q with
    | nil => simp [put, not_below_nil]
    | cons k' rest =>
      cases p with
      | nil =>
        unfold branches
        rw [isMapAt_put]
        simp only [below_cons, below_nil]
      | cons j p =>
        rw [branches_cons_cons, branches_cons_cons, below_put]
        by_cases h : k = k'
        · rw [if_pos h, ih (cons_ne_nil _ _), h]
          simp only [below_cons, true_and]
        · rw [if_neg h]
          simp [below_cons, h]

theorem read_singleton_put (k k' : κ) (rest : List κ) (a : α) (m : Children κ α) :
    read [k] (put (k' :: rest) a m) =
      if k = k' ∧ rest ≠ [] then none else if k' :: rest = [k] ∧ isMapAt m k = false then some a else read [k] m := by
  cases rest with
  | cons j rest =>
    rw [put]
    · unfold read
      by_cases h : k = k'
      · rw [h, Function.update_self, if_pos ⟨rfl, cons_ne_nil _ _⟩]
      · rw [Function.update_of_ne h, if_neg (fun hc => h hc.1)]
        simp
    · exact cons_ne_nil _ _
  | nil =>
    rw [if_neg (fun hc => hc.2 rfl), put]
    by_cases h : k' = k
    · subst h
      cases hm : isMapAt m k' with
      | true => simp
      | false =>
        rw [if_neg Bool.false_ne_true, if_pos ⟨rfl, rfl⟩]
        unfold read
        rw [Function.update_self]
    · have hne : ¬ ([k'] = [k] ∧ isMapAt m k = false) := fun hc => h (by simpa using hc.1)
      rw [if_neg hne]
      split
      · rfl
      · unfold read
        rw [Function.update_of_ne (fun hc => h hc.symm)]

theorem read_put {p : List κ} (hp : p ≠ []) (q : List κ) (a : α) (m : Children κ α) :
    read p (put q a m) =
      if Below p q then none else if q = p ∧ branches p m = false then some a else read p m := by
  induction p generalizing q m with
  | nil => exact absurd rfl hp
  | cons k p ih =>
    cases q with
    | nil => simp [put, not_below_nil]
    | cons k' rest =>
      cases p with
      | nil =>
        rw [read_singleton_put]
        simp only [below_cons, below_nil]
        rfl
      | cons j p =>
        rw [read_cons_cons, read_cons_cons, branches_cons_cons, below_put]
        by_cases h : k = k'
        · rw [if_pos h, ih (cons_ne_nil _ _), h]
          simp only [below_cons, true_and, List.cons.injEq]
        · rw [if_neg h]
          have hne : k' ≠ k := fun hc => h hc.symm
          simp [below_cons, h, hne]

end

/-! ## Two values -/

def childrenOf : Option (Node κ α) → Children κ α
  | some (.map children) => children
  | _ => empty

section
variable [DecidableEq κ]

/-- What comes to lie under a key when a value is put under the rest of its path. -/
def putAt : List κ → α → Option (Node κ α) → Option (Node κ α)
  | [], _, some (.map children) => some (.map children)
  | [], a, _ => some (.leaf a)
  | k :: rest, a, o => some (.map (put (k :: rest) a (childrenOf o)))

theorem put_cons (k : κ) (rest : List κ) (a : α) (m : Children κ α) :
    put (k :: rest) a m = Function.update m k (putAt rest a (m k)) := by
  cases rest with
  | cons j rest => rfl
  | nil =>
    rw [put]
    unfold isMapAt
    cases hm : m k with
    | none => rfl
    | some n =>
      cases n with
      | leaf v => rfl
      | map children =>
        rw [if_pos rfl]
        exact (Function.update_eq_self_iff.2 hm.symm).symm

/-- **Values under different paths may be put in either order.** -/
theorem put_comm (a b : α) : ∀ (p q : List κ) (m : Children κ α), p ≠ q → put p a (put q b m) = put q b (put p a m)
  | [], _, _, _ => rfl
  | _ :: _, [], _, _ => rfl
  | k :: p, j :: q, m, h => by
    rw [put_cons, put_cons, put_cons, put_cons]
    by_cases hk : k = j
    · subst hk
      have hne : p ≠ q := fun heq => h (by rw [heq])
      rw [Function.update_self, Function.update_self, Function.update_idem, Function.update_idem]
      refine congrArg _ ?_
      match p, q with
      | [], [] => exact absurd rfl hne
      | [], i :: q =>
        cases m k with
        | none => rfl
        | some n => cases n <;> rfl
      | i :: p, [] =>
        cases m k with
        | none => rfl
        | some n => cases n <;> rfl
      | i :: p, i' :: q => exact congrArg (fun c => some (Node.map c)) (put_comm a b (i :: p) (i' :: q) (childrenOf (m k)) hne)
    · rw [Function.update_of_ne hk, Function.update_of_ne (Ne.symm hk), Function.update_comm (Ne.symm hk)]

theorem build_perm {l l' : List (List κ × α)} (h : l.Perm l') (hnd : (l.map Prod.fst).Nodup) : build l = build l' := by
  unfold build
  refine List.Perm.foldl_eq' h (fun x hx y hy m => ?_) empty
  by_cases heq : x = y
  · rw [heq]
  · refine put_comm _ _ _ _ m (fun hp => heq ?_)
    exact inj_on_of_nodup_map hnd hx hy hp.symm

end

/-! ## After all of them -/

theorem read_of_branches {p : List κ} {m : Children κ α} (h : branches p m = true) : read p m = none := by
  induction p generalizing m with
  | nil => rfl
  | cons k p ih =>
    cases p with
    | nil =>
      unfold branches isMapAt at h
      unfold read
      split at h
      · rename_i hm; rw [hm]
      · cases h
    | cons j p => exact ih h

section
variable [DecidableEq κ]

theorem build_append (l : List (List κ × α)) (x : List κ × α) : build (l ++ [x]) = put x.1 x.2 (build l) := by
  unfold build
  rw [foldl_append]
  rfl

theorem branches_build {p : List κ} (hp : p ≠ []) (l : List (List κ × α)) :
    branches p (build l) = true ↔ ∃ x ∈ l, Below p x.1 := by
  induction l using List.reverseRecOn with
  | nil =>
    have hnone : ∀ q : List κ, q ≠ [] → branches q (empty : Children κ α) = false := by
      intro q
      induction q with
      | nil => exact fun h => absurd rfl h
      | cons k q ih =>
        intro _
        cases q with
        | nil => rfl
        | cons j q => exact ih (cons_ne_nil _ _)
    have hb : branches p (build ([] : List (List κ × α))) = false := hnone p hp
    simp [hb]
  | append_singleton l x ih =>
    rw [build_append, branches_put hp, Bool.or_eq_true, ih, decide_eq_true_eq]
    constructor
    · rintro (⟨y, hy, hb⟩ | hb)
      · exact ⟨y, mem_append_left _ hy, hb⟩
      · exact ⟨x, mem_append_right _ (mem_singleton_self x), hb⟩
    · rintro ⟨y, hy, hb⟩
      rcases mem_append.1 hy with hy | hy
      · exact Or.inl ⟨y, hy, hb⟩
      · rw [mem_singleton.1 hy] at hb
        exact Or.inr hb

/-- **What is read under a path**: the value put last under it, unless one was put below it. -/
theorem read_build {p : List κ} (hp : p ≠ []) (l : List (List κ × α)) :
    read p (build l) =
      if ∃ x ∈ l, Below p x.1 then none else (l.reverse.find? (fun x => x.1 == p)).map Prod.snd := by
  induction l using List.reverseRecOn with
  | nil =>
    have hnone : ∀ q : List κ, read q (empty : Children κ α) = none := by
      intro q
      induction q with
      | nil => rfl
      | cons k q ih =>
        cases q with
        | nil => rfl
        | cons j q => exact ih
    have hb : read p (build ([] : List (List κ × α))) = none := hnone p
    simp [hb]
  | append_singleton l x ih =>
    rw [build_append, read_put hp, reverse_append, reverse_singleton, singleton_append, List.find?_cons]
    by_cases hx : Below p x.1
    · rw [if_pos hx, if_pos ⟨x, mem_append_right _ (mem_singleton_self x), hx⟩]
    · have hexists : (∃ y ∈ l ++ [x], Below p y.1) ↔ ∃ y ∈ l, Below p y.1 := by
        constructor
        · rintro ⟨y, hy, hb⟩
          rcases mem_append.1 hy with hy | hy
          · exact ⟨y, hy, hb⟩
          · rw [mem_singleton.1 hy] at hb
            exact absurd hb hx
        · rintro ⟨y, hy, hb⟩
          exact ⟨y, mem_append_left _ hy, hb⟩
      rw [if_neg hx]
      by_cases hl : ∃ y ∈ l, Below p y.1
      · have hb := (branches_build hp l).2 hl
        rw [if_pos (hexists.2 hl), hb, if_neg (fun hc => by cases hc.2)]
        exact read_of_branches hb
      · have hb : branches p (build l) = false := by
          rw [← Bool.not_eq_true, branches_build hp l]; exact hl
        rw [if_neg (fun hc => hl (hexists.1 hc)), hb]
        by_cases hp' : x.1 = p
        · rw [if_pos ⟨hp', rfl⟩, hp', beq_self_eq_true]; rfl
        · have hne : (x.1 == p) = false := by simpa using hp'
          rw [if_neg (fun hc => hp' hc.1), hne, ih, if_neg hl]

end
end PathMap
