import Mathlib.Data.List.Destutter
/-!
# StepRun — runs of a step function with outputs

A system is a step function: a state, an action, and the state and the output after it.  Every choice the
environment makes (which party moves, which call fails, what the clock reads) is part of the action, so a run is a
list of actions and a statement about every list is a statement about every interleaving.

`trace` lists the steps of a run with the state before each.  The rules below are the ones a safety proof needs: an
invariant kept by every step (`final_inv`), or exactly by the steps that meet a guard (`inv_throughout_iff`), one that speaks about the past as well (`trace_inv`), and an event that
ends the condition it needs (`countP_trace_le_one`).
-/
namespace StepRun

open List

variable {σ α β : Type}

def final (step : σ → α → σ × β) : σ → List α → σ
  | s, [] => s
  | s, a :: as => final step (step s a).1 as

/-- The steps of a run: the state before, the action, the output. -/
def trace (step : σ → α → σ × β) : σ → List α → List (σ × α × β)
  | _, [] => []
  | s, a :: as => (s, a, (step s a).2) :: trace step (step s a).1 as

def visited (step : σ → α → σ × β) : σ → List α → List σ
  | s, [] => [s]
  | s, a :: as => s :: visited step (step s a).1 as

variable (step : σ → α → σ × β)

@[simp] theorem final_nil (s : σ) : final step s [] = s := rfl
@[simp] theorem final_cons (s : σ) (a : α) (as : List α) :
    final step s (a :: as) = final step (step s a).1 as := rfl
@[simp] theorem trace_nil (s : σ) : trace step s [] = [] := rfl
@[simp] theorem trace_cons (s : σ) (a : α) (as : List α) :
    trace step s (a :: as) = (s, a, (step s a).2) :: trace step (step s a).1 as := rfl

theorem final_append : ∀ (as bs : List α) (s : σ), final step s (as ++ bs) = final step (final step s as) bs
  | [], _, _ => rfl
  | a :: as, bs, s => final_append as bs (step s a).1

theorem trace_append : ∀ (as bs : List α) (s : σ),
    trace step s (as ++ bs) = trace step s as ++ trace step (final step s as) bs
  | [], _, _ => rfl
  | a :: as, bs, s => by
    simp only [cons_append, trace_cons, final_cons, trace_append as bs (step s a).1]

theorem mem_trace : ∀ (as : List α) (s : σ) (x : σ × α × β), x ∈ trace step s as ↔
    ∃ pre post, as = pre ++ x.2.1 :: post ∧ x.1 = final step s pre ∧ x.2.2 = (step x.1 x.2.1).2
  | [], s, x => by simp
  | a :: as, s, x => by
    rw [trace_cons, mem_cons, mem_trace as (step s a).1 x]
    constructor
    · rintro (rfl | ⟨pre, post, rfl, hs, ho⟩)
      · exact ⟨[], as, rfl, rfl, rfl⟩
      · exact ⟨a :: pre, post, rfl, hs, ho⟩
    · rintro ⟨pre, post, has, hs, ho⟩
      cases pre with
      | nil =>
        simp only [nil_append, List.cons.injEq] at has
        obtain ⟨rfl, rfl⟩ := has
        obtain ⟨s', a', o⟩ := x
        simp only [final_nil] at hs ho
        subst hs
        exact Or.inl (by rw [ho])
      | cons b pre =>
        simp only [cons_append, List.cons.injEq] at has
        obtain ⟨rfl, rfl⟩ := has
        exact Or.inr ⟨pre, post, rfl, hs, ho⟩

theorem forall_mem_trace_action (G : α → Prop) : ∀ (as : List α) (s : σ),
    (∀ x ∈ trace step s as, G x.2.1) ↔ ∀ a ∈ as, G a
  | [], _ => by simp
  | a :: as, s => by
    rw [trace_cons, forall_mem_cons, forall_mem_cons, forall_mem_trace_action G as (step s a).1]

/-- **What every guarded step keeps, every guarded run keeps.** -/
theorem final_inv (I : σ → Prop) (G : σ → α → Prop) (hstep : ∀ s a, G s a → I s → I (step s a).1) :
    ∀ (as : List α) (s : σ), (∀ x ∈ trace step s as, G x.1 x.2.1) → I s → I (final step s as)
  | [], _, _, h => h
  | a :: as, s, hG, h => by
    rw [trace_cons] at hG
    exact final_inv I G hstep as _ (fun x hx => hG x (mem_cons_of_mem _ hx))
      (hstep s a (hG _ mem_cons_self) h)

theorem prefix_inv (I : σ → Prop) (G : σ → α → Prop) (hstep : ∀ s a, G s a → I s → I (step s a).1) {as pre : List α}
    {s : σ} (hG : ∀ x ∈ trace step s as, G x.1 x.2.1) (h : I s) (hp : pre <+: as) : I (final step s pre) := by
  obtain ⟨post, rfl⟩ := hp
  rw [trace_append] at hG
  exact final_inv step I G hstep pre s (fun x hx => hG x (mem_append_left _ hx)) h

/-- **When a step keeps the invariant exactly under the guard, a run holds it throughout exactly when every step meets
the guard.** -/
theorem inv_throughout_iff (I : σ → Prop) (G : σ → α → Prop) (A : α → Prop)
    (hstep : ∀ s a, A a → I s → (I (step s a).1 ↔ G s a)) : ∀ (as : List α) (s : σ), (∀ a ∈ as, A a) → I s →
      ((∀ pre, pre <+: as → I (final step s pre)) ↔ ∀ x ∈ trace step s as, G x.1 x.2.1)
  | [], s, _, h => by
    constructor
    · intro _ x hx; simp at hx
    · intro _ pre hp; rw [prefix_nil.1 hp]; exact h
  | a :: as, s, hA, h => by
    have hone := hstep s a (hA a mem_cons_self) h
    have hrest := inv_throughout_iff I G A hstep as (step s a).1 (fun b hb => hA b (mem_cons_of_mem _ hb))
    rw [trace_cons, forall_mem_cons]
    constructor
    · intro hall
      have h1 : I (step s a).1 := hall [a] (cons_prefix_cons.2 ⟨rfl, nil_prefix⟩)
      exact ⟨hone.1 h1, (hrest h1).1 (fun pre hp => hall (a :: pre) (cons_prefix_cons.2 ⟨rfl, hp⟩))⟩
    · rintro ⟨hg, hgs⟩ pre hp
      cases pre with
      | nil => exact h
      | cons b pre =>
        obtain ⟨rfl, hpre⟩ := cons_prefix_cons.1 hp
        exact (hrest (hone.2 hg)).2 hgs pre hpre

/-- **When a step is good exactly under the guard, and a good step keeps the invariant, the steps of a run are good exactly
when all meet the guard.**  `F` is what the environment promises of every step. -/
theorem forall_trace_iff (I : σ → Prop) (F P G : σ → α → Prop) (hiff : ∀ s a, F s a → I s → (P s a ↔ G s a))
    (hkeep : ∀ s a, F s a → I s → P s a → I (step s a).1) : ∀ (as : List α) (s : σ),
      (∀ x ∈ trace step s as, F x.1 x.2.1) → I s →
      ((∀ x ∈ trace step s as, P x.1 x.2.1) ↔ ∀ x ∈ trace step s as, G x.1 x.2.1)
  | [], s, _, _ => by simp
  | a :: as, s, hF, h => by
    rw [trace_cons, forall_mem_cons] at hF
    have hone := hiff s a hF.1 h
    have hrest := fun hp : P s a => forall_trace_iff I F P G hiff hkeep as (step s a).1 hF.2 (hkeep s a hF.1 h hp)
    rw [trace_cons, forall_mem_cons, forall_mem_cons]
    constructor
    · rintro ⟨hp, hps⟩
      exact ⟨hone.1 hp, (hrest hp).1 hps⟩
    · rintro ⟨hg, hgs⟩
      exact ⟨hone.2 hg, (hrest (hone.2 hg)).2 hgs⟩

/-- **An invariant that also speaks about the steps already taken.** -/
theorem trace_inv (I : σ → List (σ × α × β) → Prop) (G : σ → α → Prop)
    (hstep : ∀ s l a, G s a → I s l → I (step s a).1 (l ++ [(s, a, (step s a).2)])) :
    ∀ (as : List α) (s : σ) (l : List (σ × α × β)), (∀ x ∈ trace step s as, G x.1 x.2.1) → I s l →
      I (final step s as) (l ++ trace step s as)
  | [], _, l, _, h => by rw [trace_nil, append_nil]; exact h
  | a :: as, s, l, hG, h => by
    rw [trace_cons] at hG ⊢
    have hrest := trace_inv I G hstep as (step s a).1 (l ++ [(s, a, (step s a).2)])
      (fun x hx => hG x (mem_cons_of_mem _ hx)) (hstep s l a (hG _ mem_cons_self) h)
    rwa [List.append_assoc, singleton_append] at hrest

/-- **An invariant that speaks about the actions so far**, under a condition on them that every earlier moment meets. -/
theorem history_inv (I : σ → List α → Prop) (G : List α → Prop) (s : σ) (hG : ∀ as a, G (as ++ [a]) → G as) (h0 : I s [])
    (hstep : ∀ as a, G (as ++ [a]) → I (final step s as) as → I (step (final step s as) a).1 (as ++ [a])) (as : List α)
    (h : G as) : I (final step s as) as := by
  induction as using List.reverseRecOn with
  | nil => exact h0
  | append_singleton as a ih =>
    rw [final_append]
    exact hstep as a h (ih (hG as a h))

/-- **An event that needs a condition, ends it, and nothing brings it back, happens at most once.** -/
theorem countP_trace_le_one (I P : σ → Prop) (E : σ × α × β → Bool) (hI : ∀ s a, I s → I (step s a).1)
    (hE : ∀ s a, I s → E (s, a, (step s a).2) = true → P s ∧ ¬ P (step s a).1)
    (hgone : ∀ s a, I s → ¬ P s → ¬ P (step s a).1) :
    ∀ (as : List α) (s : σ), I s →
      (trace step s as).countP E ≤ 1 ∧ (¬ P s → (trace step s as).countP E = 0)
  | [], _, _ => by simp
  | a :: as, s, hs => by
    obtain ⟨hle, hzero⟩ := countP_trace_le_one I P E hI hE hgone as (step s a).1 (hI s a hs)
    rw [trace_cons, countP_cons]
    by_cases he : E (s, a, (step s a).2) = true
    · obtain ⟨hP, hnP⟩ := hE s a hs he
      rw [if_pos he, hzero hnP]
      exact ⟨by omega, fun h => absurd hP h⟩
    · rw [if_neg he]
      exact ⟨by omega, fun h => by rw [hzero (hgone s a hs h)]⟩

/-! ## What a run shows of one value -/

def observed {γ : Type} [DecidableEq γ] (f : σ → Option γ) (s : σ) (as : List α) : List γ :=
  ((visited step s as).filterMap f).destutter (· ≠ ·)

theorem isChain_destutter' {γ : Type} [DecidableEq γ] {R : γ → γ → Prop} : ∀ (l : List γ) (a : γ),
    (a :: l).IsChain (fun x y => y = x ∨ R x y) →
      (l.destutter' (· ≠ ·) a).IsChain R ∧ (l.destutter' (· ≠ ·) a).head? = some a
  | [], a, _ => by simp [List.destutter']
  | b :: l, a, h => by
    rw [isChain_cons_cons] at h
    obtain ⟨hab, hl⟩ := h
    by_cases hne : a = b
    · subst hne
      rw [destutter'_cons_neg _ (by simp)]
      exact isChain_destutter' l a hl
    · obtain ⟨hc, hh⟩ := isChain_destutter' l b hl
      rw [destutter'_cons_pos _ hne]
      refine ⟨?_, rfl⟩
      rw [isChain_cons]
      refine ⟨fun y hy => ?_, hc⟩
      rw [hh, Option.mem_some_iff] at hy
      subst hy
      exact hab.resolve_left (Ne.symm hne)

theorem isChain_visited {γ : Type} (f : σ → Option γ) (R : γ → γ → Prop)
    (hf : ∀ s a x, f s = some x → ∃ y, f (step s a).1 = some y ∧ (y = x ∨ R x y)) : ∀ (as : List α) (s : σ),
      ((visited step s as).filterMap f).IsChain (fun x y => y = x ∨ R x y) ∧
        ∀ x, f s = some x → ((visited step s as).filterMap f).head? = some x
  | [], s => by cases h : f s <;> simp [visited, h]
  | a :: as, s => by
    obtain ⟨hc, hh⟩ := isChain_visited f R hf as (step s a).1
    rw [visited, filterMap_cons]
    cases h : f s with
    | none => exact ⟨hc, fun x hx => by cases hx⟩
    | some x =>
      refine ⟨?_, fun y hy => hy⟩
      rw [isChain_cons]
      refine ⟨fun y hy => ?_, hc⟩
      obtain ⟨z, hz, hzx⟩ := hf s a x h
      rw [hh z hz, Option.mem_some_iff] at hy
      subst hy
      exact hzx

/-- **A value that each step keeps or moves along `R` shows a path of `R`**, from its first observation on. -/
theorem isChain_observed {γ : Type} [DecidableEq γ] (f : σ → Option γ) (R : γ → γ → Prop)
    (hf : ∀ s a x, f s = some x → ∃ y, f (step s a).1 = some y ∧ (y = x ∨ R x y)) (s : σ) (as : List α) :
    (observed step f s as).IsChain R := by
  have hc := (isChain_visited step f R hf as s).1
  unfold observed
  cases hl : (visited step s as).filterMap f with
  | nil => simp
  | cons x l => rw [hl] at hc; exact (isChain_destutter' l x hc).1

end StepRun
