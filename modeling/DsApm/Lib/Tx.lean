import Mathlib.Tactic.SplitIfs
/-!
# Tx — a transaction whose steps also write memory

A state is what a database holds and what is kept in memory.  A step changes both and may fail; `runSteps` stops at the
first failure.  A transaction that fails puts the database back to where it began and leaves the memory as the steps left
it, so what a failed transaction changes is what its steps wrote into memory before the failure.
-/
namespace Tx

variable {δ μ : Type}

structure State (δ μ : Type) where
  db : δ
  mem : μ

abbrev Step (δ μ : Type) := State δ μ → State δ μ × Bool

def runSteps : List (Step δ μ) → Step δ μ
  | [], s => (s, true)
  | f :: fs, s => if (f s).2 then runSteps fs (f s).1 else ((f s).1, false)

def runInTx (commits : Bool) (steps : List (Step δ μ)) (s : State δ μ) : State δ μ × Bool :=
  if (runSteps steps s).2 && commits then ((runSteps steps s).1, true)
  else ({ (runSteps steps s).1 with db := s.db }, false)

theorem runSteps_append (fs gs : List (Step δ μ)) (s : State δ μ) :
    runSteps (fs ++ gs) s = if (runSteps fs s).2 then runSteps gs (runSteps fs s).1 else ((runSteps fs s).1, false) := by
  induction fs generalizing s with
  | nil => rfl
  | cons f fs ih =>
    rw [List.cons_append, runSteps, runSteps]
    by_cases h : (f s).2 = true
    · rw [if_pos h, if_pos h, ih]
    · rw [if_neg h, if_neg h]
      rfl

variable {fs : List (Step δ μ)} {s : State δ μ}

theorem runSteps_cons_succeeded {f : Step δ μ} (h : (runSteps (f :: fs) s).2 = true) :
    (f s).2 = true ∧ runSteps (f :: fs) s = runSteps fs (f s).1 := by
  rw [runSteps] at h ⊢
  split_ifs at h ⊢ with hf
  exact ⟨hf, rfl⟩

theorem runSteps_append_succeeded {gs : List (Step δ μ)} (h : (runSteps (fs ++ gs) s).2 = true) :
    (runSteps fs s).2 = true ∧ runSteps (fs ++ gs) s = runSteps gs (runSteps fs s).1 := by
  rw [runSteps_append] at h ⊢
  split_ifs at h ⊢ with hf
  exact ⟨hf, rfl⟩

variable {commits : Bool} {steps : List (Step δ μ)}

theorem db_of_failed (h : (runInTx commits steps s).2 = false) :
    (runInTx commits steps s).1.db = s.db := by
  unfold runInTx at h ⊢
  split_ifs with hok
  · rw [if_pos hok] at h
    cases h
  · rfl

theorem runInTx_of_succeeded
    (h : (runInTx commits steps s).2 = true) :
    commits = true ∧ (runSteps steps s).2 = true ∧ (runInTx commits steps s).1 = (runSteps steps s).1 := by
  unfold runInTx at h ⊢
  split_ifs with hok
  · rw [Bool.and_eq_true] at hok
    exact ⟨hok.2, hok.1, rfl⟩
  · rw [if_neg hok] at h
    cases h

theorem runInTx_succeeds (hc : commits = true)
    (h : (runSteps steps s).2 = true) : runInTx commits steps s = ((runSteps steps s).1, true) := by
  unfold runInTx
  rw [h, hc]
  rfl

theorem runSteps_inv (I : State δ μ → Prop) : ∀ (steps : List (Step δ μ)) (s : State δ μ),
    (∀ f ∈ steps, ∀ s, I s → I (f s).1) → I s → I (runSteps steps s).1
  | [], _, _, h => h
  | f :: fs, s, hstep, h => by
    have h1 := hstep f List.mem_cons_self s h
    rw [runSteps]
    split_ifs
    · exact runSteps_inv I fs _ (fun g hg => hstep g (List.mem_cons_of_mem _ hg)) h1
    · exact h1

theorem runInTx_first_fails {f : Step δ μ} (h : (f s).2 = false) :
    runInTx commits (f :: fs) s = ({ (f s).1 with db := s.db }, false) := by
  unfold runInTx
  simp [runSteps, h]

end Tx
