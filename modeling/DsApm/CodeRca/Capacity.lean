import DsApm.CodeRca.Transactions
/-!
# Capacity — the concurrency counter against the runs it counts

`coderca_capacity.running` is kept apart from the rows it counts: a claim adds one, a fenced finalize takes one, and
`Reap` sets it to the count of runs with a live lease.  `Reap` requeues the leases *before* now and counts those
*after* it, so a run whose lease ends in the second of the reap (or was never given a positive one) stays running and
is not counted.  Every other transaction keeps the counter right, and `Reap` keeps it right exactly when it finds no
such run (`accounted_reap_iff`).
-/
namespace DsApm
namespace CodeRca

open SqlTable SqlTable.Table StepRun GoStd List

def isRunning (r : Run) : Bool := decide (r.status = .running)

def DB.runningRows (db : DB) : Nat := db.run.count isRunning

def Accounted (scope : String) (db : DB) : Prop := db.running scope = db.runningRows

instance (scope : String) (db : DB) : Decidable (Accounted scope db) := inferInstanceAs (Decidable (_ = _))

/-- A transaction that leaves no running row between requeued and counted: for a `Reap`, no lease ends in its second
and none that has passed is below the first second. -/
def Decides (db : DB) : Op → Prop
  | .reap p => ∀ r ∈ db.run.rows, r.status = .running →
      unix p.now < r.leaseUntil ∨ 0 < r.leaseUntil ∧ r.leaseUntil < unix p.now
  | _ => True

def InScope (scope : String) (op : Op) : Prop := ∀ s ∈ op.scope, s = scope

/-! ## One transaction -/

theorem runningRows_claim (db : DB) (p : ClaimParams) (token : String) {r : Run}
    (hr : db.run.find? r.runID = some r) (hq : r.status = .queued) :
    (db.run.update (pick r) (p.mark token) (p.runID_mark token)).count isRunning = db.run.count isRunning + 1 := by
  have h := (replaced_pick db (p.mark token) (p.runID_mark token) hr hq).count isRunning
  have hold : isRunning r = false := by simp [isRunning, hq]
  have hnew : isRunning (p.mark token r) = true := by simp [isRunning, ClaimParams.mark]
  rw [hold, hnew] at h
  exact h

theorem runningRows_owned (db : DB) (runID token : String) (f : Run → Run) (hf : ∀ r, (f r).runID = r.runID) {r : Run}
    (hr : db.run.find? runID = some r) (hs : r.status = .running) (ht : r.leaseToken = token) :
    (db.run.update (owned runID token) f hf).count isRunning + 1 =
      db.run.count isRunning + if isRunning (f r) then 1 else 0 := by
  have h := (replaced_owned db runID token f hf hr hs ht).count isRunning
  have hold : isRunning r = true := by simp [isRunning, hs]
  rw [hold, if_pos rfl] at h
  exact h

theorem runningRows_admitRun (db : DB) (p : AdmitParams) (runID : String) :
    (admitRun db p runID).1.runningRows = db.runningRows ∧ ∀ s, (admitRun db p runID).1.running s = db.running s := by
  unfold DB.runningRows DB.running
  rcases hend : admitRun db p runID with ⟨db', res⟩
  have h := admitRun_end db p runID
  rw [hend] at h
  cases h with
  | rejected _ _ _ same => exact ⟨by rw [same.run], fun s => by rw [same.capacity]⟩
  | rolledBack _ => exact ⟨rfl, fun _ => rfl⟩
  | admitted _ ok =>
    refine ⟨?_, fun s => by rw [ok.capacity]⟩
    rw [count_insert ok.run]
    simp [isRunning, AdmitParams.newRun]

theorem lapsed_mark (p : ReapParams) (q : Run → Bool) (hq : ∀ r, q r = true → r.status = .running) (r : Run) :
    q (setWhere (lapsed (unix p.now)) p.mark r) = (q r && !lapsed (unix p.now) r) := by
  unfold setWhere
  by_cases h : lapsed (unix p.now) r = true
  · rw [if_pos h, h, Bool.not_true, Bool.and_false]
    by_contra hc
    have := hq _ (by simpa using hc)
    simp only [ReapParams.mark] at this
    split at this <;> cases this
  · rw [if_neg h]
    simp [h]

theorem count_reap (db : DB) (p : ReapParams) :
    (reap db p).1.run.count (live (unix p.now)) = db.run.count (live (unix p.now)) ∧
    (reap db p).1.runningRows = db.run.count (fun r => isRunning r && !lapsed (unix p.now) r) := by
  have hlive : ∀ r, live (unix p.now) r = true → r.status = .running := by
    intro r h; simp only [live, Bool.and_eq_true, decide_eq_true_eq] at h; exact h.1
  unfold DB.runningRows reap
  refine ⟨?_, ?_⟩
  · rw [count_update]
    apply countP_congr
    intro r _
    rw [lapsed_mark p _ hlive]
    simp only [live, lapsed, Bool.and_eq_true, Bool.not_eq_true', decide_eq_true_eq, Bool.and_eq_false_iff,
      decide_eq_false_iff_not]
    constructor
    · exact fun h => h.1
    · exact fun h => ⟨h, .inr (.inr (by omega))⟩
  · rw [count_update]
    unfold Table.count
    congr 1
    exact funext (fun r => lapsed_mark p _ (fun r h => by simpa [isRunning] using h) r)

theorem countP_eq_iff {p q : Run → Bool} (hpq : ∀ r, p r = true → q r = true) : ∀ l : List Run,
    (l.countP p = l.countP q ↔ ∀ r ∈ l, q r = true → p r = true)
  | [] => by simp
  | r :: l => by
    have ih := countP_eq_iff hpq l
    have hle : l.countP p ≤ l.countP q := countP_mono_left (fun r _ => hpq r)
    rw [countP_cons, countP_cons, forall_mem_cons, ← ih]
    cases hp : p r <;> cases hq : q r
    · simp
    · simp only [Bool.false_eq_true, if_false, if_true, imp_false, not_true_eq_false, false_and,
        iff_false]
      omega
    · rw [hpq r hp] at hq; cases hq
    · simp

/-- **`Reap` keeps the counter right exactly when it finds every running row either lapsed or live.** -/
theorem accounted_reap_iff (db : DB) (p : ReapParams) (h : Accounted p.scope db) :
    Accounted p.scope (reap db p).1 ↔ Decides db (.reap p) := by
  obtain ⟨hlive, hrest⟩ := count_reap db p
  have hnested : ∀ r, live (unix p.now) r = true → (isRunning r && !lapsed (unix p.now) r) = true := by
    intro r hr
    simp only [live, isRunning, lapsed, Bool.and_eq_true, Bool.not_eq_true', decide_eq_true_eq,
      Bool.and_eq_false_iff, decide_eq_false_iff_not] at hr ⊢
    exact ⟨hr.1, .inr (.inr (by omega))⟩
  have hcount : db.run.count (live (unix p.now)) = (reap db p).1.runningRows ↔ Decides db (.reap p) := by
    rw [hrest]
    unfold Table.count
    rw [countP_eq_iff hnested]
    apply forall₂_congr
    intro r _
    simp only [live, isRunning, lapsed, Bool.and_eq_true, Bool.not_eq_true', decide_eq_true_eq, Bool.and_eq_false_iff,
      decide_eq_false_iff_not]
    constructor
    · intro hr hs
      by_cases hl : 0 < r.leaseUntil ∧ r.leaseUntil < unix p.now
      · exact .inr hl
      · exact .inl (hr ⟨hs, .inr (by omega)⟩).2
    · rintro hr ⟨hs, hnl⟩
      have hnl' := hnl.resolve_left (fun hc => hc hs)
      refine ⟨hs, ?_⟩
      rcases hr hs with hlt | hlt <;> omega
  unfold Accounted
  rw [counter_reap, hlive]
  by_cases hrow : (db.capacity.find? p.scope).isSome
  · rw [if_pos ⟨rfl, hrow⟩, ← hcount]
    omega
  · -- no counter row yet: nothing is running, before or after
    rw [if_neg (fun hc => hrow hc.2), ← hcount]
    unfold Accounted at h
    have hzero : db.running p.scope = 0 := by
      rw [running_eq]; unfold counter
      cases hf : db.capacity.find? p.scope with
      | none => rfl
      | some c => rw [hf] at hrow; exact absurd rfl hrow
    have hle : db.run.count (live (unix p.now)) ≤ (reap db p).1.runningRows := by
      rw [hrest]; exact countP_mono_left (fun r _ => hnested r)
    have hle' : (reap db p).1.runningRows ≤ db.runningRows := by
      rw [hrest]; exact countP_mono_left (fun r _ hr => by simp only [Bool.and_eq_true] at hr; exact hr.1)
    omega

/-- **One transaction keeps the counter right exactly when it decides every running row.** -/
theorem accounted_step_iff {scope : String} {db : DB} {op : Op} (hs : InScope scope op) (h : Accounted scope db) :
    Accounted scope (step db op).1 ↔ Decides db op := by
  cases op with
  | admitRun p runID =>
    obtain ⟨hrows, hrun⟩ := runningRows_admitRun db p runID
    refine iff_of_true ?_ trivial
    show (admitRun db p runID).1.running scope = (admitRun db p runID).1.runningRows
    rw [hrun, hrows]; exact h
  | claimNext p token =>
    refine iff_of_true ?_ trivial
    have hsc : p.scope = scope := hs p.scope rfl
    unfold Accounted at h ⊢
    show (claimNext db p token).1.running scope = (claimNext db p token).1.runningRows
    rcases claimNext_cases db p token with ⟨-, hrun, hc⟩ | ⟨r, hr, hq, -, -, hrun, hc⟩
    · unfold DB.runningRows at h ⊢
      rw [hc, hrun]; exact h
    · have hone := runningRows_claim db p token hr hq
      unfold DB.runningRows at h ⊢
      rw [hc, hrun, hone, hsc, if_pos rfl]
      omega
  | heartbeat runID token u =>
    refine iff_of_true ?_ trivial
    unfold Accounted at h ⊢
    show (heartbeat db runID token u).1.running scope = (heartbeat db runID token u).1.runningRows
    rcases heartbeat_cases db runID token u with ⟨-, he⟩ | ⟨⟨r, hr, hst, ht⟩, he⟩
    · rw [he]; exact h
    · rw [he]
      have hone := runningRows_owned db runID token _ (runID_extendLease u) hr hst ht
      have hkeep : isRunning (extendLease u r) = true := by simp [isRunning, extendLease, hst]
      rw [hkeep, if_pos rfl] at hone
      unfold DB.runningRows at h ⊢
      show db.running scope = ((db.run.update (owned runID token) (extendLease u) (runID_extendLease u)).count isRunning : Int)
      omega
  | finalize p =>
    refine iff_of_true ?_ trivial
    have hsc : p.scope = scope := hs p.scope rfl
    unfold Accounted at h ⊢
    show (finalize db p).1.running scope = (finalize db p).1.runningRows
    rcases finalize_cases db p with ⟨-, he⟩ | ⟨⟨r, hr, hst, ht⟩, he⟩
    · rw [he]; exact h
    · rw [he]
      have hone := runningRows_owned db p.runID p.leaseToken _ p.runID_mark hr hst ht
      have hdone : isRunning (p.mark r) = false := by
        apply decide_eq_false
        intro (hc : p.status = .running)
        have hterm := p.terminal
        rw [hc] at hterm; cases hterm
      rw [hdone, if_neg Bool.false_ne_true] at hone
      unfold DB.runningRows at h ⊢
      rw [running_eq] at h ⊢
      -- the finalized row was counted, so the guarded decrement takes place
      dsimp only
      rw [counter_releaseSlot, hsc, if_pos ⟨rfl, by omega⟩]
      omega
  | reap p =>
    have hsc : p.scope = scope := hs p.scope rfl
    subst hsc
    exact accounted_reap_iff db p h

theorem runningRows_step (db : DB) (op : Op) : (step db op).1.runningRows ≤ db.runningRows ∨
    ∃ p token, op = .claimNext p token ∧ db.running p.scope < p.maxConcurrent ∧
      (step db op).1.runningRows = db.runningRows + 1 := by
  unfold DB.runningRows
  cases op with
  | admitRun p runID => exact .inl (runningRows_admitRun db p runID).1.le
  | claimNext p token =>
    simp only [step]
    rcases claimNext_cases db p token with ⟨-, hrun, -⟩ | ⟨r, hr, hq, hlt, -, hrun, -⟩
    · rw [hrun]; exact .inl le_rfl
    · refine .inr ⟨p, token, rfl, hlt, ?_⟩
      rw [hrun]; exact runningRows_claim db p token hr hq
  | heartbeat runID token u =>
    refine .inl ?_
    simp only [step]
    rcases heartbeat_cases db runID token u with ⟨-, he⟩ | ⟨⟨r, hr, hst, ht⟩, he⟩
    · rw [he]
    · rw [he]
      have hone := runningRows_owned db runID token _ (runID_extendLease u) hr hst ht
      dsimp only
      split at hone <;> omega
  | finalize p =>
    refine .inl ?_
    simp only [step]
    rcases finalize_cases db p with ⟨-, he⟩ | ⟨⟨r, hr, hst, ht⟩, he⟩
    · rw [he]
    · rw [he]
      have hone := runningRows_owned db p.runID p.leaseToken _ p.runID_mark hr hst ht
      dsimp only
      split at hone <;> omega
  | reap p =>
    refine .inl ?_
    have hrest := (count_reap db p).2
    unfold DB.runningRows at hrest
    simp only [step]
    rw [hrest]
    exact countP_mono_left (fun r _ hr => by simp only [Bool.and_eq_true] at hr; exact hr.1)

/-! ## Runs -/

def CapIs (M : Nat) (op : Op) : Prop := ∀ p token, op = .claimNext p token → p.maxConcurrent = M

theorem capped_step {scope : String} {M : Nat} {db : DB} {op : Op} (hs : InScope scope op) (hM : CapIs M op)
    (hd : Decides db op) (h : Accounted scope db ∧ db.runningRows ≤ M) :
    Accounted scope (step db op).1 ∧ (step db op).1.runningRows ≤ M := by
  refine ⟨(accounted_step_iff hs h.1).2 hd, ?_⟩
  rcases runningRows_step db op with hle | ⟨p, token, rfl, hlt, heq⟩
  · exact hle.trans h.2
  · have hsc : p.scope = scope := hs p.scope rfl
    have hcap := hM p token rfl
    have hacc := h.1
    unfold Accounted at hacc
    rw [hsc, hacc, hcap] at hlt
    omega

/-- **The counter is the number of running rows throughout a run exactly when no `Reap` of it meets a running row that
it neither requeues nor counts**, and in every such run a constant cap bounds the running rows. -/
theorem counter_eq_running_iff (scope : String) (ops : List Op) (hs : ∀ op ∈ ops, InScope scope op) :
    ((∀ pre, pre <+: ops → (final step DB.empty pre).running scope = (final step DB.empty pre).runningRows) ↔
      ∀ x ∈ trace step DB.empty ops, Decides x.1 x.2.1) ∧
    ((∀ x ∈ trace step DB.empty ops, Decides x.1 x.2.1) → ∀ M : Nat, (∀ op ∈ ops, CapIs M op) →
      ∀ pre, pre <+: ops → (final step DB.empty pre).runningRows ≤ M) := by
  refine ⟨?_, fun hd M hM pre hp => ?_⟩
  · exact inv_throughout_iff step (Accounted scope) Decides (InScope scope) (fun _ _ ha h => accounted_step_iff ha h)
      ops DB.empty hs rfl
  · have hG : ∀ x ∈ trace step DB.empty ops, InScope scope x.2.1 ∧ CapIs M x.2.1 ∧ Decides x.1 x.2.1 := by
      intro x hx
      obtain ⟨pre, post, rfl, -, -⟩ := (mem_trace step ops DB.empty x).1 hx
      have hmem : x.2.1 ∈ pre ++ x.2.1 :: post := mem_append_right _ mem_cons_self
      exact ⟨hs _ hmem, hM _ hmem, hd x hx⟩
    exact (prefix_inv step (fun db => Accounted scope db ∧ db.runningRows ≤ M)
      (fun db op => InScope scope op ∧ CapIs M op ∧ Decides db op)
      (fun _ _ hg h => capped_step hg.1 hg.2.1 hg.2.2 h) hG ⟨rfl, Nat.zero_le M⟩ hp).2

/-- Two signals are admitted, one is claimed for ten seconds, `Reap` runs in the second the lease ends, and the other
is claimed under the same cap of one. -/
def reapAtDeadline : List Op :=
  [.admitRun ⟨"o", "api", "k1", 100 * second, 0, 5, 5⟩ "r1",
   .admitRun ⟨"o", "api", "k2", 101 * second, 0, 5, 5⟩ "r2",
   .claimNext ⟨"global", "w1", 102 * second, 10 * second, 1⟩ "t1",
   .reap ⟨"global", 112 * second, 2⟩,
   .claimNext ⟨"global", "w2", 112 * second, 10 * second, 1⟩ "t2"]

theorem reapAtDeadline_inScope : ∀ op ∈ reapAtDeadline, InScope "global" op ∧ CapIs 1 op := by
  simp [reapAtDeadline, InScope, CapIs, Op.scope]

/-- The counter reads none while one run is running, and then two run under a cap of one. -/
theorem reapAtDeadline_unaccounted :
    (∀ op ∈ reapAtDeadline, InScope "global" op ∧ CapIs 1 op) ∧
    ¬ (∀ pre, pre <+: reapAtDeadline →
      (final step DB.empty pre).running "global" = (final step DB.empty pre).runningRows) ∧
    ¬ (∀ pre, pre <+: reapAtDeadline → (final step DB.empty pre).runningRows ≤ 1) := by
  refine ⟨reapAtDeadline_inScope, fun h => ?_, fun h => ?_⟩
  · have := h (reapAtDeadline.take 4) ( take_prefix 4 _)
    revert this; decide
  · have := h reapAtDeadline (prefix_refl _)
    revert this; decide

def reapAfterDeadline : List Op :=
  [.admitRun ⟨"o", "api", "k1", 100 * second, 0, 5, 5⟩ "r1",
   .claimNext ⟨"global", "w1", 102 * second, 10 * second, 1⟩ "t1",
   .reap ⟨"global", 113 * second, 2⟩]

theorem reapAfterDeadline_accounted :
    (∀ op ∈ reapAfterDeadline, InScope "global" op) ∧ (∀ x ∈ trace step DB.empty reapAfterDeadline, Decides x.1 x.2.1) ∧
    (∀ pre, pre <+: reapAfterDeadline →
      (final step DB.empty pre).running "global" = (final step DB.empty pre).runningRows) ∧
    (∀ pre, pre <+: reapAfterDeadline → (final step DB.empty pre).runningRows ≤ 1) := by
  have hs : ∀ op ∈ reapAfterDeadline, InScope "global" op := by simp [reapAfterDeadline, InScope, Op.scope]
  have hM : ∀ op ∈ reapAfterDeadline, CapIs 1 op := by simp [reapAfterDeadline, CapIs]
  have hd : ∀ x ∈ trace step DB.empty reapAfterDeadline, Decides x.1 x.2.1 := by
    simp only [reapAfterDeadline, trace_cons, trace_nil, forall_mem_cons, Decides, true_and]
    exact ⟨by decide, by simp⟩
  have h := counter_eq_running_iff "global" reapAfterDeadline hs
  exact ⟨hs, hd, h.1.2 hd, h.2 hd 1 hM⟩

end CodeRca
end DsApm
