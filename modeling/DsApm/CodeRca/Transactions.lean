import DsApm.CodeRca.RunStore
/-!
# Transactions — what each transaction of the run store can do

One inversion lemma for each transaction, guards included: whatever is proved about runs of the store is proved from
these and never from the bodies of `admit`, `claimNext`, `heartbeat`, `finalize` and `reap`.
-/
namespace DsApm
namespace CodeRca

open SqlTable SqlTable.Table GoStd

/-! ## The capacity counter -/

def counter (t : Table String Capacity Capacity.scope) (scope : String) : Int :=
  match t.find? scope with
  | some c => c.running
  | none => 0

theorem running_eq (db : DB) (scope : String) : db.running scope = counter db.capacity scope := rfl

theorem counter_ensureCapacity (db : DB) (p : ClaimParams) (s : String) :
    counter (ensureCapacity db p) s = db.running s ∧ ∃ c, (ensureCapacity db p).find? p.scope = some c := by
  rw [running_eq]
  unfold ensureCapacity counter
  cases hi : db.capacity.insert? ⟨p.scope, 0, p.maxConcurrent⟩ with
  | none =>
    obtain ⟨c, hc⟩ := (insert?_eq_none _ _).1 hi
    exact ⟨rfl, c, hc⟩
  | some t =>
    simp only [Option.getD_some, find?_insert hi]
    refine ⟨?_, ⟨p.scope, 0, p.maxConcurrent⟩, by simp⟩
    by_cases hs : p.scope = s
    · subst hs
      rw [if_pos rfl, ((insert?_eq_some _ _ _).1 hi).1]
    · rw [if_neg hs]

theorem counter_releaseSlot (t : Table String Capacity Capacity.scope) (scope s : String) :
    counter (releaseSlot t scope) s =
      if s = scope ∧ 0 < counter t scope then counter t scope - 1 else counter t s := by
  unfold releaseSlot counter
  rw [find?_update]
  cases hf : t.find? s with
  | none =>
    by_cases hs : s = scope
    · subst hs; simp [hf]
    · simp [hs]
  | some c =>
    have hk : c.scope = s := ((find?_eq_some _ _ _).1 hf).2
    by_cases hs : s = scope
    · subst hs
      simp only [hf, Option.map_some, setWhere, hk, decide_true, Bool.true_and, decide_eq_true_eq, true_and]
      split <;> rfl
    · simp [setWhere, hk, hs]

/-! ## `ClaimNext` -/

theorem oldest_mem : ∀ (l : List Run) (r : Run), oldest l = some r → r ∈ l
  | [], r, h => by cases h
  | q :: l, r, h => by
    unfold oldest at h
    split at h
    · cases h; exact List.mem_cons_self
    · rename_i q' hq
      split at h
      · cases h; exact List.mem_cons_of_mem _ (oldest_mem l _ hq)
      · cases h; exact List.mem_cons_self

def claimOf (token : String) (r : Run) : ClaimResult :=
  { claimed := true, runID := r.runID, orgID := r.orgID, leaseToken := token, dedupKey := r.dedupKey,
    service := r.service, attempts := r.attempts + 1 }

def pick (r q : Run) : Bool := decide (q.runID = r.runID) && decide (q.status = .queued)

theorem replaced_pick (db : DB) (f : Run → Run) (hf : ∀ r, (f r).runID = r.runID) {r : Run}
    (hr : db.run.find? r.runID = some r) (hq : r.status = .queued) :
    Replaced db.run (db.run.update (pick r) f hf) r.runID r (f r) :=
  replaced_update db.run r.runID (fun q => decide (q.status = .queued)) f hf hr (by simp [hq])

/-- **A claim either takes nothing, and no run and no counter changes, or takes one queued run under the cap.** -/
theorem claimNext_cases (db : DB) (p : ClaimParams) (token : String) :
    ((claimNext db p token).2 = {} ∧ (claimNext db p token).1.run = db.run ∧
      ∀ s, (claimNext db p token).1.running s = db.running s) ∨
    ∃ r, db.run.find? r.runID = some r ∧ r.status = .queued ∧ db.running p.scope < p.maxConcurrent ∧
      (claimNext db p token).2 = claimOf token r ∧
      (claimNext db p token).1.run = db.run.update (pick r) (p.mark token) (p.runID_mark token) ∧
      ∀ s, (claimNext db p token).1.running s = if s = p.scope then db.running p.scope + 1 else db.running s := by
  unfold claimNext
  split
  · exact .inl ⟨rfl, rfl, fun _ => rfl⟩
  · rename_i r hr
    have hmem := List.mem_filter.1 (oldest_mem _ _ hr)
    obtain ⟨hrows, hel⟩ := hmem
    simp only [Bool.and_eq_true, decide_eq_true_eq] at hel
    have hfind := find?_of_mem db.run hrows
    have hcnt : db.run.count (pick r) = 1 := by
      have hkey : db.run.count (pick r) = _ := count_key db.run r.runID (fun q => decide (q.status = .queued))
      rw [hkey, hfind]
      simp [hel.1]
    obtain ⟨-, c, hc⟩ := counter_ensureCapacity db p p.scope
    have hcr : c.running = db.running p.scope := by
      have h := (counter_ensureCapacity db p p.scope).1
      unfold counter at h
      rwa [hc] at h
    have hfree := count_key (ensureCapacity db p) p.scope (fun c => decide (c.running < p.maxConcurrent))
    rw [hc] at hfree
    dsimp only
    rw [hfree]
    by_cases hlt : c.running < p.maxConcurrent
    · rw [if_neg (by simp [hlt]), if_neg (by show ¬ db.run.count (pick r) = 0; omega)]
      refine .inr ⟨r, hfind, hel.1, hcr ▸ hlt, rfl, rfl, fun s => ?_⟩
      rw [running_eq]
      have hs := (counter_ensureCapacity db p s).1
      unfold counter at hs ⊢
      rw [find?_update]
      by_cases hsc : s = p.scope
      · subst hsc
        have hk : c.scope = p.scope := ((find?_eq_some _ _ _).1 hc).2
        simp only [hc, Option.map_some, setWhere, hk, decide_true, Bool.true_and, decide_eq_true_eq, if_pos hlt]
        rw [hcr, if_pos trivial]
      · rw [if_neg hsc, ← hs]
        cases hf : (ensureCapacity db p).find? s with
        | none => rfl
        | some c' =>
          have hk : c'.scope = s := ((find?_eq_some _ _ _).1 hf).2
          simp [setWhere, hk, hsc]
    · rw [if_pos (by simp [hlt])]
      exact .inl ⟨rfl, rfl, fun s => (counter_ensureCapacity db p s).1⟩

/-! ## The fenced statements -/

def holds (db : DB) (runID token : String) : Prop :=
  ∃ r, db.run.find? runID = some r ∧ r.status = .running ∧ r.leaseToken = token

theorem count_owned (db : DB) (runID token : String) :
    db.run.count (owned runID token) = 1 ↔ holds db runID token := by
  have h := count_key db.run runID (fun r => decide (r.leaseToken = token) && decide (r.status = .running))
  have heq : db.run.count (owned runID token) = _ := h
  rw [heq]
  unfold holds
  cases db.run.find? runID with
  | none => simp
  | some r => by_cases h1 : r.leaseToken = token <;> by_cases h2 : r.status = .running <;> simp [h1, h2]

theorem replaced_owned (db : DB) (runID token : String) (f : Run → Run) (hf : ∀ r, (f r).runID = r.runID) {r : Run}
    (hr : db.run.find? runID = some r) (hs : r.status = .running) (ht : r.leaseToken = token) :
    Replaced db.run (db.run.update (owned runID token) f hf) runID r (f r) :=
  replaced_update db.run runID (fun r => decide (r.leaseToken = token) && decide (r.status = .running)) f hf hr
    (by simp [hs, ht])

theorem update_owned_of_not_holds (db : DB) (runID token : String) (f : Run → Run)
    (hf : ∀ r, (f r).runID = r.runID) (h : ¬ holds db runID token) : db.run.update (owned runID token) f hf = db.run := by
  apply update_of_none
  intro r hr ho
  simp only [owned, Bool.and_eq_true, decide_eq_true_eq] at ho
  exact h ⟨r, (find?_eq_some _ _ _).2 ⟨hr, ho.1⟩, ho.2.2, ho.2.1⟩

/-- **A heartbeat without the lease changes nothing; one with it moves the deadline of that run.** -/
theorem heartbeat_cases (db : DB) (runID token : String) (u : Time) :
    (¬ holds db runID token ∧ heartbeat db runID token u = (db, false)) ∨
    (holds db runID token ∧ heartbeat db runID token u =
      ({ db with run := db.run.update (owned runID token) (extendLease u) (runID_extendLease u) }, true)) := by
  by_cases h : holds db runID token
  · refine .inr ⟨h, ?_⟩
    unfold heartbeat
    rw [(count_owned db runID token).2 h]
    rfl
  · refine .inl ⟨h, ?_⟩
    unfold heartbeat
    rw [update_owned_of_not_holds db runID token _ _ h]
    simp [mt (count_owned db runID token).1 h]

/-- **A finalize without the lease changes nothing; one with it ends the run and gives one slot back.** -/
theorem finalize_cases (db : DB) (p : FinalizeParams) :
    (¬ holds db p.runID p.leaseToken ∧ finalize db p = (db, false)) ∨
    (holds db p.runID p.leaseToken ∧ finalize db p =
      ({ db with run := db.run.update (owned p.runID p.leaseToken) p.mark p.runID_mark,
                 capacity := releaseSlot db.capacity p.scope }, true)) := by
  by_cases h : holds db p.runID p.leaseToken
  · refine .inr ⟨h, ?_⟩
    unfold finalize
    rw [if_neg (by simp [(count_owned db p.runID p.leaseToken).2 h])]
  · refine .inl ⟨h, ?_⟩
    unfold finalize
    rw [if_pos (mt (count_owned db p.runID p.leaseToken).1 h),
      update_owned_of_not_holds db p.runID p.leaseToken _ _ h]

/-! ## `Reap` -/

theorem counter_reap (db : DB) (p : ReapParams) (s : String) :
    (reap db p).1.running s =
      if s = p.scope ∧ (db.capacity.find? s).isSome then ((reap db p).1.run.count (live (unix p.now)) : Int)
      else db.running s := by
  rw [running_eq, running_eq]
  unfold counter reap
  rw [find?_update]
  cases hf : db.capacity.find? s with
  | none => simp
  | some c =>
    have hk : c.scope = s := ((find?_eq_some _ _ _).1 hf).2
    by_cases hs : s = p.scope
    · simp [setWhere, hk, hs]
    · simp [setWhere, hk, hs]

/-! ## `Admit` -/

def Admission.core (a : Admission) : String × String × Int × String := (a.orgID, a.dedupKey, a.lastAdmittedAt, a.lastRunRef)

/-- What a rejected `Admit` leaves: every run, budget row and capacity row, and the admissions but for their hits. -/
structure Untouched (db db' : DB) : Prop where
  run : db'.run = db.run
  budget : db'.budget = db.budget
  capacity : db'.capacity = db.capacity
  admission : db'.admission.rows.map Admission.core = db.admission.rows.map Admission.core

theorem Untouched.refl (db : DB) : Untouched db db := ⟨rfl, rfl, rfl, rfl⟩

theorem untouched_bumpSkipStat (db : DB) (orgID : String) (reason : SkipReason) (day : Int) :
    Untouched db (bumpSkipStat db orgID reason day) := ⟨rfl, rfl, rfl, rfl⟩

structure Admitted (db : DB) (p : AdmitParams) (runID : String) (db' : DB) : Prop where
  cap : 0 < p.maxRunsPerDay
  cooldown : ∀ row, db.admission.find? (p.orgID, p.dedupKey) = some row →
    p.cooldownSecs ≤ unix p.now - row.lastAdmittedAt
  queue : (db.queued p.orgID : Int) < p.maxQueueDepth
  budget : db.used p.orgID p.day < p.maxRunsPerDay
  run : db.run.insert? (p.newRun runID) = some db'.run
  used : ∀ o d, db'.used o d = db.used o d + if p.orgID = o ∧ p.day = d then 1 else 0
  admitted : ∀ o k, (db'.admission.find? (o, k)).map Admission.lastAdmittedAt =
    if p.orgID = o ∧ p.dedupKey = k then some (unix p.now)
    else (db.admission.find? (o, k)).map Admission.lastAdmittedAt
  capacity : db'.capacity = db.capacity

inductive AdmitEnd (db : DB) (p : AdmitParams) (runID : String) : DB × Except TxError AdmitResult → Prop
  | rejected (db' : DB) (res : AdmitResult) (no : res.admitted = false) (same : Untouched db db') :
      AdmitEnd db p runID (db', .ok res)
  | rolledBack (e : TxError) : AdmitEnd db p runID (db, .error e)
  | admitted (db' : DB) (ok : Admitted db p runID db') :
      AdmitEnd db p runID (db', .ok { admitted := true, runID := runID })

theorem used_eq (db : DB) (o : String) (d : Int) :
    db.used o d = ((db.budget.find? (o, d)).map Budget.used).getD 0 := by
  unfold DB.used
  cases db.budget.find? (o, d) <;> rfl

theorem admitBudget_end (db : DB) (p : AdmitParams) (runID : String) (hcap : 0 < p.maxRunsPerDay)
    (hcool : ∀ row, db.admission.find? (p.orgID, p.dedupKey) = some row →
      p.cooldownSecs ≤ unix p.now - row.lastAdmittedAt)
    (hq : (db.queued p.orgID : Int) < p.maxQueueDepth) : AdmitEnd db p runID (admitBudget db p runID) := by
  unfold admitBudget
  dsimp only
  split
  · rename_i h0
    refine .rejected _ _ rfl ?_
    rw [upsert_of_zero _ _ _ _ _ h0]
    exact untouched_bumpSkipStat db _ _ _
  · rename_i h0
    obtain ⟨hlt, hfind⟩ := find?_upsert _ _ _ _ _ h0
    split
    · exact .rolledBack _
    · rename_i run hrun
      have hadm : (db.admission.upsert ⟨p.orgID, p.dedupKey, unix p.now, 0, runID⟩ (fun _ => true)
          (fun a => { a with lastAdmittedAt := unix p.now, lastRunRef := runID }) (fun _ => rfl)).2 ≠ 0 := by
        unfold upsert
        split
        · exact Nat.one_ne_zero
        · rename_i hi
          obtain ⟨q, hq⟩ := (insert?_eq_none _ _).1 hi
          rw [count_key, hq]
          exact Nat.one_ne_zero
      obtain ⟨-, hafind⟩ := find?_upsert _ _ _ _ _ hadm
      refine .admitted _ ⟨hcap, hcool, hq, ?_, hrun, fun o d => ?_, fun o k => ?_, rfl⟩
      · rw [used_eq]
        cases hb : db.budget.find? (p.orgID, p.day) with
        | none => simpa using hcap
        | some b => simpa using hlt b hb
      · rw [used_eq, used_eq, hfind]
        by_cases hk : p.orgID = o ∧ p.day = d
        · obtain ⟨rfl, rfl⟩ := hk
          cases hb : db.budget.find? (p.orgID, p.day) <;> simp
        · rw [if_neg (by simpa using hk), if_neg hk, Int.add_zero]
      · rw [hafind]
        by_cases hk : p.orgID = o ∧ p.dedupKey = k
        · obtain ⟨rfl, rfl⟩ := hk
          cases ha : db.admission.find? (p.orgID, p.dedupKey) <;> simp
        · rw [if_neg (by simpa using hk), if_neg hk]

theorem admitQueue_end (db : DB) (p : AdmitParams) (runID : String) (hcap : 0 < p.maxRunsPerDay)
    (hcool : ∀ row, db.admission.find? (p.orgID, p.dedupKey) = some row →
      p.cooldownSecs ≤ unix p.now - row.lastAdmittedAt) : AdmitEnd db p runID (admitQueue db p runID) := by
  unfold admitQueue
  split
  · exact .rejected _ _ rfl (untouched_bumpSkipStat db _ _ _)
  · rename_i hq
    exact admitBudget_end db p runID hcap hcool (by omega)

/-- **Every `Admit` ends in one of the three ways.** -/
theorem admitRun_end (db : DB) (p : AdmitParams) (runID : String) : AdmitEnd db p runID (admitRun db p runID) := by
  unfold admitRun
  split
  · exact .rejected _ _ rfl (.refl db)
  · rename_i hcap
    split
    · rename_i hnone
      exact admitQueue_end db p runID (by omega) (fun row hrow => by rw [hnone] at hrow; cases hrow)
    · rename_i row hrow
      split
      · refine .rejected _ _ rfl ⟨rfl, rfl, rfl, ?_⟩
        exact map_update db.admission _ (fun a => { a with hitCount := a.hitCount + 1 }) (fun _ => rfl) _ (fun _ => rfl)
      · rename_i hcool
        refine admitQueue_end db p runID (by omega) (fun row' hrow' => ?_)
        rw [hrow, Option.some.injEq] at hrow'
        rw [← hrow']
        omega

end CodeRca
end DsApm
