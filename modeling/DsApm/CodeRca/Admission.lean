import DsApm.CodeRca.Transactions
/-!
# Admission — the four limits of `Admit`

`Admit` reads the cooldown and the queue depth, then takes a unit of the day's budget, then inserts the run and pins
the cooldown to it.  The budget row of a day counts the runs created on it because both are written in one
transaction and no other transaction touches either; the cooldown row of a key holds its latest creation time because
the clock of the calls does not go back.
-/
namespace DsApm
namespace CodeRca

open SqlTable SqlTable.Table StepRun GoStd List

def DB.created (db : DB) (orgID : String) (day : Int) : Nat :=
  db.run.count (fun r => decide (r.orgID = orgID) && decide (dayOf r.createdAt = day))

def Run.origin (r : Run) : String × String × String × Int := (r.runID, r.orgID, r.dedupKey, r.createdAt)

def Op.admitTime : Op → Option Time
  | .admitRun p _ => some p.now
  | _ => none

def Out.admits : Out → Bool
  | .admitRun (.ok res) => res.admitted
  | _ => false

theorem created_eq (db : DB) (orgID : String) (day : Int) : db.created orgID day =
    (db.run.rows.map Run.origin).countP (fun o => decide (o.2.1 = orgID) && decide (dayOf o.2.2.2 = day)) := by
  unfold DB.created Table.count
  rw [countP_map]
  rfl

theorem claimNext_frame (db : DB) (p : ClaimParams) (token : String) :
    (claimNext db p token).1.budget = db.budget ∧ (claimNext db p token).1.admission = db.admission := by
  unfold claimNext
  split
  · exact ⟨rfl, rfl⟩
  · dsimp only
    split
    · exact ⟨rfl, rfl⟩
    · split <;> exact ⟨rfl, rfl⟩

theorem frame_of_not_admitRun (db : DB) (op : Op) (hop : op.admitTime = none) :
    (step db op).1.budget = db.budget ∧ (step db op).1.admission = db.admission ∧
      (step db op).1.run.rows.map Run.origin = db.run.rows.map Run.origin := by
  cases op with
  | admitRun p runID => cases hop
  | claimNext p token =>
    refine ⟨(claimNext_frame db p token).1, (claimNext_frame db p token).2, ?_⟩
    · rcases claimNext_cases db p token with ⟨-, hrun, -⟩ | ⟨r, -, -, -, -, hrun, -⟩
      · simp only [step]; rw [hrun]
      · simp only [step]; rw [hrun]
        exact map_update db.run _ (p.mark token) (p.runID_mark token) _ (fun _ => rfl)
  | heartbeat runID token u =>
    refine ⟨rfl, rfl, ?_⟩
    exact map_update db.run _ (extendLease u) (runID_extendLease u) _ (fun _ => rfl)
  | finalize p =>
    simp only [step]
    rcases finalize_cases db p with ⟨-, he⟩ | ⟨-, he⟩
    · rw [he]; exact ⟨rfl, rfl, rfl⟩
    · rw [he]; exact ⟨rfl, rfl, map_update db.run _ p.mark p.runID_mark _ (fun _ => rfl)⟩
  | reap p => exact ⟨rfl, rfl, map_update db.run _ p.mark p.runID_mark _ (fun _ => rfl)⟩

theorem origin_step (db : DB) (op : Op) :
    db.run.rows.map Run.origin <+: (step db op).1.run.rows.map Run.origin := by
  by_cases hop : op.admitTime = none
  · simp only [(frame_of_not_admitRun db op hop).2.2, prefix_rfl]
  · cases op with
    | admitRun p runID =>
      simp only [step]
      rcases hend : admitRun db p runID with ⟨db', res⟩
      have h := admitRun_end db p runID
      rw [hend] at h
      cases h with
      | rejected _ _ _ same => simp only [same.run, prefix_rfl]
      | rolledBack _ => exact prefix_rfl
      | admitted _ ok =>
        rw [((insert?_eq_some _ _ _).1 ok.run).2, map_append]
        exact prefix_append _ _
    | _ => exact absurd rfl hop

theorem origin_run (db : DB) : ∀ ops : List Op, db.run.rows.map Run.origin <+: (final step db ops).run.rows.map Run.origin
  | [] => prefix_rfl
  | op :: ops => (origin_step db op).trans (origin_run (step db op).1 ops)

/-! ## The budget -/

/-- The daily cap in force: some `Admit` of the org on the day passed a cap of at least `n`. -/
def CapPassed (ops : List Op) (orgID : String) (day n : Int) : Prop :=
  ∃ p runID, .admitRun p runID ∈ ops ∧ p.orgID = orgID ∧ p.day = day ∧ n ≤ p.maxRunsPerDay

def Budgeted (db : DB) (ops : List Op) : Prop := ∀ orgID day,
  db.used orgID day = db.created orgID day ∧ (db.used orgID day = 0 ∨ CapPassed ops orgID day (db.used orgID day))

variable {ops : List Op}

theorem CapPassed.mono {orgID : String} {day n : Int} (op : Op) (h : CapPassed ops orgID day n) :
    CapPassed (ops ++ [op]) orgID day n := by
  obtain ⟨p, runID, hm, hrest⟩ := h
  exact ⟨p, runID, mem_append_left _ hm, hrest⟩

variable {db db' : DB}

theorem budgeted_of_same (op : Op) (hb : db'.budget = db.budget)
    (ho : db'.run.rows.map Run.origin = db.run.rows.map Run.origin) (h : Budgeted db ops) :
    Budgeted db' (ops ++ [op]) := by
  intro orgID day
  have hused : db'.used orgID day = db.used orgID day := by unfold DB.used; rw [hb]
  rw [hused, created_eq, ho, ← created_eq]
  exact ⟨(h orgID day).1, (h orgID day).2.imp_right (CapPassed.mono op)⟩

variable {p : AdmitParams} {runID : String}

theorem budgeted_admitted
    (ok : Admitted db p runID db') (h : Budgeted db ops) : Budgeted db' (ops ++ [.admitRun p runID]) := by
  intro orgID day
  have hcreated : db'.created orgID day = db.created orgID day + if p.orgID = orgID ∧ p.day = day then 1 else 0 := by
    unfold DB.created
    have hnew : (decide ((p.newRun runID).orgID = orgID) && decide (dayOf (p.newRun runID).createdAt = day)) =
        decide (p.orgID = orgID ∧ p.day = day) := by
      rw [Bool.decide_and]; rfl
    rw [count_insert ok.run, hnew]
    simp only [decide_eq_true_eq]
  rw [ok.used, hcreated]
  by_cases hk : p.orgID = orgID ∧ p.day = day
  · obtain ⟨rfl, rfl⟩ := hk
    have hlt := ok.budget
    rw [if_pos ⟨rfl, rfl⟩, if_pos ⟨rfl, rfl⟩]
    refine ⟨by have := (h p.orgID p.day).1; omega, .inr ⟨p, runID, ?_, rfl, rfl, by omega⟩⟩
    exact mem_append_right _ mem_cons_self
  · rw [if_neg hk, if_neg hk]
    simpa using ⟨(h orgID day).1, (h orgID day).2.imp_right (CapPassed.mono _)⟩

/-- **One transaction keeps the budget rows true to the runs.** -/
theorem budgeted_step (op : Op) (h : Budgeted db ops) : Budgeted (step db op).1 (ops ++ [op]) := by
  by_cases hop : op.admitTime = none
  · obtain ⟨hb, -, ho⟩ := frame_of_not_admitRun db op hop
    exact budgeted_of_same op hb ho h
  · cases op with
    | admitRun p runID =>
      simp only [step]
      rcases hend : admitRun db p runID with ⟨db', res⟩
      have hcases := admitRun_end db p runID
      rw [hend] at hcases
      cases hcases with
      | rejected _ _ _ same => exact budgeted_of_same _ same.budget (by rw [same.run]) h
      | rolledBack _ => exact budgeted_of_same _ rfl rfl h
      | admitted _ ok => exact budgeted_admitted ok h
    | _ => exact absurd rfl hop

theorem budgeted_run (ops : List Op) : Budgeted (final step DB.empty ops) ops :=
  history_inv step Budgeted (fun _ => True) DB.empty (fun _ _ _ => trivial) (fun _ _ => ⟨rfl, .inl rfl⟩)
    (fun _ op _ h => budgeted_step op h) ops trivial

/-! ## The cooldown -/

def Clocked (ops : List Op) : Prop := (ops.filterMap Op.admitTime).Pairwise (· ≤ ·)

/-- Every run was created at the clock of some call, and its key's cooldown row is not before it. -/
def Cooled (db : DB) (ops : List Op) : Prop := ∀ o ∈ db.run.rows.map Run.origin,
  (∃ t ∈ ops.filterMap Op.admitTime, o.2.2.2 = unix t) ∧
  ∃ t, (db.admission.find? (o.2.1, o.2.2.1)).map Admission.lastAdmittedAt = some t ∧ o.2.2.2 ≤ t

theorem clocked_le {op : Op} {t : Time} (h : Clocked (ops ++ [op])) (ht : op.admitTime = some t) :
    ∀ t' ∈ ops.filterMap Op.admitTime, t' ≤ t := by
  unfold Clocked at h
  rw [filterMap_append, pairwise_append] at h
  intro t' ht'
  exact h.2.2 t' ht' t (by simp [ht])

theorem clocked_prefix (op : Op) (h : Clocked (ops ++ [op])) : Clocked ops := by
  unfold Clocked at h ⊢
  rw [filterMap_append] at h
  exact (pairwise_append.1 h).1

theorem cooled_of_same (op : Op)
    (ha : ∀ k, (db'.admission.find? k).map Admission.lastAdmittedAt = (db.admission.find? k).map Admission.lastAdmittedAt)
    (ho : db'.run.rows.map Run.origin = db.run.rows.map Run.origin) (h : Cooled db ops) : Cooled db' (ops ++ [op]) := by
  intro o hmem
  rw [ho] at hmem
  obtain ⟨⟨t, ht, hot⟩, hrow⟩ := h o hmem
  refine ⟨⟨t, ?_, hot⟩, by rw [ha]; exact hrow⟩
  rw [filterMap_append]
  exact mem_append_left _ ht

theorem lastAdmittedAt_of_core
    (h : db'.admission.rows.map Admission.core = db.admission.rows.map Admission.core) (k : String × String) :
    (db'.admission.find? k).map Admission.lastAdmittedAt = (db.admission.find? k).map Admission.lastAdmittedAt := by
  have hcore : ∀ d : DB, (d.admission.find? k).map Admission.lastAdmittedAt =
      ((d.admission.rows.map Admission.core).find? (fun c => decide ((c.1, c.2.1) = k))).map (fun c => c.2.2.1) := by
    intro d
    rw [List.find?_map, Option.map_map]
    rfl
  rw [hcore db', hcore db, h]

theorem cooled_admitted
    (hclock : Clocked (ops ++ [.admitRun p runID])) (ok : Admitted db p runID db') (h : Cooled db ops) :
    Cooled db' (ops ++ [.admitRun p runID]) := by
  have hnow : p.now ∈ (ops ++ [Op.admitRun p runID]).filterMap Op.admitTime := by
    rw [filterMap_append]
    exact mem_append_right _ (by simp [Op.admitTime])
  intro o hmem
  rw [((insert?_eq_some _ _ _).1 ok.run).2, map_append, mem_append, map_singleton,
    mem_singleton] at hmem
  rw [ok.admitted]
  rcases hmem with hmem | rfl
  · obtain ⟨⟨t, ht, hot⟩, t', ht', hle⟩ := h o hmem
    refine ⟨⟨t, by rw [filterMap_append]; exact mem_append_left _ ht, hot⟩, ?_⟩
    split
    · -- the row now holds this call's clock, which no earlier creation is after
      refine ⟨unix p.now, rfl, ?_⟩
      rw [hot]
      exact unix_mono (clocked_le hclock rfl t ht)
    · exact ⟨t', ht', hle⟩
  · refine ⟨⟨p.now, hnow, rfl⟩, unix p.now, ?_, Int.le_refl _⟩
    exact if_pos ⟨rfl, rfl⟩

/-- **One transaction keeps the cooldown rows at or after the runs of their keys.** -/
theorem cooled_step (op : Op) (hclock : Clocked (ops ++ [op])) (h : Cooled db ops) :
    Cooled (step db op).1 (ops ++ [op]) := by
  by_cases hop : op.admitTime = none
  · obtain ⟨-, ha, ho⟩ := frame_of_not_admitRun db op hop
    exact cooled_of_same op (fun k => by rw [ha]) ho h
  · cases op with
    | admitRun p runID =>
      simp only [step]
      rcases hend : admitRun db p runID with ⟨db', res⟩
      have hcases := admitRun_end db p runID
      rw [hend] at hcases
      cases hcases with
      | rejected _ _ _ same => exact cooled_of_same _ (lastAdmittedAt_of_core same.admission) (by rw [same.run]) h
      | rolledBack _ => exact cooled_of_same _ (fun _ => rfl) rfl h
      | admitted _ ok => exact cooled_admitted hclock ok h
    | _ => exact absurd rfl hop

theorem cooled_run (ops : List Op) (hclock : Clocked ops) : Cooled (final step DB.empty ops) ops :=
  history_inv step Cooled Clocked DB.empty (fun _ op => clocked_prefix op) (fun _ ho => by cases ho)
    (fun _ op hc h => cooled_step op hc h) ops hclock

theorem cooldown_of_admitted (h : Cooled db ops)
    (ok : Admitted db p runID db') {r : Run} (hr : r ∈ db.run.rows) (horg : r.orgID = p.orgID)
    (hkey : r.dedupKey = p.dedupKey) : p.cooldownSecs ≤ unix p.now - r.createdAt := by
  obtain ⟨-, t, ht, hle⟩ := h r.origin (List.mem_map_of_mem hr)
  simp only [Run.origin] at ht hle
  rw [horg, hkey, Option.map_eq_some_iff] at ht
  obtain ⟨row, hrow, rfl⟩ := ht
  have := ok.cooldown row hrow
  omega

theorem cooldownWindow_le {d : Int} (hw : second ∣ p.cooldownWindow) (h : p.cooldownSecs ≤ d) :
    p.cooldownWindow ≤ d * second := by
  obtain ⟨k, hk⟩ := hw
  unfold AdmitParams.cooldownSecs at h
  rw [hk, Int.mul_tdiv_cancel_left k (by decide)] at h
  rw [hk, Int.mul_comm]
  exact Int.mul_le_mul_of_nonneg_right h (by decide)

/-! ## Admission control -/

/-- **Admission control.** In every run of the store whose `Admit` clock does not go back: at every moment the used
budget of an org's day is the number of runs created for it and within a cap some call passed; a call that admits saw
the org's queue below its depth and every run of its key at least its cooldown old; a call that does not admit leaves
everything but hit and skip counters; and no run's row is ever taken out or loses its creation time. -/
theorem admission_controlled (ops : List Op) (hclock : (ops.filterMap Op.admitTime).Pairwise (· ≤ ·)) :
    (∀ pre, pre <+: ops → ∀ orgID day,
      (final step DB.empty pre).used orgID day = (final step DB.empty pre).created orgID day ∧
      ((final step DB.empty pre).used orgID day = 0 ∨
        ∃ p runID, .admitRun p runID ∈ pre ∧ p.orgID = orgID ∧ p.day = day ∧
          (final step DB.empty pre).used orgID day ≤ p.maxRunsPerDay)) ∧
    (∀ pre p runID post, ops = pre ++ .admitRun p runID :: post →
      (step (final step DB.empty pre) (.admitRun p runID)).2.admits = true →
        ((final step DB.empty pre).queued p.orgID : Int) < p.maxQueueDepth ∧
        ∀ r ∈ (final step DB.empty pre).run.rows, r.orgID = p.orgID → r.dedupKey = p.dedupKey →
          p.cooldownSecs ≤ unix p.now - r.createdAt ∧
          (second ∣ p.cooldownWindow → p.cooldownWindow ≤ (unix p.now - r.createdAt) * second)) ∧
    (∀ pre p runID post, ops = pre ++ .admitRun p runID :: post →
      (step (final step DB.empty pre) (.admitRun p runID)).2.admits = false →
        Untouched (final step DB.empty pre) (step (final step DB.empty pre) (.admitRun p runID)).1) ∧
    (∀ pre, pre <+: ops →
      (final step DB.empty pre).run.rows.map Run.origin <+: (final step DB.empty ops).run.rows.map Run.origin) := by
  refine ⟨fun pre _ => budgeted_run pre, ?_, ?_, ?_⟩
  · rintro pre p runID post rfl hok
    have hpre : Clocked pre := by
      unfold Clocked
      rw [filterMap_append] at hclock
      exact (pairwise_append.1 hclock).1
    have hcooled := cooled_run pre hpre
    simp only [step] at hok
    have hend := admitRun_end (final step DB.empty pre) p runID
    rcases hadm : admitRun (final step DB.empty pre) p runID with ⟨db', res⟩
    rw [hadm] at hend hok
    cases hend with
    | rejected _ _ no _ => simp only [Out.admits] at hok; rw [no] at hok; cases hok
    | rolledBack _ => cases hok
    | admitted _ ok =>
      refine ⟨ok.queue, fun r hr horg hkey => ?_⟩
      have hsecs := cooldown_of_admitted hcooled ok hr horg hkey
      exact ⟨hsecs, fun hw => cooldownWindow_le hw hsecs⟩
  · rintro pre p runID post rfl hno
    simp only [step] at hno ⊢
    have hend := admitRun_end (final step DB.empty pre) p runID
    rcases hadm : admitRun (final step DB.empty pre) p runID with ⟨db', res⟩
    rw [hadm] at hend hno
    cases hend with
    | rejected _ _ _ same => exact same
    | rolledBack _ => exact .refl _
    | admitted _ _ => cases hno
  · rintro pre ⟨post, rfl⟩
    rw [final_append]
    exact origin_run _ post

def repeatedSignal : List Op :=
  [.admitRun ⟨"o", "api", "k", 100 * second, 60 * second, 2, 5⟩ "r1",
   .admitRun ⟨"o", "api", "k", 130 * second, 60 * second, 2, 5⟩ "r2",
   .admitRun ⟨"o", "api", "k", 160 * second, 60 * second, 2, 5⟩ "r3",
   .admitRun ⟨"o", "api", "k", 220 * second, 60 * second, 2, 5⟩ "r4"]

theorem repeatedSignal_controlled :
    (trace step DB.empty repeatedSignal).map (fun x => x.2.2.admits) = [true, false, true, false] ∧
    (final step DB.empty repeatedSignal).used "o" 0 = 2 ∧
    (final step DB.empty repeatedSignal).used "o" 0 = (final step DB.empty repeatedSignal).created "o" 0 :=
  ⟨by decide, by decide,
    ((admission_controlled repeatedSignal (by simp [repeatedSignal, Op.admitTime, second])).1 _ prefix_rfl "o" 0).1⟩

end CodeRca
end DsApm
