import DsApm.Lib.Calendar
/-!
# Maintenance — planned maintenance windows

`maintenance.go`: `ShouldSkip` says whether a rule is not evaluated now.  A recurrence occurs at the time of day of its
start, every day, on some weekdays or on a day of the month; `OccursAt` says when, `Covers` what a window of it covers,
and `shouldSkip` computes it by rebasing the start to the current day, week or month.
-/
namespace DsApm
namespace Schedule

open Calendar

inductive RepeatType where
  | daily | weekly | monthly
  | other (s : String)
  deriving DecidableEq, Repr

inductive RepeatOn where
  | sunday | monday | tuesday | wednesday | thursday | friday | saturday
  | other (s : String)
  deriving DecidableEq, Repr

def RepeatOn.weekday? : RepeatOn → Option Int
  | .sunday => some 0
  | .monday => some 1
  | .tuesday => some 2
  | .wednesday => some 3
  | .thursday => some 4
  | .friday => some 5
  | .saturday => some 6
  | .other _ => none

/-- `startLoc` is the location of `StartTime`, which its hour and its day are read in. -/
structure Recurrence where
  startTime : Int
  startLoc : Int
  endTime : Option Int := none
  duration : Int
  repeatType : RepeatType
  repeatOn : List RepeatOn := []
  deriving DecidableEq, Repr

def zeroTime : Int := date 0 1 1 1 0 0 0 0

structure MaintenanceSchedule where
  timezone : String
  startTime : Int := zeroTime
  endTime : Int := zeroTime
  recurrence : Option Recurrence
  deriving DecidableEq, Repr

structure PlannedMaintenance where
  schedule : MaintenanceSchedule
  ruleIDs : List String := []
  deriving DecidableEq, Repr

def rebased (currentTime : Int) (rec : Recurrence) (loc : Int) : Int :=
  date loc (yearOf (month loc currentTime)) (monthNo (month loc currentTime)) (dayOfMonth loc currentTime)
    (hourOf rec.startLoc rec.startTime) (minuteOf rec.startLoc rec.startTime) 0 0

def checkDaily (currentTime : Int) (rec : Recurrence) (loc : Int) : Bool :=
  let candidate := rebased currentTime rec loc
  let candidate := if currentTime < candidate then addDate loc candidate 0 0 (-1) else candidate
  decide (currentTime - candidate ≤ rec.duration)

/-- The body of the loop of `checkWeekly`. -/
def checkWeekday (currentTime : Int) (rec : Recurrence) (loc : Int) (on : RepeatOn) : Bool :=
  match on.weekday? with
  | none => false
  | some allowedDay =>
    let delta := allowedDay - weekday loc currentTime
    let candidate := addDate loc (rebased currentTime rec loc) 0 0 delta
    let candidate := if currentTime < candidate then addDate loc candidate 0 0 (-7) else candidate
    decide (currentTime - candidate ≤ rec.duration)

def checkWeekly (currentTime : Int) (rec : Recurrence) (loc : Int) : Bool :=
  if rec.repeatOn.isEmpty then checkDaily currentTime rec loc
  else rec.repeatOn.any (checkWeekday currentTime rec loc)

def onDay (rec : Recurrence) (loc j d : Int) : Int :=
  date loc (yearOf j) (monthNo j) d (hourOf rec.startLoc rec.startTime) (minuteOf rec.startLoc rec.startTime)
    (secondOf rec.startLoc rec.startTime) (nanosecondOf rec.startLoc rec.startTime)

def checkMonthly (currentTime : Int) (rec : Recurrence) (loc : Int) : Bool :=
  let refDay := dayOfMonth rec.startLoc rec.startTime
  let j := month loc currentTime
  let lastDay := dayOfMonth loc (date loc (yearOf j) (monthNo j + 1) 0 0 0 0 0)
  let candidate := onDay rec loc j (if lastDay < refDay then lastDay else refDay)
  let candidate :=
    if currentTime < candidate then
      let j := month loc (addDate loc candidate 0 (-1) 0)
      let lastDayPrev := dayOfMonth loc (date loc (yearOf j) (monthNo j + 1) 0 0 0 0 0)
      onDay rec loc j (if lastDayPrev < refDay then lastDayPrev else refDay)
    else candidate
  decide (currentTime - candidate ≤ rec.duration)

def MaintenanceSchedule.inFixedWindow (s : MaintenanceSchedule) (now : Int) : Bool :=
  decide (s.startTime ≠ zeroTime ∧ s.endTime ≠ zeroTime
    ∧ (now = s.startTime ∨ now = s.endTime ∨ s.startTime < now ∧ now < s.endTime))

/-- The end of a recurrence that has one: the zero time is none. -/
def Recurrence.end? (r : Recurrence) : Option Int := r.endTime.filter (fun e => decide (e ≠ zeroTime))

def Recurrence.running (r : Recurrence) (now : Int) : Bool :=
  decide (r.startTime ≤ now) && r.end?.all (fun e => decide (now ≤ e))

def PlannedMaintenance.covers (m : PlannedMaintenance) (ruleID : String) : Bool :=
  m.ruleIDs.isEmpty || m.ruleIDs.contains ruleID

/-- The `switch` of `ShouldSkip`. -/
def checkRecurrence (currentTime : Int) (rec : Recurrence) (loc : Int) : Bool :=
  match rec.repeatType with
  | .daily => checkDaily currentTime rec loc
  | .weekly => checkWeekly currentTime rec loc
  | .monthly => checkMonthly currentTime rec loc
  | .other _ => false

/-- `ShouldSkip`; `loadLocation` is `time.LoadLocation`. -/
def shouldSkip (loadLocation : String → Option Int) (m : PlannedMaintenance) (ruleID : String) (now : Int) : Bool :=
  if !m.covers ruleID then false
  else match loadLocation m.schedule.timezone with
    | none => false
    | some loc =>
      if m.schedule.inFixedWindow now then true
      else match m.schedule.recurrence with
        | none => false
        | some rec =>
          if !rec.running now then false
          else checkRecurrence now rec loc

/-! ## When a recurrence occurs -/

/-- The time of day of the start.  `UnmarshalJSON` puts the start into the location of the schedule. -/
def Recurrence.clock (r : Recurrence) : Int := Calendar.clock r.startLoc r.startTime

def Recurrence.day (r : Recurrence) : Int := dayOfMonth r.startLoc r.startTime

def Recurrence.pastMinute (r : Recurrence) : Int := r.clock % minute

def Recurrence.allows (r : Recurrence) (w : Int) : Prop :=
  r.repeatOn = [] ∨ ∃ on ∈ r.repeatOn, on.weekday? = some w

def Occurs (r : Recurrence) (loc c o : Int) : Prop :=
  clock loc o = c ∧
    match r.repeatType with
    | .daily => True
    | .weekly => r.allows (weekday loc o)
    | .monthly => dayOfMonth loc o = min r.day (daysIn (month loc o))
    | .other _ => False

/-- The recurrence runs, and its most recent occurrence began no more than its duration ago. -/
def Covers (r : Recurrence) (loc now : Int) : Prop :=
  r.running now = true ∧ Recent (Occurs r loc r.clock) now r.duration

/-- Daily and weekly windows are taken from the start's minute on.  That is harmless where `now` is neither in the first
seconds of such a window, with the window before it over, nor in the seconds after its end. -/
def SecondsHarmless (r : Recurrence) (loc now : Int) : Prop :=
  ∀ p p', IsGreatest {o | Occurs r loc (r.clock - r.pastMinute) o ∧ o ≤ now} p →
    IsGreatest {o | Occurs r loc (r.clock - r.pastMinute) o ∧ o < p} p' →
    (now < p + r.pastMinute → now ≤ p + r.duration → now ≤ p' + r.pastMinute + r.duration) ∧
    (p + r.pastMinute ≤ now → now ≤ p + r.pastMinute + r.duration → now ≤ p + r.duration)

/-- This month's occurrence is still to come, on a day that the previous month does not have. -/
def MonthOverruns (r : Recurrence) (loc now : Int) : Prop :=
  now < monthlyAt loc r.day r.clock (month loc now) ∧ daysIn (month loc now - 1) < min r.day (daysIn (month loc now))

theorem Recurrence.clock_bounds (r : Recurrence) : 0 ≤ r.clock ∧ r.clock < Calendar.day :=
  Calendar.clock_bounds r.startLoc r.startTime

theorem Recurrence.day_pos (r : Recurrence) : 1 ≤ r.day := (dayOfMonth_bounds r.startLoc r.startTime).1

theorem Recurrence.pastMinute_bounds (r : Recurrence) :
    0 ≤ r.pastMinute ∧ r.pastMinute < minute ∧ r.pastMinute ≤ r.clock := by
  have := r.clock_bounds
  unfold pastMinute minute
  omega

theorem rebased_eq (now loc : Int) (r : Recurrence) :
    rebased now r loc = dayNumber loc now * day + (r.clock - r.pastMinute) - loc := by
  have h := clock_fields r.startLoc r.startTime
  unfold rebased
  rw [date_today]
  unfold Recurrence.pastMinute Recurrence.clock
  unfold hourOf minuteOf secondOf nanosecondOf hour minute GoStd.second at *
  omega

section
variable {r : Recurrence} (loc now : Int)

theorem checkDaily_iff :
    checkDaily now r loc = true ↔ Recent (fun o => clock loc o = r.clock - r.pastMinute) now r.duration := by
  have hb := r.clock_bounds
  have hp := r.pastMinute_bounds
  have hs : ∀ o, clock loc o = r.clock - r.pastMinute ↔ (o - (r.clock - r.pastMinute - loc)) % day = 0 := fun o =>
    daily_iff loc _ o (by omega) (by omega)
  simp only [checkDaily, decide_eq_true_eq, rebased_eq, addDate_days, hs]
  refine (recent_of_isGreatest (isGreatest_of_periodic (by decide) ?_ ?_ ?_) _).symm <;> split_ifs <;>
    unfold dayNumber day at * <;> omega

theorem checkWeekday_iff {on : RepeatOn} {w : Int} (hw : on.weekday? = some w) :
    checkWeekday now r loc on = true ↔
      Recent (fun o => weekday loc o = w ∧ clock loc o = r.clock - r.pastMinute) now r.duration := by
  have hb := r.clock_bounds
  have hp := r.pastMinute_bounds
  have hr : 0 ≤ w ∧ w < 7 := by
    cases on <;> simp only [RepeatOn.weekday?, Option.some.injEq, reduceCtorEq] at hw <;> omega
  have hs : ∀ o, weekday loc o = w ∧ clock loc o = r.clock - r.pastMinute ↔
      (o - ((w - 4) * day + (r.clock - r.pastMinute) - loc)) % (7 * day) = 0 := fun o =>
    weekly_iff loc w _ o hr (by omega) (by omega)
  simp only [checkWeekday, hw, decide_eq_true_eq, rebased_eq, addDate_days, hs]
  refine (recent_of_isGreatest (isGreatest_of_periodic (by decide) ?_ ?_ ?_) _).symm <;> split_ifs <;>
    unfold weekday dayNumber day at * <;> omega

theorem checkWeekly_iff :
    checkWeekly now r loc = true ↔
      Recent (fun o => clock loc o = r.clock - r.pastMinute ∧ r.allows (weekday loc o)) now r.duration := by
  unfold checkWeekly
  split_ifs with he
  · rw [checkDaily_iff]
    simp only [Recurrence.allows, List.isEmpty_iff.1 he, true_or, and_true]
  · have hne : r.repeatOn ≠ [] := fun h => he (by rw [h]; rfl)
    rw [List.any_eq_true, recent_iff]
    constructor
    · rintro ⟨on, hon, hc⟩
      cases hw : on.weekday? with
      | none => simp only [checkWeekday, hw, Bool.false_eq_true] at hc
      | some w =>
        obtain ⟨o, ⟨how, hoc⟩, hle, hd⟩ := recent_iff.1 ((checkWeekday_iff loc now hw).1 hc)
        exact ⟨o, ⟨hoc, .inr ⟨on, hon, by rw [hw, how]⟩⟩, hle, hd⟩
    · rintro ⟨o, ⟨hoc, ha⟩, hle, hd⟩
      obtain ⟨on, hon, hw⟩ := ha.resolve_left hne
      exact ⟨on, hon, (checkWeekday_iff loc now hw).2 (recent_iff.2 ⟨o, ⟨rfl, hoc⟩, hle, hd⟩)⟩

theorem checkRecurrence_minute (ht : r.repeatType = .daily ∨ r.repeatType = .weekly) :
    checkRecurrence now r loc = true ↔ Recent (Occurs r loc (r.clock - r.pastMinute)) now r.duration := by
  rcases ht with ht | ht
  · simp only [checkRecurrence, ht, checkDaily_iff]
    unfold Occurs
    simp only [ht, and_true]
  · simp only [checkRecurrence, ht, checkWeekly_iff]
    unfold Occurs
    simp only [ht]

theorem occurs_shift (ht : r.repeatType = .daily ∨ r.repeatType = .weekly) (o : Int) :
    Occurs r loc r.clock (o + r.pastMinute) ↔ Occurs r loc (r.clock - r.pastMinute) o := by
  have hb := r.clock_bounds
  have hp := r.pastMinute_bounds
  have hc : clock loc (o + r.pastMinute) = r.clock ↔ clock loc o = r.clock - r.pastMinute := by
    unfold clock minute day at *
    omega
  have hw : clock loc o = r.clock - r.pastMinute → weekday loc (o + r.pastMinute) = weekday loc o := by
    intro h
    unfold clock at h
    unfold weekday dayNumber minute day at *
    omega
  unfold Occurs
  rcases ht with ht | ht
  · simp only [ht, hc]
  · simp only [ht, hc]
    refine and_congr_right (fun h => ?_)
    rw [hw h]

theorem occurs_day_apart {c o o' : Int} (h : Occurs r loc c o) (h' : Occurs r loc c o') (hlt : o' < o) :
    o' + day ≤ o := by
  have := h.1.trans h'.1.symm
  unfold clock day at *
  omega

theorem occurs_week_before {c o : Int} (k : Int) (ht : r.repeatType = .daily ∨ r.repeatType = .weekly)
    (h : Occurs r loc c o) : Occurs r loc c (o - 7 * k * day) := by
  have hc : clock loc (o - 7 * k * day) = clock loc o := by
    unfold clock day
    omega
  have hw : weekday loc (o - 7 * k * day) = weekday loc o := by
    unfold weekday dayNumber day
    omega
  unfold Occurs at *
  rcases ht with ht | ht
  · simp only [ht, and_true] at *
    rw [hc, h]
  · simp only [ht] at *
    rw [hc, hw]
    exact h

theorem seconds_iff (ht : r.repeatType = .daily ∨ r.repeatType = .weekly) :
    (Recent (Occurs r loc (r.clock - r.pastMinute)) now r.duration ↔ Recent (Occurs r loc r.clock) now r.duration)
      ↔ SecondsHarmless r loc now := by
  have hp := r.pastMinute_bounds
  have hshift : Recent (Occurs r loc r.clock) now r.duration ↔
      Recent (Occurs r loc (r.clock - r.pastMinute)) (now - r.pastMinute) r.duration := by
    rw [recent_iff, recent_iff]
    constructor
    · rintro ⟨o, ho, hle, hd⟩
      refine ⟨o - r.pastMinute, (occurs_shift loc ht _).1 ?_, by omega, by omega⟩
      rwa [sub_add_cancel]
    · rintro ⟨o, ho, hle, hd⟩
      exact ⟨o + r.pastMinute, (occurs_shift loc ht o).2 ho, by omega, by omega⟩
  rw [hshift]
  generalize hM : Occurs r loc (r.clock - r.pastMinute) = M
  by_cases hne : ∃ o, M o
  · -- the latest mark `p` at or before `now`, and the mark `q` before it
    obtain ⟨o, ho⟩ := hne
    have hback : ∀ x k, M x → M (x - 7 * k * day) := fun x k hx => by
      rw [← hM] at hx ⊢
      exact occurs_week_before loc k ht hx
    have hgap : ∀ x y, M x → M y → y < x → y + day ≤ x := fun x y hx hy => by
      rw [← hM] at hx hy
      exact occurs_day_apart loc hx hy
    obtain ⟨p, ⟨hpM, hple⟩, hpub⟩ := Int.exists_greatest_of_bdd (P := fun o => M o ∧ o ≤ now) ⟨now, fun _ h => h.2⟩
      ⟨o - 7 * ((o - now) ⊔ 0) * day, hback _ _ ho, by unfold day; omega⟩
    obtain ⟨q, ⟨hqM, hqlt⟩, hqub⟩ := Int.exists_greatest_of_bdd (P := fun o => M o ∧ o < p) ⟨p, fun _ h => le_of_lt h.2⟩
      ⟨p - 7 * 1 * day, hback _ _ hpM, by unfold day; omega⟩
    have hpG : IsGreatest {o | M o ∧ o ≤ now} p := ⟨⟨hpM, hple⟩, fun z hz => hpub z hz⟩
    have hqG : IsGreatest {o | M o ∧ o < p} q := ⟨⟨hqM, hqlt⟩, fun z hz => hqub z hz⟩
    have hqp := hgap p q hpM hqM hqlt
    have hsd : r.pastMinute < day := lt_trans hp.2.1 (by decide)
    have hH : SecondsHarmless r loc now ↔
        (now < p + r.pastMinute → now ≤ p + r.duration → now ≤ q + r.pastMinute + r.duration) ∧
        (p + r.pastMinute ≤ now → now ≤ p + r.pastMinute + r.duration → now ≤ p + r.duration) := by
      simp only [SecondsHarmless, hM]
      constructor
      · exact fun H => H p q hpG hqG
      · intro H p₁ q₁ hp₁ hq₁
        obtain rfl := hp₁.unique hpG
        obtain rfl := hq₁.unique hqG
        exact H
    rw [hH, recent_of_isGreatest hpG]
    by_cases hps : p + r.pastMinute ≤ now
    · have hG : IsGreatest {o | M o ∧ o ≤ now - r.pastMinute} p :=
        ⟨⟨hpM, by omega⟩, fun z hz => hpub z ⟨hz.1, by have := hz.2; omega⟩⟩
      rw [recent_of_isGreatest hG]
      omega
    · have hG : IsGreatest {o | M o ∧ o ≤ now - r.pastMinute} q :=
        ⟨⟨hqM, by omega⟩, fun z hz => hqub z ⟨hz.1, by have := hz.2; omega⟩⟩
      rw [recent_of_isGreatest hG]
      omega
  · have hno : ∀ x d, ¬ Recent M x d := fun x d ⟨o, ho, _⟩ => hne ⟨o, ho.1.1⟩
    simp only [hno, SecondsHarmless, hM, true_iff]
    exact fun p q hpG => absurd ⟨p, hpG.1.1⟩ hne

theorem occurs_monthly (ht : r.repeatType = .monthly) (o : Int) :
    Occurs r loc r.clock o ↔ ∃ j, o = monthlyAt loc r.day r.clock j := by
  rw [← monthly_iff loc r.day_pos r.clock_bounds.1 r.clock_bounds.2 o]
  simp only [Occurs, ht]

theorem onDay_clamped (j : Int) :
    onDay r loc j (if daysIn j < dayOfMonth r.startLoc r.startTime then daysIn j
      else dayOfMonth r.startLoc r.startTime) = monthlyAt loc r.day r.clock j := by
  rw [onDay, date_clamped, clock_fields]
  rfl

theorem month_back_monthlyAt (j : Int) :
    month loc (addDate loc (monthlyAt loc r.day r.clock j) 0 (-1) 0)
      = if min r.day (daysIn j) ≤ daysIn (j - 1) then j - 1 else j := by
  have hb := r.clock_bounds
  have hd := r.day_pos
  have hl := daysIn_bounds j
  have hm : 1 ≤ min r.day (daysIn j) ∧ min r.day (daysIn j) ≤ daysIn j := by omega
  rw [month_back, monthlyAt, month_at hb.1 hb.2 hm.1 hm.2, dayOfMonth_at hb.1 hb.2 hm.1 hm.2]

theorem checkMonthly_iff (ht : r.repeatType = .monthly) (hpos : 0 < r.duration) :
    (checkMonthly now r loc = true ↔ Recent (Occurs r loc r.clock) now r.duration) ↔
      (MonthOverruns r loc now → now - monthlyAt loc r.day r.clock (month loc now - 1) ≤ r.duration) := by
  have hmono := monthlyAt_strictMono loc r.day_pos r.clock_bounds.1 r.clock_bounds.2
  have ha := monthlyAt_around loc r.day_pos r.clock_bounds.1 r.clock_bounds.2 now
  have hrec : ∀ j, monthlyAt loc r.day r.clock j ≤ now → now < monthlyAt loc r.day r.clock (j + 1) →
      (Recent (Occurs r loc r.clock) now r.duration ↔ now - monthlyAt loc r.day r.clock j ≤ r.duration) := by
    intro j h0 h1
    refine recent_of_isGreatest ?_ _
    simpa only [occurs_monthly loc ht] using isGreatest_of_strictMono hmono h0 h1
  have hcheck : checkMonthly now r loc = decide (now - (if now < monthlyAt loc r.day r.clock (month loc now) then
      monthlyAt loc r.day r.clock (if min r.day (daysIn (month loc now)) ≤ daysIn (month loc now - 1) then
        month loc now - 1 else month loc now) else monthlyAt loc r.day r.clock (month loc now)) ≤ r.duration) := by
    simp only [checkMonthly, dayOfMonth_zero, onDay_clamped, month_back_monthlyAt]
  rw [hcheck, decide_eq_true_eq]
  unfold MonthOverruns
  by_cases hc : now < monthlyAt loc r.day r.clock (month loc now)
  · have hprev := hrec (month loc now - 1) (le_of_lt ha.1) (by rw [sub_add_cancel]; exact hc)
    rw [if_pos hc, hprev]
    split_ifs <;> omega
  · rw [if_neg hc, hrec (month loc now) (not_lt.1 hc) ha.2]
    omega


theorem checkRecurrence_iff (hpos : 0 < r.duration) :
    (checkRecurrence now r loc = true ↔ Recent (Occurs r loc r.clock) now r.duration) ↔
      (r.repeatType = .daily ∨ r.repeatType = .weekly → SecondsHarmless r loc now) ∧
      (r.repeatType = .monthly → MonthOverruns r loc now →
        now - monthlyAt loc r.day r.clock (month loc now - 1) ≤ r.duration) := by
  cases ht : r.repeatType with
  | daily =>
    rw [checkRecurrence_minute loc now (.inl ht), seconds_iff loc now (.inl ht)]
    simp
  | weekly =>
    rw [checkRecurrence_minute loc now (.inr ht), seconds_iff loc now (.inr ht)]
    simp
  | monthly =>
    have h := checkMonthly_iff loc now ht hpos
    simp only [checkRecurrence, ht] at h ⊢
    simpa using h
  | other s =>
    have hno : ¬ Recent (Occurs r loc r.clock) now r.duration := fun ⟨o, ho, _⟩ => by
      have := ho.1.1.2
      rw [ht] at this
      exact this
    simp [checkRecurrence, ht, hno]

end

structure Harmless (m : PlannedMaintenance) (r : Recurrence) (loc now : Int) : Prop where
  fixed : m.schedule.inFixedWindow now = true → Covers r loc now
  seconds : m.schedule.inFixedWindow now = false → r.running now = true →
    r.repeatType = .daily ∨ r.repeatType = .weekly → SecondsHarmless r loc now
  months : m.schedule.inFixedWindow now = false → r.running now = true → r.repeatType = .monthly →
    MonthOverruns r loc now → now - monthlyAt loc r.day r.clock (month loc now - 1) ≤ r.duration

/-- **A covered rule is skipped exactly in the windows of the recurrence, where it is harmless that daily and weekly
windows start with the minute, that a fixed window is taken too, and that a month is stepped back by `AddDate`.** -/
theorem shouldSkip_iff (loadLocation : String → Option Int) (m : PlannedMaintenance) (r : Recurrence) (ruleID : String)
    (loc now : Int) (hloc : loadLocation m.schedule.timezone = some loc) (hrec : m.schedule.recurrence = some r)
    (hcov : m.covers ruleID = true) (hpos : 0 < r.duration) :
    (shouldSkip loadLocation m ruleID now = true ↔ Covers r loc now) ↔ Harmless m r loc now := by
  simp only [shouldSkip, hcov, hloc, hrec, Bool.not_true, Bool.false_eq_true, if_false]
  cases hf : m.schedule.inFixedWindow now with
  | true =>
    simp only [if_true, true_iff]
    refine ⟨fun h => ⟨fun _ => h, fun h' => ?_, fun h' => ?_⟩, fun h => h.fixed hf⟩ <;> simp [hf] at h'
  | false =>
    cases hrun : r.running now with
    | true =>
      have h := checkRecurrence_iff loc now hpos
      simp only [Covers, hrun, Bool.not_true, Bool.false_eq_true, if_false, true_and]
      rw [h]
      exact ⟨fun hh => ⟨fun h' => by simp [hf] at h', fun _ _ => hh.1, fun _ _ => hh.2⟩,
        fun hh => ⟨hh.seconds hf hrun, hh.months hf hrun⟩⟩
    | false =>
      simp only [Covers, hrun, Bool.not_false, Bool.false_eq_true, if_true, if_false, false_and, true_iff]
      refine ⟨fun h' => ?_, fun _ h' => ?_, fun _ h' => ?_⟩
      · simp [hf] at h'
      · simp [hrun] at h'
      · simp [hrun] at h'

def lastEvening : Recurrence :=
  { startTime := date 0 2024 1 31 22 0 0 0, startLoc := 0, duration := hour, repeatType := .monthly }

def everyMorning : Recurrence :=
  { startTime := date 0 2024 1 1 10 0 30 0, startLoc := 0, duration := hour, repeatType := .daily }

def maintained (r : Recurrence) : PlannedMaintenance := { schedule := { timezone := "UTC", recurrence := some r } }

/-- In February the answer for `lastEvening` is right: the previous month has the 29th. -/
theorem skip_in_february :
    (shouldSkip (fun _ => some 0) (maintained lastEvening) "rule" (date 0 2024 2 10 12 0 0 0) = true
      ↔ Covers lastEvening 0 (date 0 2024 2 10 12 0 0 0))
    ∧ shouldSkip (fun _ => some 0) (maintained lastEvening) "rule" (date 0 2024 2 10 12 0 0 0) = false := by
  refine ⟨(shouldSkip_iff (fun _ => some 0) (maintained lastEvening) lastEvening "rule" 0 _ rfl rfl rfl (by decide)).2
    ⟨fun h => ?_, fun _ _ h => ?_, fun _ _ _ h => ?_⟩, by decide⟩
  · exact absurd h (by decide)
  · exact absurd h (by decide)
  · exact absurd h.2 (by decide)

/-- All of May is skipped for `lastEvening` until the 31st has come; and `everyMorning` skips seconds before it occurs. -/
theorem skip_outside_window :
    (shouldSkip (fun _ => some 0) (maintained lastEvening) "rule" (date 0 2024 5 15 12 0 0 0) = true
      ∧ ¬ Covers lastEvening 0 (date 0 2024 5 15 12 0 0 0))
    ∧ shouldSkip (fun _ => some 0) (maintained everyMorning) "rule" (date 0 2024 1 2 10 0 10 0) = true
      ∧ ¬ Covers everyMorning 0 (date 0 2024 1 2 10 0 10 0) := by
  refine ⟨⟨by decide, fun hcov => ?_⟩, by decide, fun hcov => ?_⟩
  · have h := ((checkRecurrence_iff 0 (date 0 2024 5 15 12 0 0 0) (by decide : 0 < lastEvening.duration)).1
      ⟨fun _ => hcov.2, fun _ => by decide⟩).2 rfl ⟨by decide, by decide⟩
    exact absurd h (by decide)
  · obtain ⟨o, ⟨hc, -⟩, hle, hd⟩ := recent_iff.1 hcov.2
    have h1 : everyMorning.clock = 36030000000000 := by decide
    have h2 : date 0 2024 1 2 10 0 10 0 = 1704189610000000000 := by decide
    have h3 : everyMorning.duration = 3600000000000 := by decide
    rw [h1] at hc
    rw [h2] at hle hd
    rw [h3] at hd
    unfold clock Calendar.day at hc
    omega

end Schedule
end DsApm
