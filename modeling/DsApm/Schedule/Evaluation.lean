import DsApm.Lib.Calendar
/-!
# Evaluation — the cumulative evaluation window

`evaluation.go`: a cumulative window runs from the last instant of its schedule to the current instant.
`getLastScheduleTime` computes that instant, `ScheduledAt` says which instants the schedule has, and `NextWindowFor` is
judged against the greatest of them.  The monthly case steps back with `AddDate` from the current day, which lands in the
current month again when the previous month is shorter.
-/
namespace DsApm
namespace Schedule

open Calendar Option

inductive ScheduleType where
  | hourly | daily | weekly | monthly
  | other (s : String)
  deriving DecidableEq, Repr

structure CumulativeSchedule where
  type : ScheduleType
  minute : Option Int := none
  hour : Option Int := none
  day : Option Int := none
  weekday : Option Int := none
  deriving DecidableEq, Repr

structure CumulativeWindow where
  schedule : CumulativeSchedule
  timezone : String
  deriving DecidableEq, Repr

def inRange (v : Option Int) (lo hi : Int) : Bool := v.any (fun x => decide (lo ≤ x ∧ x ≤ hi))

def hourErrors (cs : CumulativeSchedule) : Option String :=
  if inRange cs.hour 0 23 then none else some "hour must be between 0 and 23"

def minuteErrors (cs : CumulativeSchedule) : Option String :=
  if inRange cs.minute 0 59 then none else some "minute must be between 0 and 59"

def CumulativeSchedule.validate (cs : CumulativeSchedule) : Option String :=
  match cs.type with
  | .hourly =>
    if cs.minute.isNone then some "minute must be specified for hourly schedule" else minuteErrors cs
  | .daily =>
    if cs.hour.isNone || cs.minute.isNone then some "hour and minute must be specified for daily schedule"
    else (hourErrors cs).or (minuteErrors cs)
  | .weekly =>
    if cs.weekday.isNone || cs.hour.isNone || cs.minute.isNone then
      some "weekday, hour and minute must be specified for weekly schedule"
    else if !inRange cs.weekday 0 6 then some "weekday must be between 0 and 6 (Sunday=0)"
    else (hourErrors cs).or (minuteErrors cs)
  | .monthly =>
    if cs.day.isNone || cs.hour.isNone || cs.minute.isNone then
      some "day, hour and minute must be specified for monthly schedule"
    else if !inRange cs.day 1 31 then some "day must be between 1 and 31"
    else (hourErrors cs).or (minuteErrors cs)
  | .other _ => some "invalid schedule type"

/-- `getLastScheduleTime`; nothing where a field it reads is nil. -/
def getLastScheduleTime (schedule : CumulativeSchedule) (curr loc : Int) : Option Int :=
  let year := yearOf (month loc curr)
  let mon := monthNo (month loc curr)
  match schedule.type with
  | .hourly => do
    let minute ← schedule.minute
    let candidate := date loc year mon (dayOfMonth loc curr) (hourOf loc curr) minute 0 0
    return if curr < candidate then candidate - hour else candidate
  | .daily => do
    let hour ← schedule.hour
    let minute ← schedule.minute
    let candidate := date loc year mon (dayOfMonth loc curr) hour minute 0 0
    return if curr < candidate then addDate loc candidate 0 0 (-1) else candidate
  | .weekly => do
    let weekday ← schedule.weekday
    let hour ← schedule.hour
    let minute ← schedule.minute
    let back := Calendar.weekday loc curr - weekday
    let daysBack := if back < 0 then back + 7 else back
    let candidate := addDate loc (date loc year mon (dayOfMonth loc curr) hour minute 0 0) 0 0 (-daysBack)
    return if curr < candidate then addDate loc candidate 0 0 (-7) else candidate
  | .monthly => do
    let targetDay ← schedule.day
    let hour ← schedule.hour
    let minute ← schedule.minute
    let lastDayOfCurrentMonth := dayOfMonth loc (date loc year (mon + 1) 0 0 0 0 0)
    let dayInCurrentMonth := if lastDayOfCurrentMonth < targetDay then lastDayOfCurrentMonth else targetDay
    let candidate := date loc year mon dayInCurrentMonth hour minute 0 0
    if curr < candidate then
      let prevMonth := addDate loc curr 0 (-1) 0
      let year := yearOf (month loc prevMonth)
      let mon := monthNo (month loc prevMonth)
      let lastDayOfPrevMonth := dayOfMonth loc (date loc year (mon + 1) 0 0 0 0 0)
      let dayInPrevMonth := if lastDayOfPrevMonth < targetDay then lastDayOfPrevMonth else targetDay
      return date loc year mon dayInPrevMonth hour minute 0 0
    else return candidate
  | .other _ => some curr

/-- The location of a window: UTC where none is named or `time.LoadLocation` fails. -/
def CumulativeWindow.location (loadLocation : String → Option Int) (w : CumulativeWindow) : Int :=
  if w.timezone = "" then 0 else (loadLocation w.timezone).getD 0

/-- `NextWindowFor`: the start and the end of the window. -/
def nextWindowFor (loadLocation : String → Option Int) (w : CumulativeWindow) (curr : Int) : Option (Int × Int) := do
  let start ← getLastScheduleTime w.schedule curr (w.location loadLocation)
  return (start, curr)

/-! ## The instants of a schedule -/

def CumulativeSchedule.mark (cs : CumulativeSchedule) : Int :=
  cs.hour.getD 0 * Calendar.hour + cs.minute.getD 0 * Calendar.minute

/-- The instants that a schedule names; the day of a monthly one is clamped to the length of the month. -/
def ScheduledAt (cs : CumulativeSchedule) (loc o : Int) : Prop :=
  match cs.type with
  | .hourly => clock loc o % hour = cs.minute.getD 0 * minute
  | .daily => clock loc o = cs.mark
  | .weekly => weekday loc o = cs.weekday.getD 0 ∧ clock loc o = cs.mark
  | .monthly => clock loc o = cs.mark ∧ dayOfMonth loc o = min (cs.day.getD 0) (daysIn (month loc o))
  | .other _ => False

def WindowRight (loadLocation : String → Option Int) (w : CumulativeWindow) (curr : Int) : Prop :=
  ∃ start, nextWindowFor loadLocation w curr = some (start, curr) ∧ start ≤ curr
    ∧ IsGreatest {o | ScheduledAt w.schedule (w.location loadLocation) o ∧ o ≤ curr} start

/-- A monthly schedule whose instant of this month is still to come, on a day that the previous month does not have. -/
def Overruns (cs : CumulativeSchedule) (loc curr : Int) : Prop :=
  cs.type = .monthly ∧ curr < monthlyAt loc (cs.day.getD 0) cs.mark (month loc curr)
    ∧ daysIn (month loc curr - 1) < dayOfMonth loc curr

theorem inRange_iff {v : Option Int} {lo hi : Int} : inRange v lo hi = true ↔ ∃ x, v = some x ∧ lo ≤ x ∧ x ≤ hi := by
  cases v <;> simp [inRange]

theorem hourErrors_none {cs : CumulativeSchedule} : hourErrors cs = none ↔ ∃ h, cs.hour = some h ∧ 0 ≤ h ∧ h ≤ 23 := by
  rw [← inRange_iff, hourErrors]
  split <;> simp [*]

theorem minuteErrors_none {cs : CumulativeSchedule} :
    minuteErrors cs = none ↔ ∃ m, cs.minute = some m ∧ 0 ≤ m ∧ m ≤ 59 := by
  rw [← inRange_iff, minuteErrors]
  split <;> simp [*]

theorem mark_bounds {cs : CumulativeSchedule} (hh : hourErrors cs = none) (hm : minuteErrors cs = none) :
    0 ≤ cs.mark ∧ cs.mark < day := by
  obtain ⟨h, eh, h0, h1⟩ := hourErrors_none.1 hh
  obtain ⟨m, em, m0, m1⟩ := minuteErrors_none.1 hm
  unfold CumulativeSchedule.mark
  rw [eh, em, getD_some, getD_some]
  unfold hour minute day
  omega

def Last (cs : CumulativeSchedule) (loc curr start : Int) : Prop :=
  start ≤ curr ∧ IsGreatest {o | ScheduledAt cs loc o ∧ o ≤ curr} start

theorem last_of_periodic {cs : CumulativeSchedule} {loc curr r a p : Int} (hp : 0 < p)
    (hs : ∀ o, ScheduledAt cs loc o ↔ (o - a) % p = 0) (hr : (r - a) % p = 0) (h0 : r ≤ curr) (h1 : curr < r + p) :
    Last cs loc curr r := by
  have h := isGreatest_of_periodic hp hr h0 h1
  refine ⟨h0, ?_⟩
  simpa only [hs] using h

section
variable {cs : CumulativeSchedule} (loc curr : Int)

theorem last_hourly (ht : cs.type = .hourly) (hm : minuteErrors cs = none) :
    ∃ start, getLastScheduleTime cs curr loc = some start ∧ Last cs loc curr start := by
  obtain ⟨m, em, m0, m1⟩ := minuteErrors_none.1 hm
  have hs : ∀ o, ScheduledAt cs loc o ↔ (o - (m * minute - loc)) % hour = 0 := by
    intro o
    have hmm : 0 ≤ m * minute ∧ m * minute < hour := by
      unfold minute hour
      omega
    rw [← hourly_iff loc (m * minute) o hmm.1 hmm.2]
    simp only [ScheduledAt, ht, em, getD_some]
  simp only [getLastScheduleTime, ht, em, date_today, bind_eq_bind, bind_some, Option.pure_def]
  refine ⟨_, rfl, last_of_periodic (by decide) hs ?_ ?_ ?_⟩ <;> split_ifs <;>
    unfold dayNumber hourOf clock hour minute day at * <;> omega

theorem last_daily (ht : cs.type = .daily) (hh : hourErrors cs = none) (hm : minuteErrors cs = none) :
    ∃ start, getLastScheduleTime cs curr loc = some start ∧ Last cs loc curr start := by
  have hb := mark_bounds hh hm
  obtain ⟨h, eh, h0, h1⟩ := hourErrors_none.1 hh
  obtain ⟨m, em, m0, m1⟩ := minuteErrors_none.1 hm
  have hs : ∀ o, ScheduledAt cs loc o ↔ (o - (cs.mark - loc)) % day = 0 := by
    intro o
    rw [← daily_iff loc cs.mark o hb.1 hb.2]
    simp only [ScheduledAt, ht]
  have hk : cs.mark = h * hour + m * minute := by
    simp only [CumulativeSchedule.mark, eh, em, getD_some]
  simp only [getLastScheduleTime, ht, eh, em, date_today, addDate_days, bind_eq_bind, bind_some,
    Option.pure_def]
  refine ⟨_, rfl, last_of_periodic (by decide) hs ?_ ?_ ?_⟩ <;> split_ifs <;>
    unfold dayNumber hour minute day at * <;> omega

theorem last_weekly (ht : cs.type = .weekly) (hw : inRange cs.weekday 0 6 = true) (hh : hourErrors cs = none)
    (hm : minuteErrors cs = none) :
    ∃ start, getLastScheduleTime cs curr loc = some start ∧ Last cs loc curr start := by
  have hb := mark_bounds hh hm
  obtain ⟨w, ew, w0, w1⟩ := inRange_iff.1 hw
  obtain ⟨h, eh, h0, h1⟩ := hourErrors_none.1 hh
  obtain ⟨m, em, m0, m1⟩ := minuteErrors_none.1 hm
  have hs : ∀ o, ScheduledAt cs loc o ↔ (o - ((w - 4) * day + cs.mark - loc)) % (7 * day) = 0 := by
    intro o
    rw [← weekly_iff loc w cs.mark o (by omega) hb.1 hb.2]
    simp only [ScheduledAt, ht, ew, getD_some]
  have hk : cs.mark = h * hour + m * minute := by
    simp only [CumulativeSchedule.mark, eh, em, getD_some]
  simp only [getLastScheduleTime, ht, ew, eh, em, date_today, addDate_days, bind_eq_bind, bind_some,
    Option.pure_def]
  refine ⟨_, rfl, last_of_periodic (by decide) hs ?_ ?_ ?_⟩ <;> split_ifs <;>
    unfold weekday dayNumber hour minute day at * <;> omega

theorem last_monthly (ht : cs.type = .monthly) (hd : inRange cs.day 1 31 = true) (hh : hourErrors cs = none)
    (hm : minuteErrors cs = none) :
    ∃ start, getLastScheduleTime cs curr loc = some start ∧ (Last cs loc curr start ↔ ¬ Overruns cs loc curr) := by
  have hb := mark_bounds hh hm
  obtain ⟨d, ed, d0, d1⟩ := inRange_iff.1 hd
  obtain ⟨h, eh, h0, h1⟩ := hourErrors_none.1 hh
  obtain ⟨m, em, m0, m1⟩ := minuteErrors_none.1 hm
  have hk : cs.mark = h * hour + m * minute + 0 * GoStd.second + 0 := by
    simp only [CumulativeSchedule.mark, eh, em, getD_some, zero_mul, add_zero]
  have hs : ∀ o, ScheduledAt cs loc o ↔ ∃ j, o = monthlyAt loc d cs.mark j := by
    intro o
    rw [← monthly_iff loc d0 hb.1 hb.2 o]
    simp only [ScheduledAt, ht, ed, getD_some]
  have hmono := monthlyAt_strictMono loc d0 hb.1 hb.2
  have ha := monthlyAt_around loc d0 hb.1 hb.2 curr
  have hlast : ∀ j, monthlyAt loc d cs.mark j ≤ curr → curr < monthlyAt loc d cs.mark (j + 1) →
      Last cs loc curr (monthlyAt loc d cs.mark j) := by
    intro j hj0 hj1
    refine ⟨hj0, ?_⟩
    simpa only [hs] using isGreatest_of_strictMono hmono hj0 hj1
  simp only [getLastScheduleTime, Overruns, ht, ed, eh, em, dayOfMonth_zero, date_clamped, ← hk, bind_eq_bind,
    bind_some, Option.pure_def, getD_some, true_and]
  by_cases hc : curr < monthlyAt loc d cs.mark (month loc curr)
  · -- this month's instant is still to come: the code steps a month back from the current day
    rw [if_pos hc, month_back]
    refine ⟨_, rfl, ?_⟩
    by_cases hl : dayOfMonth loc curr ≤ daysIn (month loc curr - 1)
    · rw [if_pos hl]
      have := hlast (month loc curr - 1) (le_of_lt ha.1) (by rw [sub_add_cancel]; exact hc)
      simp only [this, true_iff]
      omega
    · rw [if_neg hl]
      simp only [hc, true_and]
      refine ⟨fun hL => absurd hL.1 (not_le.2 hc), fun hL => absurd (not_le.1 hl) hL⟩
  · rw [if_neg hc]
    refine ⟨_, rfl, ?_⟩
    simp only [hc, false_and, not_false_eq_true, iff_true]
    exact hlast _ (not_lt.1 hc) ha.2

end

theorem validate_cases {cs : CumulativeSchedule} (hv : cs.validate = none) :
    minuteErrors cs = none ∧ (cs.type = .hourly ∨ hourErrors cs = none ∧ (cs.type = .daily
      ∨ cs.type = .weekly ∧ inRange cs.weekday 0 6 = true ∨ cs.type = .monthly ∧ inRange cs.day 1 31 = true)) := by
  unfold CumulativeSchedule.validate at hv
  cases ht : cs.type <;> simp only [ht] at hv
  case hourly =>
    split at hv
    · cases hv
    · exact ⟨hv, .inl rfl⟩
  case daily =>
    split at hv
    · cases hv
    · obtain ⟨hh, hm⟩ := or_eq_none_iff.1 hv
      exact ⟨hm, .inr ⟨hh, .inl rfl⟩⟩
  case weekly =>
    split_ifs at hv with _ hw
    obtain ⟨hh, hm⟩ := or_eq_none_iff.1 hv
    exact ⟨hm, .inr ⟨hh, .inr (.inl ⟨rfl, by simpa using hw⟩)⟩⟩
  case monthly =>
    split_ifs at hv with _ hd
    obtain ⟨hh, hm⟩ := or_eq_none_iff.1 hv
    exact ⟨hm, .inr ⟨hh, .inr (.inr ⟨rfl, by simpa using hd⟩)⟩⟩
  case other => cases hv

theorem getLastScheduleTime_spec {cs : CumulativeSchedule} (hv : cs.validate = none) (loc curr : Int) :
    ∃ start, getLastScheduleTime cs curr loc = some start ∧ (Last cs loc curr start ↔ ¬ Overruns cs loc curr) := by
  have periodic : cs.type ≠ .monthly → (∃ start, getLastScheduleTime cs curr loc = some start ∧ Last cs loc curr start) →
      ∃ start, getLastScheduleTime cs curr loc = some start ∧ (Last cs loc curr start ↔ ¬ Overruns cs loc curr) := by
    rintro hne ⟨start, hst, hl⟩
    exact ⟨start, hst, fun _ ho => hne ho.1, fun _ => hl⟩
  obtain ⟨hm, ht | ⟨hh, ht | ⟨ht, hw⟩ | ⟨ht, hd⟩⟩⟩ := validate_cases hv
  · exact periodic (by simp [ht]) (last_hourly loc curr ht hm)
  · exact periodic (by simp [ht]) (last_daily loc curr ht hh hm)
  · exact periodic (by simp [ht]) (last_weekly loc curr ht hw hh hm)
  · exact last_monthly loc curr ht hd hh hm

/-- **A valid cumulative window ends now and starts at the latest instant of its schedule, exactly when the schedule does
not overrun.** -/
theorem window_right_iff (loadLocation : String → Option Int) (w : CumulativeWindow) (hv : w.schedule.validate = none)
    (curr : Int) :
    WindowRight loadLocation w curr ↔ ¬ Overruns w.schedule (w.location loadLocation) curr := by
  obtain ⟨start, hst, hiff⟩ := getLastScheduleTime_spec hv (w.location loadLocation) curr
  rw [← hiff]
  constructor
  · rintro ⟨st, hn, hle, hg⟩
    simp only [nextWindowFor, hst, bind_eq_bind, bind_some, Option.pure_def, Option.some.injEq,
      Prod.mk.injEq, and_true] at hn
    subst hn
    exact ⟨hle, hg⟩
  · rintro ⟨hle, hg⟩
    refine ⟨start, ?_, hle, hg⟩
    simp only [nextWindowFor, hst, bind_eq_bind, bind_some, Option.pure_def]

def endOfMonth : CumulativeWindow :=
  { schedule := { type := .monthly, day := some 31, hour := some 0, minute := some 0 }, timezone := "UTC" }

/-- On 2024-02-15 at noon the window of `endOfMonth` starts with the 31st of January. -/
theorem window_in_february : endOfMonth.schedule.validate = none
    ∧ WindowRight (fun _ => some 0) endOfMonth (date 0 2024 2 15 12 0 0 0) := by
  have hv : endOfMonth.schedule.validate = none := by decide
  refine ⟨hv, (window_right_iff _ endOfMonth hv _).2 ?_⟩
  rintro ⟨-, -, h⟩
  exact absurd h (by decide)

/-- On 2024-03-30 at noon it starts with the 31st of March, which is still to come. -/
theorem window_after_now : endOfMonth.schedule.validate = none
    ∧ nextWindowFor (fun _ => some 0) endOfMonth (date 0 2024 3 30 12 0 0 0)
        = some (date 0 2024 3 31 0 0 0 0, date 0 2024 3 30 12 0 0 0)
    ∧ date 0 2024 3 30 12 0 0 0 < date 0 2024 3 31 0 0 0 0
    ∧ ¬ WindowRight (fun _ => some 0) endOfMonth (date 0 2024 3 30 12 0 0 0) := by
  have hn : nextWindowFor (fun _ => some 0) endOfMonth (date 0 2024 3 30 12 0 0 0)
      = some (date 0 2024 3 31 0 0 0 0, date 0 2024 3 30 12 0 0 0) := by decide
  have hlt : date 0 2024 3 30 12 0 0 0 < date 0 2024 3 31 0 0 0 0 := by decide
  refine ⟨by decide, hn, hlt, ?_⟩
  rintro ⟨start, hs, hle, -⟩
  rw [hn, Option.some.injEq, Prod.mk.injEq] at hs
  rw [← hs.1] at hle
  omega

end Schedule
end DsApm
