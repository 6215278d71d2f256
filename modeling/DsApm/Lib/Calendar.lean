import DsApm.Lib.GoStd
import Mathlib.Tactic.IntervalCases
import Mathlib.Data.Int.ConditionallyCompleteOrder
/-!
# Calendar — civil dates at a fixed offset from UTC

Days are numbered from 1970-01-01, months from March of year 0, where a leap day is the last day of its year.  A civil
date is a month and a day in it; `firstDay` numbers the first day of each month and `monthOf` goes back.  Over them stand
the accessors of Go's `time.Time`, `time.Date` and `AddDate`, in a location that is a fixed offset.
-/
namespace Calendar

def leap (year : Int) : Bool := decide (year % 4 = 0 ∧ (year % 100 ≠ 0 ∨ year % 400 = 0))

/-- The number of a month; a month past December is one of the next year. -/
def monthIx (year month : Int) : Int := 12 * year + month - 3

def yearOf (j : Int) : Int := (j + 2) / 12

def monthNo (j : Int) : Int := (j + 2) % 12 + 1

def daysIn (j : Int) : Int :=
  if monthNo j = 2 then (if leap (yearOf j) then 29 else 28)
  else if monthNo j = 4 ∨ monthNo j = 6 ∨ monthNo j = 9 ∨ monthNo j = 11 then 30
  else 31

def marchDay (y : Int) : Int := 365 * y + y / 4 - y / 100 + y / 400

def firstDay (j : Int) : Int := marchDay (j / 12) + (153 * (j % 12) + 2) / 5 - 719468

/-- The month of a day: 4800 months have 146097 days, which is never more than a month short. -/
def monthOf (n : Int) : Int :=
  let j := 4800 * (n + 719465) / 146097
  if firstDay (j + 1) ≤ n then j + 1 else j

example : firstDay (monthIx 1970 1) = 0 ∧ firstDay (monthIx 2024 2) = 19754 ∧ monthOf 19782 = monthIx 2024 2 := by decide

theorem monthIx_of (j k : Int) : monthIx (yearOf j) (monthNo j + k) = j + k := by
  unfold monthIx yearOf monthNo
  omega

theorem daysIn_bounds (j : Int) : 28 ≤ daysIn j ∧ daysIn j ≤ 31 := by
  unfold daysIn
  split_ifs <;> omega

theorem marchDay_succ (y : Int) : marchDay (y + 1) = marchDay y + (if leap (y + 1) then 366 else 365) := by
  unfold marchDay leap
  split_ifs with h <;> simp only [decide_eq_true_eq] at h <;> omega

theorem firstDay_add {y r : Int} (h0 : 0 ≤ r) (h1 : r < 12) :
    firstDay (12 * y + r) = marchDay y + (153 * r + 2) / 5 - 719468 := by
  have hy : (12 * y + r) / 12 = y := by omega
  have hr : (12 * y + r) % 12 = r := by omega
  rw [firstDay, hy, hr]

theorem firstDay_succ (j : Int) : firstDay (j + 1) = firstDay j + daysIn j := by
  obtain ⟨y, r, h0, h1, rfl⟩ : ∃ y r : Int, 0 ≤ r ∧ r < 12 ∧ j = 12 * y + r :=
    ⟨j / 12, j % 12, by omega, by omega, by omega⟩
  rw [firstDay_add h0 h1]
  have hm : monthNo (12 * y + r) = (r + 2) % 12 + 1 := by
    unfold monthNo
    omega
  by_cases hr : r = 11
  · -- February, at the end of its year
    subst hr
    have hy : yearOf (12 * y + 11) = y + 1 := by
      unfold yearOf
      omega
    have hn := firstDay_add (y := y + 1) (r := 0) (by omega) (by omega)
    rw [show 12 * y + 11 + 1 = 12 * (y + 1) + 0 by omega, hn, marchDay_succ, daysIn, hm, hy]
    rw [if_pos (by omega : ((11 : Int) + 2) % 12 + 1 = 2)]
    split_ifs <;> omega
  · rw [show 12 * y + r + 1 = 12 * y + (r + 1) by omega, firstDay_add (by omega) (by omega), daysIn, hm]
    interval_cases r <;> split_ifs <;> omega

theorem firstDay_strictMono : StrictMono firstDay :=
  strictMono_int_of_lt_succ (fun j => by
    have := (daysIn_bounds j).1
    rw [firstDay_succ]
    omega)

theorem marchDay_near (y : Int) :
    146097 * y - 591 ≤ 400 * marchDay y ∧ 400 * marchDay y ≤ 146097 * y + 288 := by
  have h1 : y / 100 = 4 * (y / 400) + y / 100 % 4 := by omega
  have h2 : y / 4 = 25 * (y / 100) + y / 4 % 25 := by omega
  unfold marchDay
  constructor <;> omega

theorem firstDay_near (j : Int) :
    146097 * j - 4800 * 2 ≤ 4800 * (firstDay j + 719468) ∧ 4800 * (firstDay j + 719468) ≤ 146097 * j + 4800 * 3 := by
  have hd := marchDay_near (j / 12)
  unfold firstDay
  constructor <;> omega

theorem monthOf_spec (n : Int) : firstDay (monthOf n) ≤ n ∧ n < firstDay (monthOf n + 1) := by
  unfold monthOf
  simp only
  generalize hj : 4800 * (n + 719465) / 146097 = j
  have h0 := firstDay_near j
  have h2 := firstDay_near (j + 1 + 1)
  split_ifs with h
  · exact ⟨h, by omega⟩
  · exact ⟨by omega, by omega⟩

theorem monthOf_eq {n j : Int} (h0 : firstDay j ≤ n) (h1 : n < firstDay (j + 1)) : monthOf n = j := by
  have hs := monthOf_spec n
  have ha : monthOf n < j + 1 := firstDay_strictMono.lt_iff_lt.1 (lt_of_le_of_lt hs.1 h1)
  have hb : j < monthOf n + 1 := firstDay_strictMono.lt_iff_lt.1 (lt_of_le_of_lt h0 hs.2)
  omega

/-! ## Instants

Instants and durations are in nanoseconds; a location `loc` is its offset east of UTC. -/

def minute : Int := 60000000000

def hour : Int := 3600000000000

def day : Int := 86400000000000

section
variable (loc : Int) (t : Int)

def dayNumber : Int := (t + loc) / day

def clock : Int := (t + loc) % day

def month : Int := monthOf (dayNumber loc t)

def dayOfMonth : Int := dayNumber loc t - firstDay (month loc t) + 1

/-- `Time.Weekday`: Sunday is 0, and 1970-01-01 is a Thursday. -/
def weekday : Int := (dayNumber loc t + 4) % 7

def hourOf : Int := clock loc t / hour

def minuteOf : Int := clock loc t % hour / minute

def secondOf : Int := clock loc t % minute / GoStd.second

def nanosecondOf : Int := clock loc t % GoStd.second

/-- `time.Date`: months and days out of range carry over. -/
def date (year month day' hh mm ss ns : Int) : Int :=
  (firstDay (monthIx year month) + day' - 1) * day + (hh * hour + mm * minute + ss * GoStd.second + ns) - loc

def addDate (years months days : Int) : Int :=
  date loc (yearOf (month loc t) + years) (monthNo (month loc t) + months) (dayOfMonth loc t + days)
    (hourOf loc t) (minuteOf loc t) (secondOf loc t) (nanosecondOf loc t)

theorem clock_bounds : 0 ≤ clock loc t ∧ clock loc t < day := by
  unfold clock day
  omega

theorem clock_fields : hourOf loc t * hour + minuteOf loc t * minute + secondOf loc t * GoStd.second
    + nanosecondOf loc t = clock loc t := by
  unfold hourOf minuteOf secondOf nanosecondOf hour minute GoStd.second
  omega

theorem instant_eq : t = dayNumber loc t * day + clock loc t - loc := by
  unfold dayNumber clock day
  omega

theorem dayNumber_eq : dayNumber loc t = firstDay (month loc t) + dayOfMonth loc t - 1 := by
  unfold dayOfMonth
  omega

theorem dayOfMonth_bounds : 1 ≤ dayOfMonth loc t ∧ dayOfMonth loc t ≤ daysIn (month loc t) := by
  have h := monthOf_spec (dayNumber loc t)
  rw [firstDay_succ] at h
  unfold dayOfMonth month
  omega

end

section
variable {loc : Int}

theorem dayNumber_at {n : Int} {c : Int} (h0 : 0 ≤ c) (h1 : c < day) : dayNumber loc (n * day + c - loc) = n := by
  unfold dayNumber day at *
  omega

theorem clock_at {n : Int} {c : Int} (h0 : 0 ≤ c) (h1 : c < day) : clock loc (n * day + c - loc) = c := by
  unfold clock day at *
  omega

theorem month_at {j d : Int} {c : Int} (h0 : 0 ≤ c) (h1 : c < day) (hd : 1 ≤ d) (hl : d ≤ daysIn j) :
    month loc ((firstDay j + d - 1) * day + c - loc) = j := by
  unfold month
  rw [dayNumber_at h0 h1]
  refine monthOf_eq (by omega) ?_
  rw [firstDay_succ]
  omega

theorem dayOfMonth_at {j d : Int} {c : Int} (h0 : 0 ≤ c) (h1 : c < day) (hd : 1 ≤ d) (hl : d ≤ daysIn j) :
    dayOfMonth loc ((firstDay j + d - 1) * day + c - loc) = d := by
  unfold dayOfMonth
  rw [month_at h0 h1 hd hl, dayNumber_at h0 h1]
  omega

theorem date_today (t hh mm ss ns : Int) :
    date loc (yearOf (month loc t)) (monthNo (month loc t)) (dayOfMonth loc t) hh mm ss ns
      = dayNumber loc t * day + (hh * hour + mm * minute + ss * GoStd.second + ns) - loc := by
  unfold date
  have := monthIx_of (month loc t) 0
  rw [add_zero, add_zero] at this
  rw [this, dayNumber_eq]

theorem addDate_eq (t : Int) (m d : Int) :
    addDate loc t 0 m d = (firstDay (month loc t + m) + (dayOfMonth loc t + d) - 1) * day + clock loc t - loc := by
  unfold addDate date
  rw [add_zero, monthIx_of, clock_fields]

theorem addDate_days (t : Int) (d : Int) : addDate loc t 0 0 d = t + d * day := by
  have h := instant_eq loc t
  rw [dayNumber_eq] at h
  rw [addDate_eq, add_zero]
  unfold day at *
  omega

end

section
variable (loc : Int)

/-- A month back from a day that the previous month does not have is a day of the same month. -/
theorem month_back (t : Int) :
    month loc (addDate loc t 0 (-1) 0)
      = if dayOfMonth loc t ≤ daysIn (month loc t - 1) then month loc t - 1 else month loc t := by
  have hc := clock_bounds loc t
  have hd := dayOfMonth_bounds loc t
  have hp := daysIn_bounds (month loc t - 1)
  have hl := daysIn_bounds (month loc t)
  rw [addDate_eq, add_zero, ← sub_eq_add_neg]
  split_ifs with h
  · exact month_at hc.1 hc.2 hd.1 h
  · have hs := firstDay_succ (month loc t - 1)
    rw [sub_add_cancel] at hs
    rw [show firstDay (month loc t - 1) + dayOfMonth loc t - 1
      = firstDay (month loc t) + (dayOfMonth loc t - daysIn (month loc t - 1)) - 1 by omega]
    exact month_at hc.1 hc.2 (by omega) (by omega)

theorem dayOfMonth_zero (j : Int) : dayOfMonth loc (date loc (yearOf j) (monthNo j + 1) 0 0 0 0 0) = daysIn j := by
  have hb := daysIn_bounds j
  have h := @dayOfMonth_at loc j (daysIn j) 0 (le_refl 0) (by decide) (by omega) (le_refl _)
  simpa only [date, monthIx_of, firstDay_succ, zero_mul, add_zero] using h

end

/-! ## The latest instant of a schedule -/

theorem isGreatest_of_periodic {p a r now : Int} (hp : 0 < p) (hr : (r - a) % p = 0) (h0 : r ≤ now) (h1 : now < r + p) :
    IsGreatest {o : Int | (o - a) % p = 0 ∧ o ≤ now} r := by
  refine ⟨⟨hr, h0⟩, ?_⟩
  rintro o ⟨ho, hle⟩
  obtain ⟨i, hi⟩ := Int.dvd_of_emod_eq_zero hr
  obtain ⟨k, hk⟩ := Int.dvd_of_emod_eq_zero ho
  have hki : p * k < p * (i + 1) := by
    rw [mul_add, mul_one]
    omega
  have := mul_le_mul_of_nonneg_left (Int.lt_add_one_iff.1 (lt_of_mul_lt_mul_left hki (le_of_lt hp))) (le_of_lt hp)
  omega

theorem isGreatest_of_strictMono {f : Int → Int} (hf : StrictMono f) {j now : Int} (h0 : f j ≤ now)
    (h1 : now < f (j + 1)) : IsGreatest {o : Int | (∃ k, o = f k) ∧ o ≤ now} (f j) := by
  refine ⟨⟨⟨j, rfl⟩, h0⟩, ?_⟩
  rintro o ⟨⟨k, rfl⟩, hle⟩
  have : k < j + 1 := hf.lt_iff_lt.1 (lt_of_le_of_lt hle h1)
  exact hf.monotone (by omega)

def Recent (P : Int → Prop) (now d : Int) : Prop := ∃ o, IsGreatest {o | P o ∧ o ≤ now} o ∧ now - o ≤ d

theorem recent_iff {P : Int → Prop} {now d : Int} : Recent P now d ↔ ∃ o, P o ∧ o ≤ now ∧ now - o ≤ d := by
  constructor
  · rintro ⟨o, ⟨⟨ho, hle⟩, -⟩, hd⟩
    exact ⟨o, ho, hle, hd⟩
  · rintro ⟨o, ho, hle, hd⟩
    obtain ⟨m, hm, hub⟩ := Int.exists_greatest_of_bdd (P := fun o => P o ∧ o ≤ now) ⟨now, fun _ h => h.2⟩ ⟨o, ho, hle⟩
    have := hub o ⟨ho, hle⟩
    exact ⟨m, ⟨hm, fun z hz => hub z hz⟩, by omega⟩

theorem recent_of_isGreatest {P : Int → Prop} {now r : Int} (h : IsGreatest {o | P o ∧ o ≤ now} r) (d : Int) :
    Recent P now d ↔ now - r ≤ d :=
  ⟨fun ⟨_, ho, hd⟩ => ho.unique h ▸ hd, fun hd => ⟨r, h, hd⟩⟩

theorem hourly_iff (loc c o : Int) (h0 : 0 ≤ c) (h1 : c < hour) :
    clock loc o % hour = c ↔ (o - (c - loc)) % hour = 0 := by
  unfold clock hour day at *
  omega

theorem daily_iff (loc c o : Int) (h0 : 0 ≤ c) (h1 : c < day) : clock loc o = c ↔ (o - (c - loc)) % day = 0 := by
  unfold clock day at *
  omega

theorem weekly_iff (loc w c o : Int) (hw : 0 ≤ w ∧ w < 7) (h0 : 0 ≤ c) (h1 : c < day) :
    weekday loc o = w ∧ clock loc o = c ↔ (o - ((w - 4) * day + c - loc)) % (7 * day) = 0 := by
  unfold weekday dayNumber clock day at *
  omega

/-- The instant of a month at a time of day, on a day that is clamped to the month's length. -/
def monthlyAt (loc d c j : Int) : Int := (firstDay j + min d (daysIn j) - 1) * day + c - loc

theorem date_clamped (loc j d hh mm ss ns : Int) :
    date loc (yearOf j) (monthNo j) (if daysIn j < d then daysIn j else d) hh mm ss ns
      = monthlyAt loc d (hh * hour + mm * minute + ss * GoStd.second + ns) j := by
  have hj := monthIx_of j 0
  rw [add_zero, add_zero] at hj
  have hm : (if daysIn j < d then daysIn j else d) = min d (daysIn j) := by
    split_ifs <;> omega
  rw [date, hj, hm, monthlyAt]

section
variable (loc : Int) {d c : Int} (hd : 1 ≤ d) (h0 : 0 ≤ c) (h1 : c < day)
include hd h0 h1

theorem monthlyAt_bounds (j : Int) :
    firstDay j * day - loc ≤ monthlyAt loc d c j ∧ monthlyAt loc d c j < firstDay (j + 1) * day - loc := by
  have hb := daysIn_bounds j
  have hm : 1 ≤ min d (daysIn j) ∧ min d (daysIn j) ≤ daysIn j := by omega
  rw [firstDay_succ, monthlyAt]
  generalize min d (daysIn j) = e at hm
  unfold day at *
  omega

theorem monthlyAt_strictMono : StrictMono (monthlyAt loc d c) :=
  strictMono_int_of_lt_succ (fun j => lt_of_lt_of_le (monthlyAt_bounds loc hd h0 h1 j).2 (monthlyAt_bounds loc hd h0 h1 (j + 1)).1)

theorem monthly_iff (o : Int) :
    clock loc o = c ∧ dayOfMonth loc o = min d (daysIn (month loc o)) ↔ ∃ j, o = monthlyAt loc d c j := by
  constructor
  · rintro ⟨hc, hm⟩
    refine ⟨month loc o, ?_⟩
    have h := instant_eq loc o
    rw [dayNumber_eq, hc, hm] at h
    exact h
  · rintro ⟨j, rfl⟩
    have hb := daysIn_bounds j
    have hm : 1 ≤ min d (daysIn j) ∧ min d (daysIn j) ≤ daysIn j := by omega
    have hj : month loc (monthlyAt loc d c j) = j := month_at h0 h1 hm.1 hm.2
    rw [hj]
    exact ⟨clock_at h0 h1, dayOfMonth_at h0 h1 hm.1 hm.2⟩

theorem monthlyAt_around (now : Int) :
    monthlyAt loc d c (month loc now - 1) < now ∧ now < monthlyAt loc d c (month loc now + 1) := by
  have hn := monthOf_spec (dayNumber loc now)
  have hp := (monthlyAt_bounds loc hd h0 h1 (month loc now - 1)).2
  have hs := (monthlyAt_bounds loc hd h0 h1 (month loc now + 1)).1
  have hi := instant_eq loc now
  have hc := clock_bounds loc now
  rw [sub_add_cancel] at hp
  unfold month at *
  generalize dayNumber loc now = n at *
  unfold day at *
  omega

end

/-! ## RFC 3339 -/

def digit (c : Char) : Option Int := if c.isDigit then some (Int.ofNat (c.toNat - 48)) else none

def twoDigits : List Char → Option (Int × List Char)
  | a :: b :: cs => do
    let x ← digit a
    let y ← digit b
    return (10 * x + y, cs)
  | _ => none

def hourDigits : List Char → Option (Int × List Char)
  | a :: b :: cs => do
    let x ← digit a
    match digit b with
    | some y => return (10 * x + y, cs)
    | none => return (x, b :: cs)
  | [a] => do return (← digit a, [])
  | [] => none

def expect (c : Char) : List Char → Option (List Char)
  | d :: cs => if c = d then some cs else none
  | [] => none

/-- The nanoseconds of a fraction, of which nine digits count. -/
def fraction : List Char → Int × List Char
  | c :: d :: cs =>
    if (c = '.' ∨ c = ',') ∧ d.isDigit then
      let ds := ((d :: cs).takeWhile Char.isDigit).take 9
      (ds.foldl (fun n x => 10 * n + Int.ofNat (x.toNat - 48)) 0 * 10 ^ (9 - ds.length), (d :: cs).dropWhile Char.isDigit)
    else (0, c :: d :: cs)
  | cs => (0, cs)

def zoneOffset : List Char → Option Int
  | ['Z'] => some 0
  | [sign, a, b, ':', c, d] => do
    let (hh, _) ← twoDigits [a, b]
    let (mm, _) ← twoDigits [c, d]
    if 24 < hh ∨ 60 < mm then none
    else if sign = '+' then some (hh * hour + mm * minute)
    else if sign = '-' then some (-(hh * hour + mm * minute))
    else none
  | _ => none

def parseRFC3339 (s : String) : Option Int := do
  let (y₁, cs) ← twoDigits s.toList
  let (y₂, cs) ← twoDigits cs
  let (mon, cs) ← twoDigits (← expect '-' cs)
  let (d, cs) ← twoDigits (← expect '-' cs)
  let (hh, cs) ← hourDigits (← expect 'T' cs)
  let (mm, cs) ← twoDigits (← expect ':' cs)
  let (ss, cs) ← twoDigits (← expect ':' cs)
  let (ns, cs) := fraction cs
  let off ← zoneOffset cs
  let year := 100 * y₁ + y₂
  if 1 ≤ mon ∧ mon ≤ 12 ∧ 1 ≤ d ∧ d ≤ daysIn (monthIx year mon) ∧ hh < 24 ∧ mm < 60 ∧ ss < 60 then
    return date off year mon d hh mm ss ns
  else none

example : parseRFC3339 "2024-02-29T05:30:00.25+05:30" = some (date 0 2024 2 29 0 0 0 250000000) := by decide

end Calendar
