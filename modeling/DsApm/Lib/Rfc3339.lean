import DsApm.Lib.Calendar
/-!
# Rfc3339 — instants as texts, with the offset they are read in

`Time.Format(time.RFC3339)` and `time.Parse`.  The offset is written in whole minutes.  What is written of a year of four digits and
whole seconds is read back with the same date and time of day (`read_format`), and a year of more digits is not read.
-/
namespace Calendar

open List Option

/-- `appendInt` of a number that is not negative: at least so many digits. -/
def padded : Nat → Nat → List Char
  | 0, n => if n = 0 then [] else Nat.toDigits 10 n
  | width + 1, n => padded width (n / 10) ++ [Nat.digitChar (n % 10)]

def appendInt (x : Int) (width : Nat) : List Char :=
  if x < 0 then '-' :: padded width x.natAbs else padded width x.natAbs

section
variable (loc t : Int)

def year : Int := yearOf (month loc t)

def zoneMinutes : Int := loc.tdiv minute

def formatOffset : List Char :=
  if loc = 0 then ['Z']
  else (if zoneMinutes loc < 0 then '-' else '+') ::
    (padded 2 ((zoneMinutes loc).natAbs / 60) ++ ':' :: padded 2 ((zoneMinutes loc).natAbs % 60))

def formatClock : List Char :=
  appendInt (year loc t) 4 ++ '-' :: (appendInt (monthNo (month loc t)) 2 ++ '-' :: (appendInt (dayOfMonth loc t) 2 ++
    'T' :: (appendInt (hourOf loc t) 2 ++ ':' :: (appendInt (minuteOf loc t) 2 ++ ':' :: appendInt (secondOf loc t) 2))))

def formatRFC3339 : List Char := formatClock loc t ++ formatOffset loc

/-- `Format(time.RFC3339Nano)`: with what is left of the second, without the zeros at its end. -/
def formatRFC3339Nano : List Char :=
  formatClock loc t ++ (if nanosecondOf loc t = 0 then []
    else '.' :: ((appendInt (nanosecondOf loc t) 9).reverse.dropWhile (· == '0')).reverse) ++ formatOffset loc

/-- `time.Date` of the same date and time of day in another location. -/
def relocate (loc' : Int) : Int :=
  date loc' (year loc t) (monthNo (month loc t)) (dayOfMonth loc t) (hourOf loc t) (minuteOf loc t) (secondOf loc t)
    (nanosecondOf loc t)

end

/-- `time.Parse(time.RFC3339, s)`: the instant, and the offset it is read in. -/
def readRFC3339 (s : List Char) : Option (Int × Int) := do
  let (y₁, cs) ← twoDigits s
  let (y₂, cs) ← twoDigits cs
  let (mon, cs) ← twoDigits (← expect '-' cs)
  let (d, cs) ← twoDigits (← expect '-' cs)
  let (hh, cs) ← hourDigits (← expect 'T' cs)
  let (mm, cs) ← twoDigits (← expect ':' cs)
  let (ss, cs) ← twoDigits (← expect ':' cs)
  let (ns, cs) := fraction cs
  let off ← zoneOffset cs
  let year := 100 * y₁ + y₂
  if 1 ≤ mon ∧ mon ≤ 12 ∧ 1 ≤ d ∧ d ≤ daysIn (monthIx year mon) ∧ hh < 24 ∧ mm < 60 ∧ ss < 60 then
    return (date off year mon d hh mm ss ns, off)
  else none

/-! ## Digits -/

theorem digit_digitChar : ∀ n, n < 10 → digit (Nat.digitChar n) = some (n : Int) := by decide

theorem padded_two {n : Nat} (h : n < 100) : padded 2 n = [Nat.digitChar (n / 10), Nat.digitChar (n % 10)] := by
  have htop : n / 10 / 10 = 0 := by omega
  have hmod : n / 10 % 10 = n / 10 := by omega
  simp [padded, htop, hmod]

theorem padded_four (n : Nat) : padded 4 n =
    padded 0 (n / 10000) ++ [Nat.digitChar (n / 1000 % 10), Nat.digitChar (n / 100 % 10), Nat.digitChar (n / 10 % 10),
      Nat.digitChar (n % 10)] := by
  simp [padded, Nat.div_div_eq_div_mul]

theorem appendInt_of_nonneg {x : Int} (h : 0 ≤ x) (width : Nat) : appendInt x width = padded width x.toNat := by
  rw [appendInt, if_neg (by omega)]
  congr 1
  omega

theorem twoDigits_digits {a b : Nat} (ha : a < 10) (hb : b < 10) (rest : List Char) :
    twoDigits (Nat.digitChar a :: Nat.digitChar b :: rest) = some (10 * (a : Int) + b, rest) := by
  simp [twoDigits, digit_digitChar a ha, digit_digitChar b hb]

theorem twoDigits_of_lt {n : Nat} (h : n < 100) (rest : List Char) :
    twoDigits (Nat.digitChar (n / 10) :: Nat.digitChar (n % 10) :: rest) = some ((n : Int), rest) := by
  have htens : n / 10 < 10 := by omega
  have hunits : n % 10 < 10 := by omega
  rw [twoDigits_digits htens hunits]
  congr 2
  omega

theorem twoDigits_padded {n : Nat} (h : n < 100) (rest : List Char) : twoDigits (padded 2 n ++ rest) = some ((n : Int), rest) := by
  rw [padded_two h]
  exact twoDigits_of_lt h rest

theorem twoDigits_appendInt {x : Int} (h0 : 0 ≤ x) (h1 : x < 100) (rest : List Char) :
    twoDigits (appendInt x 2 ++ rest) = some (x, rest) := by
  rw [appendInt_of_nonneg h0, twoDigits_padded (by omega)]
  congr 2
  omega

theorem hourDigits_appendInt {x : Int} (h0 : 0 ≤ x) (h1 : x < 100) (rest : List Char) :
    hourDigits (appendInt x 2 ++ rest) = some (x, rest) := by
  rw [appendInt_of_nonneg h0, padded_two (by omega)]
  have ha : x.toNat / 10 < 10 := by omega
  have hb : x.toNat % 10 < 10 := by omega
  simp only [cons_append, nil_append, hourDigits, digit_digitChar _ ha, digit_digitChar _ hb, bind_eq_bind,
    bind_some, Option.pure_def]
  congr 2
  omega

theorem twoDigits_year {y : Int} (h0 : 0 ≤ y) (h1 : y ≤ 9999) (rest : List Char) : ∃ cs,
    twoDigits (appendInt y 4 ++ rest) = some (y / 100, cs) ∧ twoDigits cs = some (y % 100, rest) := by
  have htop : y.toNat / 10000 = 0 := by omega
  have hthousands : y.toNat / 1000 % 10 = y.toNat / 100 / 10 := by omega
  have htens : y.toNat / 10 % 10 = y.toNat % 100 / 10 := by omega
  have hunits : y.toNat % 10 = y.toNat % 100 % 10 := by omega
  have hhigh : y.toNat / 100 < 100 := by omega
  have hlow : y.toNat % 100 < 100 := by omega
  rw [appendInt_of_nonneg h0, padded_four, htop, hthousands, htens, hunits]
  refine ⟨_, (twoDigits_of_lt hhigh _).trans ?_, (twoDigits_of_lt hlow rest).trans ?_⟩
  · congr 2
    omega
  · congr 2
    omega

theorem expect_cons (c : Char) (rest : List Char) : expect c (c :: rest) = some rest := if_pos rfl

/-! ## The offset -/

theorem zoneMinutes_bounds {loc : Int} (h0 : -day < loc) (h1 : loc < day) : (zoneMinutes loc).natAbs / 60 < 24 := by
  have habs : (zoneMinutes loc).natAbs = loc.natAbs / 60000000000 := Int.natAbs_tdiv loc minute
  rw [habs]
  unfold day at *
  omega

theorem zoneOffset_format {loc : Int} (h0 : -day < loc) (h1 : loc < day) :
    zoneOffset (formatOffset loc) = some (zoneMinutes loc * minute) := by
  unfold formatOffset
  by_cases hloc : loc = 0
  · rw [if_pos hloc, hloc]
    rfl
  · have hhours := zoneMinutes_bounds h0 h1
    have hmins : (zoneMinutes loc).natAbs % 60 < 60 := Nat.mod_lt _ (by decide)
    rw [if_neg hloc, padded_two (by omega), padded_two (by omega)]
    have hh := twoDigits_of_lt (lt_trans hhours (by decide : 24 < 100))
    have hm := twoDigits_of_lt (lt_trans hmins (by decide : 60 < 100))
    have hrange : ¬(24 < (((zoneMinutes loc).natAbs / 60 : Nat) : Int) ∨ 60 < (((zoneMinutes loc).natAbs % 60 : Nat) : Int)) := by
      omega
    simp only [cons_append, nil_append, zoneOffset, hh, hm, bind_eq_bind, bind_some, if_neg hrange]
    by_cases hneg : zoneMinutes loc < 0
    · rw [if_pos hneg, if_neg (by decide), if_pos rfl]
      congr 1
      unfold hour minute
      omega
    · rw [if_neg hneg, if_pos rfl]
      congr 1
      unfold hour minute
      omega

/-! ## Written and read -/

theorem date_eq (loc loc' : Int) (y m d hh mm ss ns : Int) : date loc' y m d hh mm ss ns = date loc y m d hh mm ss ns + loc - loc' := by
  unfold date
  omega

theorem relocate_eq (loc t loc' : Int) : relocate loc t loc' = t + loc - loc' := by
  have hdate : date loc (year loc t) (monthNo (month loc t)) (dayOfMonth loc t) (hourOf loc t) (minuteOf loc t) (secondOf loc t)
      (nanosecondOf loc t) = t := by
    have hix := monthIx_of (month loc t) 0
    rw [add_zero, add_zero] at hix
    have hnumber := dayNumber_eq loc t
    have hclock := clock_fields loc t
    have hinstant := instant_eq loc t
    unfold date year
    rw [hix, hclock]
    have hday : firstDay (month loc t) + dayOfMonth loc t - 1 = dayNumber loc t := hnumber.symm
    rw [hday]
    exact hinstant.symm
  rw [relocate, date_eq loc, hdate]

theorem fields_bounds (loc t : Int) : 0 ≤ hourOf loc t ∧ hourOf loc t < 24 ∧ 0 ≤ minuteOf loc t ∧ minuteOf loc t < 60 ∧
    0 ≤ secondOf loc t ∧ secondOf loc t < 60 := by
  have h := clock_bounds loc t
  unfold hourOf minuteOf secondOf hour minute GoStd.second day at *
  omega

theorem fraction_cons {c : Char} (hdot : c ≠ '.') (hcomma : c ≠ ',') : ∀ s : List Char, fraction (c :: s) = (0, c :: s)
  | [] => rfl
  | d :: s => by
    rw [fraction, if_neg]
    rintro ⟨h | h, -⟩
    · exact hdot h
    · exact hcomma h

theorem fraction_formatOffset (loc : Int) : fraction (formatOffset loc) = (0, formatOffset loc) := by
  unfold formatOffset
  by_cases hloc : loc = 0
  · rw [if_pos hloc]
    rfl
  · rw [if_neg hloc]
    split
    · exact fraction_cons (by decide) (by decide) _
    · exact fraction_cons (by decide) (by decide) _

/-- **What is written is read back**, in the offset that is written. -/
theorem read_format {loc t : Int} (h0 : -day < loc) (h1 : loc < day) (hy0 : 0 ≤ year loc t) (hy1 : year loc t ≤ 9999)
    (hns : nanosecondOf loc t = 0) :
    readRFC3339 (formatRFC3339 loc t) = some (t + loc - zoneMinutes loc * minute, zoneMinutes loc * minute) := by
  have hmonth : 1 ≤ monthNo (month loc t) ∧ monthNo (month loc t) ≤ 12 := by
    unfold monthNo
    omega
  have hday := dayOfMonth_bounds loc t
  have hdays := daysIn_bounds (month loc t)
  obtain ⟨hh0, hh1, hm0, hm1, hs0, hs1⟩ := fields_bounds loc t
  have hix := monthIx_of (month loc t) 0
  rw [add_zero, add_zero] at hix
  obtain ⟨cs, hyear, hcs⟩ := twoDigits_year hy0 hy1 ('-' :: (appendInt (monthNo (month loc t)) 2 ++ '-' ::
    (appendInt (dayOfMonth loc t) 2 ++ 'T' :: (appendInt (hourOf loc t) 2 ++ ':' :: (appendInt (minuteOf loc t) 2 ++ ':' ::
      (appendInt (secondOf loc t) 2 ++ formatOffset loc))))))
  have htext : formatRFC3339 loc t = appendInt (year loc t) 4 ++ '-' :: (appendInt (monthNo (month loc t)) 2 ++ '-' ::
      (appendInt (dayOfMonth loc t) 2 ++ 'T' :: (appendInt (hourOf loc t) 2 ++ ':' :: (appendInt (minuteOf loc t) 2 ++ ':' ::
        (appendInt (secondOf loc t) 2 ++ formatOffset loc))))) := by
    simp only [formatRFC3339, formatClock, List.append_assoc, cons_append]
  have hsum : 100 * (year loc t / 100) + year loc t % 100 = year loc t := by omega
  have hvalid : 1 ≤ monthNo (month loc t) ∧ monthNo (month loc t) ≤ 12 ∧ 1 ≤ dayOfMonth loc t ∧
      dayOfMonth loc t ≤ daysIn (monthIx (year loc t) (monthNo (month loc t))) ∧ hourOf loc t < 24 ∧ minuteOf loc t < 60 ∧
        secondOf loc t < 60 := by
    rw [year, hix]
    exact ⟨hmonth.1, hmonth.2, hday.1, hday.2, hh1, hm1, hs1⟩
  have hdate : date (zoneMinutes loc * minute) (year loc t) (monthNo (month loc t)) (dayOfMonth loc t) (hourOf loc t)
      (minuteOf loc t) (secondOf loc t) 0 = t + loc - zoneMinutes loc * minute := by
    rw [← relocate_eq, relocate, hns]
  have hmon := twoDigits_appendInt (le_trans (by decide) hmonth.1) (lt_of_le_of_lt hmonth.2 (by decide))
  have hdom := twoDigits_appendInt (le_trans (by decide) hday.1) (lt_of_le_of_lt (hday.2.trans hdays.2) (by decide))
  have hhour := hourDigits_appendInt hh0 (lt_trans hh1 (by decide))
  have hmin := twoDigits_appendInt hm0 (lt_trans hm1 (by decide))
  have hsec := twoDigits_appendInt hs0 (lt_trans hs1 (by decide))
  rw [htext, readRFC3339, hyear]
  simp only [bind_eq_bind, bind_some]
  rw [hcs]
  simp only [bind_some, expect_cons]
  rw [hmon]
  simp only [bind_some, expect_cons]
  rw [hdom]
  simp only [bind_some, expect_cons]
  rw [hhour]
  simp only [bind_some, expect_cons]
  rw [hmin]
  simp only [bind_some, expect_cons]
  rw [hsec]
  simp only [bind_some, fraction_formatOffset, zoneOffset_format h0 h1]
  rw [hsum, if_pos hvalid, hdate]
  rfl

theorem isDigit_digitChar : ∀ n, n < 10 → (Nat.digitChar n).isDigit = true := by decide

theorem isDigit_of_mem_padded {c : Char} : ∀ {width n : Nat}, c ∈ padded width n → c.isDigit = true
  | 0, n, h => by
    unfold padded at h
    split at h
    · cases h
    · exact Nat.isDigit_of_mem_toDigits (by decide) (by decide) h
  | width + 1, n, h => by
    unfold padded at h
    rcases mem_append.1 h with h | h
    · exact isDigit_of_mem_padded h
    · rw [mem_singleton] at h
      exact h ▸ isDigit_digitChar _ (Nat.mod_lt n (by decide))

theorem twoDigits_cons (a b : Char) (cs : List Char) : twoDigits (a :: b :: cs) = none ∨ ∃ n, twoDigits (a :: b :: cs) = some (n, cs) := by
  cases ha : digit a with
  | none => exact .inl (by simp [twoDigits, ha])
  | some x =>
    cases hb : digit b with
    | none => exact .inl (by simp [twoDigits, ha, hb])
    | some y => exact .inr ⟨10 * x + y, by simp [twoDigits, ha, hb]⟩

theorem readRFC3339_digits {a b c d e : Char} (he : e.isDigit = true) (rest : List Char) :
    readRFC3339 (a :: b :: c :: d :: e :: rest) = none := by
  have hne : '-' ≠ e := by
    rintro rfl
    cases he
  have hexpect : expect '-' (e :: rest) = none := if_neg hne
  unfold readRFC3339
  rcases twoDigits_cons a b (c :: d :: e :: rest) with hab | ⟨y₁, hab⟩
  · rw [hab]
    rfl
  · rw [hab]
    simp only [bind_eq_bind, bind_some]
    rcases twoDigits_cons c d (e :: rest) with hcd | ⟨y₂, hcd⟩
    · rw [hcd]
      rfl
    · rw [hcd]
      simp only [bind_some]
      rw [hexpect]
      rfl

theorem readRFC3339_minus (rest : List Char) : readRFC3339 ('-' :: rest) = none := by
  have hdigits : twoDigits ('-' :: rest) = none := by
    cases rest with
    | nil => rfl
    | cons b cs => rfl
  rw [readRFC3339, hdigits]
  rfl

/-- **A year of another number of digits is not read.** -/
theorem read_format_none {loc t : Int} (h : ¬(0 ≤ year loc t ∧ year loc t ≤ 9999)) : readRFC3339 (formatRFC3339 loc t) = none := by
  rw [formatRFC3339, formatClock, List.append_assoc]
  by_cases hneg : year loc t < 0
  · rw [appendInt, if_pos hneg]
    exact readRFC3339_minus _
  · rw [appendInt_of_nonneg (not_lt.1 hneg)]
    have hlen : 5 ≤ (padded 4 (year loc t).toNat).length := by
      have hne : padded 0 ((year loc t).toNat / 10000) ≠ [] := by
        rw [padded, if_neg (by omega)]
        exact Nat.toDigits_ne_nil
      have := length_pos_of_ne_nil hne
      rw [padded_four, List.length_append]
      simp only [length_cons, length_nil]
      omega
    have hdigits : ∀ c ∈ padded 4 (year loc t).toNat, c.isDigit = true := fun c hc => isDigit_of_mem_padded hc
    generalize padded 4 (year loc t).toNat = s at hlen hdigits
    obtain ⟨a, b, c, d, e, s, rfl⟩ : ∃ a b c d e s', s = a :: b :: c :: d :: e :: s' := by
      match s, hlen with
      | a :: b :: c :: d :: e :: s', _ => exact ⟨a, b, c, d, e, s', rfl⟩
    exact readRFC3339_digits (hdigits e (by simp)) _

theorem formatClock_four (loc t : Int) : (formatClock loc t)[4]? = some '-' ↔ 0 ≤ year loc t ∧ year loc t ≤ 9999 := by
  rw [formatClock]
  generalize appendInt (monthNo (month loc t)) 2 ++ _ = rest
  have hminus : ∀ {c : Char}, c.isDigit = true → some c ≠ some '-' := by
    rintro c hc h
    rw [Option.some.inj h] at hc
    cases hc
  by_cases hneg : year loc t < 0
  · have hlen : 4 ≤ (padded 4 (year loc t).natAbs).length := by
      rw [padded_four, List.length_append]
      exact Nat.le_add_left 4 _
    have hget : ('-' :: padded 4 (year loc t).natAbs)[4]? = some (padded 4 (year loc t).natAbs)[3] :=
      List.getElem?_eq_getElem hlen
    rw [appendInt, if_pos hneg, List.getElem?_append_left (by simp only [length_cons]; omega), hget]
    constructor
    · intro h
      exact absurd h (hminus (isDigit_of_mem_padded (getElem_mem _)))
    · intro h
      omega
  · rw [appendInt_of_nonneg (not_lt.1 hneg)]
    by_cases hbig : year loc t ≤ 9999
    · have htop : (year loc t).toNat / 10000 = 0 := by omega
      rw [padded_four, htop]
      exact iff_of_true rfl ⟨not_lt.1 hneg, hbig⟩
    · have hne : padded 0 ((year loc t).toNat / 10000) ≠ [] := by
        rw [padded, if_neg (by omega)]
        exact Nat.toDigits_ne_nil
      have hlen : 4 < (padded 4 (year loc t).toNat).length := by
        have := length_pos_of_ne_nil hne
        rw [padded_four, List.length_append]
        simp only [length_cons, length_nil]
        omega
      rw [List.getElem?_append_left hlen, List.getElem?_eq_getElem hlen]
      constructor
      · intro h
        exact absurd h (hminus (isDigit_of_mem_padded (getElem_mem _)))
      · intro h
        omega

theorem formatRFC3339Nano_of_whole {loc t : Int} (h : nanosecondOf loc t = 0) : formatRFC3339Nano loc t = formatRFC3339 loc t := by
  rw [formatRFC3339Nano, if_pos h, append_nil, formatRFC3339]

end Calendar
