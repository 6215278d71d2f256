import DsApm.Lib.Rfc3339
import DsApm.Schedule.Maintenance
import DsApm.Valuer.Texts
/-!
# Persistence — a maintenance schedule as it is stored

`recurrence.go`: `MarshalJSON` writes the times in the zone of the schedule, and an unset start or end as the zero time.
`UnmarshalJSON` reads that text as any other, as a date and a time of day in the zone, and the zero time it makes of it is the zero
instant in UTC only (`readBack`).  Which answers change is said exactly (`persistence_iff`).
-/
namespace DsApm
namespace Schedule

open Calendar Json Valuer List Option

/-! ## Times -/

structure Zone where
  offset : Int
  whole : offset % GoStd.second = 0
  west : -Calendar.day < offset
  east : offset < Calendar.day

def Zone.utc : Zone := ⟨0, rfl, by decide, by decide⟩

/-- `time.Time`: an instant, and the offset its date and time of day are read in. -/
structure Moment where
  instant : Int
  loc : Int
  deriving DecidableEq, Repr

namespace Moment

def zero : Moment := ⟨zeroTime, 0⟩

def isZero (m : Moment) : Bool := decide (m.instant = zeroTime)

/-- `time.Date` of the same date and time of day in the location. -/
def inZone (m : Moment) (loc : Int) : Moment := ⟨relocate m.loc m.instant loc, loc⟩

def format (m : Moment) : List Char := formatRFC3339 m.loc m.instant

def parse (s : List Char) : Option Moment := (readRFC3339 s).map fun r => ⟨r.1, r.2⟩

/-- `MarshalJSON`, which refuses a year that has not four digits, and an offset of a day or more. -/
def marshal (m : Moment) : Option Value :=
  let text := formatRFC3339Nano m.loc m.instant
  if text[4]? = some '-' ∧ (zoneMinutes m.loc).natAbs / 60 < 24 then some (.string text) else none

def decoder : Decoder Moment
  | old, .null => some old
  | _, .string s => parse s
  | _, _ => none

end Moment

/-! ## Schedules -/

section
variable {D : DurationText}

structure StoredRecurrence (D : DurationText) where
  startTime : Moment
  endTime : Option Moment
  duration : TextDuration D
  repeatType : Enum
  repeatOn : Option (List Enum)

structure StoredSchedule (D : DurationText) where
  timezone : String
  startTime : Moment
  endTime : Moment
  recurrence : Option (StoredRecurrence D)

def RepeatType.ofText (s : String) : RepeatType :=
  if s = "daily" then .daily else if s = "weekly" then .weekly else if s = "monthly" then .monthly else .other s

def RepeatOn.ofText (s : String) : RepeatOn :=
  if s = "sunday" then .sunday else if s = "monday" then .monday else if s = "tuesday" then .tuesday
  else if s = "wednesday" then .wednesday else if s = "thursday" then .thursday else if s = "friday" then .friday
  else if s = "saturday" then .saturday else .other s

def StoredRecurrence.evaluated (r : StoredRecurrence D) : Recurrence where
  startTime := r.startTime.instant
  startLoc := r.startTime.loc
  endTime := r.endTime.map Moment.instant
  duration := r.duration.value
  repeatType := .ofText r.repeatType.val
  repeatOn := (r.repeatOn.getD []).map fun on => .ofText on.val

def StoredSchedule.evaluated (s : StoredSchedule D) : MaintenanceSchedule where
  timezone := s.timezone
  startTime := s.startTime.instant
  endTime := s.endTime.instant
  recurrence := s.recurrence.map StoredRecurrence.evaluated

def isUpcoming (loadLocation : String → Option Int) (m : PlannedMaintenance) (now : Int) : Bool :=
  match loadLocation m.schedule.timezone with
  | none => false
  | some _ =>
    if m.schedule.startTime ≠ zeroTime ∧ m.schedule.endTime ≠ zeroTime then decide (now < m.schedule.startTime)
    else match m.schedule.recurrence with
      | none => false
      | some r => decide (now < r.startTime)

/-! ## Writing -/

def StoredRecurrence.inZone (r : StoredRecurrence D) (loc : Int) : StoredRecurrence D :=
  { r with startTime := r.startTime.inZone loc, endTime := r.endTime.map (·.inZone loc) }

def repeatOnValue : Option (List Enum) → Value
  | none => .null
  | some on => .array (on.map Enum.marshal)

/-- The members of a recurrence; without an end there is none. -/
def StoredRecurrence.members (r : StoredRecurrence D) (startTime : Value) (endTime : Option Value) : List (List Char × Value) :=
  ("startTime".toList, startTime) :: (endTime.toList.map fun v => ("endTime".toList, v)) ++
    [("duration".toList, r.duration.marshal), ("repeatType".toList, r.repeatType.marshal),
      ("repeatOn".toList, repeatOnValue r.repeatOn)]

def StoredRecurrence.marshal (r : StoredRecurrence D) : Option Value :=
  match r.startTime.marshal with
  | none => none
  | some startTime =>
    match r.endTime with
    | none => some (.object (r.members startTime none))
    | some endTime => endTime.marshal.map fun v => .object (r.members startTime (some v))

def Moment.written (m : Moment) (zone : Zone) : List Char := (if m.isZero then Moment.zero else m.inZone zone.offset).format

def StoredSchedule.members (s : StoredSchedule D) (zone : Zone) (recurrence : Option Value) : List (List Char × Value) :=
  ("timezone".toList, .string s.timezone.toList) :: ("startTime".toList, .string (s.startTime.written zone)) ::
    ("endTime".toList, .string (s.endTime.written zone)) :: recurrence.toList.map fun v => ("recurrence".toList, v)

def StoredSchedule.marshalJSON (loadLocation : String → Option Zone) (s : StoredSchedule D) : Option (List Char) :=
  match loadLocation s.timezone with
  | none => none
  | some zone =>
    match s.recurrence with
    | none => some (render (.object (s.members zone none)))
    | some r => (r.inZone zone.offset).marshal.map fun v => render (.object (s.members zone (some v)))

/-! ## Reading -/

def StoredRecurrence.zero : StoredRecurrence D := ⟨.zero, none, .zero, .new "", none⟩

def repeatOnDecoder : Decoder (Option (List Enum))
  | _, .null => some none
  | _, v => (Decoder.slice (.new "") Enum.decoder [] v).map some

def recurrenceFields : List (String × Decoder (StoredRecurrence D)) :=
  [("startTime", .of (·.startTime) (fun r x => { r with startTime := x }) Moment.decoder),
   ("endTime", .of (·.endTime) (fun r x => { r with endTime := x }) (.pointer .zero Moment.decoder)),
   ("duration", .of (·.duration) (fun r x => { r with duration := x }) TextDuration.decoder),
   ("repeatType", .of (·.repeatType) (fun r x => { r with repeatType := x }) Enum.decoder),
   ("repeatOn", .of (·.repeatOn) (fun r x => { r with repeatOn := x }) repeatOnDecoder)]

structure ScheduleAux (D : DurationText) where
  timezone : String := ""
  startTime : String := ""
  endTime : String := ""
  recurrence : Option (StoredRecurrence D) := none

def auxFields : List (String × Decoder (ScheduleAux D)) :=
  [("timezone", .of (·.timezone) (fun a x => { a with timezone := x }) .text),
   ("startTime", .of (·.startTime) (fun a x => { a with startTime := x }) .text),
   ("endTime", .of (·.endTime) (fun a x => { a with endTime := x }) .text),
   ("recurrence", .of (·.recurrence) (fun a x => { a with recurrence := x }) (.pointer .zero (.record recurrenceFields)))]

def readTime (zone : Zone) (text : String) : Option Moment :=
  if text = "" then some .zero else (Moment.parse text.toList).map (·.inZone zone.offset)

def rereadTime (zone : Zone) (m : Moment) : Option Moment := (Moment.parse m.format).map (·.inZone zone.offset)

def StoredRecurrence.rereadIn (zone : Zone) (r : StoredRecurrence D) : Option (StoredRecurrence D) :=
  match rereadTime zone r.startTime with
  | none => none
  | some startTime =>
    match r.endTime with
    | none => some { r with startTime := startTime }
    | some endTime => (rereadTime zone endTime).map fun e => { r with startTime := startTime, endTime := some e }

/-- `UnmarshalJSON`, into a schedule without anything set. -/
def unmarshalJSON (loadLocation : String → Option Zone) (data : List Char) : Option (StoredSchedule D) :=
  (unmarshal (.record auxFields) {} data).bind fun aux =>
    (loadLocation aux.timezone).bind fun zone =>
      (readTime zone aux.startTime).bind fun startTime =>
        (readTime zone aux.endTime).bind fun endTime =>
          match aux.recurrence with
          | none => some ⟨aux.timezone, startTime, endTime, none⟩
          | some r => (r.rereadIn zone).map fun r => ⟨aux.timezone, startTime, endTime, some r⟩

end

/-! ## One time -/

variable {zone : Zone} {D : DurationText}

namespace Moment

def YearFits (m : Moment) : Prop := 0 ≤ year m.loc m.instant ∧ year m.loc m.instant ≤ 9999

instance (m : Moment) : Decidable m.YearFits :=
  inferInstanceAs (Decidable (0 ≤ year m.loc m.instant ∧ year m.loc m.instant ≤ 9999))

/-- The times whose text says them: whole seconds, and an offset of less than a day. -/
structure Whole (m : Moment) : Prop where
  west : -Calendar.day < m.loc
  east : m.loc < Calendar.day
  nanosecond : nanosecondOf m.loc m.instant = 0

def shown (m : Moment) : Moment := ⟨m.instant + m.loc - zoneMinutes m.loc * minute, zoneMinutes m.loc * minute⟩

def movedTo (m : Moment) (zone : Zone) : Moment := ⟨m.instant + m.loc - zone.offset, zone.offset⟩

theorem inZone_eq (m : Moment) (zone : Zone) : m.inZone zone.offset = m.movedTo zone := by
  rw [inZone, relocate_eq, movedTo]

theorem shown_sum (m : Moment) : m.shown.instant + m.shown.loc = m.instant + m.loc := sub_add_cancel _ _

theorem movedTo_shown (m : Moment) (zone : Zone) : m.shown.movedTo zone = m.movedTo zone := by
  unfold movedTo
  rw [shown_sum]

theorem parse_format {m : Moment} (h : m.Whole) (hyear : m.YearFits) : parse m.format = some m.shown := by
  rw [parse, format, read_format h.west h.east hyear.1 hyear.2 h.nanosecond]
  rfl

theorem parse_none {m : Moment} (h : ¬m.YearFits) : parse m.format = none := by
  rw [parse, format, read_format_none h]
  rfl

theorem year_shown (m : Moment) : year m.shown.loc m.shown.instant = year m.loc m.instant := by
  unfold year month dayNumber
  rw [shown_sum]

theorem whole_shown {m : Moment} (h : m.Whole) : m.shown.Whole := by
  have hloc : m.shown.loc = m.loc.tdiv 60000000000 * 60000000000 := rfl
  have habs : (m.loc.tdiv 60000000000).natAbs = m.loc.natAbs / 60000000000 := Int.natAbs_tdiv m.loc minute
  have hwest := h.west
  have heast := h.east
  refine ⟨?_, ?_, ?_⟩
  · rw [hloc]
    unfold Calendar.day at *
    omega
  · rw [hloc]
    unfold Calendar.day at *
    omega
  · have hns := h.nanosecond
    unfold nanosecondOf clock at *
    rwa [shown_sum]

structure Settled (m : Moment) (zone : Zone) : Prop where
  loc : m.loc = zone.offset
  seconds : m.instant % GoStd.second = 0

namespace Settled

variable {m : Moment}

theorem whole (h : m.Settled zone) : m.Whole := by
  refine ⟨h.loc ▸ zone.west, h.loc ▸ zone.east, ?_⟩
  have hwhole := zone.whole
  have hseconds := h.seconds
  rw [h.loc]
  unfold nanosecondOf clock Calendar.day GoStd.second at *
  omega

theorem movedTo (h : m.Settled zone) : m.movedTo zone = m := by
  obtain ⟨instant, loc⟩ := m
  obtain ⟨rfl, -⟩ := h
  unfold Moment.movedTo
  congr 1
  dsimp only
  omega

theorem marshal (h : m.Settled zone) : m.marshal = if m.YearFits then some (.string m.format) else none := by
  have htext : formatRFC3339Nano m.loc m.instant = m.format := formatRFC3339Nano_of_whole h.whole.nanosecond
  have hhours : (zoneMinutes m.loc).natAbs / 60 < 24 := zoneMinutes_bounds h.whole.west h.whole.east
  have hfour : m.format[4]? = some '-' ↔ m.YearFits := by
    rw [Moment.format, formatRFC3339, List.getElem?_append_left, formatClock_four, YearFits]
    unfold formatClock
    simp only [List.length_append, length_cons]
    omega
  rw [Moment.marshal]
  simp only [htext, hhours, and_true, hfour]

end Settled

/-- A start or an end as it is read back: an unset one is the zero date and time of day in the zone. -/
def readBack (m : Moment) (zone : Zone) : Moment := if m.isZero then zero.movedTo zone else m

end Moment

theorem parse_zero : Moment.parse Moment.zero.format = some Moment.zero :=
  Moment.parse_format ⟨by decide, by decide, by decide⟩ (by decide)

theorem format_ne_nil (m : Moment) : m.format ≠ [] := by
  unfold Moment.format formatRFC3339 formatClock
  simp

theorem readTime_eq (m : Moment) : readTime zone (String.ofList m.format) = (Moment.parse m.format).map (·.movedTo zone) := by
  have hne : String.ofList m.format ≠ "" := by
    rw [← String.toList_inj.ne, String.toList_ofList]
    exact format_ne_nil m
  rw [readTime, if_neg hne, String.toList_ofList]
  congr 1
  funext m
  exact m.inZone_eq zone

/-- **A start or an end that is written is read back** when its year has four digits. -/
theorem readTime_written {m : Moment} (h : m.isZero = false → m.Settled zone) :
    readTime zone (String.ofList (m.written zone)) =
      if m.isZero = true ∨ m.YearFits then some (m.readBack zone) else none := by
  rw [Moment.written]
  cases hzero : m.isZero with
  | true =>
    rw [if_pos rfl, readTime_eq, parse_zero, if_pos (.inl rfl), Moment.readBack, if_pos hzero]
    rfl
  | false =>
    have hsettled := h hzero
    have hread : readTime zone (String.ofList (m.inZone zone.offset).format) = (Moment.parse m.format).map (·.movedTo zone) := by
      rw [Moment.inZone_eq, hsettled.movedTo, readTime_eq]
    have hback : m.readBack zone = m := if_neg (by rw [hzero]; exact Bool.false_ne_true)
    rw [if_neg Bool.false_ne_true, hread, hback]
    by_cases hyear : m.YearFits
    · rw [if_pos (.inr hyear), Moment.parse_format hsettled.whole hyear, map_some, Moment.movedTo_shown, hsettled.movedTo]
    · rw [if_neg (not_or.2 ⟨Bool.false_ne_true, hyear⟩), Moment.parse_none hyear]
      rfl

theorem rereadTime_shown {m : Moment} (h : m.Settled zone) (hyear : m.YearFits) : rereadTime zone m.shown = some m := by
  have hyear' : m.shown.YearFits := by rwa [Moment.YearFits, Moment.year_shown]
  rw [rereadTime, Moment.parse_format (Moment.whole_shown h.whole) hyear', map_some, Moment.inZone_eq, Moment.movedTo_shown,
    Moment.movedTo_shown, h.movedTo]

/-! ## The recurrence -/

namespace StoredRecurrence

variable {r : StoredRecurrence D}

structure Settled (zone : Zone) (r : StoredRecurrence D) : Prop where
  startTime : r.startTime.Settled zone
  endTime : ∀ e ∈ r.endTime, e.Settled zone

def YearsFit (r : StoredRecurrence D) : Prop := r.startTime.YearFits ∧ ∀ e ∈ r.endTime, e.YearFits

def readBack (r : StoredRecurrence D) : StoredRecurrence D := { r with duration := r.duration.reread }

theorem inZone_of_settled (h : r.Settled zone) : r.inZone zone.offset = r := by
  have hstart : r.startTime.inZone zone.offset = r.startTime := by rw [Moment.inZone_eq, h.startTime.movedTo]
  have hend : r.endTime.map (·.inZone zone.offset) = r.endTime := by
    cases hr : r.endTime with
    | none => rfl
    | some e => rw [map_some, Moment.inZone_eq, (h.endTime e hr).movedTo]
  rw [inZone, hstart, hend]

theorem decoder_repeatOn (old on : Option (List Enum)) : repeatOnDecoder old (repeatOnValue on) = some on := by
  cases on with
  | none => rfl
  | some on =>
    have hall : (on.map Enum.marshal).mapM (Enum.decoder (.new "")) = some on := by
      induction on with
      | nil => rfl
      | cons e on ih => rw [map_cons, mapM_cons, Enum.decoder_marshal, ih]; rfl
    rw [repeatOnValue, repeatOnDecoder, Decoder.slice, hall]
    · rfl
    · exact nofun

def value (r : StoredRecurrence D) : Value :=
  .object (r.members (.string r.startTime.format) (r.endTime.map fun e => .string e.format))

theorem marshal_eq (h : r.Settled zone) (hyears : r.YearsFit) : r.marshal = some r.value := by
  rw [marshal, h.startTime.marshal, if_pos hyears.1, value]
  cases hend : r.endTime with
  | none => rfl
  | some e =>
    have hmarshal := (h.endTime e hend).marshal
    rw [if_pos (hyears.2 e hend)] at hmarshal
    simp only [hmarshal, map_some]

theorem marshal_none (h : r.Settled zone) (hyears : ¬r.YearsFit) : r.marshal = none := by
  rw [marshal, h.startTime.marshal]
  by_cases hstart : r.startTime.YearFits
  · rw [if_pos hstart]
    cases hend : r.endTime with
    | none =>
      refine absurd ⟨hstart, ?_⟩ hyears
      rw [hend]
      exact nofun
    | some e =>
      have hmarshal := (h.endTime e hend).marshal
      rw [if_neg] at hmarshal
      · simp only [hmarshal, map_none]
      · intro hfits
        refine hyears ⟨hstart, ?_⟩
        rw [hend]
        rintro _ ⟨⟩
        exact hfits
  · rw [if_neg hstart]

theorem record_value (h : r.Settled zone) (hyears : r.YearsFit) : Decoder.record recurrenceFields .zero r.value =
    some { r.readBack with startTime := r.startTime.shown, endTime := r.endTime.map Moment.shown } := by
  have hnames : ((recurrenceFields (D := D)).map Prod.fst).Nodup := by simp [recurrenceFields]
  have hstartField : Decoder.field (recurrenceFields (D := D)) "startTime".toList =
      some (.of (·.startTime) (fun r x => { r with startTime := x }) Moment.decoder) :=
    Decoder.field_of_mem hnames (by simp [recurrenceFields])
  have hendField : Decoder.field (recurrenceFields (D := D)) "endTime".toList =
      some (.of (·.endTime) (fun r x => { r with endTime := x }) (.pointer .zero Moment.decoder)) :=
    Decoder.field_of_mem hnames (by simp [recurrenceFields])
  have hduration : Decoder.field (recurrenceFields (D := D)) "duration".toList =
      some (.of (·.duration) (fun r x => { r with duration := x }) TextDuration.decoder) :=
    Decoder.field_of_mem hnames (by simp [recurrenceFields])
  have htype : Decoder.field (recurrenceFields (D := D)) "repeatType".toList =
      some (.of (·.repeatType) (fun r x => { r with repeatType := x }) Enum.decoder) :=
    Decoder.field_of_mem hnames (by simp [recurrenceFields])
  have hon : Decoder.field (recurrenceFields (D := D)) "repeatOn".toList =
      some (.of (·.repeatOn) (fun r x => { r with repeatOn := x }) repeatOnDecoder) :=
    Decoder.field_of_mem hnames (by simp [recurrenceFields])
  have hstart : ∀ old, Moment.decoder old (.string r.startTime.format) = some r.startTime.shown := fun _ =>
    Moment.parse_format h.startTime.whole hyears.1
  rw [value, members]
  cases hend : r.endTime with
  | none =>
    simp only [map_none, toList_none, map_nil, cons_append, nil_append, Decoder.record,
      foldlM_cons, foldlM_nil, Decoder.setMember, hstartField, hduration, htype, hon, Decoder.of, hstart,
      TextDuration.decoder_marshal, Enum.decoder_marshal, decoder_repeatOn, map_some, bind_eq_bind, bind_some,
      Option.pure_def, readBack, hend]
    rfl
  | some e =>
    have hfin : ∀ old, Decoder.pointer .zero Moment.decoder old (.string e.format) = some (some e.shown) := by
      intro old
      have hparse : Moment.decoder (old.getD .zero) (.string e.format) = some e.shown :=
        Moment.parse_format (h.endTime e hend).whole (hyears.2 e hend)
      rw [Decoder.pointer, hparse]
      · rfl
      · exact nofun
    simp only [map_some, toList_some, map_cons, map_nil, cons_append, nil_append, Decoder.record,
      foldlM_cons, foldlM_nil, Decoder.setMember, hstartField, hendField, hduration, htype, hon, Decoder.of, hstart, hfin,
      TextDuration.decoder_marshal, Enum.decoder_marshal, decoder_repeatOn, map_some, bind_eq_bind, bind_some,
      Option.pure_def, readBack, hend]

theorem rereadIn_shown (h : r.Settled zone) (hyears : r.YearsFit) :
    ({ r.readBack with startTime := r.startTime.shown, endTime := r.endTime.map Moment.shown } : StoredRecurrence D).rereadIn zone =
      some r.readBack := by
  rw [rereadIn, rereadTime_shown h.startTime hyears.1]
  cases hend : r.endTime with
  | none => simp only [readBack, hend, map_none]
  | some e => simp only [readBack, hend, map_some, rereadTime_shown (h.endTime e hend) (hyears.2 e hend)]

def shown (r : StoredRecurrence D) : StoredRecurrence D :=
  { r.readBack with startTime := r.startTime.shown, endTime := r.endTime.map Moment.shown }

theorem fits_value (r : StoredRecurrence D) : Fits 9999 r.value := by
  have hon : Fits 9998 (repeatOnValue r.repeatOn) := by
    cases r.repeatOn with
    | none => exact .null _
    | some on =>
      refine .array (d := 9997) fun v hv => ?_
      obtain ⟨e, -, rfl⟩ := List.mem_map.1 hv
      exact .string _ _
  refine .object (d := 9998) fun m hm => ?_
  rw [members, cons_append, mem_cons, mem_append] at hm
  rcases hm with rfl | hm | hm
  · exact .string _ _
  · obtain ⟨v, hv, rfl⟩ := List.mem_map.1 hm
    obtain ⟨e, -, rfl⟩ := map_eq_some_iff.1 (mem_toList.1 hv)
    exact .string _ _
  · rw [mem_cons, mem_cons, mem_singleton] at hm
    rcases hm with rfl | rfl | rfl
    · exact .string _ _
    · exact .string _ _
    · exact hon

end StoredRecurrence

/-! ## The schedule -/

namespace StoredSchedule

variable {s : StoredSchedule D} {loadLocation : String → Option Zone}

structure Settled (zone : Zone) (s : StoredSchedule D) : Prop where
  startTime : s.startTime.isZero = false → s.startTime.Settled zone
  endTime : s.endTime.isZero = false → s.endTime.Settled zone
  recurrence : ∀ r ∈ s.recurrence, r.Settled zone

structure YearsFit (s : StoredSchedule D) : Prop where
  startTime : s.startTime.isZero = true ∨ s.startTime.YearFits
  endTime : s.endTime.isZero = true ∨ s.endTime.YearFits
  recurrence : ∀ r ∈ s.recurrence, r.YearsFit

def readBack (zone : Zone) (s : StoredSchedule D) : StoredSchedule D where
  timezone := s.timezone
  startTime := s.startTime.readBack zone
  endTime := s.endTime.readBack zone
  recurrence := s.recurrence.map StoredRecurrence.readBack

theorem marshalJSON_eq (hzone : loadLocation s.timezone = some zone) (h : s.Settled zone) (hyears : ∀ r ∈ s.recurrence, r.YearsFit) :
    s.marshalJSON loadLocation = some (render (.object (s.members zone (s.recurrence.map StoredRecurrence.value)))) := by
  rw [marshalJSON, hzone]
  cases hrec : s.recurrence with
  | none => rfl
  | some r =>
    have hsettled := h.recurrence r hrec
    simp only [StoredRecurrence.inZone_of_settled hsettled, StoredRecurrence.marshal_eq hsettled (hyears r hrec), map_some]

theorem unmarshal_members (hsettled : ∀ r ∈ s.recurrence, r.Settled zone) (hyears : ∀ r ∈ s.recurrence, r.YearsFit) :
    unmarshal (.record auxFields) {} (render (.object (s.members zone (s.recurrence.map StoredRecurrence.value)))) =
      some { timezone := s.timezone, startTime := String.ofList (s.startTime.written zone),
             endTime := String.ofList (s.endTime.written zone), recurrence := s.recurrence.map StoredRecurrence.shown } := by
  have hfits : Fits maxNestingDepth (.object (s.members zone (s.recurrence.map StoredRecurrence.value))) := by
    refine .object (d := 9999) fun m hm => ?_
    rw [members, mem_cons, mem_cons, mem_cons] at hm
    rcases hm with rfl | rfl | rfl | hm
    · exact .string _ _
    · exact .string _ _
    · exact .string _ _
    · obtain ⟨v, hv, rfl⟩ := List.mem_map.1 hm
      obtain ⟨r, -, rfl⟩ := map_eq_some_iff.1 (mem_toList.1 hv)
      exact r.fits_value
  have hnames : ((auxFields (D := D)).map Prod.fst).Nodup := by simp [auxFields]
  have htimezone : Decoder.field (auxFields (D := D)) "timezone".toList =
      some (.of (·.timezone) (fun a x => { a with timezone := x }) .text) :=
    Decoder.field_of_mem hnames (by simp [auxFields])
  have hstart : Decoder.field (auxFields (D := D)) "startTime".toList =
      some (.of (·.startTime) (fun a x => { a with startTime := x }) .text) :=
    Decoder.field_of_mem hnames (by simp [auxFields])
  have hend : Decoder.field (auxFields (D := D)) "endTime".toList =
      some (.of (·.endTime) (fun a x => { a with endTime := x }) .text) :=
    Decoder.field_of_mem hnames (by simp [auxFields])
  have hrecurrence : Decoder.field (auxFields (D := D)) "recurrence".toList =
      some (.of (·.recurrence) (fun a x => { a with recurrence := x }) (.pointer .zero (.record recurrenceFields))) :=
    Decoder.field_of_mem hnames (by simp [auxFields])
  have hblank : skip [] = [] := rfl
  have hparse := parse_render hfits hblank
  rw [append_nil] at hparse
  rw [unmarshal, hparse, bind_some, members]
  cases hrec : s.recurrence with
  | none =>
    simp only [map_none, toList_none, map_nil, Decoder.record, foldlM_cons, foldlM_nil,
      Decoder.setMember, htimezone, hstart, hend, Decoder.of, Decoder.text, String.ofList_toList, map_some,
      bind_eq_bind, bind_some, Option.pure_def]
  | some r =>
    have hvalue : Decoder.pointer .zero (.record recurrenceFields) none r.value = some (some r.shown) := by
      have hrecord := StoredRecurrence.record_value (hsettled r hrec) (hyears r hrec)
      rw [Decoder.pointer, getD_none, hrecord]
      · rfl
      · exact nofun
    simp only [map_some, toList_some, map_cons, map_nil, Decoder.record, foldlM_cons, foldlM_nil,
      Decoder.setMember, htimezone, hstart, hend, hrecurrence, Decoder.of, Decoder.text, String.ofList_toList, map_some,
      bind_eq_bind, bind_some, Option.pure_def, hvalue]

/-- **The schedule that is read back**, when the years fit. -/
theorem unmarshal_marshal (hzone : loadLocation s.timezone = some zone) (h : s.Settled zone) (hyears : s.YearsFit) :
    (s.marshalJSON loadLocation).bind (unmarshalJSON loadLocation) = some (s.readBack zone) := by
  have hstart := readTime_written h.startTime
  have hend := readTime_written h.endTime
  rw [if_pos hyears.startTime] at hstart
  rw [if_pos hyears.endTime] at hend
  rw [marshalJSON_eq hzone h hyears.recurrence, bind_some, unmarshalJSON,
    unmarshal_members h.recurrence hyears.recurrence]
  simp only [bind_some, hzone, hstart, hend]
  cases hrec : s.recurrence with
  | none => simp only [map_none, readBack, hrec]
  | some r =>
    have hreread := StoredRecurrence.rereadIn_shown (h.recurrence r hrec) (hyears.recurrence r hrec)
    simp only [map_some, StoredRecurrence.shown, hreread, readBack, hrec]

/-- **Nothing is read back** of a year that does not fit. -/
theorem unmarshal_marshal_none (hzone : loadLocation s.timezone = some zone) (h : s.Settled zone) (hyears : ¬s.YearsFit) :
    (s.marshalJSON loadLocation).bind (unmarshalJSON loadLocation) = (none : Option (StoredSchedule D)) := by
  by_cases hrecurrence : ∀ r ∈ s.recurrence, r.YearsFit
  · have hstart := readTime_written h.startTime
    have hend := readTime_written h.endTime
    rw [marshalJSON_eq hzone h hrecurrence, bind_some, unmarshalJSON, unmarshal_members h.recurrence hrecurrence]
    simp only [bind_some, hzone]
    by_cases hs : s.startTime.isZero = true ∨ s.startTime.YearFits
    · have he : ¬(s.endTime.isZero = true ∨ s.endTime.YearFits) := fun he => hyears ⟨hs, he, hrecurrence⟩
      rw [if_neg he] at hend
      simp only [hend, bind_none, bind_fun_none]
    · rw [if_neg hs] at hstart
      rw [hstart, bind_none]
  · push Not at hrecurrence
    obtain ⟨r, hrec, hr⟩ := hrecurrence
    have hsettled := h.recurrence r hrec
    have hnone : s.marshalJSON loadLocation = none := by
      rw [marshalJSON, hzone, mem_def.1 hrec]
      simp only [StoredRecurrence.inZone_of_settled hsettled, StoredRecurrence.marshal_none hsettled hr, map_none]
    rw [hnone, bind_none]

/-! ## The answers -/

/-- Every rule is skipped at the same instants, and the maintenance is upcoming at the same. -/
def SameAnswers (loadLocation : String → Option Zone) (s s' : StoredSchedule D) : Prop :=
  ∀ ruleIDs ruleID now,
    shouldSkip (fun name => (loadLocation name).map Zone.offset) ⟨s'.evaluated, ruleIDs⟩ ruleID now =
        shouldSkip (fun name => (loadLocation name).map Zone.offset) ⟨s.evaluated, ruleIDs⟩ ruleID now ∧
      isUpcoming (fun name => (loadLocation name).map Zone.offset) ⟨s'.evaluated, ruleIDs⟩ now =
        isUpcoming (fun name => (loadLocation name).map Zone.offset) ⟨s.evaluated, ruleIDs⟩ now

def recurs (zone : Zone) (s : StoredSchedule D) (now : Int) : Bool :=
  s.recurrence.any fun r => r.evaluated.running now && checkRecurrence now r.evaluated zone.offset

/-- The recurrence starts where the window that is read back does, and covers all of it. -/
def Anticipated (zone : Zone) (s : StoredSchedule D) : Prop :=
  (∃ r, s.recurrence = some r ∧ r.startTime.instant = (s.readBack zone).startTime.instant) ∧
    ∀ now, (s.readBack zone).evaluated.inFixedWindow now = true → s.recurs zone now = true

theorem shouldSkip_eq (hzone : loadLocation s.timezone = some zone) (ruleIDs : List String) (ruleID : String) (now : Int) :
    shouldSkip (fun name => (loadLocation name).map Zone.offset) ⟨s.evaluated, ruleIDs⟩ ruleID now =
      (PlannedMaintenance.covers ⟨s.evaluated, ruleIDs⟩ ruleID && (s.evaluated.inFixedWindow now || s.recurs zone now)) := by
  have hloc : (loadLocation s.evaluated.timezone).map Zone.offset = some zone.offset := by
    rw [show s.evaluated.timezone = s.timezone from rfl, hzone]
    rfl
  unfold shouldSkip
  simp only [hloc]
  cases PlannedMaintenance.covers ⟨s.evaluated, ruleIDs⟩ ruleID with
  | false => rfl
  | true =>
    cases s.evaluated.inFixedWindow now with
    | true => rfl
    | false =>
      unfold recurs evaluated
      cases s.recurrence with
      | none => rfl
      | some r =>
        simp only [map_some, any_some]
        cases r.evaluated.running now with
        | true => rfl
        | false => rfl

theorem isUpcoming_eq (hzone : loadLocation s.timezone = some zone) (ruleIDs : List String) (now : Int) :
    isUpcoming (fun name => (loadLocation name).map Zone.offset) ⟨s.evaluated, ruleIDs⟩ now =
      if s.startTime.isZero = false ∧ s.endTime.isZero = false then decide (now < s.startTime.instant)
      else s.recurrence.any fun r => decide (now < r.startTime.instant) := by
  have hloc : (loadLocation s.evaluated.timezone).map Zone.offset = some zone.offset := by
    rw [show s.evaluated.timezone = s.timezone from rfl, hzone]
    rfl
  have hset : s.evaluated.startTime ≠ zeroTime ∧ s.evaluated.endTime ≠ zeroTime ↔
      s.startTime.isZero = false ∧ s.endTime.isZero = false := by
    unfold Moment.isZero evaluated
    rw [decide_eq_false_iff_not, decide_eq_false_iff_not]
  unfold isUpcoming
  simp only [hloc]
  by_cases hboth : s.startTime.isZero = false ∧ s.endTime.isZero = false
  · rw [if_pos hboth, if_pos (hset.2 hboth)]
    rfl
  · rw [if_neg hboth, if_neg (mt hset.1 hboth)]
    unfold evaluated
    cases s.recurrence with
    | none => rfl
    | some r => rfl

theorem recurs_readBack (now : Int) : (s.readBack zone).recurs zone now = s.recurs zone now := by
  unfold recurs readBack
  cases s.recurrence with
  | none => rfl
  | some r => rfl

theorem instants_readBack (h : zone.offset = 0 ∨ (s.startTime.isZero = false ∧ s.endTime.isZero = false)) :
    (s.readBack zone).startTime.instant = s.startTime.instant ∧ (s.readBack zone).endTime.instant = s.endTime.instant := by
  have hone : ∀ m : Moment, zone.offset = 0 ∨ m.isZero = false → (m.readBack zone).instant = m.instant := by
    rintro m (hutc | hset)
    · rw [Moment.readBack]
      split
      · rename_i hzero
        rw [Moment.movedTo, hutc, of_decide_eq_true hzero]
        rfl
      · rfl
    · rw [Moment.readBack, if_neg (by rw [hset]; exact Bool.false_ne_true)]
  exact ⟨hone _ (h.imp_right And.left), hone _ (h.imp_right And.right)⟩

theorem isZero_readBack (hoffset : zone.offset ≠ 0) (m : Moment) : (m.readBack zone).isZero = false := by
  rw [Moment.readBack]
  split
  · rw [Moment.isZero, decide_eq_false_iff_not]
    intro heq
    have hsum : zeroTime + 0 - zone.offset = zeroTime := heq
    omega
  · rename_i hset
    exact Bool.eq_false_iff.2 hset

theorem sameAnswers_iff (hzone : loadLocation s.timezone = some zone) : SameAnswers loadLocation s (s.readBack zone) ↔
    zone.offset = 0 ∨ (s.startTime.isZero = false ∧ s.endTime.isZero = false) ∨ s.Anticipated zone := by
  have hzone' : loadLocation (s.readBack zone).timezone = some zone := hzone
  by_cases hsame : zone.offset = 0 ∨ (s.startTime.isZero = false ∧ s.endTime.isZero = false)
  · obtain ⟨hstart, hend⟩ := instants_readBack hsame
    have hzeros : (s.readBack zone).startTime.isZero = s.startTime.isZero ∧ (s.readBack zone).endTime.isZero = s.endTime.isZero := by
      unfold Moment.isZero
      rw [hstart, hend]
      exact ⟨rfl, rfl⟩
    have hwindow : ∀ now, (s.readBack zone).evaluated.inFixedWindow now = s.evaluated.inFixedWindow now := by
      intro now
      unfold MaintenanceSchedule.inFixedWindow evaluated
      rw [hstart, hend]
    have hupcoming : ∀ now, ((s.readBack zone).recurrence.any fun r => decide (now < r.startTime.instant)) =
        s.recurrence.any fun r => decide (now < r.startTime.instant) := by
      intro now
      unfold readBack
      cases s.recurrence with
      | none => rfl
      | some r => rfl
    refine iff_of_true (fun ruleIDs ruleID now => ⟨?_, ?_⟩) (hsame.imp_right .inl)
    · rw [shouldSkip_eq hzone', shouldSkip_eq hzone, recurs_readBack, hwindow]
      rfl
    · rw [isUpcoming_eq hzone', isUpcoming_eq hzone, hzeros.1, hzeros.2, hstart, hupcoming]
  · obtain ⟨hoffset, hunset⟩ := not_or.1 hsame
    have hset : (s.readBack zone).startTime.isZero = false ∧ (s.readBack zone).endTime.isZero = false :=
      ⟨isZero_readBack hoffset _, isZero_readBack hoffset _⟩
    have hwindow : ∀ now, s.evaluated.inFixedWindow now = false := by
      intro now
      rw [MaintenanceSchedule.inFixedWindow, decide_eq_false_iff_not]
      rintro ⟨hs, he, -⟩
      exact hunset ⟨decide_eq_false_iff_not.2 hs, decide_eq_false_iff_not.2 he⟩
    constructor
    · intro hanswers
      refine .inr (.inr ⟨?_, ?_⟩)
      · have hupcoming : ∀ now, decide (now < (s.readBack zone).startTime.instant) =
            s.recurrence.any fun r => decide (now < r.startTime.instant) := by
          intro now
          have hnow := (hanswers [] "" now).2
          rwa [isUpcoming_eq hzone', isUpcoming_eq hzone, if_pos hset, if_neg hunset] at hnow
        cases hrec : s.recurrence with
        | none =>
          have hbefore := hupcoming ((s.readBack zone).startTime.instant - 1)
          rw [hrec, any_none, decide_eq_false_iff_not] at hbefore
          omega
        | some r =>
          have hiff : ∀ now, now < (s.readBack zone).startTime.instant ↔ now < r.startTime.instant := by
            intro now
            have hnow := hupcoming now
            rwa [hrec, any_some, decide_eq_decide] at hnow
          have hleft := hiff (s.readBack zone).startTime.instant
          have hright := hiff r.startTime.instant
          exact ⟨r, rfl, by omega⟩
      · intro now hin
        have hnow := (hanswers [] "" now).1
        rw [shouldSkip_eq hzone', shouldSkip_eq hzone, recurs_readBack, hwindow, hin] at hnow
        exact hnow.symm
    · rintro (hutc | hboth | ⟨⟨r, hrec, hstart⟩, hcovers⟩)
      · exact absurd hutc hoffset
      · exact absurd hboth hunset
      · intro ruleIDs ruleID now
        refine ⟨?_, ?_⟩
        · have hor : ((s.readBack zone).evaluated.inFixedWindow now || s.recurs zone now) = s.recurs zone now := by
            cases hin : (s.readBack zone).evaluated.inFixedWindow now with
            | false => rfl
            | true => rw [hcovers now hin]; rfl
          rw [shouldSkip_eq hzone', shouldSkip_eq hzone, recurs_readBack, hwindow, hor]
          rfl
        · rw [isUpcoming_eq hzone', isUpcoming_eq hzone, if_pos hset, if_neg hunset, hrec, any_some, hstart]

end StoredSchedule

/-- **Maintenance schedule persistence**: what is read back of a schedule gives the same answers exactly when the years of its times
fit, and it is in UTC, or has both ends, or recurs from where its ends are read back on. -/
theorem persistence_iff {loadLocation : String → Option Zone} {s : StoredSchedule D}
    (hzone : loadLocation s.timezone = some zone) (h : s.Settled zone) :
    (∃ data, s.marshalJSON loadLocation = some data ∧ ∃ s' : StoredSchedule D,
        unmarshalJSON loadLocation data = some s' ∧ s.SameAnswers loadLocation s') ↔
      s.YearsFit ∧ (zone.offset = 0 ∨ (s.startTime.isZero = false ∧ s.endTime.isZero = false) ∨ s.Anticipated zone) := by
  rw [← StoredSchedule.sameAnswers_iff hzone]
  constructor
  · rintro ⟨data, hdata, s', hread, hanswers⟩
    have hboth : (s.marshalJSON loadLocation).bind (unmarshalJSON loadLocation) = some s' := by rw [hdata]; exact hread
    by_cases hyears : s.YearsFit
    · rw [StoredSchedule.unmarshal_marshal hzone h hyears] at hboth
      exact ⟨hyears, Option.some.inj hboth ▸ hanswers⟩
    · rw [StoredSchedule.unmarshal_marshal_none hzone h hyears] at hboth
      cases hboth
  · rintro ⟨hyears, hanswers⟩
    obtain ⟨data, hdata, hread⟩ := bind_eq_some_iff.1 (StoredSchedule.unmarshal_marshal hzone h hyears)
    exact ⟨data, hdata, _, hread, hanswers⟩

/-- An hour is written as people do; any other duration as its sign and so many strokes. -/
def strokes : DurationText where
  parse s :=
    match s.toList with
    | 'p' :: cs => some cs.length
    | 'm' :: cs => some (-cs.length)
    | _ => if s = "1h" then some hour else none
  write d := String.ofList ((if 0 ≤ d then 'p' else 'm') :: List.replicate d.natAbs '1')
  ofNumber _ := 0
  parse_write d := by
    by_cases h : 0 ≤ d
    · rw [if_pos h, String.toList_ofList]
      simp [abs_of_nonneg h]
    · rw [if_neg h, String.toList_ofList]
      simp [abs_of_neg (not_le.1 h)]

def kolkata : Zone := ⟨19800000000000, by decide, by decide, by decide⟩

def zones (name : String) : Option Zone :=
  if name = "UTC" then some .utc else if name = "Asia/Kolkata" then some kolkata else none

def daily (timezone : String) (zone : Zone) (endTime : Moment) : StoredSchedule strokes where
  timezone := timezone
  startTime := .zero
  endTime := endTime
  recurrence := some
    { startTime := ⟨date zone.offset 2024 6 1 10 0 0 0, zone.offset⟩
      endTime := none
      duration := ⟨"1h", hour, .inr rfl⟩
      repeatType := .new "daily"
      repeatOn := none }

theorem daily_settled {timezone : String} {zone : Zone} {endTime : Moment}
    (hseconds : (date zone.offset 2024 6 1 10 0 0 0) % GoStd.second = 0) (hend : endTime.isZero = false → endTime.Settled zone) :
    (daily timezone zone endTime).Settled zone := by
  refine ⟨?_, hend, ?_⟩
  · intro h
    cases h
  · rintro r ⟨⟩
    exact ⟨⟨rfl, hseconds⟩, nofun⟩

/-- In UTC the hours are read back. -/
theorem daily_readBack : ∃ data, (daily "UTC" .utc .zero).marshalJSON zones = some data ∧ ∃ s' : StoredSchedule strokes,
    unmarshalJSON zones data = some s' ∧ (daily "UTC" .utc .zero).SameAnswers zones s' := by
  refine (persistence_iff rfl (daily_settled (by decide) (fun h => by cases h))).2 ⟨⟨.inl rfl, .inl rfl, ?_⟩, .inl rfl⟩
  rintro r ⟨⟩
  exact ⟨by decide, nofun⟩

/-- Elsewhere the hours are upcoming before they are stored and not after; and with an end set but no start, all time until the end
is skipped. -/
theorem daily_changed :
    (∃ s' : StoredSchedule strokes, ((daily "Asia/Kolkata" kolkata .zero).marshalJSON zones).bind (unmarshalJSON zones) = some s' ∧
      isUpcoming (fun name => (zones name).map Zone.offset) ⟨(daily "Asia/Kolkata" kolkata .zero).evaluated, []⟩
        (date 0 2024 5 1 0 0 0 0) = true ∧
      isUpcoming (fun name => (zones name).map Zone.offset) ⟨s'.evaluated, []⟩ (date 0 2024 5 1 0 0 0 0) = false) ∧
    ∃ s' : StoredSchedule strokes,
      ((daily "Asia/Kolkata" kolkata ⟨date kolkata.offset 2025 1 1 0 0 0 0, kolkata.offset⟩).marshalJSON zones).bind
        (unmarshalJSON zones) = some s' ∧
      shouldSkip (fun name => (zones name).map Zone.offset)
        ⟨(daily "Asia/Kolkata" kolkata ⟨date kolkata.offset 2025 1 1 0 0 0 0, kolkata.offset⟩).evaluated, []⟩ "rule"
        (date 0 2024 5 1 0 0 0 0) = false ∧
      shouldSkip (fun name => (zones name).map Zone.offset) ⟨s'.evaluated, []⟩ "rule" (date 0 2024 5 1 0 0 0 0) = true := by
  have hyears : ∀ r ∈ (daily "Asia/Kolkata" kolkata .zero).recurrence, r.YearsFit := by
    rintro r ⟨⟩
    exact ⟨by decide, nofun⟩
  refine ⟨⟨_, StoredSchedule.unmarshal_marshal rfl (daily_settled (by decide) (fun h => by cases h)) ⟨.inl rfl, .inl rfl, hyears⟩,
    by decide, by decide⟩, ⟨_, StoredSchedule.unmarshal_marshal rfl (daily_settled (by decide) fun _ => ⟨rfl, by decide⟩)
      ⟨.inl rfl, .inr (by decide), hyears⟩, by decide, by decide⟩⟩

end Schedule
end DsApm
