import DsApm.Querier.Execute
import DsApm.Querier.Sweep
/-!
# TimeShift — a builder query's shift, with and without the cache

`QueryRange` shifts the window of a builder query when it builds it, so the ranges that the cache finds missing are
already shifted; `createRangedQuery` shifts them once more.  Moving a non-empty set of times of the window by the shift
never gives the set back: without a wrap it would have no first or no last time, and a wrap leaves the window.
-/
namespace DsApm
namespace Querier

inductive FunctionName where
  | timeShift
  | other (name : String)
  deriving DecidableEq, Repr

/-- The dynamic type of an argument; a `float64` by its whole part. -/
inductive ArgValue where
  | float64 (whole : Int)
  | int64 (v : Int)
  | int (v : Int)
  | string (s : String)
  | other
  deriving DecidableEq, Repr

structure Function where
  name : FunctionName
  args : List ArgValue
  deriving DecidableEq, Repr

/-- The fields of `QueryBuilderQuery` that say when it is evaluated. -/
structure QueryBuilderQuery where
  functions : List Function
  shiftBy : Int := 0
  deriving DecidableEq, Repr

structure BuilderQuery where
  spec : QueryBuilderQuery
  window : TimeRange
  kind : RequestType
  deriving DecidableEq, Repr

-- the whole part of the number a text is read as, by `strconv.ParseFloat`
variable (parseFloat : String → Option Int)

def ArgValue.seconds : ArgValue → Option Int
  | .float64 v | .int64 v | .int v => some v
  | .string s => parseFloat s
  | .other => none

/-- `extractShiftFromBuilderQuery`; a `timeShift` whose argument is no number is passed over. -/
def extractShiftFromBuilderQuery (spec : QueryBuilderQuery) : Int :=
  (spec.functions.findSome? (fun fn =>
    if fn.name = .timeShift then fn.args.head?.bind (ArgValue.seconds parseFloat) else none)).getD 0

def QueryBuilderQuery.adjustTimeRange (spec : QueryBuilderQuery) (tr : TimeRange) (kind : RequestType) : TimeRange :=
  let shiftBy := if spec.shiftBy = 0 then extractShiftFromBuilderQuery parseFloat spec else spec.shiftBy
  adjustTimeRangeForShift kind shiftBy tr

def buildQuery (spec : QueryBuilderQuery) (request : TimeRange) (kind : RequestType) : BuilderQuery :=
  let spec := { spec with shiftBy := extractShiftFromBuilderQuery parseFloat spec }
  { spec := spec, window := spec.adjustTimeRange parseFloat request kind, kind := kind }

def BuilderQuery.ranged (q : BuilderQuery) (timeRange : TimeRange) : BuilderQuery :=
  let specCopy := { q.spec with shiftBy := extractShiftFromBuilderQuery parseFloat q.spec }
  { spec := specCopy, window := specCopy.adjustTimeRange parseFloat timeRange q.kind, kind := q.kind }

/-! ## One shift -/

/-- `t - shift` over `uint64`. -/
def minusShift (shift t : Nat) : Nat := (t + 2 ^ 64 - shift) % 2 ^ 64

def shiftMS (spec : QueryBuilderQuery) : Nat := (extractShiftFromBuilderQuery parseFloat spec * 1000 % 2 ^ 64).toNat

def Shifts (spec : QueryBuilderQuery) (kind : RequestType) : Prop :=
  (kind = .timeSeries ∨ kind = .scalar) ∧ shiftMS parseFloat spec ≠ 0

instance (spec : QueryBuilderQuery) (kind : RequestType) : Decidable (Shifts parseFloat spec kind) :=
  inferInstanceAs (Decidable (_ ∧ _))

variable {parseFloat}

theorem shiftMS_lt (spec : QueryBuilderQuery) : shiftMS parseFloat spec < 2 ^ 64 := by
  unfold shiftMS
  omega

@[simp] theorem extractShift_shiftBy (spec : QueryBuilderQuery) (s : Int) :
    extractShiftFromBuilderQuery parseFloat { spec with shiftBy := s } = extractShiftFromBuilderQuery parseFloat spec := rfl

theorem minusShift_zero {t : Nat} (h : t < 2 ^ 64) : minusShift 0 t = t := by
  unfold minusShift
  omega

theorem cast_minusShift (s : Int) (t : Nat) : (((t : Int) - s) % 2 ^ 64).toNat = minusShift (s % 2 ^ 64).toNat t := by
  unfold minusShift
  omega

/-- **What a spec with its shift filled in does to a range.** -/
theorem adjustTimeRange_eq (spec : QueryBuilderQuery) {tr : TimeRange} (kind : RequestType) (hfrom : tr.from_ < 2 ^ 64)
    (hto : tr.to_ < 2 ^ 64) :
    ({ spec with shiftBy := extractShiftFromBuilderQuery parseFloat spec }).adjustTimeRange parseFloat tr kind =
      if Shifts parseFloat spec kind then
        ⟨minusShift (shiftMS parseFloat spec) tr.from_, minusShift (shiftMS parseFloat spec) tr.to_⟩
      else tr := by
  unfold QueryBuilderQuery.adjustTimeRange
  simp only [extractShift_shiftBy, ite_self]
  unfold adjustTimeRangeForShift
  by_cases hkind : kind ≠ .timeSeries ∧ kind ≠ .scalar
  · rw [if_pos hkind, if_neg (fun h => h.1.elim hkind.1 hkind.2)]
  · rw [if_neg hkind]
    have hkind' : kind = .timeSeries ∨ kind = .scalar := by
      by_contra hc
      exact hkind (not_or.1 hc)
    by_cases hzero : extractShiftFromBuilderQuery parseFloat spec = 0
    · have hms : shiftMS parseFloat spec = 0 := by simp [shiftMS, hzero]
      rw [if_pos hzero, if_neg (fun h => h.2 hms)]
    · rw [if_neg hzero]
      simp only [cast_minusShift]
      by_cases hms : shiftMS parseFloat spec = 0
      · rw [if_neg (fun h => h.2 hms), show (_ : Int).toNat = 0 from hms, minusShift_zero hfrom, minusShift_zero hto]
      · rw [if_pos ⟨hkind', hms⟩]
        rfl

/-! ## Two shifts -/

theorem not_closed_up {p : Nat → Prop} {shift : Nat} (bound : Nat) (hshift : 0 < shift) (hbound : ∀ x, p x → x < bound)
    (hclosed : ∀ x, p x → p (x + shift)) (x : Nat) : ¬ p x := by
  intro hx
  have hall : ∀ k, p (x + k * shift) := by
    intro k
    induction k with
    | zero => simpa using hx
    | succ k ih =>
      have := hclosed _ ih
      rwa [Nat.add_assoc, ← Nat.succ_mul] at this
  have hlt := hbound _ (hall bound)
  have hle : bound * 1 ≤ bound * shift := Nat.mul_le_mul_left _ hshift
  omega

theorem not_closed_down {p : Nat → Prop} (shift : Nat) (hshift : 0 < shift)
    (hclosed : ∀ x, p x → shift ≤ x ∧ p (x - shift)) : ∀ x, ¬ p x := by
  intro x
  induction x using Nat.strong_induction_on with
  | _ x ih =>
    intro hx
    obtain ⟨hle, hp⟩ := hclosed x hx
    exact ih (x - shift) (by omega) hp

def Held (ranges : List TimeRange) (x : Nat) : Prop := ∃ r ∈ ranges, r.Holds x

/-- **Ranges of a window that was shifted once, shifted again**: they hold other times. -/
theorem shifted_again {shift : Nat} {request : TimeRange} {missing : List TimeRange} (hshift : 0 < shift)
    (hlt : shift < 2 ^ 64) (hreq : request.from_ < request.to_) (hend : request.to_ < 2 ^ 64)
    (hmissing : ∀ r ∈ missing, minusShift shift request.from_ ≤ r.from_ ∧ r.from_ < r.to_ ∧
      r.to_ ≤ minusShift shift request.to_)
    (hsame : ∀ x, Held (missing.map (fun r => ⟨minusShift shift r.from_, minusShift shift r.to_⟩)) x ↔ Held missing x) :
    missing = [] := by
  have hdisjoint : ∀ x, ¬ Held missing x := by
    by_cases hwrap : shift ≤ request.from_
    · -- the window went down, and so does every range: the first time moves on for ever
      refine not_closed_up request.to_ hshift (fun x hx => ?_) (fun x hx => ?_)
      · obtain ⟨r, hr, -, hto⟩ := hx
        have := hmissing r hr
        unfold minusShift at this
        omega
      · obtain ⟨s, hs, hfrom, hto⟩ := (hsame x).2 hx
        obtain ⟨r, hr, rfl⟩ := List.mem_map.1 hs
        obtain ⟨t, ht, hx'⟩ := hx
        have hwin := hmissing r hr
        have hwin' := hmissing t ht
        refine ⟨r, hr, ?_⟩
        unfold TimeRange.Holds at hx' ⊢
        unfold minusShift at *
        dsimp only at hfrom hto
        omega
    · refine not_closed_down (2 ^ 64 - shift) (by omega) (fun x hx => ?_)
      obtain ⟨s, hs, hfrom, hto⟩ := (hsame x).2 hx
      obtain ⟨r, hr, rfl⟩ := List.mem_map.1 hs
      obtain ⟨t, ht, hx'⟩ := hx
      have hwin := hmissing r hr
      have hwin' := hmissing t ht
      refine ⟨?_, r, hr, ?_⟩
      all_goals
        unfold TimeRange.Holds at *
        unfold minusShift at *
        dsimp only at hfrom hto
        omega
  cases missing with
  | nil => rfl
  | cons r rest =>
    have := hmissing r List.mem_cons_self
    exact absurd ⟨r, List.mem_cons_self, le_rfl, this.2.1⟩ (hdisjoint r.from_)

/-- **The ranged queries execute what is missing exactly when the query is not shifted, or nothing is missing.** -/
theorem ranged_executes_iff (parseFloat : String → Option Int) (spec : QueryBuilderQuery) (kind : RequestType)
    {request : TimeRange} {missing : List TimeRange} (hreq : request.from_ < request.to_) (hend : request.to_ < 2 ^ 64)
    (hmissing : ∀ r ∈ missing, (buildQuery parseFloat spec request kind).window.from_ ≤ r.from_ ∧ r.from_ < r.to_ ∧
      r.to_ ≤ (buildQuery parseFloat spec request kind).window.to_) :
    (∀ x, Held (missing.map (fun r => ((buildQuery parseFloat spec request kind).ranged parseFloat r).window)) x ↔
      Held missing x) ↔ ¬ Shifts parseFloat spec kind ∨ missing = [] := by
  have hwindow : (buildQuery parseFloat spec request kind).window =
      if Shifts parseFloat spec kind then ⟨minusShift (shiftMS parseFloat spec) request.from_,
        minusShift (shiftMS parseFloat spec) request.to_⟩ else request :=
    adjustTimeRange_eq spec kind (by omega) hend
  have hbound : ∀ r ∈ missing, r.from_ < 2 ^ 64 ∧ r.to_ < 2 ^ 64 := by
    intro r hr
    have hr := hmissing r hr
    have : (buildQuery parseFloat spec request kind).window.to_ < 2 ^ 64 := by
      rw [hwindow]
      split
      · exact Nat.mod_lt _ (by decide)
      · exact hend
    omega
  have hranged : missing.map (fun r => ((buildQuery parseFloat spec request kind).ranged parseFloat r).window) =
      missing.map (fun r => if Shifts parseFloat spec kind then
        ⟨minusShift (shiftMS parseFloat spec) r.from_, minusShift (shiftMS parseFloat spec) r.to_⟩ else r) :=
    List.map_congr_left (fun r hr => adjustTimeRange_eq spec kind (hbound r hr).1 (hbound r hr).2)
  rw [hranged]
  by_cases hs : Shifts parseFloat spec kind
  · simp only [if_pos hs] at hwindow ⊢
    rw [hwindow] at hmissing
    constructor
    · intro h
      exact .inr (shifted_again (Nat.pos_of_ne_zero hs.2) (shiftMS_lt spec) hreq hend hmissing h)
    · rintro (h | rfl)
      · exact absurd hs h
      · simp [Held]
  · simp only [if_neg hs, List.map_id']
    exact iff_of_true (fun _ => trivial) (.inl hs)

theorem Missing.within_window {V : Type} {buckets : List (CachedBucket V)} {window : TimeRange} {missing : List TimeRange}
    (h : Missing buckets window.from_ window.to_ missing) :
    ∀ r ∈ missing, window.from_ ≤ r.from_ ∧ r.from_ < r.to_ ∧ r.to_ ≤ window.to_ :=
  fun r hr => ⟨(h.within r hr).1, h.nonempty r hr, (h.within r hr).2⟩

/-! A query for the hour before, over two hours of which the first is cached. -/

def hourBefore : QueryBuilderQuery := { functions := [⟨.other "ewma3", [.float64 1]⟩, ⟨.timeShift, [.float64 3600]⟩] }

def twoHours : TimeRange := ⟨10800000, 18000000⟩

def firstHour : List (CachedBucket Unit) := [⟨7200000, 10800000, .timeSeries, {}, {}⟩]

def secondHour : List TimeRange := findMissingRangesWithStep64 0 firstHour 7200000 14400000 60000

theorem secondHour_missing : Missing firstHour 7200000 14400000 secondHour :=
  ((findMissingRangesWithStep64_missing_iff 0 (by decide) (fun _ b hb => by
    rw [List.mem_singleton.1 hb]
    exact ⟨rfl, rfl⟩) (by decide) (by decide) (by decide)).2).2 (by decide)

theorem hourBefore_executes :
    (∀ x, Held (secondHour.map (fun r => ((buildQuery (fun _ => none) hourBefore twoHours .timeSeries).ranged
        (fun _ => none) r).window)) x ↔ Held secondHour x) ↔
      ¬ Shifts (fun _ => none) hourBefore .timeSeries ∨ secondHour = [] :=
  ranged_executes_iff (fun _ => none) hourBefore .timeSeries (by decide) (by decide) secondHour_missing.within_window

/-- The second hour is missing, and the first is executed again. -/
theorem hourBefore_executes_cached :
    ¬ ∀ x, Held (secondHour.map (fun r => ((buildQuery (fun _ => none) hourBefore twoHours .timeSeries).ranged
        (fun _ => none) r).window)) x ↔ Held secondHour x := by
  have hmissing : secondHour = [⟨10800000, 14400000⟩] := by decide
  intro h
  rw [hmissing] at h
  have hheld : Held [⟨10800000, 14400000⟩] 14399999 := ⟨_, List.mem_cons_self, by decide, by decide⟩
  obtain ⟨r, hr, -, hto⟩ := (h 14399999).2 hheld
  rw [List.map_singleton, List.mem_singleton] at hr
  rw [hr] at hto
  revert hto
  decide

end Querier
end DsApm
