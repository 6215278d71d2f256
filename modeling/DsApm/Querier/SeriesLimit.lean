import DsApm.Lib.Float64
import DsApm.Lib.GoMap
import DsApm.Lib.WeakOrder
import DsApm.Querier.TimeSeries
import Mathlib.Data.String.Basic
/-!
# SeriesLimit — the order of series, and how many of them are kept

`ApplySeriesLimit` sorts the series by the order of the query, the first of its keys that tells two series apart deciding, and keeps
the first of them.  A series has a value, a mean that is always a number, and labels, of which a missing one comes first whatever the
direction.
-/
namespace DsApm
namespace SeriesLimit

open WeakOrder

inductive Value where
  | string (s : String)
  | int (n : Int64)
  | int64 (n : Int64)
  | float64 (x : Float)
  | bool (b : Bool)
  | other
  deriving DecidableEq

structure Label where
  name : String
  value : Value
  deriving DecidableEq

structure TimeSeries where
  labels : List Label
  values : List (Querier.TimeSeriesValue Float)
  deriving DecidableEq

inductive OrderDirection where
  | asc
  | desc
  | other (name : String)
  deriving DecidableEq

structure OrderBy where
  key : String
  direction : OrderDirection
  deriving DecidableEq

def DefaultOrderByKey : String := "__result"

/-! ## What a series is ordered by -/

def addPoint (s : Float × Float) (point : Querier.TimeSeriesValue Float) : Float × Float :=
  if point.value.isNaN || point.value.isInf then s else (s.1 + point.value, s.2 + 1)

def calculateSeriesValue (series : TimeSeries) : Float :=
  match series.values with
  | [] => 0
  | [point] => if point.value.isNaN || point.value.isInf then 0 else point.value
  | values =>
    let s := values.foldl addPoint (0, 0)
    if s.2 == 0 then 0 else s.1 / s.2

def stringsCompare (a b : String) : Int := if a = b then 0 else if a < b then -1 else 1

section
variable (formatFloat : Float → String)

/-- `formatFloat` is `strconv.FormatFloat` without an exponent. -/
def convertValueToString : Value → String
  | .string s => s
  | .int n => toString n.toInt
  | .int64 n => toString n.toInt
  | .float64 x => formatFloat x
  | .bool true => "true"
  | .bool false => "false"
  | .other => ""

/-- The labels of a series by name; a later one of a name wins. -/
def labelMap (series : TimeSeries) : GoMap String String :=
  series.labels.foldl (fun labelMap label =>
    match label.value with
    | .string strVal => labelMap.insert label.name strVal
    | value => labelMap.insert label.name (convertValueToString formatFloat value)) ∅

end

/-- `compareSeries`, over the values and the labels cached for the series. -/
def compareSeries (seriesI seriesJ : TimeSeries) (seriesValues : TimeSeries → Float)
    (seriesLabels : TimeSeries → GoMap String String) : List OrderBy → Bool
  | [] => false
  | order :: orderBy =>
    if order.key = DefaultOrderByKey then
      let valueI := seriesValues seriesI
      let valueJ := seriesValues seriesJ
      if valueI != valueJ then
        if order.direction = .asc then decide (valueI < valueJ) else decide (valueI > valueJ)
      else compareSeries seriesI seriesJ seriesValues seriesLabels orderBy
    else
      match (seriesLabels seriesI).lookup order.key, (seriesLabels seriesJ).lookup order.key with
      | none, some _ => true
      | some _, none => false
      | none, none => compareSeries seriesI seriesJ seriesValues seriesLabels orderBy
      | some labelI, some labelJ =>
        let comparison := stringsCompare labelI labelJ
        if comparison ≠ 0 then
          if order.direction = .asc then decide (comparison < 0) else decide (comparison > 0)
        else compareSeries seriesI seriesJ seriesValues seriesLabels orderBy

/-- The order of the values, from the greatest, where the query has none. -/
def effectiveOrderBy (orderBy : List OrderBy) : List OrderBy :=
  if orderBy.length = 0 then [⟨DefaultOrderByKey, .desc⟩] else orderBy

section
variable (formatFloat : Float → String)

def comesBefore (orderBy : List OrderBy) (seriesI seriesJ : TimeSeries) : Bool :=
  compareSeries seriesI seriesJ calculateSeriesValue (labelMap formatFloat) orderBy

def applySeriesLimit (series : List TimeSeries) (orderBy : List OrderBy) (limit : Int) : List TimeSeries :=
  if series.length = 0 then series
  else
    let orderBy := effectiveOrderBy orderBy
    let series := sortStableFunc (fun i j =>
      if comesBefore formatFloat orderBy i j then -1
      else if comesBefore formatFloat orderBy j i then 1
      else 0) series
    if limit > 0 ∧ (series.length : Int) > limit then series.take limit.toNat else series

end

/-! ## The value of a series is a number -/

/-- What the loop has: a sum that is a number, and a count that is zero or one that counting gets to. -/
def Counted (s : Float × Float) : Prop := s.1.isNaN = false ∧ (s.2 = 0 ∨ Float64.Counting s.2.toModel.unpack)

theorem counted_addPoint {s : Float × Float} (h : Counted s) (point : Querier.TimeSeriesValue Float) : Counted (addPoint s point) := by
  obtain ⟨hsum, hcount⟩ := h
  unfold addPoint
  split
  · exact ⟨hsum, hcount⟩
  · rename_i hvalue
    simp only [Bool.or_eq_true, not_or, Bool.not_eq_true] at hvalue
    refine ⟨Float64.isNaN_add hsum ((Float64.isFinite_iff _).2 hvalue), Or.inr ?_⟩
    rcases hcount with hzero | hcounting
    · rw [hzero]
      exact Float64.counting_one
    · exact Float64.counting_add_one hcounting

theorem counted_foldl (points : List (Querier.TimeSeriesValue Float)) : Counted (points.foldl addPoint (0, 0)) :=
  List.foldlRecOn points addPoint (motive := Counted) ⟨rfl, Or.inl rfl⟩ fun _ h point _ => counted_addPoint h point

theorem isNaN_calculateSeriesValue (series : TimeSeries) : (calculateSeriesValue series).isNaN = false := by
  unfold calculateSeriesValue
  split
  · rfl
  · split
    · rfl
    · rename_i hvalue
      simp only [Bool.or_eq_true, not_or, Bool.not_eq_true] at hvalue
      exact hvalue.1
  · obtain ⟨hsum, hcount⟩ := counted_foldl series.values
    dsimp only
    split
    · rfl
    · rename_i hne
      rcases hcount with hzero | ⟨m, e, hm, hunpack, _⟩
      · rw [hzero] at hne
        exact absurd (by decide) hne
      · exact Float64.isNaN_div hsum hunpack

/-! ## The order is a strict weak one -/

section
variable (formatFloat : Float → String)

def valueRank (series : TimeSeries) : Int ×ₗ Int ×ₗ Int := Float64.rank (calculateSeriesValue series).toModel.unpack

/-- The place of a series among the labels of a name: before all of them, where it has none. -/
def labelRank (name : String) (series : TimeSeries) : WithBot String := (labelMap formatFloat series).lookup name

def ByKey (order : OrderBy) (i j : TimeSeries) : Prop :=
  if order.key = DefaultOrderByKey then
    if order.direction = .asc then valueRank i < valueRank j else OrderDual.toDual (valueRank i) < OrderDual.toDual (valueRank j)
  else if order.direction = .asc then labelRank formatFloat order.key i < labelRank formatFloat order.key j
  else (labelRank formatFloat order.key i).map OrderDual.toDual < (labelRank formatFloat order.key j).map OrderDual.toDual

instance byKey_weak (order : OrderBy) : IsStrictWeakOrder TimeSeries (ByKey formatFloat order) := by
  unfold ByKey
  split_ifs
  · exact of_key valueRank
  · exact of_key fun series => OrderDual.toDual (valueRank series)
  · exact of_key (labelRank formatFloat order.key)
  · exact of_key fun series => (labelRank formatFloat order.key series).map OrderDual.toDual

theorem compareValues {x y : Float} (hx : x.isNaN = false) (hy : y.isNaN = false) (order : OrderBy) (rest : Bool) :
    (if x != y then if order.direction = .asc then decide (x < y) else decide (x > y) else rest) = true ↔
      (if order.direction = .asc then Float64.rank x.toModel.unpack < Float64.rank y.toModel.unpack
        else OrderDual.toDual (Float64.rank x.toModel.unpack) < OrderDual.toDual (Float64.rank y.toModel.unpack)) ∨
      Float64.rank x.toModel.unpack = Float64.rank y.toModel.unpack ∧ rest = true := by
  have heq := Float64.beq_iff hx hy
  have hlt := Float64.lt_iff hx hy
  have hgt := Float64.lt_iff hy hx
  by_cases hrank : Float64.rank x.toModel.unpack = Float64.rank y.toModel.unpack
  · have hne : (x != y) = false := by simp [bne, heq.2 hrank]
    simp [hne, hrank]
  · have hne : (x != y) = true := by simp [bne, mt heq.1 hrank]
    simp only [hne, hrank, if_true, false_and, or_false]
    split
    · simp [hlt]
    · simp [hgt]

theorem comesBefore_value {order : OrderBy} (hkey : order.key = DefaultOrderByKey) (orderBy : List OrderBy) (i j : TimeSeries) :
    comesBefore formatFloat (order :: orderBy) i j = true ↔
      Refined (ByKey formatFloat order) (fun i j => comesBefore formatFloat orderBy i j = true) i j := by
  unfold comesBefore
  rw [compareSeries, if_pos hkey]
  refine (compareValues (isNaN_calculateSeriesValue i) (isNaN_calculateSeriesValue j) order _).trans ?_
  by_cases hasc : order.direction = .asc
  · have hbyKey : ByKey formatFloat order = fun i j => valueRank i < valueRank j := by
      funext i j
      rw [ByKey, if_pos hkey, if_pos hasc]
    rw [hbyKey, refined_key valueRank, if_pos hasc]
    rfl
  · have hbyKey : ByKey formatFloat order = fun i j => OrderDual.toDual (valueRank i) < OrderDual.toDual (valueRank j) := by
      funext i j
      rw [ByKey, if_pos hkey, if_neg hasc]
    rw [hbyKey, refined_key (fun series => OrderDual.toDual (valueRank series)), if_neg hasc]
    rfl

theorem stringsCompare_lt (a b : String) : stringsCompare a b < 0 ↔ a < b := by
  unfold stringsCompare
  rcases lt_trichotomy a b with h | h | h
  · simp [h, h.ne]
  · simp [h]
  · simp [h.ne', h.not_gt]

theorem stringsCompare_gt (a b : String) : stringsCompare a b > 0 ↔ b < a := by
  unfold stringsCompare
  rcases lt_trichotomy a b with h | h | h
  · simp [h, h.ne, h.not_gt]
  · simp [h]
  · simp [h, h.ne', h.not_gt]

theorem stringsCompare_eq (a b : String) : stringsCompare a b = 0 ↔ a = b := by
  unfold stringsCompare
  split_ifs <;> simp [*]

theorem compareLabels (order : OrderBy) (x y : String) (rest : Bool) :
    (if stringsCompare x y ≠ 0 then
        if order.direction = .asc then decide (stringsCompare x y < 0) else decide (stringsCompare x y > 0)
      else rest) = true ↔
      (if order.direction = .asc then x < y else OrderDual.toDual x < OrderDual.toDual y) ∨ x = y ∧ rest = true := by
  by_cases heq : x = y
  · simp [stringsCompare_eq, heq]
  · rw [if_pos (mt (stringsCompare_eq x y).1 heq)]
    split
    · simp [stringsCompare_lt, heq]
    · simp [stringsCompare_gt, heq]

theorem comesBefore_label {order : OrderBy} (hkey : order.key ≠ DefaultOrderByKey) (orderBy : List OrderBy) (i j : TimeSeries) :
    comesBefore formatFloat (order :: orderBy) i j = true ↔
      Refined (ByKey formatFloat order) (fun i j => comesBefore formatFloat orderBy i j = true) i j := by
  have hlabels := compareLabels order
  by_cases hasc : order.direction = .asc
  · have hbyKey : ByKey formatFloat order = fun i j => labelRank formatFloat order.key i < labelRank formatFloat order.key j := by
      funext i j
      rw [ByKey, if_neg hkey, if_pos hasc]
    rw [hbyKey, refined_key (labelRank formatFloat order.key)]
    unfold comesBefore labelRank
    rw [compareSeries, if_neg hkey]
    cases (labelMap formatFloat i).lookup order.key with
    | none =>
      cases (labelMap formatFloat j).lookup order.key with
      | none => simp [WithBot.none_eq_bot]
      | some y => simp [WithBot.none_eq_bot, WithBot.some_eq_coe]
    | some x =>
      cases (labelMap formatFloat j).lookup order.key with
      | none => simp [WithBot.none_eq_bot, WithBot.some_eq_coe]
      | some y =>
        refine (hlabels x y _).trans ?_
        simp [hasc, WithBot.some_eq_coe]
  · have hbyKey : ByKey formatFloat order = fun i j => (labelRank formatFloat order.key i).map OrderDual.toDual <
        (labelRank formatFloat order.key j).map OrderDual.toDual := by
      funext i j
      rw [ByKey, if_neg hkey, if_neg hasc]
    rw [hbyKey, refined_key (fun series => (labelRank formatFloat order.key series).map OrderDual.toDual)]
    unfold comesBefore labelRank
    rw [compareSeries, if_neg hkey]
    cases (labelMap formatFloat i).lookup order.key with
    | none =>
      cases (labelMap formatFloat j).lookup order.key with
      | none => simp [WithBot.none_eq_bot]
      | some y => simp [WithBot.none_eq_bot, WithBot.some_eq_coe]
    | some x =>
      cases (labelMap formatFloat j).lookup order.key with
      | none => simp [WithBot.none_eq_bot, WithBot.some_eq_coe]
      | some y =>
        refine (hlabels x y _).trans ?_
        simp [hasc, WithBot.some_eq_coe]

instance comesBefore_weak (orderBy : List OrderBy) :
    IsStrictWeakOrder TimeSeries (fun i j => comesBefore formatFloat orderBy i j = true) := by
  induction orderBy with
  | nil =>
    have hnone : (fun i j => comesBefore formatFloat [] i j = true) = fun i j : TimeSeries => () < () := by
      funext i j
      simp [comesBefore, compareSeries]
    rw [hnone]
    exact of_key fun _ => ()
  | cons order orderBy ih =>
    have hcons : (fun i j => comesBefore formatFloat (order :: orderBy) i j = true) =
        Refined (ByKey formatFloat order) (fun i j => comesBefore formatFloat orderBy i j = true) := by
      funext i j
      by_cases hkey : order.key = DefaultOrderByKey
      · exact propext (comesBefore_value formatFloat hkey orderBy i j)
      · exact propext (comesBefore_label formatFloat hkey orderBy i j)
    rw [hcons]
    exact refined

/-! ## What is kept -/

/-- **The series are in a strict weak order, and what is kept is the first of them, sorted by it stably: none left out comes before
one that is kept.** -/
theorem applySeriesLimit_spec :
    (∀ orderBy, IsStrictWeakOrder TimeSeries (fun i j => comesBefore formatFloat orderBy i j = true)) ∧
    ∀ series orderBy limit, ∃ sorted,
      StablySorted (comesBefore formatFloat (effectiveOrderBy orderBy)) series sorted ∧
      applySeriesLimit formatFloat series orderBy limit = (if 0 < limit then sorted.take limit.toNat else sorted) ∧
      ∀ kept ∈ applySeriesLimit formatFloat series orderBy limit,
        ∀ dropped ∈ sorted.drop (applySeriesLimit formatFloat series orderBy limit).length,
          comesBefore formatFloat (effectiveOrderBy orderBy) dropped kept = false := by
  refine ⟨fun orderBy => comesBefore_weak formatFloat orderBy, fun series orderBy limit => ?_⟩
  have hsorted : StablySorted (comesBefore formatFloat (effectiveOrderBy orderBy)) series _ := stablySorted series
  have hsort : sortStableFunc (fun i j =>
      if comesBefore formatFloat (effectiveOrderBy orderBy) i j then -1
      else if comesBefore formatFloat (effectiveOrderBy orderBy) j i then 1
      else 0) series = sortStableFunc (threeWay (comesBefore formatFloat (effectiveOrderBy orderBy))) series := rfl
  have hresult : applySeriesLimit formatFloat series orderBy limit =
      if 0 < limit then (sortStableFunc (threeWay (comesBefore formatFloat (effectiveOrderBy orderBy))) series).take limit.toNat
      else sortStableFunc (threeWay (comesBefore formatFloat (effectiveOrderBy orderBy))) series := by
    unfold applySeriesLimit
    split
    · rename_i hempty
      rw [List.length_eq_zero_iff.1 hempty]
      simp [sortStableFunc]
    · dsimp only
      rw [hsort]
      split_ifs with hfull hlimit hlimit
      · rfl
      · exact absurd hfull.1 hlimit
      · rw [List.take_of_length_le (by omega)]
      · rfl
  refine ⟨_, hsorted, hresult, ?_⟩
  rw [hresult]
  split
  · exact hsorted.rest limit.toNat
  · simp

end

end SeriesLimit
end DsApm
