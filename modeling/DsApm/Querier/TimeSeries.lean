import Mathlib.Data.List.Sort
import Mathlib.Data.Set.Lattice
/-!
# TimeSeries — query results and what they say

The result types of `querybuildertypesv5`, over the type `V` of the values, and the points of a result: which value a
result gives for an aggregation, a label set and a timestamp.  The points are a set, so the order of maps and the split
into series, buckets and results do not matter to them.
-/
namespace DsApm
namespace Querier

/-! ## Labels -/

/-- The dynamic value of a label: a string, or a number by the text `%v` gives it. -/
inductive LabelValue where
  | text (s : String)
  | number (s : String)
  deriving DecidableEq, Repr

def LabelValue.format : LabelValue → String
  | .text s | .number s => s

structure Label where
  name : String
  value : LabelValue
  deriving DecidableEq, Repr

/-- The map a list of labels stands for; a later label of a name wins. -/
def labelSet (labels : List Label) (name : String) : Option LabelValue :=
  (labels.reverse.find? (fun l => decide (l.name = name))).map Label.value

def getUniqueSeriesKey (labels : List Label) : String :=
  match labels with
  | [] => ""
  | [l] => l.name ++ "=" ++ l.value.format ++ ","
  | _ =>
    let keys := (labels.map Label.name).eraseDups.insertionSort (· ≤ ·)
    String.join (keys.map (fun k => k ++ "=" ++ ((labelSet labels k).map LabelValue.format).getD "" ++ ","))

/-! ## Results -/

variable {V : Type}

structure TimeSeriesValue (V : Type) where
  timestamp : Nat
  value : V
  isPartial : Bool := false
  deriving DecidableEq, Repr

structure TimeSeries (V : Type) where
  labels : List Label
  values : List (TimeSeriesValue V)
  deriving DecidableEq, Repr

structure AggregationBucket (V : Type) where
  index : Int
  alias_ : String := ""
  unit : String := ""
  series : List (TimeSeries V) := []
  deriving DecidableEq, Repr

structure TimeSeriesData (V : Type) where
  queryName : String := ""
  aggregations : List (AggregationBucket V) := []
  deriving DecidableEq, Repr

structure ExecStats where
  rowsScanned : Nat := 0
  bytesScanned : Nat := 0
  durationMS : Nat := 0
  deriving DecidableEq, Repr

def ExecStats.add (a b : ExecStats) : ExecStats :=
  ⟨a.rowsScanned + b.rowsScanned, a.bytesScanned + b.bytesScanned, a.durationMS + b.durationMS⟩

inductive RequestType where
  | unknown | scalar | timeSeries | raw | rawStream | trace | distribution
  deriving DecidableEq, Repr

/-- What `Value any` holds: nothing, time series, or data of another request type. -/
inductive ResultValue (V : Type) where
  | nil
  | timeSeries (d : TimeSeriesData V)
  | other
  deriving DecidableEq, Repr

structure Result (V : Type) where
  type : RequestType
  value : ResultValue V
  stats : ExecStats := {}
  warnings : List String := []
  warningsDocURL : String := ""
  deriving DecidableEq, Repr

structure TimeRange where
  from_ : Nat
  to_ : Nat
  deriving DecidableEq, Repr

/-- `isPartialValue` of `readAsTimeSeries`: the interval at the timestamp is cut off by the query window. -/
def isPartialValue (stepMs : Nat) (queryWindow : Option TimeRange) (timestampMs : Nat) : Bool :=
  match queryWindow with
  | none => false
  | some w =>
    if stepMs = 0 then false
    else
      let firstCompleteInterval := if w.from_ % stepMs ≠ 0 then (w.from_ / stepMs + 1) * stepMs else w.from_
      if timestampMs < firstCompleteInterval then true
      else if timestampMs + stepMs > w.to_ then decide (w.to_ % stepMs ≠ 0)
      else false

def sortByTimestamp (vs : List (TimeSeriesValue V)) : List (TimeSeriesValue V) :=
  vs.insertionSort (fun a b => a.timestamp ≤ b.timestamp)

/-! ## Points -/

structure Point (V : Type) where
  index : Int
  labels : String → Option LabelValue
  timestamp : Nat
  value : V
  isPartial : Bool

def Point.SamePlace (p q : Point V) : Prop := p.index = q.index ∧ p.labels = q.labels ∧ p.timestamp = q.timestamp

def Functional (T : Set (Point V)) : Prop := ∀ p ∈ T, ∀ q ∈ T, p.SamePlace q → p = q

def TimeSeriesValue.point (index : Int) (labels : List Label) (x : TimeSeriesValue V) : Point V :=
  ⟨index, labelSet labels, x.timestamp, x.value, x.isPartial⟩

def TimeSeries.points (index : Int) (s : TimeSeries V) : Set (Point V) :=
  {p | ∃ x ∈ s.values, p = x.point index s.labels}

def AggregationBucket.points (b : AggregationBucket V) : Set (Point V) := {p | ∃ s ∈ b.series, p ∈ s.points b.index}

def TimeSeriesData.points (d : TimeSeriesData V) : Set (Point V) := {p | ∃ b ∈ d.aggregations, p ∈ b.points}

def ResultValue.points : ResultValue V → Set (Point V)
  | .timeSeries d => d.points
  | _ => ∅

def Result.points (r : Result V) : Set (Point V) := r.value.points

def TimeSeriesData.labelled (d : TimeSeriesData V) (L : Set (List Label)) : Prop :=
  ∀ b ∈ d.aggregations, ∀ s ∈ b.series, s.labels ∈ L

def Distinct (L : Set (List Label)) : Prop :=
  ∀ l ∈ L, ∀ l' ∈ L, getUniqueSeriesKey l = getUniqueSeriesKey l' → labelSet l = labelSet l'

theorem mem_points {index : Int} {s : TimeSeries V} {p : Point V} :
    p ∈ s.points index ↔ ∃ x ∈ s.values, p = x.point index s.labels := Iff.rfl

theorem points_congr_values {index : Int} {labels : List Label} {vs ws : List (TimeSeriesValue V)}
    (h : ∀ x, x ∈ vs ↔ x ∈ ws) : (TimeSeries.mk labels vs).points index = (TimeSeries.mk labels ws).points index := by
  ext p
  simp only [mem_points, h]

theorem points_sort (index : Int) (s : TimeSeries V) :
    ({ s with values := sortByTimestamp s.values } : TimeSeries V).points index = s.points index :=
  points_congr_values (fun _ => List.mem_insertionSort _)

end Querier
end DsApm
