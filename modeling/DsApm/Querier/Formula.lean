import DsApm.Lib.GoMap
import DsApm.Lib.Maxima
import DsApm.Querier.TimeSeries
import DsApm.Rules.Threshold
import Mathlib.Data.Finset.Sort
/-!
# Formula — expressions over the series of several queries

`FormulaEvaluator` of `querybuildertypesv5`.  The expression library is a parameter: the variables of an expression and its
value in an assignment.  Every loop over a map takes the order in which the map is ranged over, and the results come in the
order in which the goroutines finish.
-/
namespace DsApm
namespace Querier

open Latest
open Rules (Float64)

/-! ## The evaluator -/

inductive Output (V : Type) where
  | number (v : V)
  | other

/-- `govaluate.EvaluableExpression`: its variables, and its value where it has one. -/
structure Expression (V : Type) where
  vars : List String
  evaluate : (String → Option V) → Option (Output V)

structure AggregationRef where
  queryName : String
  index : Option Int
  alias_ : Option String
  deriving DecidableEq, Repr

/-- `A`, `A.0` and `A.my_alias`. -/
def parseAggregationReference (var : String) : Option AggregationRef :=
  match var.toList.splitOn '.' with
  | [queryName] => some { queryName := String.ofList queryName, index := some 0, alias_ := none }
  | [queryName, reference] =>
    match GoStd.atoi reference with
    | some index => some { queryName := String.ofList queryName, index := some index, alias_ := none }
    | none => some { queryName := String.ofList queryName, index := none, alias_ := some (String.ofList reference) }
  | _ => none

structure FormulaEvaluator (V : Type) where
  expression : Expression V
  vars : List String
  canDefaultZero : GoMap String Bool
  aggRefs : GoMap String AggregationRef

abbrev MapEntry (α : Type) := Sigma (fun _ : String => α)

def normalizeDefaults (fold : Char → Char) (visit : String → Visit (MapEntry Bool)) (vars : List String)
    (canDefaultZero : GoMap String Bool) : GoMap String Bool :=
  vars.foldl (fun m var => match canDefaultZero.lookup var with
    | some val => m.insert var val
    | none =>
      match ((visit var).order canDefaultZero.entries).find? (fun e => GoStd.equalFold fold e.1 var) with
      | some e => m.insert var e.2
      | none => m) ∅

def parseReferences : List String → GoMap String AggregationRef → Option (GoMap String AggregationRef)
  | [], aggRefs => some aggRefs
  | var :: vars, aggRefs =>
    match parseAggregationReference var with
    | none => none
    | some ref => parseReferences vars (aggRefs.insert var ref)

section
variable {V : Type}

def newFormulaEvaluator (parse : String → Option (Expression V)) (fold : Char → Char) (visit : String → Visit (MapEntry Bool))
    (expressionStr : String) (canDefaultZero : GoMap String Bool) : Option (FormulaEvaluator V) :=
  match parse expressionStr with
  | none => none
  | some expression =>
    match parseReferences expression.vars ∅ with
    | none => none
    | some aggRefs =>
      some { expression, aggRefs, vars := expression.vars
             canDefaultZero := normalizeDefaults fold visit expression.vars canDefaultZero }

/-! ## The series that are referenced -/

def findData (fold : Char → Char) (visit : Visit (MapEntry (TimeSeriesData V))) (timeSeriesData : GoMap String (TimeSeriesData V))
    (queryName : String) : Option (TimeSeriesData V) :=
  match timeSeriesData.lookup queryName with
  | some data => some data
  | none => ((visit.order timeSeriesData.entries).find? (fun e => GoStd.equalFold fold e.1 queryName)).map Sigma.snd

def findBucket (aggRef : AggregationRef) (data : TimeSeriesData V) : Option (AggregationBucket V) :=
  data.aggregations.find? (fun bucket =>
    decide (aggRef.index = some bucket.index) || decide (aggRef.alias_ = some bucket.alias_))

def targetSeries (fold : Char → Char) (visit : Visit (MapEntry (TimeSeriesData V)))
    (timeSeriesData : GoMap String (TimeSeriesData V)) (aggRef : AggregationRef) : List (TimeSeries V) :=
  match (findData fold visit timeSeriesData aggRef.queryName).bind (findBucket aggRef) with
  | some bucket => bucket.series
  | none => []

/-! ## The lookup -/

structure SeriesLookup (V : Type) where
  data : GoMap String (GoMap Nat V)
  seriesMetadata : GoMap String (TimeSeries V)

def buildSeriesKey (var : String) (seriesIndex : Nat) (labels : List Label) : String :=
  let sortedLabels := labels.insertionSort (fun a b => a.name ≤ b.name)
  "|".intercalate (var :: toString seriesIndex :: sortedLabels.map (fun l => l.name ++ "=" ++ l.value.format))

def storeValues (values : List (TimeSeriesValue V)) (m : GoMap Nat V) : GoMap Nat V :=
  values.foldl (fun m x => m.insert x.timestamp x.value) m

def SeriesLookup.add (lookup : SeriesLookup V) (seriesKey : String) (series : TimeSeries V) : SeriesLookup V :=
  match lookup.data.lookup seriesKey with
  | some m => { lookup with data := lookup.data.insert seriesKey (storeValues series.values m) }
  | none => { data := lookup.data.insert seriesKey (storeValues series.values ∅)
              seriesMetadata := lookup.seriesMetadata.insert seriesKey series }

structure Ranges (V : Type) where
  refs : Visit (MapEntry AggregationRef)
  metadata : String → Visit (MapEntry (TimeSeries V))

structure Orders (V : Type) where
  refs : Visit (MapEntry AggregationRef)
  queries : String → Visit (MapEntry (TimeSeriesData V))
  metadata : Visit (MapEntry (TimeSeries V))
  goroutines : Nat → Ranges V
  finished : Visit (TimeSeries V)

def buildSeriesLookup (fold : Char → Char) (o : Orders V) (fe : FormulaEvaluator V)
    (timeSeriesData : GoMap String (TimeSeriesData V)) : SeriesLookup V :=
  (o.refs.order fe.aggRefs.entries).foldl (fun lookup e =>
    (targetSeries fold (o.queries e.1) timeSeriesData e.2).zipIdx.foldl (fun lookup x =>
      lookup.add (buildSeriesKey e.1 x.2 x.1.labels) x.1) lookup) { data := ∅, seriesMetadata := ∅ }

/-! ## Label sets -/

/-- `==` on the values of two labels.  Numbers are compared as numbers, and `NaN` is not equal to itself. -/
def LabelValue.equal : LabelValue → LabelValue → Bool
  | .text a, .text b => a == b
  | .number a, .number b => a != "NaN" && (a == b || ((a == "0" || a == "-0") && (b == "0" || b == "-0")))
  | _, _ => false

def isSubset (labels1 labels2 : List Label) : Bool :=
  (labels2.map Label.name).all (fun k => match labelSet labels2 k, labelSet labels1 k with
    | some v, some val => val.equal v
    | some _, none => false
    | none, _ => true)

def findUniqueLabelSets (o : Orders V) (lookup : SeriesLookup V) : List (List Label) :=
  let allLabelSets := (o.metadata.order lookup.seriesMetadata.entries).map (fun e => e.2.labels)
  let sorted := allLabelSets.insertionSort (fun a b => b.length ≤ a.length)
  Maxima.scan (fun labelSet uniqueSet => isSubset uniqueSet labelSet) sorted

/-! ## One label set -/

/-- The data of the first series ranged over that is the variable's and whose labels are among the target's. -/
def matchingData (visit : Visit (MapEntry (TimeSeries V))) (lookup : SeriesLookup V) (targetLabels : List Label) (var : String) :
    Option (GoMap Nat V) :=
  (visit.order lookup.seriesMetadata.entries).findSome? (fun e =>
    if (var ++ "|").toList.isPrefixOf e.1.toList && isSubset targetLabels e.2.labels then lookup.data.lookup e.1 else none)

def variableData (g : Ranges V) (fe : FormulaEvaluator V) (lookup : SeriesLookup V) (targetLabels : List Label) :
    GoMap String (GoMap Nat V) × Finset Nat :=
  (g.refs.order fe.aggRefs.entries).foldl (fun acc e =>
    match matchingData (g.metadata e.1) lookup targetLabels e.1 with
    | some timestampData => (acc.1.insert e.1 timestampData, acc.2 ∪ timestampData.keys.toFinset)
    | none => acc) (∅, ∅)

def collectValues (vars : List String) (variableData : GoMap String (GoMap Nat V)) (timestamp : Nat) :
    GoMap String V × Nat :=
  vars.foldl (fun acc var => match (variableData.lookup var).bind (fun m => m.lookup timestamp) with
    | some value => (acc.1.insert var value, acc.2 + 1)
    | none => acc) (∅, 0)

variable [Float64 V]

def applyDefaults (fe : FormulaEvaluator V) (acc : GoMap String V × Nat) : GoMap String V × Nat :=
  fe.vars.foldl (fun acc var =>
    if (acc.1.lookup var).isNone && (fe.canDefaultZero.lookup var).getD false
    then (acc.1.insert var Float64.zero, acc.2 + 1) else acc) acc

/-- A value of the expression is kept when it is a number that is neither `NaN` nor infinite. -/
def Expression.valueIn (expression : Expression V) (values : String → Option V) : Option V :=
  match expression.evaluate values with
  | some (.number v) => if Float64.isNaN v || Float64.isInf v then none else some v
  | _ => none

def evaluateAt (fe : FormulaEvaluator V) (variableData : GoMap String (GoMap Nat V)) (timestamp : Nat) : Option V :=
  let values := applyDefaults fe (collectValues fe.vars variableData timestamp)
  if values.2 ≠ fe.vars.length then none else fe.expression.valueIn (fun var => values.1.lookup var)

def evaluateForLabelSet (g : Ranges V) (fe : FormulaEvaluator V) (lookup : SeriesLookup V) (targetLabels : List Label) :
    Option (TimeSeries V) :=
  let found := variableData g fe lookup targetLabels
  let resultValues := (found.2.sort (· ≤ ·)).filterMap (fun timestamp =>
    (evaluateAt fe found.1 timestamp).map (fun value => { timestamp, value : TimeSeriesValue V }))
  if resultValues.isEmpty then none else some { labels := targetLabels, values := resultValues }

def evaluateFormula (fold : Char → Char) (o : Orders V) (fe : FormulaEvaluator V)
    (timeSeriesData : GoMap String (TimeSeriesData V)) : List (TimeSeries V) :=
  let lookup := buildSeriesLookup fold o fe timeSeriesData
  let uniqueLabelSets := findUniqueLabelSets o lookup
  o.finished.order (uniqueLabelSets.zipIdx.filterMap (fun x => evaluateForLabelSet (o.goroutines x.2) fe lookup x.1))

end

end Querier
end DsApm
