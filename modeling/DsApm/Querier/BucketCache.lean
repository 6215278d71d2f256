import DsApm.Lib.Align
import DsApm.Querier.Merge
/-!
# BucketCache — `bucket_cache.go`

The cache entry of one fingerprint: buckets of time series with the range each covers, and the warnings.  A bucket holds
the JSON of its data, of which `value` is the data that was written; only time series are ever stored.  Times are
milliseconds; of the `uint64` arithmetic only the subtraction that gives the flux boundary can wrap.
-/
namespace DsApm
namespace Querier

variable {V : Type}

structure CachedBucket (V : Type) where
  startMs : Nat
  endMs : Nat
  type : RequestType
  value : TimeSeriesData V
  stats : ExecStats := {}
  deriving DecidableEq, Repr

structure CachedData (V : Type) where
  buckets : List (CachedBucket V) := []
  warnings : List String := []
  deriving DecidableEq, Repr

/-- `currentMs - uint64(fluxInterval)`, which wraps below the epoch. -/
def fluxBoundary (fluxInterval now : Nat) : Nat :=
  if fluxInterval ≤ now then now - fluxInterval else now + 2 ^ 64 - fluxInterval

def sortByStart (buckets : List (CachedBucket V)) : List (CachedBucket V) :=
  buckets.insertionSort (fun a b => a.startMs ≤ b.startMs)

/-! ## The JSON of a bucket

`TimeSeriesValue.MarshalJSON` writes a number through `sanitizeValue`, which rounds it, and writes NaN and the infinities
as texts, which do not decode as numbers.  `reads` is the number that the decoder reads back. -/

def TimeSeriesValue.decoded (reads : V → Option V) (x : TimeSeriesValue V) : Option (TimeSeriesValue V) :=
  (reads x.value).map (fun v => { x with value := v })

def TimeSeries.decoded (reads : V → Option V) (s : TimeSeries V) : Option (TimeSeries V) :=
  (s.values.mapM (TimeSeriesValue.decoded reads)).map (fun vs => { s with values := vs })

def AggregationBucket.decoded (reads : V → Option V) (b : AggregationBucket V) : Option (AggregationBucket V) :=
  (b.series.mapM (TimeSeries.decoded reads)).map (fun ss => { b with series := ss })

/-- What `json.Unmarshal` makes of the JSON of a bucket; an error anywhere is an error of the whole. -/
def TimeSeriesData.decoded (reads : V → Option V) (d : TimeSeriesData V) : Option (TimeSeriesData V) :=
  (d.aggregations.mapM (AggregationBucket.decoded reads)).map (fun bs => { d with aggregations := bs })

/-! ## Missing ranges -/

def basicTail (flux endMs currentMs : Nat) : List TimeRange :=
  if currentMs < endMs then
    if currentMs < flux then ⟨currentMs, min endMs flux⟩ :: (if endMs > flux then [⟨flux, endMs⟩] else [])
    else [⟨currentMs, endMs⟩]
  else []

def basicGaps (flux startMs endMs : Nat) : Nat → List (CachedBucket V) → List TimeRange
  | currentMs, [] => basicTail flux endMs currentMs
  | currentMs, b :: bs =>
    if b.endMs ≤ startMs then basicGaps flux startMs endMs currentMs bs
    else if endMs ≤ b.startMs then basicTail flux endMs currentMs
    else
      (if currentMs < b.startMs then [⟨currentMs, min b.startMs endMs⟩] else []) ++
        basicGaps flux startMs endMs (max currentMs (min b.endMs endMs)) bs

def findMissingRangesBasic (flux : Nat) (buckets : List (CachedBucket V)) (startMs endMs : Nat) : List TimeRange :=
  basicGaps flux startMs endMs startMs (sortByStart buckets)

def stepTail (endMs currentMs : Nat) : List TimeRange := if currentMs < endMs then [⟨currentMs, endMs⟩] else []

def stepGaps (endMs stepMs : Nat) : Nat → List (CachedBucket V) → List TimeRange
  | currentMs, [] => stepTail endMs currentMs
  | currentMs, b :: bs =>
    if b.endMs ≤ currentMs then stepGaps endMs stepMs currentMs bs
    else if endMs ≤ b.startMs then stepTail endMs currentMs
    else
      let alignedBucketStart := if b.startMs % stepMs ≠ 0 then b.startMs - b.startMs % stepMs + stepMs else b.startMs
      let bucketEnd := min b.endMs endMs
      let bucketEnd := if bucketEnd % stepMs ≠ 0 ∧ bucketEnd < endMs then bucketEnd - bucketEnd % stepMs else bucketEnd
      (if currentMs < alignedBucketStart ∧ currentMs < endMs then [⟨currentMs, min alignedBucketStart endMs⟩] else []) ++
        stepGaps endMs stepMs (max currentMs bucketEnd) bs

/-- `findMissingRangesWithStep`; its branch for no buckets is the loop over none. -/
def findMissingRangesWithStep (flux : Nat) (buckets : List (CachedBucket V)) (startMs endMs stepMs : Nat) :
    List TimeRange :=
  if stepMs = 0 ∨ startMs + stepMs > endMs then findMissingRangesBasic flux buckets startMs endMs
  else
    let nextAggStart := startMs - startMs % stepMs + stepMs
    if startMs % stepMs ≠ 0 then
      ⟨startMs, min nextAggStart endMs⟩ :: stepGaps endMs stepMs nextAggStart (sortByStart buckets)
    else stepGaps endMs stepMs startMs (sortByStart buckets)

/-! ## Reading -/

def filterRelevantBuckets (buckets : List (CachedBucket V)) (startMs endMs : Nat) : List (CachedBucket V) :=
  sortByStart (buckets.filter (fun b => decide (b.endMs > startMs) && decide (b.startMs < endMs)))

/-- `mergeBuckets`, of at least one bucket; one that does not decode is passed over. -/
def mergeBuckets (reads : V → Option V) (first : CachedBucket V) (rest : List (CachedBucket V)) (warnings : List String) :
    Result V :=
  { type := first.type
    value := if first.type = .timeSeries then
        .timeSeries (mergeTimeSeriesValues ((first :: rest).filterMap (fun b => b.value.decoded reads)))
      else .nil
    stats := (first :: rest).foldl (fun t b => t.add b.stats) {}
    warnings := warnings }

def TimeSeriesData.filterTimestamps (keep : Nat → Bool) (d : TimeSeriesData V) : TimeSeriesData V :=
  { aggregations := (d.aggregations.map (fun b =>
      { b with series := b.series.map (fun s => { s with values := s.values.filter (fun v => keep v.timestamp) }) })).filter
        (fun b => !b.series.isEmpty) }

def filterResultToTimeRange (r : Result V) (startMs endMs : Nat) : Result V :=
  match r.type, r.value with
  | .timeSeries, .timeSeries d =>
    { type := r.type, stats := r.stats, warnings := r.warnings
      value := .timeSeries (d.filterTimestamps (fun t => decide (startMs ≤ t) && decide (t < endMs))) }
  | _, _ => r

def getMissRanges (reads : V → Option V) (fluxInterval now : Nat) (data : Option (CachedData V)) (window : TimeRange)
    (stepMs : Nat) : Option (Result V) × List TimeRange :=
  match data with
  | none => (none, [window])
  | some data =>
    let missing := findMissingRangesWithStep (fluxBoundary fluxInterval now) data.buckets window.from_ window.to_ stepMs
    match filterRelevantBuckets data.buckets window.from_ window.to_ with
    | [] => (none, missing)
    | b :: bs => (some (filterResultToTimeRange (mergeBuckets reads b bs data.warnings) window.from_ window.to_), missing)

/-! ## Storing -/

def TimeSeriesData.trim (boundary : Nat) (d : TimeSeriesData V) : TimeSeriesData V :=
  { aggregations := d.aggregations.map (fun b =>
      { index := b.index
        series := b.series.map (fun s =>
          { labels := s.labels, values := s.values.filter (fun v => !v.isPartial && decide (v.timestamp ≤ boundary)) }) }) }

/-- `trimResultToFluxBoundary`; nothing for a type that is not stored. -/
def trimResultToFluxBoundary (r : Result V) (boundary : Nat) : Option (Result V) :=
  match r.type with
  | .timeSeries =>
    some { type := r.type, stats := r.stats, warnings := r.warnings
           value := match r.value with
             | .timeSeries d => .timeSeries (d.trim boundary)
             | _ => .nil }
  | .raw | .scalar | .trace => none
  | _ => some { type := r.type, value := .nil, stats := r.stats, warnings := r.warnings }

/-- `isEmptyResult`: whether the result is empty, and whether because its data was filtered out. -/
def isEmptyResult (r : Result V) : Bool × Bool :=
  match r.value, r.type with
  | .timeSeries d, .timeSeries =>
    if d.aggregations = [] then (true, false)
    else if d.aggregations.all (fun b => b.series.isEmpty) then (true, true)
    else
      let hasValues := d.aggregations.any (fun b => b.series.any (fun s => !s.values.isEmpty))
      (!hasValues, !hasValues)
  | _, _ => (true, false)

def resultToBuckets (r : Result V) (startMs endMs : Nat) : List (CachedBucket V) :=
  if (isEmptyResult r).1 && !(isEmptyResult r).2 then []
  else match r.value with
    | .timeSeries d => [{ startMs := startMs, endMs := endMs, type := r.type, value := d, stats := r.stats }]
    | _ => []

def CachedBucket.sameRange (a b : CachedBucket V) : Bool := decide (a.startMs = b.startMs) && decide (a.endMs = b.endMs)

def setBucket (buckets : List (CachedBucket V)) (b : CachedBucket V) : List (CachedBucket V) :=
  buckets.filter (fun a => !a.sameRange b) ++ [b]

def mergeAndDeduplicateBuckets (existing fresh : List (CachedBucket V)) : List (CachedBucket V) :=
  sortByStart ((existing ++ fresh).foldl setBucket [])

def deduplicateWarnings (warnings : List String) : List String := warnings.eraseDups

/-- `Put`, given what `cache.Get` found: the data to store, if any. -/
def put (fluxInterval now : Nat) (existing : CachedData V) (window : TimeRange) (stepMs : Nat) (fresh : Result V) :
    Option (CachedData V) :=
  let boundary := fluxBoundary fluxInterval now
  if window.from_ ≥ boundary then none
  else
    let cachableEndMs := if window.to_ > boundary then boundary else window.to_
    match trimResultToFluxBoundary fresh cachableEndMs with
    | none => none
    | some trimmed =>
      let cachableStartMs := if stepMs > 0 ∧ window.from_ % stepMs ≠ 0 then (window.from_ / stepMs + 1) * stepMs
        else window.from_
      let cachableEndMs := if stepMs > 0 ∧ cachableEndMs % stepMs ≠ 0 then cachableEndMs / stepMs * stepMs
        else cachableEndMs
      if stepMs > 0 ∧ cachableStartMs ≥ cachableEndMs then none
      else
        let freshBuckets := resultToBuckets trimmed cachableStartMs cachableEndMs
        if freshBuckets = [] ∧ existing.buckets = [] then none
        else some
          { buckets := mergeAndDeduplicateBuckets existing.buckets freshBuckets
            warnings := deduplicateWarnings (existing.warnings ++ trimmed.warnings) }

end Querier
end DsApm
