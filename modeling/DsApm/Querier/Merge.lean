import DsApm.Querier.TimeSeries
/-!
# Merge — putting series together

`mergeTimeSeriesValues` of the bucket cache and `mergeTimeSeriesResults` of the querier add series to a map keyed by
aggregation index and series key; a value whose timestamp the series already has is dropped.  The map is a list in the
order of insertion (the order of a Go map is not specified).  What is dropped is a duplicate as long as all inputs agree,
that is, lie in one functional set of points: then a merge is the union of its inputs.
-/
namespace DsApm
namespace Querier

open List

variable {V : Type}

/-! ## The map -/

structure Entry (V : Type) where
  index : Int
  key : String
  series : TimeSeries V
  deriving DecidableEq, Repr

abbrev SeriesMap (V : Type) := List (Entry V)

def TimeSeries.absorb (existing s : TimeSeries V) : TimeSeries V :=
  { existing with
    values := existing.values ++
      s.values.filter (fun v => !existing.values.any (fun x => decide (x.timestamp = v.timestamp))) }

def addSeries (index : Int) (s : TimeSeries V) : SeriesMap V → SeriesMap V
  | [] => [⟨index, getUniqueSeriesKey s.labels, s⟩]
  | e :: m =>
    if e.index = index ∧ e.key = getUniqueSeriesKey s.labels then { e with series := e.series.absorb s } :: m
    else e :: addSeries index s m

def addBucket (m : SeriesMap V) (b : AggregationBucket V) : SeriesMap V :=
  b.series.foldl (fun m s => addSeries b.index s m) m

def addData (m : SeriesMap V) (d : TimeSeriesData V) : SeriesMap V := d.aggregations.foldl addBucket m

def seriesOf (m : SeriesMap V) (index : Int) : List (TimeSeries V) :=
  (m.filter (fun e => decide (e.index = index))).map
    (fun e => { e.series with values := sortByTimestamp e.series.values })

/-! ## The two merges -/

def mergeTimeSeriesValues (ds : List (TimeSeriesData V)) : TimeSeriesData V :=
  let m := ds.foldl addData []
  { aggregations := (m.map Entry.index).eraseDups.map (fun i => { index := i, series := seriesOf m i }) }

/-- The bucket whose alias and unit the merged one takes: the first cached one, or a fresh one that has any. -/
def metadataOf (index : Int) (cached fresh : List (AggregationBucket V)) : Option (AggregationBucket V) :=
  fresh.foldl
    (fun known b =>
      if b.index = index then (if b.alias_ ≠ "" ∨ b.unit ≠ "" then some b else known.or (some b)) else known)
    (cached.find? (fun b => decide (b.index = index)))

def ResultValue.timeSeries? : ResultValue V → Option (TimeSeriesData V)
  | .timeSeries d => some d
  | _ => none

def mergeTimeSeriesResults (cached : Option (TimeSeriesData V)) (fresh : List (Result V)) : TimeSeriesData V :=
  let freshTS := fresh.filterMap (fun r => r.value.timeSeries?)
  let cachedAggs := (cached.map TimeSeriesData.aggregations).getD []
  let freshAggs := freshTS.flatMap TimeSeriesData.aggregations
  let m := freshTS.foldl addData (cached.toList.foldl addData [])
  let indices := ((cachedAggs ++ freshAggs).map AggregationBucket.index).eraseDups
  { queryName := match cached with
      | some d => d.queryName
      | none => ((fresh.head?.bind (fun r => r.value.timeSeries?)).map TimeSeriesData.queryName).getD ""
    aggregations := indices.map (fun i =>
      { index := i, series := seriesOf m i
        alias_ := ((metadataOf i cachedAggs freshAggs).map AggregationBucket.alias_).getD ""
        unit := ((metadataOf i cachedAggs freshAggs).map AggregationBucket.unit).getD "" }) }

/-- `querier.mergeResults`; nothing stands for the nil result, and for a cached result of another kind, whose type
assertion panics. -/
def mergeResults (cached : Option (Result V)) (fresh : List (Result V)) : Option (Result V) :=
  match cached with
  | none => match fresh with
    | [] => none
    | [r] => some r
    | r :: _ => some
        { type := r.type, stats := r.stats, warnings := r.warnings, warningsDocURL := r.warningsDocURL
          value := if r.type = .timeSeries then .timeSeries (mergeTimeSeriesResults none fresh) else .nil }
  | some c =>
    if fresh = [] then some c
    else if c.type = .timeSeries then match c.value with
      | .timeSeries d => some { c with value := .timeSeries (mergeTimeSeriesResults (some d) fresh)
                                       warnings := c.warnings ++ fresh.flatMap Result.warnings }
      | _ => none
    else some { c with warnings := c.warnings ++ fresh.flatMap Result.warnings }

/-! ## The points of a map -/

namespace SeriesMap

def points (m : SeriesMap V) : Set (Point V) := {p | ∃ e ∈ m, p ∈ e.series.points e.index}

/-- Every entry is filed under its own key, has a known label list and aggregation index, and its points are in `T`. -/
structure Fits (L : Set (List Label)) (I : Set Int) (T : Set (Point V)) (m : SeriesMap V) : Prop where
  keyed : ∀ e ∈ m, e.key = getUniqueSeriesKey e.series.labels
  labelled : ∀ e ∈ m, e.series.labels ∈ L
  indexed : ∀ e ∈ m, e.index ∈ I
  sub : points m ⊆ T

end SeriesMap

open SeriesMap

variable {L : Set (List Label)} {I : Set Int} {T : Set (Point V)}

theorem points_cons (e : Entry V) (m : SeriesMap V) :
    SeriesMap.points (e :: m) = e.series.points e.index ∪ SeriesMap.points m := by
  ext p
  simp [SeriesMap.points]

theorem points_absorb (hT : Functional T) {index : Int} {e s : TimeSeries V}
    (hl : labelSet e.labels = labelSet s.labels) (he : e.points index ⊆ T) (hs : s.points index ⊆ T) :
    (e.absorb s).points index = e.points index ∪ s.points index := by
  ext p
  constructor
  · rintro ⟨x, hx, rfl⟩
    rcases mem_append.1 hx with hx | hx
    · exact .inl ⟨x, hx, rfl⟩
    · refine .inr ⟨x, (mem_filter.1 hx).1, ?_⟩
      simp only [TimeSeriesValue.point, TimeSeries.absorb, hl]
  · rintro (⟨x, hx, rfl⟩ | ⟨x, hx, rfl⟩)
    · exact ⟨x, mem_append_left _ hx, rfl⟩
    · by_cases hdup : e.values.any (fun y => decide (y.timestamp = x.timestamp)) = true
      · -- the timestamp is taken, by the same point
        obtain ⟨y, hy, ht⟩ := List.any_eq_true.1 hdup
        rw [decide_eq_true_eq] at ht
        have heq : y.point index e.labels = x.point index s.labels :=
          hT _ (he ⟨y, hy, rfl⟩) _ (hs ⟨x, hx, rfl⟩) ⟨rfl, hl, ht⟩
        rw [← heq]
        exact ⟨y, mem_append_left _ hy, rfl⟩
      · refine ⟨x, mem_append_right _ (mem_filter.2 ⟨hx, by simpa using hdup⟩), ?_⟩
        simp only [TimeSeriesValue.point, TimeSeries.absorb, hl]

theorem fits_nil : Fits L I T [] :=
  ⟨fun _ h => (by cases h), fun _ h => (by cases h), fun _ h => (by cases h), fun _ ⟨_, h, _⟩ => (by cases h)⟩

theorem fits_tail {e : Entry V} {m : SeriesMap V} (h : Fits L I T (e :: m)) : Fits L I T m :=
  ⟨fun e' he' => h.keyed e' (mem_cons_of_mem _ he'), fun e' he' => h.labelled e' (mem_cons_of_mem _ he'),
    fun e' he' => h.indexed e' (mem_cons_of_mem _ he'), fun p hp => h.sub (by rw [points_cons]; exact .inr hp)⟩

theorem fits_cons {e : Entry V} {m : SeriesMap V} (hkey : e.key = getUniqueSeriesKey e.series.labels)
    (hl : e.series.labels ∈ L) (hi : e.index ∈ I) (hp : e.series.points e.index ⊆ T) (h : Fits L I T m) :
    Fits L I T (e :: m) := by
  refine ⟨forall_mem_cons.2 ⟨hkey, h.keyed⟩, forall_mem_cons.2 ⟨hl, h.labelled⟩,
    forall_mem_cons.2 ⟨hi, h.indexed⟩, ?_⟩
  rw [points_cons]
  exact Set.union_subset hp h.sub

/-- **Adding a series adds its points.** -/
theorem addSeries_spec (hL : Distinct L) (hT : Functional T) (index : Int) (hi : index ∈ I) (s : TimeSeries V)
    (hl : s.labels ∈ L) (hs : s.points index ⊆ T) : ∀ m : SeriesMap V, Fits L I T m →
      Fits L I T (addSeries index s m) ∧
        SeriesMap.points (addSeries index s m) = SeriesMap.points m ∪ s.points index
  | [], h => by
    refine ⟨fits_cons rfl hl hi hs h, ?_⟩
    rw [addSeries, points_cons, Set.union_comm]
  | e :: m, h => by
    have hkey := h.keyed e mem_cons_self
    have hel := h.labelled e mem_cons_self
    have hei := h.indexed e mem_cons_self
    have hep : e.series.points e.index ⊆ T := fun p hp => h.sub (by rw [points_cons]; exact .inl hp)
    rw [addSeries]
    split
    · rename_i hsame
      obtain ⟨rfl, hk⟩ := hsame
      have hset := hL _ hel _ hl (hkey.symm.trans hk)
      have hpts := points_absorb hT hset hep hs
      refine ⟨fits_cons hkey hel hei ?_ (fits_tail h), ?_⟩
      · show (e.series.absorb s).points e.index ⊆ T
        rw [hpts]
        exact Set.union_subset hep hs
      · rw [points_cons, points_cons]
        show (e.series.absorb s).points e.index ∪ _ = _
        rw [hpts, Set.union_assoc, Set.union_assoc, Set.union_comm (s.points _)]
    · obtain ⟨hfits, hpts⟩ := addSeries_spec hL hT index hi s hl hs m (fits_tail h)
      refine ⟨fits_cons hkey hel hei hep hfits, ?_⟩
      rw [points_cons, points_cons, hpts, Set.union_assoc]

theorem foldl_spec {α : Type} (f : SeriesMap V → α → SeriesMap V) (pts : α → Set (Point V)) : ∀ (l : List α),
    (∀ x ∈ l, ∀ m, Fits L I T m → Fits L I T (f m x) ∧ SeriesMap.points (f m x) = SeriesMap.points m ∪ pts x) →
    ∀ m, Fits L I T m → Fits L I T (l.foldl f m) ∧
      SeriesMap.points (l.foldl f m) = SeriesMap.points m ∪ {p | ∃ x ∈ l, p ∈ pts x}
  | [], _, m, h => by
    refine ⟨h, ?_⟩
    ext p
    simp
  | x :: l, hf, m, h => by
    obtain ⟨hfits, hpts⟩ := hf x mem_cons_self m h
    obtain ⟨hfits', hpts'⟩ := foldl_spec f pts l (fun y hy => hf y (mem_cons_of_mem _ hy)) (f m x) hfits
    refine ⟨hfits', ?_⟩
    rw [foldl_cons, hpts', hpts]
    ext p
    simp only [Set.mem_union, Set.mem_ofPred_eq, exists_mem_cons_iff, or_assoc]

structure TimeSeriesData.Joins (d : TimeSeriesData V) (L : Set (List Label)) (I : Set Int) (T : Set (Point V)) : Prop where
  labelled : d.labelled L
  indexed : ∀ b ∈ d.aggregations, b.index ∈ I
  sub : d.points ⊆ T

theorem addData_spec (hL : Distinct L) (hT : Functional T) {d : TimeSeriesData V} (hd : d.Joins L I T) (m : SeriesMap V)
    (hm : Fits L I T m) : Fits L I T (addData m d) ∧ SeriesMap.points (addData m d) = SeriesMap.points m ∪ d.points := by
  refine foldl_spec addBucket AggregationBucket.points d.aggregations (fun b hb m hm => ?_) m hm
  refine foldl_spec (fun m s => addSeries b.index s m) (TimeSeries.points b.index) b.series (fun s hs m hm => ?_) m hm
  exact addSeries_spec hL hT b.index (hd.indexed b hb) s (hd.labelled b hb s hs)
    (fun p hp => hd.sub ⟨b, hb, s, hs, hp⟩) m hm

/-! ## The points of a merge -/

theorem points_grouped {m : SeriesMap V} (hm : Fits L I T m) {d : TimeSeriesData V} {indices : List Int}
    {mk : Int → AggregationBucket V} (hd : d.aggregations = indices.map mk)
    (hmk : ∀ i, (mk i).index = i ∧ (mk i).series = seriesOf m i) (hall : ∀ e ∈ m, e.index ∈ indices) :
    d.points = SeriesMap.points m ∧ d.labelled L := by
  constructor
  · ext p
    constructor
    · rintro ⟨b, hb, s, hs, hp⟩
      rw [hd] at hb
      obtain ⟨i, -, rfl⟩ := List.mem_map.1 hb
      rw [(hmk i).2] at hs
      obtain ⟨e, he, rfl⟩ := List.mem_map.1 hs
      obtain ⟨he, hei⟩ := mem_filter.1 he
      rw [decide_eq_true_eq] at hei
      rw [(hmk i).1, points_sort, ← hei] at hp
      exact ⟨e, he, hp⟩
    · rintro ⟨e, he, hp⟩
      refine ⟨mk e.index, ?_, { e.series with values := sortByTimestamp e.series.values }, ?_, ?_⟩
      · rw [hd]
        exact List.mem_map_of_mem (hall e he)
      · rw [(hmk e.index).2]
        exact List.mem_map.2 ⟨e, mem_filter.2 ⟨he, by simp⟩, rfl⟩
      · rw [(hmk e.index).1, points_sort]
        exact hp
  · intro b hb s hs
    rw [hd] at hb
    obtain ⟨i, -, rfl⟩ := List.mem_map.1 hb
    rw [(hmk i).2] at hs
    obtain ⟨e, he, rfl⟩ := List.mem_map.1 hs
    exact hm.labelled e (mem_filter.1 he).1

/-- **Merging the values of buckets that agree is their union.** -/
theorem mergeTimeSeriesValues_spec (hL : Distinct L) (hT : Functional T) {ds : List (TimeSeriesData V)}
    (hd : ∀ d ∈ ds, d.Joins L Set.univ T) :
    (mergeTimeSeriesValues ds).points = {p | ∃ d ∈ ds, p ∈ d.points} ∧ (mergeTimeSeriesValues ds).labelled L := by
  obtain ⟨hfits, hpts⟩ := foldl_spec addData TimeSeriesData.points ds
    (fun d hmem m hm => addData_spec hL hT (hd d hmem) m hm) [] fits_nil
  obtain ⟨hgroup, hlab⟩ := points_grouped hfits (d := mergeTimeSeriesValues ds) rfl (fun i => ⟨rfl, rfl⟩)
    (fun e he => by simpa using ⟨e, he, rfl⟩)
  refine ⟨?_, hlab⟩
  rw [hgroup, hpts]
  ext p
  simp [SeriesMap.points]

theorem timeSeries?_eq_some {v : ResultValue V} {d : TimeSeriesData V} : v.timeSeries? = some d ↔ v = .timeSeries d := by
  cases v <;> simp [ResultValue.timeSeries?]

theorem exists_timeSeries {fresh : List (Result V)} {p : Point V} :
    (∃ d ∈ fresh.filterMap (fun r => r.value.timeSeries?), p ∈ d.points) ↔ ∃ r ∈ fresh, p ∈ r.points := by
  constructor
  · rintro ⟨d, hd, hp⟩
    obtain ⟨r, hr, hrd⟩ := mem_filterMap.1 hd
    refine ⟨r, hr, ?_⟩
    rw [Result.points, timeSeries?_eq_some.1 hrd]
    exact hp
  · rintro ⟨r, hr, hp⟩
    unfold Result.points at hp
    cases hv : r.value with
    | timeSeries d =>
      rw [hv] at hp
      exact ⟨d, mem_filterMap.2 ⟨r, hr, timeSeries?_eq_some.2 hv⟩, hp⟩
    | nil | other => rw [hv] at hp; cases hp

/-- **Merging cached data and results that agree is their union.** -/
theorem mergeTimeSeriesResults_spec (hL : Distinct L) (hT : Functional T) (cached : Option (TimeSeriesData V))
    {fresh : List (Result V)} (hc : ∀ d ∈ cached, d.Joins L Set.univ T)
    (hf : ∀ r ∈ fresh, ∀ d, r.value = .timeSeries d → d.Joins L Set.univ T) :
    (mergeTimeSeriesResults cached fresh).points =
      {p | ∃ d ∈ cached, p ∈ d.points} ∪ {p | ∃ r ∈ fresh, p ∈ r.points} ∧
    (mergeTimeSeriesResults cached fresh).labelled L := by
  have hnarrow : ∀ {d : TimeSeriesData V} {J : Set Int}, d.Joins L Set.univ T → (∀ b ∈ d.aggregations, b.index ∈ J) →
      d.Joins L J T := fun h hJ => ⟨h.labelled, hJ, h.sub⟩
  set freshTS := fresh.filterMap (fun r => r.value.timeSeries?) with hfresh
  set aggs := (cached.map TimeSeriesData.aggregations).getD [] ++ freshTS.flatMap TimeSeriesData.aggregations with haggs
  have hcached : ∀ d ∈ cached.toList, d.Joins L {i | i ∈ (aggs.map AggregationBucket.index).eraseDups} T := by
    intro d hd
    refine hnarrow (hc d (Option.mem_toList.1 hd)) (fun b hb => ?_)
    have hmem : b ∈ aggs := by
      rw [haggs, Option.mem_toList.1 hd]
      exact mem_append_left _ hb
    simpa using ⟨b, hmem, rfl⟩
  have hfr : ∀ d ∈ freshTS, d.Joins L {i | i ∈ (aggs.map AggregationBucket.index).eraseDups} T := by
    intro d hd
    obtain ⟨r, hr, hrd⟩ := mem_filterMap.1 hd
    refine hnarrow (hf r hr d (timeSeries?_eq_some.1 hrd)) (fun b hb => ?_)
    have hmem : b ∈ aggs := mem_append_right _ (mem_flatMap.2 ⟨d, hd, hb⟩)
    simpa using ⟨b, hmem, rfl⟩
  obtain ⟨hfits, hpts⟩ := foldl_spec addData TimeSeriesData.points cached.toList
    (fun d hmem m hm => addData_spec hL hT (hcached d hmem) m hm) [] fits_nil
  obtain ⟨hfits', hpts'⟩ := foldl_spec addData TimeSeriesData.points freshTS
    (fun d hmem m hm => addData_spec hL hT (hfr d hmem) m hm) _ hfits
  obtain ⟨hgroup, hlab⟩ := points_grouped hfits' (d := mergeTimeSeriesResults cached fresh) rfl (fun i => ⟨rfl, rfl⟩)
    hfits'.indexed
  refine ⟨?_, hlab⟩
  rw [hgroup, hpts', hpts]
  ext p
  simp only [Set.mem_union, Set.mem_ofPred_eq, hfresh, exists_timeSeries, Option.mem_toList]
  simp [SeriesMap.points]

end Querier
end DsApm
