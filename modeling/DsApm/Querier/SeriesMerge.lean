import DsApm.Lib.Lists
import DsApm.Lib.Gather
import DsApm.Querier.LabelSets
import DsApm.Querier.Merge
/-!
# SeriesMerge — which series a merge has

The merges of `Merge` file every series under its aggregation and the key of its labels, so a merge has one series for
each key.  Equal label sets have equal keys; where two label sets of an aggregation share a key, one of them is lost.  A
series that repeats a timestamp brings the repetition along, unless an earlier series had the timestamp.
-/
namespace DsApm
namespace Querier

open List

variable {V : Type}

abbrev Piece (V : Type) := Int × TimeSeries V

def TimeSeriesData.pieces (d : TimeSeriesData V) : List (Piece V) :=
  d.aggregations.flatMap (fun b => b.series.map (fun s => (b.index, s)))

def TimeSeries.timestamps (s : TimeSeries V) : List Nat := s.values.map TimeSeriesValue.timestamp

def Piece.SameSeries (p q : Piece V) : Prop := p.1 = q.1 ∧ labelSet p.2.labels = labelSet q.2.labels

def inputPieces (cached : Option (TimeSeriesData V)) (fresh : List (Result V)) : List (Piece V) :=
  (cached.toList ++ fresh.filterMap (fun r => r.value.timeSeries?)).flatMap TimeSeriesData.pieces

/-! ## What is asked of a merge -/

/-- `out` has the series of `pieces`, one for each aggregation and label set; where the first ones, `cached`, have a
timestamp, their value. -/
structure IsMerge (cached pieces : List (Piece V)) (out : TimeSeriesData V) : Prop where
  indices : (out.aggregations.map AggregationBucket.index).Nodup
  occurs : ∀ p ∈ out.pieces, ∃ q ∈ pieces, p.SameSeries q
  present : ∀ q ∈ pieces, ∃ p ∈ out.pieces, p.SameSeries q
  once : out.pieces.Pairwise (fun p q => ¬ p.SameSeries q)
  increasing : ∀ p ∈ out.pieces, p.2.timestamps.Pairwise (· < ·)
  timestamps : ∀ p ∈ out.pieces, ∀ t, t ∈ p.2.timestamps ↔ ∃ q ∈ pieces, p.SameSeries q ∧ t ∈ q.2.timestamps
  values : ∀ p ∈ out.pieces, ∀ x ∈ p.2.values, ∃ q ∈ pieces, p.SameSeries q ∧ x ∈ q.2.values
  cachedKept : ∀ p ∈ out.pieces, ∀ x ∈ p.2.values, (∃ q ∈ cached, p.SameSeries q ∧ x.timestamp ∈ q.2.timestamps) →
    ∃ q ∈ cached, p.SameSeries q ∧ x ∈ q.2.values

/-- Keys tell the label sets of an aggregation apart, and a timestamp that a series has twice was there before. -/
structure Mergeable (pieces : List (Piece V)) : Prop where
  keyed : ∀ p ∈ pieces, ∀ q ∈ pieces, p.1 = q.1 → getUniqueSeriesKey p.2.labels = getUniqueSeriesKey q.2.labels →
    labelSet p.2.labels = labelSet q.2.labels
  repeated : ∀ pre p, pre ++ [p] <+: pieces → ∀ t, 2 ≤ p.2.timestamps.count t →
    ∃ q ∈ pre, q.SameSeries p ∧ t ∈ q.2.timestamps

/-! ## Keys -/

theorem getUniqueSeriesKey_eq (l : List Label) : getUniqueSeriesKey l =
    String.join (((l.map Label.name).eraseDups.insertionSort (· ≤ ·)).map
      (fun k => k ++ "=" ++ ((labelSet l k).map LabelValue.format).getD "" ++ ",")) := by
  match l with
  | [] => rfl
  | [l] =>
    have hname : [l.name].eraseDups = [l.name] := by simp [eraseDups_cons]
    simp [getUniqueSeriesKey, labelSet, String.join, hname]
  | _ :: _ :: _ => rfl

theorem getUniqueSeriesKey_congr {l l' : List Label} (h : labelSet l = labelSet l') :
    getUniqueSeriesKey l = getUniqueSeriesKey l' := by
  have hnames : ∀ k, k ∈ l.map Label.name ↔ k ∈ l'.map Label.name := fun k => by
    rw [← labelSet_isSome_iff, ← labelSet_isSome_iff, h]
  rw [getUniqueSeriesKey_eq, getUniqueSeriesKey_eq, h, Dedup.sort_eraseDups_congr hnames]

def Piece.key (p : Piece V) : Int × String := (p.1, getUniqueSeriesKey p.2.labels)

theorem Piece.SameSeries.key_eq {p q : Piece V} (h : p.SameSeries q) : p.key = q.key :=
  Prod.ext h.1 (getUniqueSeriesKey_congr h.2)

theorem Mergeable.sameSeries {pieces : List (Piece V)} (h : Mergeable pieces) {p q : Piece V} (hp : p ∈ pieces)
    (hq : q ∈ pieces) (hkey : p.key = q.key) : p.SameSeries q := by
  obtain ⟨hindex, hlabels⟩ := Prod.ext_iff.1 hkey
  exact ⟨hindex, h.keyed p hp q hq hindex hlabels⟩

/-! ## Absorbing -/

@[simp] theorem absorb_labels (e s : TimeSeries V) : (e.absorb s).labels = e.labels := rfl

theorem mem_absorb {e s : TimeSeries V} {x : TimeSeriesValue V} :
    x ∈ (e.absorb s).values ↔ x ∈ e.values ∨ (x ∈ s.values ∧ x.timestamp ∉ e.timestamps) := by
  simp only [TimeSeries.absorb, TimeSeries.timestamps, mem_append, mem_filter, Bool.not_eq_true',
    List.any_eq_false, decide_eq_true_eq, List.mem_map, not_exists, not_and]

theorem timestamps_absorb (e s : TimeSeries V) :
    (e.absorb s).timestamps = e.timestamps ++ s.timestamps.filter (fun t => decide (t ∉ e.timestamps)) := by
  unfold TimeSeries.timestamps
  rw [TimeSeries.absorb, map_append, List.filter_map]
  congr 2
  refine filter_congr (fun x _ => ?_)
  rw [Bool.eq_iff_iff]
  simp [List.any_eq_false]

theorem nodup_timestamps_absorb {e s : TimeSeries V} : (e.absorb s).timestamps.Nodup ↔
    e.timestamps.Nodup ∧ ∀ t, 2 ≤ s.timestamps.count t → t ∈ e.timestamps := by
  rw [timestamps_absorb, nodup_append]
  have hnew : (s.timestamps.filter (fun t => decide (t ∉ e.timestamps))).Nodup ↔
      ∀ t, 2 ≤ s.timestamps.count t → t ∈ e.timestamps := by
    rw [nodup_iff_count_le_one]
    refine forall_congr' (fun t => ?_)
    by_cases ht : t ∈ e.timestamps
    · have hout : t ∉ s.timestamps.filter (fun t => decide (t ∉ e.timestamps)) := by simp [ht]
      rw [List.count_eq_zero.2 hout]
      simp [ht]
    · rw [count_filter (by simpa using ht)]
      simp only [ht, imp_false]
      omega
  rw [hnew]
  refine and_congr_right (fun _ => ⟨fun h => h.1, fun h => ⟨h, ?_⟩⟩)
  rintro t ht t' ht' rfl
  exact absurd ht (by simpa using (mem_filter.1 ht').2)

def collect (pieces : List (Piece V)) : Option (TimeSeries V) :=
  Gather.collected (fun p : Piece V => p.2) (fun e p => e.absorb p.2) pieces

theorem collect_concat (pieces : List (Piece V)) (p : Piece V) :
    collect (pieces ++ [p]) = some ((collect pieces).elim p.2 (fun e => e.absorb p.2)) :=
  Gather.collected_concat p pieces

theorem collect_eq_none {pieces : List (Piece V)} : collect pieces = none ↔ pieces = [] := Gather.collected_eq_none

/-- **What the pieces of a key make**: labels of one of them, their values, their timestamps. -/
theorem collect_spec {pieces : List (Piece V)} : ∀ {s : TimeSeries V}, collect pieces = some s →
    (∃ p ∈ pieces, s.labels = p.2.labels) ∧ (∀ x ∈ s.values, ∃ p ∈ pieces, x ∈ p.2.values) ∧
    (∀ t, t ∈ s.timestamps ↔ ∃ p ∈ pieces, t ∈ p.2.timestamps) ∧
    (s.timestamps.Nodup ↔ ∀ pre p, pre ++ [p] <+: pieces → ∀ t, 2 ≤ p.2.timestamps.count t →
      ∃ q ∈ pre, t ∈ q.2.timestamps) := by
  induction pieces using List.reverseRecOn with
  | nil => intro s h; cases h
  | append_singleton pieces p ih =>
    intro s h
    rw [collect_concat] at h
    cases hc : collect pieces with
    | none =>
      obtain rfl := collect_eq_none.1 hc
      obtain rfl : p.2 = s := by simpa [hc] using h
      refine ⟨⟨p, by simp, rfl⟩, fun x hx => ⟨p, by simp, hx⟩, fun t => by simp, ?_⟩
      rw [nodup_iff_count_le_one]
      constructor
      · intro hle pre q hpre t ht
        rw [nil_append, ← nil_append [p], prefix_concat_iff] at hpre
        rcases hpre with heq | hpre
        · obtain ⟨-, hlast⟩ := append_inj' heq rfl
          obtain rfl := List.singleton_inj.1 hlast
          have := hle t
          omega
        · simp at hpre
      · intro hrep t
        by_contra hc
        obtain ⟨q, hq, -⟩ := hrep [] p (prefix_rfl) t (by omega)
        cases hq
    | some e =>
      obtain ⟨hlabels, hvalues, htimes, hnodup⟩ := ih hc
      obtain rfl : e.absorb p.2 = s := by simpa [hc] using h
      refine ⟨?_, fun x hx => ?_, fun t => ?_, ?_⟩
      · obtain ⟨q, hq, hl⟩ := hlabels
        exact ⟨q, mem_append_left _ hq, hl⟩
      · rcases mem_absorb.1 hx with hx | ⟨hx, -⟩
        · obtain ⟨q, hq, hx⟩ := hvalues x hx
          exact ⟨q, mem_append_left _ hq, hx⟩
        · exact ⟨p, by simp, hx⟩
      · rw [timestamps_absorb, mem_append, mem_filter, decide_eq_true_eq, htimes t]
        simp only [mem_append, mem_singleton, or_and_right, exists_or, exists_eq_left]
        by_cases hold : ∃ q ∈ pieces, t ∈ q.2.timestamps
        · simp only [hold, true_or]
        · simp only [hold, false_or, not_false_eq_true, and_true]
      · rw [nodup_timestamps_absorb, hnodup]
        constructor
        · rintro ⟨hold, hnew⟩ pre q hpre t ht
          rcases prefix_concat_iff.1 hpre with heq | hpre
          · obtain ⟨hpieces, hlast⟩ := append_inj' heq rfl
            obtain rfl := List.singleton_inj.1 hlast
            subst hpieces
            exact (htimes t).1 (hnew t ht)
          · exact hold pre q hpre t ht
        · intro hrep
          refine ⟨fun pre q hpre => hrep pre q (hpre.trans (prefix_append _ _)), fun t ht => ?_⟩
          exact (htimes t).2 (hrep pieces p prefix_rfl t ht)

theorem collect_keeps {first rest : List (Piece V)} : ∀ {s : TimeSeries V}, collect (first ++ rest) = some s →
    ∀ x ∈ s.values, (∃ p ∈ first, x.timestamp ∈ p.2.timestamps) → ∃ p ∈ first, x ∈ p.2.values := by
  induction rest using List.reverseRecOn with
  | nil =>
    intro s h x hx _
    rw [append_nil] at h
    exact (collect_spec h).2.1 x hx
  | append_singleton rest p ih =>
    intro s h x hx htime
    rw [← List.append_assoc, collect_concat] at h
    cases hc : collect (first ++ rest) with
    | none =>
      obtain ⟨q, hq, -⟩ := htime
      rw [(append_eq_nil_iff.1 (collect_eq_none.1 hc)).1] at hq
      cases hq
    | some e =>
      obtain rfl : e.absorb p.2 = s := by simpa [hc] using h
      rcases mem_absorb.1 hx with hx | ⟨-, hnew⟩
      · exact ih hc x hx htime
      · obtain ⟨q, hq, ht⟩ := htime
        exact absurd (((collect_spec hc).2.2.1 _).2 ⟨q, mem_append_left _ hq, ht⟩) hnew

/-! ## The map -/

def Entry.filed (e : Entry V) : Int × String := (e.index, e.key)

def Entry.sorted (e : Entry V) : Piece V := (e.index, { e.series with values := sortByTimestamp e.series.values })

def mergeMap (pieces : List (Piece V)) : SeriesMap V := pieces.foldl (fun m p => addSeries p.1 p.2 m) []

theorem foldl_addData (ds : List (TimeSeriesData V)) (m : SeriesMap V) :
    ds.foldl addData m = (ds.flatMap TimeSeriesData.pieces).foldl (fun m p => addSeries p.1 p.2 m) m := by
  simp only [foldl_flatMap, TimeSeriesData.pieces, foldl_map]
  rfl

theorem addSeries_eq_add (p : Piece V) : ∀ m : SeriesMap V, (addSeries p.1 p.2 m).map (fun e => (e.filed, e.series)) =
    Gather.add Piece.key (fun p : Piece V => p.2) (fun e p => e.absorb p.2) p (m.map (fun e => (e.filed, e.series)))
  | [] => rfl
  | e :: m => by
    have hkey : (e.index = p.1 ∧ e.key = getUniqueSeriesKey p.2.labels) ↔ e.filed = p.key := Prod.mk_inj.symm
    rw [addSeries, map_cons, Gather.add]
    by_cases h : e.filed = p.key
    · rw [if_pos (hkey.2 h), if_pos h]
      rfl
    · rw [if_neg (fun hc => h (hkey.1 hc)), if_neg h, map_cons, addSeries_eq_add p m]

theorem mergeMap_eq_gather (pieces : List (Piece V)) : (mergeMap pieces).map (fun e => (e.filed, e.series)) =
    Gather.gather Piece.key (fun p : Piece V => p.2) (fun e p => e.absorb p.2) pieces := by
  induction pieces using List.reverseRecOn with
  | nil => rfl
  | append_singleton pieces p ih =>
    rw [Gather.gather_concat, ← ih, ← addSeries_eq_add, mergeMap, mergeMap, foldl_append]
    rfl

theorem nodup_filed (pieces : List (Piece V)) : ((mergeMap pieces).map Entry.filed).Nodup := by
  have hnodup : ((Gather.gather Piece.key (fun p : Piece V => p.2) (fun e p => e.absorb p.2) pieces).map Prod.fst).Nodup :=
    Gather.nodup_keys pieces
  rwa [← mergeMap_eq_gather, List.map_map] at hnodup

/-- **The entry of a key is what the pieces of the key make.** -/
theorem mem_mergeMap {pieces : List (Piece V)} {e : Entry V} :
    e ∈ mergeMap pieces ↔ collect (pieces.filter (fun p => decide (p.key = e.filed))) = some e.series := by
  have hinj : Function.Injective (fun e : Entry V => (e.filed, e.series)) := by
    rintro ⟨i, k, s⟩ ⟨i', k', s'⟩ h
    simp only [Entry.filed, Prod.mk.injEq] at h
    obtain ⟨⟨rfl, rfl⟩, rfl⟩ := h
    rfl
  rw [collect, ← Gather.mem_gather, ← mergeMap_eq_gather, List.mem_map_of_injective hinj]

theorem exists_entry {pieces : List (Piece V)} {q : Piece V} (hq : q ∈ pieces) :
    ∃ e ∈ mergeMap pieces, e.filed = q.key := by
  have hmem : q ∈ pieces.filter (fun p => decide (p.key = q.key)) := mem_filter.2 ⟨hq, by simp⟩
  cases hc : collect (pieces.filter (fun p => decide (p.key = q.key))) with
  | none => exact absurd (collect_eq_none.1 hc) (ne_nil_of_mem hmem)
  | some s => exact ⟨⟨q.key.1, q.key.2, s⟩, mem_mergeMap.2 hc, rfl⟩

theorem entry_labels {pieces : List (Piece V)} {e : Entry V} (he : e ∈ mergeMap pieces) :
    ∃ p ∈ pieces, p.key = e.filed ∧ e.sorted.SameSeries p := by
  obtain ⟨p, hp, hlabels⟩ := (collect_spec (mem_mergeMap.1 he)).1
  rw [mem_filter, decide_eq_true_eq] at hp
  refine ⟨p, hp.1, hp.2, (congrArg Prod.fst hp.2).symm, ?_⟩
  show labelSet e.series.labels = _
  rw [hlabels]

theorem sorted_key {pieces : List (Piece V)} {e : Entry V} (he : e ∈ mergeMap pieces) : e.sorted.key = e.filed := by
  obtain ⟨p, -, hp, hsame⟩ := entry_labels he
  rw [hsame.key_eq, hp]

theorem sorted_timestamps (e : Entry V) : e.sorted.2.timestamps.Pairwise (· < ·) ↔ e.series.timestamps.Nodup := by
  have hperm : e.sorted.2.timestamps.Perm e.series.timestamps := (perm_insertionSort _ _).map _
  have hle : e.sorted.2.timestamps.Pairwise (· ≤ ·) := by
    have htotal : Std.Total (fun a b : TimeSeriesValue V => a.timestamp ≤ b.timestamp) :=
      ⟨fun a b => Nat.le_total _ _⟩
    have htrans : IsTrans (TimeSeriesValue V) (fun a b => a.timestamp ≤ b.timestamp) := ⟨fun _ _ _ => Nat.le_trans⟩
    exact pairwise_map.2 (pairwise_insertionSort _ _)
  rw [← hperm.nodup_iff]
  constructor
  · exact fun h => h.imp Nat.ne_of_lt
  · exact fun h => (hle.and h).imp (fun ⟨hle, hne⟩ => Nat.lt_of_le_of_ne hle hne)

/-! ## The merge -/

structure Grouped (m : SeriesMap V) (out : TimeSeriesData V) (indices : List Int) : Prop where
  nodup : indices.Nodup
  index : out.aggregations.map AggregationBucket.index = indices
  pieces : out.pieces = indices.flatMap (fun i => (m.filter (fun e => decide (e.index = i))).map Entry.sorted)
  all : ∀ e ∈ m, e.index ∈ indices

theorem grouped_map {m : SeriesMap V} (out : TimeSeriesData V) {indices : List Int} {mk : Int → AggregationBucket V}
    (hnodup : indices.Nodup) (hout : out.aggregations = indices.map mk)
    (hmk : ∀ i, (mk i).index = i ∧ (mk i).series = seriesOf m i) (hall : ∀ e ∈ m, e.index ∈ indices) :
    Grouped m out indices where
  nodup := hnodup
  index := by
    rw [hout, List.map_map]
    exact map_id'' (fun i => (hmk i).1) indices
  pieces := by
    rw [TimeSeriesData.pieces, hout, flatMap_map]
    congr 1
    funext i
    rw [(hmk i).1, (hmk i).2, seriesOf, List.map_map]
    refine map_congr_left (fun e he => ?_)
    rw [mem_filter, decide_eq_true_eq] at he
    simp only [Entry.sorted, Function.comp_apply, he.2]
  all := hall

section Grouped

variable {pieces : List (Piece V)} {out : TimeSeriesData V} {indices : List Int}

theorem Grouped.mem_pieces {m : SeriesMap V} (h : Grouped m out indices) {p : Piece V} :
    p ∈ out.pieces ↔ ∃ e ∈ m, e.sorted = p := by
  rw [h.pieces, mem_flatMap]
  constructor
  · rintro ⟨i, -, hp⟩
    obtain ⟨e, he, rfl⟩ := List.mem_map.1 hp
    exact ⟨e, (mem_filter.1 he).1, rfl⟩
  · rintro ⟨e, he, rfl⟩
    exact ⟨e.index, h.all e he, List.mem_map_of_mem (mem_filter.2 ⟨he, by simp⟩)⟩

theorem Grouped.once (h : Grouped (mergeMap pieces) out indices) : out.pieces.Pairwise (fun p q => ¬ p.SameSeries q) := by
  have hentries : (mergeMap pieces).Pairwise (fun e e' => ¬ e.sorted.SameSeries e'.sorted) := by
    refine (pairwise_map.1 (nodup_filed pieces)).imp_of_mem (fun he he' hne hsame => hne ?_)
    rw [← sorted_key he, ← sorted_key he', hsame.key_eq]
  rw [h.pieces, pairwise_flatMap]
  refine ⟨fun i _ => pairwise_map.2 (hentries.filter _), h.nodup.imp (fun hne p hp q hq hsame => hne ?_)⟩
  obtain ⟨e, he, rfl⟩ := List.mem_map.1 hp
  obtain ⟨e', he', rfl⟩ := List.mem_map.1 hq
  rw [mem_filter, decide_eq_true_eq] at he he'
  rw [← he.2, ← he'.2]
  exact hsame.1

theorem Mergeable.sameSeries_iff (h : Mergeable pieces) {e : Entry V} (he : e ∈ mergeMap pieces) {q : Piece V}
    (hq : q ∈ pieces) : e.sorted.SameSeries q ↔ q.key = e.filed := by
  constructor
  · intro hsame
    rw [← hsame.key_eq, sorted_key he]
  · intro hkey
    obtain ⟨p, hp, hpkey, hsame⟩ := entry_labels he
    have hpq := h.sameSeries hp hq (hpkey.trans hkey.symm)
    exact ⟨hsame.1.trans hpq.1, hsame.2.trans hpq.2⟩

theorem mem_filed {e : Entry V} {q : Piece V} :
    q ∈ pieces.filter (fun p => decide (p.key = e.filed)) ↔ q ∈ pieces ∧ q.key = e.filed := by
  rw [mem_filter, decide_eq_true_eq]

theorem Mergeable.nodup_timestamps (h : Mergeable pieces) {e : Entry V} (he : e ∈ mergeMap pieces) :
    e.series.timestamps.Nodup := by
  refine (collect_spec (mem_mergeMap.1 he)).2.2.2.2 (fun pre p hpre t ht => ?_)
  obtain ⟨pre', hpre', rfl, hp⟩ := Gather.exists_prefix_of_filter hpre
  obtain ⟨q, hq, hsame, hqt⟩ := h.repeated pre' p hpre' t ht
  refine ⟨q, mem_filter.2 ⟨hq, ?_⟩, hqt⟩
  rw [hsame.key_eq]
  exact hp

theorem Mergeable.isMerge {cached rest : List (Piece V)} (h : Mergeable (cached ++ rest))
    (hg : Grouped (mergeMap (cached ++ rest)) out indices) : IsMerge cached (cached ++ rest) out where
  indices := hg.index ▸ hg.nodup
  occurs p hp := by
    obtain ⟨e, he, rfl⟩ := hg.mem_pieces.1 hp
    obtain ⟨q, hq, -, hsame⟩ := entry_labels he
    exact ⟨q, hq, hsame⟩
  present q hq := by
    obtain ⟨e, he, hkey⟩ := exists_entry hq
    exact ⟨e.sorted, hg.mem_pieces.2 ⟨e, he, rfl⟩, (h.sameSeries_iff he hq).2 hkey.symm⟩
  once := hg.once
  increasing p hp := by
    obtain ⟨e, he, rfl⟩ := hg.mem_pieces.1 hp
    exact (sorted_timestamps e).2 (h.nodup_timestamps he)
  timestamps p hp t := by
    obtain ⟨e, he, rfl⟩ := hg.mem_pieces.1 hp
    have hperm : e.sorted.2.timestamps.Perm e.series.timestamps := (perm_insertionSort _ _).map _
    rw [hperm.mem_iff, (collect_spec (mem_mergeMap.1 he)).2.2.1 t]
    refine exists_congr (fun q => ?_)
    rw [mem_filed, and_assoc]
    exact and_congr_right (fun hq => and_congr_left (fun _ => (h.sameSeries_iff he hq).symm))
  values p hp x hx := by
    obtain ⟨e, he, rfl⟩ := hg.mem_pieces.1 hp
    obtain ⟨q, hq, hx⟩ := (collect_spec (mem_mergeMap.1 he)).2.1 x ((mem_insertionSort _).1 hx)
    obtain ⟨hq, hkey⟩ := mem_filed.1 hq
    exact ⟨q, hq, (h.sameSeries_iff he hq).2 hkey, hx⟩
  cachedKept p hp x hx := by
    obtain ⟨e, he, rfl⟩ := hg.mem_pieces.1 hp
    rintro ⟨q, hq, hsame, ht⟩
    have hcollect := mem_mergeMap.1 he
    rw [filter_append] at hcollect
    have hin := fun q hq => h.sameSeries_iff he (mem_append_left rest (show q ∈ cached from hq))
    obtain ⟨q', hq', hx'⟩ := collect_keeps hcollect x ((mem_insertionSort _).1 hx)
      ⟨q, mem_filed.2 ⟨hq, (hin q hq).1 hsame⟩, ht⟩
    obtain ⟨hq', hkey⟩ := mem_filed.1 hq'
    exact ⟨q', hq', (hin q' hq').2 hkey, hx'⟩

theorem IsMerge.mergeable {cached : List (Piece V)} (h : IsMerge cached pieces out)
    (hg : Grouped (mergeMap pieces) out indices) : Mergeable pieces := by
  have hkeyed : ∀ p ∈ pieces, ∀ q ∈ pieces, p.key = q.key → p.SameSeries q := by
    -- both label sets have a series in the merge, from the one entry of their key
    intro p hp q hq hkey
    obtain ⟨p', hp', hpp⟩ := h.present p hp
    obtain ⟨q', hq', hqq⟩ := h.present q hq
    obtain ⟨e, he, rfl⟩ := hg.mem_pieces.1 hp'
    obtain ⟨e', he', rfl⟩ := hg.mem_pieces.1 hq'
    have hfiled : e.filed = e'.filed := by
      rw [← sorted_key he, ← sorted_key he', hpp.key_eq, hqq.key_eq, hkey]
    obtain rfl := inj_on_of_nodup_map (nodup_filed pieces) he he' hfiled
    exact ⟨hpp.1.symm.trans hqq.1, hpp.2.symm.trans hqq.2⟩
  refine ⟨fun p hp q hq hi hk => (hkeyed p hp q hq (Prod.ext hi hk)).2, fun pre p hpre t ht => ?_⟩
  have hp : p ∈ pieces := hpre.subset (by simp)
  obtain ⟨e, he, hkey⟩ := exists_entry hp
  have hnodup := (sorted_timestamps e).1 (h.increasing _ (hg.mem_pieces.2 ⟨e, he, rfl⟩))
  have hfilter := hpre.filter (fun q => decide (q.key = e.filed))
  have hlast : [p].filter (fun q => decide (q.key = e.filed)) = [p] := by simp [hkey]
  rw [filter_append, hlast] at hfilter
  obtain ⟨q, hq, hqt⟩ := (collect_spec (mem_mergeMap.1 he)).2.2.2.1 hnodup _ p hfilter t ht
  rw [mem_filter, decide_eq_true_eq] at hq
  exact ⟨q, hq.1, hkeyed q (hpre.subset (mem_append_left _ hq.1)) p hp (hq.2.trans hkey), hqt⟩

end Grouped

theorem inputPieces_eq (cached : Option (TimeSeriesData V)) (fresh : List (Result V)) :
    inputPieces cached fresh = cached.toList.flatMap TimeSeriesData.pieces ++
      (fresh.filterMap (fun r => r.value.timeSeries?)).flatMap TimeSeriesData.pieces := flatMap_append

theorem grouped_mergeTimeSeriesResults (cached : Option (TimeSeriesData V)) (fresh : List (Result V)) :
    ∃ indices, Grouped (mergeMap (inputPieces cached fresh)) (mergeTimeSeriesResults cached fresh) indices := by
  have hmap : (fresh.filterMap (fun r => r.value.timeSeries?)).foldl addData (cached.toList.foldl addData []) =
      mergeMap (inputPieces cached fresh) := by
    rw [foldl_addData, foldl_addData, mergeMap, inputPieces_eq, foldl_append]
  have hindexed : ∀ e ∈ mergeMap (inputPieces cached fresh),
      e.index ∈ ((((cached.map TimeSeriesData.aggregations).getD [] ++
        (fresh.filterMap (fun r => r.value.timeSeries?)).flatMap TimeSeriesData.aggregations).map
          AggregationBucket.index).eraseDups) := by
    intro e he
    obtain ⟨p, hp, -, hsame⟩ := entry_labels he
    have hindex : e.index = p.1 := hsame.1
    rw [mem_eraseDups, hindex]
    obtain ⟨d, hd, hp⟩ := mem_flatMap.1 hp
    obtain ⟨b, hb, hp⟩ := mem_flatMap.1 hp
    obtain ⟨s, -, rfl⟩ := List.mem_map.1 hp
    refine List.mem_map.2 ⟨b, ?_, rfl⟩
    rcases mem_append.1 hd with hd | hd
    · rw [Option.mem_toList] at hd
      rw [hd]
      exact mem_append_left _ hb
    · exact mem_append_right _ (mem_flatMap.2 ⟨d, hd, hb⟩)
  exact ⟨_, grouped_map (mergeTimeSeriesResults cached fresh) (Dedup.nodup_eraseDups _) rfl
    (fun i => ⟨rfl, by rw [hmap]⟩) hindexed⟩

/-- **`mergeTimeSeriesResults` merges exactly when the inputs are mergeable.** -/
theorem mergeTimeSeriesResults_isMerge_iff (cached : Option (TimeSeriesData V)) (fresh : List (Result V)) :
    IsMerge (cached.toList.flatMap TimeSeriesData.pieces) (inputPieces cached fresh) (mergeTimeSeriesResults cached fresh) ↔
      Mergeable (inputPieces cached fresh) := by
  obtain ⟨indices, hg⟩ := grouped_mergeTimeSeriesResults cached fresh
  constructor
  · exact fun h => h.mergeable hg
  · intro h
    rw [inputPieces_eq] at h hg ⊢
    exact h.isMerge hg

/-- **The same of `mergeTimeSeriesValues`**, the merge of the buckets of the cache. -/
theorem mergeTimeSeriesValues_isMerge_iff (ds : List (TimeSeriesData V)) :
    IsMerge [] (ds.flatMap TimeSeriesData.pieces) (mergeTimeSeriesValues ds) ↔ Mergeable (ds.flatMap TimeSeriesData.pieces) := by
  have hmap : ds.foldl addData [] = mergeMap (ds.flatMap TimeSeriesData.pieces) := foldl_addData ds []
  have hg := grouped_map (mergeTimeSeriesValues ds) (Dedup.nodup_eraseDups _) rfl
    (fun i => ⟨rfl, by rw [hmap]⟩)
    (fun e he => mem_eraseDups.2 (List.mem_map_of_mem (hmap ▸ he)))
  constructor
  · exact fun h => h.mergeable hg
  · intro h
    rw [← nil_append (ds.flatMap TimeSeriesData.pieces)] at h hg ⊢
    exact h.isMerge hg

def collidingFresh : List (Result Unit) :=
  [⟨.timeSeries, .timeSeries ⟨"A", [⟨0, "", "",
    [⟨[⟨"a", .text "x,b=y"⟩], [⟨1000, (), false⟩]⟩, ⟨[⟨"a", .text "x"⟩, ⟨"b", .text "y"⟩], [⟨2000, (), false⟩]⟩]⟩]⟩, {}, [], ""⟩]

/-- Two label sets under one key: a series is lost. -/
theorem collidingFresh_lost :
    ¬ IsMerge [] (inputPieces none collidingFresh) (mergeTimeSeriesResults none collidingFresh) := by
  intro h
  obtain ⟨indices, hg⟩ := grouped_mergeTimeSeriesResults none collidingFresh
  have hkey : getUniqueSeriesKey [⟨"a", .text "x,b=y"⟩] = getUniqueSeriesKey [⟨"a", .text "x"⟩, ⟨"b", .text "y"⟩] := by
    decide
  have hlabels := (h.mergeable hg).keyed (0, ⟨[⟨"a", .text "x,b=y"⟩], [⟨1000, (), false⟩]⟩) (by simp [inputPieces,
      collidingFresh, ResultValue.timeSeries?, TimeSeriesData.pieces])
    (0, ⟨[⟨"a", .text "x"⟩, ⟨"b", .text "y"⟩], [⟨2000, (), false⟩]⟩) (by simp [inputPieces, collidingFresh,
      ResultValue.timeSeries?, TimeSeriesData.pieces]) rfl hkey
  exact absurd (congrFun hlabels "b") (by decide)

end Querier
end DsApm
