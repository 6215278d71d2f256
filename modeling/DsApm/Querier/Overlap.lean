import DsApm.Querier.Transparency
/-!
# Overlap — cached values and missing ranges

Calls of `Put` and `GetMissRanges` on one fingerprint, over windows on step boundaries.  The missing ranges lie between
the buckets, so a value inside its bucket is in none of them.  `Put` keeps values up to the flux boundary, this included,
and then ends the bucket at the last step boundary before it: a whole value at that boundary is stored outside its bucket,
and is served although its range is missing.
-/
namespace DsApm
namespace Querier

open Align StepRun List

variable {V : Type} {stepMs : Nat}

/-! ## Timestamps -/

def TimeSeriesData.timed (d : TimeSeriesData V) (T : Set Nat) : Prop :=
  ∀ b ∈ d.aggregations, ∀ s ∈ b.series, ∀ x ∈ s.values, x.timestamp ∈ T

def SeriesMap.timed (m : SeriesMap V) (T : Set Nat) : Prop := ∀ e ∈ m, ∀ x ∈ e.series.values, x.timestamp ∈ T

variable {T : Set Nat}

variable {d : TimeSeriesData V}

theorem timed_iff : d.timed T ↔ ∀ p ∈ d.points, p.timestamp ∈ T := by
  constructor
  · rintro h p ⟨b, hb, s, hs, x, hx, rfl⟩
    exact h b hb s hs x hx
  · intro h b hb s hs x hx
    exact h (x.point b.index s.labels) ⟨b, hb, s, hs, x, hx, rfl⟩

theorem timed_addSeries {index : Int} {s : TimeSeries V} (hs : ∀ x ∈ s.values, x.timestamp ∈ T) : ∀ {m : SeriesMap V},
    SeriesMap.timed m T → SeriesMap.timed (addSeries index s m) T
  | [], _ => by
    intro e he
    rw [addSeries, mem_singleton] at he
    rw [he]
    exact hs
  | e :: m, h => by
    obtain ⟨he, hm⟩ := forall_mem_cons.1 h
    rw [addSeries]
    split
    · refine forall_mem_cons.2 ⟨fun x hx => ?_, hm⟩
      rcases mem_append.1 hx with hx | hx
      · exact he x hx
      · exact hs x (mem_filter.1 hx).1
    · exact forall_mem_cons.2 ⟨he, timed_addSeries hs hm⟩

theorem timed_addData (hd : d.timed T) {m : SeriesMap V} (hm : SeriesMap.timed m T) :
    SeriesMap.timed (addData m d) T := by
  refine List.foldlRecOn (motive := fun m => SeriesMap.timed m T) d.aggregations addBucket hm (fun m hm b hb => ?_)
  refine List.foldlRecOn (motive := fun m => SeriesMap.timed m T) b.series (fun m s => addSeries b.index s m) hm (fun m hm s hs => ?_)
  exact timed_addSeries (hd b hb s hs) hm

theorem timed_mergeTimeSeriesValues {ds : List (TimeSeriesData V)} (h : ∀ d ∈ ds, d.timed T) :
    (mergeTimeSeriesValues ds).timed T := by
  have hmap : SeriesMap.timed (ds.foldl addData []) T :=
    List.foldlRecOn (motive := fun m => SeriesMap.timed m T) ds addData (fun _ he => by cases he)
      (fun m hm d hd => timed_addData (h d hd) hm)
  intro b hb s hs x hx
  obtain ⟨i, -, rfl⟩ := List.mem_map.1 hb
  obtain ⟨e, he, rfl⟩ := List.mem_map.1 hs
  exact hmap e (mem_filter.1 he).1 x ((mem_insertionSort _).1 hx)

theorem timed_decoded {reads : V → Option V} {d' : TimeSeriesData V} (h : d.decoded reads = some d') (hd : d.timed T) :
    d'.timed T := by
  obtain ⟨bs, hbs, rfl⟩ := Option.map_eq_some_iff.1 h
  intro b' hb' s' hs' x' hx'
  obtain ⟨b, hb, hdb⟩ := MapM.mem_of_mapM hbs hb'
  obtain ⟨ss, hss, rfl⟩ := Option.map_eq_some_iff.1 hdb
  obtain ⟨s, hs, hds⟩ := MapM.mem_of_mapM hss hs'
  obtain ⟨xs, hxs, rfl⟩ := Option.map_eq_some_iff.1 hds
  obtain ⟨x, hx, hdx⟩ := MapM.mem_of_mapM hxs hx'
  obtain ⟨v, -, rfl⟩ := Option.map_eq_some_iff.1 hdx
  exact hd b hb s hs x hx

/-! ## Missing ranges lie between the buckets -/

def TimeRange.Beside (r : TimeRange) (b : CachedBucket V) : Prop := r.to_ ≤ b.startMs ∨ b.endMs ≤ r.from_

variable {endMs : Nat}

theorem stepTail_beside {currentMs : Nat} {r : TimeRange} (hr : r ∈ stepTail endMs currentMs) {b : CachedBucket V}
    (hb : endMs ≤ b.startMs) : r.Beside b := by
  unfold stepTail at hr
  split at hr
  · rw [mem_singleton.1 hr]
    exact .inl hb
  · cases hr

theorem stepGaps_beside : ∀ (bs : List (CachedBucket V)) (currentMs : Nat),
    (∀ b ∈ bs, b.Aligned stepMs) → bs.Pairwise (fun a b => a.startMs ≤ b.startMs) →
    (currentMs % stepMs = 0 ∨ endMs ≤ currentMs) →
    ∀ r ∈ stepGaps endMs stepMs currentMs bs, ∀ b ∈ bs, r.Beside b
  | [], _, _, _, _, _, _, _, hb => by cases hb
  | b :: bs, currentMs, hbs, hsorted, hcur, r, hr, b', hb' => by
    have hb := hbs b mem_cons_self
    have hrest := fun b'' hb'' => hbs b'' (mem_cons_of_mem _ hb'')
    obtain ⟨hfirst, hsorted'⟩ := pairwise_cons.1 hsorted
    have hle : ∀ b'' ∈ b :: bs, b.startMs ≤ b''.startMs := forall_mem_cons.2 ⟨le_rfl, hfirst⟩
    by_cases hend : b.endMs ≤ currentMs
    · rw [stepGaps, if_pos hend] at hr
      rcases mem_cons.1 hb' with rfl | hb'
      · -- the bucket is over where the loop stands
        have hclean := stepGaps_clean (w := ⟨currentMs, endMs⟩) bs currentMs hrest hcur le_rfl r hr
        exact .inr (hend.trans hclean.start)
      · exact stepGaps_beside bs currentMs hrest hsorted' hcur r hr b' hb'
    · by_cases hstart : endMs ≤ b.startMs
      · rw [stepGaps, if_neg hend, if_pos hstart] at hr
        exact stepTail_beside hr (hstart.trans (hle b' hb'))
      · rw [stepGaps_cons hb bs (by omega) (by omega)] at hr
        rcases mem_append.1 hr with hr | hr
        · split at hr
          · rw [mem_singleton.1 hr]
            exact .inl (hle b' hb')
          · cases hr
        · have hcur' : max currentMs (min b.endMs endMs) % stepMs = 0 ∨ endMs ≤ max currentMs (min b.endMs endMs) := by
            have hstop := hb.stop
            rcases le_total b.endMs endMs with he | he
            · rw [min_eq_left he, max_eq_right (by omega)]
              exact .inl hstop
            · exact .inr (by omega)
          rcases mem_cons.1 hb' with rfl | hb'
          · have hclean := stepGaps_clean (w := ⟨max currentMs (min b'.endMs endMs), endMs⟩) bs _ hrest hcur' le_rfl r hr
            have hstart' := hclean.start
            have hlt := hclean.lt
            have hstop := hclean.stop
            dsimp only at hstart' hstop
            exact .inr (by omega)
          · exact stepGaps_beside bs _ hrest hsorted' hcur' r hr b' hb'

theorem pairwise_sortByStart (bs : List (CachedBucket V)) :
    (sortByStart bs).Pairwise (fun a b => a.startMs ≤ b.startMs) := by
  have : Std.Total (fun a b : CachedBucket V => a.startMs ≤ b.startMs) := ⟨fun a b => le_total _ _⟩
  have : IsTrans (CachedBucket V) (fun a b => a.startMs ≤ b.startMs) := ⟨fun _ _ _ => le_trans⟩
  exact pairwise_insertionSort _ _

variable {w : TimeRange}

/-- **The missing ranges of a window on step boundaries are beside all buckets.** -/
theorem findMissingRangesWithStep_beside (hs : 0 < stepMs) (flux : Nat) {bs : List (CachedBucket V)}
    (hbs : ∀ b ∈ bs, b.Aligned stepMs) (hfrom : w.from_ % stepMs = 0) (hlong : w.from_ + stepMs ≤ w.to_) :
    ∀ r ∈ findMissingRangesWithStep flux bs w.from_ w.to_ stepMs, ∀ b ∈ bs, r.Beside b := by
  unfold findMissingRangesWithStep
  rw [if_neg (by omega)]
  dsimp only
  rw [if_neg (by simpa using hfrom)]
  intro r hr b hb
  exact stepGaps_beside _ _ (fun b hb => hbs b (mem_sortByStart.1 hb)) (pairwise_sortByStart bs) (.inl hfrom) r hr b
    (mem_sortByStart.2 hb)

/-! ## Serving -/

def CachedBucket.Inside (b : CachedBucket V) (stepMs : Nat) : Prop :=
  b.value.timed {ts | b.startMs ≤ ts ∧ ts + stepMs ≤ b.endMs}

/-- No value of the cached part has its timestamp in a range that is reported missing. -/
def Apart (out : Option (Result V) × List TimeRange) : Prop :=
  ∀ r, out.1 = some r → ∀ p ∈ r.points, ∀ m ∈ out.2, ¬ m.Holds p.timestamp

theorem timed_served {reads : V → Option V} {b : CachedBucket V} {bs : List (CachedBucket V)} {warnings : List String}
    (h : ∀ b' ∈ b :: bs, b'.value.timed T) {startMs : Nat} {p : Point V}
    (hp : p ∈ (filterResultToTimeRange (mergeBuckets reads b bs warnings) startMs endMs).points) :
    p.timestamp ∈ T ∧ startMs ≤ p.timestamp ∧ p.timestamp < endMs := by
  by_cases ht : b.type = .timeSeries
  · have hmerge : (mergeTimeSeriesValues ((b :: bs).filterMap (fun b => b.value.decoded reads))).timed T := by
      refine timed_mergeTimeSeriesValues (fun d hd => ?_)
      obtain ⟨b', hb', hdec⟩ := mem_filterMap.1 hd
      exact timed_decoded hdec (h b' hb')
    simp only [filterResultToTimeRange, mergeBuckets, ht, if_true, Result.points, ResultValue.points,
      points_filterTimestamps, Set.mem_ofPred_eq, Bool.and_eq_true, decide_eq_true_eq] at hp
    exact ⟨timed_iff.1 hmerge p hp.1, hp.2⟩
  · simp only [filterResultToTimeRange, mergeBuckets, if_neg ht] at hp
    split at hp
    · rename_i hv
      cases hv
    · cases hp

/-- **From buckets on step boundaries with their values inside, what is served is apart from what is missing.** -/
theorem apart_getMissRanges (hs : 0 < stepMs) {data : CachedData V}
    (haligned : ∀ b ∈ data.buckets, b.Aligned stepMs) (hinside : ∀ b ∈ data.buckets, b.Inside stepMs)
    (reads : V → Option V) (fluxInterval now : Nat) (hfrom : w.from_ % stepMs = 0)
    (hto : w.to_ % stepMs = 0) : Apart (getMissRanges reads fluxInterval now (some data) w stepMs) := by
  intro r hr p hp m hm
  unfold getMissRanges at hr hm
  dsimp only at hr hm
  cases hrel : filterRelevantBuckets data.buckets w.from_ w.to_ with
  | nil => rw [hrel] at hr; cases hr
  | cons b bs =>
    rw [hrel] at hr hm
    dsimp only at hr hm
    rw [← Option.some.inj hr] at hp
    have hmem : ∀ b' ∈ b :: bs, b' ∈ data.buckets := fun b' hb' =>
      (mem_filterRelevantBuckets.1 (by rw [hrel]; exact hb')).1
    have htimed : ∀ b' ∈ b :: bs,
        b'.value.timed {ts | ∃ b ∈ data.buckets, b.startMs ≤ ts ∧ ts + stepMs ≤ b.endMs} := fun b' hb' a ha s hs x hx =>
      ⟨b', hmem b' hb', hinside b' (hmem b' hb') a ha s hs x hx⟩
    obtain ⟨⟨b', hb', hstart, hstop⟩, hlo, hhi⟩ := timed_served htimed hp
    rintro ⟨hmlo, hmhi⟩
    by_cases hlong : w.from_ + stepMs ≤ w.to_
    · rcases findMissingRangesWithStep_beside hs _ haligned hfrom hlong m hm b' hb' with h | h <;> omega
    · -- a window of whole steps that is shorter than one is empty
      have := le_of_lt_add hto hfrom (by omega)
      omega

/-! ## Runs of calls -/

inductive CacheCall (V : Type) where
  | put (c : Call) (fresh : Result V)
  | getMissRanges (c : Call)
  | evict

def cacheStep (S : Setup V) (entry : Option (CachedData V)) :
    CacheCall V → Option (CachedData V) × Option (Option (Result V) × List TimeRange)
  | .put c fresh => (store S c entry fresh, none)
  | .getMissRanges c => (entry, some (getMissRanges S.reads S.fluxInterval c.now (c.seen entry) c.window S.stepMs))
  | .evict => (none, none)

def CacheCall.Aligned (stepMs : Nat) : CacheCall V → Prop
  | .put c _ | .getMissRanges c => c.window.from_ % stepMs = 0 ∧ c.window.to_ % stepMs = 0
  | .evict => True

def EveryBucket (P : CachedBucket V → Prop) (entry : Option (CachedData V)) : Prop :=
  ∀ data, entry = some data → ∀ b ∈ data.buckets, P b

/-- The buckets hold their values inside at every moment, and no call is served a value in a missing range. -/
def NeverOverlap (S : Setup V) (calls : List (CacheCall V)) : Prop :=
  (∀ pre, pre <+: calls → EveryBucket (CachedBucket.Inside · S.stepMs) (final (cacheStep S) none pre)) ∧
  ∀ x ∈ trace (cacheStep S) none calls, ∀ out, x.2.2 = some out → Apart out

/-- The condition on a call: a `Put` that writes gets no whole value, up to the end it may keep, that is before its
window or within the last step before that end rounded down. -/
def Clear (S : Setup V) : CacheCall V → Prop
  | .put c fresh =>
    c.setFails = false → c.window.from_ < c.flux S →
    roundUp S.stepMs c.window.from_ < roundDown S.stepMs (c.cachableEnd S) → fresh.type = .timeSeries →
    ∀ p ∈ fresh.points, p.isPartial = false → p.timestamp ≤ c.cachableEnd S →
      roundUp S.stepMs c.window.from_ ≤ p.timestamp ∧ p.timestamp + S.stepMs ≤ roundDown S.stepMs (c.cachableEnd S)
  | _ => True

variable {S : Setup V}

variable {c : Call} {fresh : Result V} {entry : Option (CachedData V)}

theorem EveryBucket.store {P : CachedBucket V → Prop} (hs : 0 < S.stepMs) (hentry : EveryBucket P entry)
    (hnew : c.setFails = false → c.window.from_ < c.flux S →
      roundUp S.stepMs c.window.from_ < roundDown S.stepMs (c.cachableEnd S) → fresh.type = .timeSeries →
      ∀ d, fresh.value = .timeSeries d → P
        { startMs := roundUp S.stepMs c.window.from_, endMs := roundDown S.stepMs (c.cachableEnd S), type := .timeSeries
          value := d.trim (c.cachableEnd S), stats := fresh.stats }) :
    EveryBucket P (store S c entry fresh) := by
  have hold : ∀ b ∈ ((if c.putGetFails then none else entry).getD {}).buckets, P b := by
    intro b hb
    split at hb
    · cases hb
    · cases he : entry with
      | none => rw [he] at hb; cases hb
      | some data => rw [he] at hb; exact hentry data he b hb
  unfold Querier.store
  cases hput : put S.fluxInterval c.now ((if c.putGetFails then none else entry).getD {}) c.window S.stepMs fresh with
  | none => exact hentry
  | some data =>
    cases hset : c.setFails with
    | true => exact hentry
    | false =>
      intro data' hd b hb
      cases hd
      obtain ⟨hfrom, hroom, trimmed, htrim, hbuckets⟩ := put_eq_some hs hput
      rw [hbuckets] at hb
      rcases mem_mergeAndDeduplicateBuckets hb with hb | hb
      · exact hold b hb
      · obtain ⟨ht, d, hd, -, rfl⟩ := (mem_resultToBuckets htrim).1 hb
        exact hnew hset hfrom hroom ht d hd

theorem inside_trim (hd : fresh.value = .timeSeries d)
    {startMs : Nat} {type : RequestType} {stats : ExecStats} :
    CachedBucket.Inside { startMs := startMs, endMs := endMs, type := type, value := d.trim (c.cachableEnd S), stats := stats }
        S.stepMs ↔
      ∀ p ∈ fresh.points, p.isPartial = false → p.timestamp ≤ c.cachableEnd S →
        startMs ≤ p.timestamp ∧ p.timestamp + S.stepMs ≤ endMs := by
  unfold CachedBucket.Inside
  rw [timed_iff, points_trim, Result.points, hd]
  exact ⟨fun h p hp hw hle => h p ⟨hp, hw, hle⟩, fun h p hp => h p hp.1 hp.2.1 hp.2.2⟩

theorem mem_mergeAndDeduplicateBuckets_new (existing : List (CachedBucket V)) (b : CachedBucket V) :
    b ∈ mergeAndDeduplicateBuckets existing [b] := by
  rw [mergeAndDeduplicateBuckets, mem_sortByStart, foldl_append]
  exact mem_append_right _ mem_cons_self

theorem mem_store (hs : 0 < S.stepMs) (entry : Option (CachedData V))
    (hset : c.setFails = false) (hfrom : c.window.from_ < c.flux S)
    (hroom : roundUp S.stepMs c.window.from_ < roundDown S.stepMs (c.cachableEnd S)) (htype : fresh.type = .timeSeries) (hd : fresh.value = .timeSeries d) (hne : d.aggregations ≠ []) :
    ∃ data, store S c entry fresh = some data ∧
      ({ startMs := roundUp S.stepMs c.window.from_, endMs := roundDown S.stepMs (c.cachableEnd S), type := .timeSeries
         value := d.trim (c.cachableEnd S), stats := fresh.stats } : CachedBucket V) ∈ data.buckets := by
  have htrim : trimResultToFluxBoundary fresh (c.cachableEnd S) =
      some { type := .timeSeries, stats := fresh.stats, warnings := fresh.warnings
             value := .timeSeries (d.trim (c.cachableEnd S)) } := by
    unfold trimResultToFluxBoundary
    rw [htype, hd]
  have hbuckets := resultToBuckets_trimmed (V := V)
    (r := { type := .timeSeries, stats := fresh.stats, warnings := fresh.warnings
            value := .timeSeries (d.trim (c.cachableEnd S)) }) rfl rfl
    (roundUp S.stepMs c.window.from_) (roundDown S.stepMs (c.cachableEnd S))
  rw [if_neg (fun h => hne (trim_aggregations_eq_nil.1 h))] at hbuckets
  unfold store
  rw [put_eq hs, if_neg (by omega), htrim]
  dsimp only
  rw [hbuckets, if_neg (by omega), if_neg (fun h => cons_ne_nil _ _ h.1)]
  dsimp only
  rw [hset]
  exact ⟨_, rfl, mem_mergeAndDeduplicateBuckets_new _ _⟩

/-- **A call keeps every bucket on step boundaries.** -/
theorem aligned_cacheStep (hs : 0 < S.stepMs) (a : CacheCall V)
    (h : EveryBucket (CachedBucket.Aligned · S.stepMs) entry) :
    EveryBucket (CachedBucket.Aligned · S.stepMs) (cacheStep S entry a).1 := by
  cases a with
  | put c fresh => exact h.store hs (fun _ _ _ _ _ _ => ⟨roundUp_mod _ _, roundDown_mod _ _⟩)
  | getMissRanges c => exact h
  | evict => exact fun _ hd => by cases hd

/-- **A call keeps the values inside their buckets exactly when it is clear.** -/
theorem inside_cacheStep (hs : 0 < S.stepMs) (a : CacheCall V)
    (h : EveryBucket (CachedBucket.Inside · S.stepMs) entry) :
    EveryBucket (CachedBucket.Inside · S.stepMs) (cacheStep S entry a).1 ↔ Clear S a := by
  cases a with
  | getMissRanges c => exact ⟨fun _ => trivial, fun _ => h⟩
  | evict => exact ⟨fun _ => trivial, fun _ _ hd => by cases hd⟩
  | put c fresh =>
    constructor
    · intro hafter hset hfrom hroom htype p hp hw hle
      obtain ⟨d, hd⟩ : ∃ d, fresh.value = .timeSeries d := by
        unfold Result.points at hp
        cases hv : fresh.value with
        | timeSeries d => exact ⟨d, rfl⟩
        | nil | other => rw [hv] at hp; cases hp
      have hne : d.aggregations ≠ [] := by
        rw [Result.points, hd] at hp
        obtain ⟨b, hb, -⟩ := hp
        exact ne_nil_of_mem hb
      obtain ⟨data, hdata, hmem⟩ := mem_store hs entry hset hfrom hroom htype hd hne
      exact (inside_trim hd).1 (hafter data hdata _ hmem) p hp hw hle
    · intro hclear
      refine h.store hs (fun hset hfrom hroom htype d hd => ?_)
      exact (inside_trim hd).2 (hclear hset hfrom hroom htype)

/-- **Cached values and missing ranges.** Over windows on step boundaries the buckets hold their values inside, and what
is served is apart from what is missing, exactly when every call is clear. -/
theorem neverOverlap_iff (S : Setup V) (hs : 0 < S.stepMs) (calls : List (CacheCall V))
    (haligned : ∀ a ∈ calls, a.Aligned S.stepMs) : NeverOverlap S calls ↔ ∀ a ∈ calls, Clear S a := by
  have hempty : ∀ P : CachedBucket V → Prop, EveryBucket P none := fun _ _ h => by cases h
  have hinside := inv_throughout_iff (cacheStep S) (EveryBucket (CachedBucket.Inside · S.stepMs)) (fun _ => Clear S)
    (fun _ => True) (fun _ a _ h => inside_cacheStep hs a h) calls none (fun _ _ => trivial) (hempty _)
  rw [forall_mem_trace_action] at hinside
  unfold NeverOverlap
  rw [hinside, and_iff_left_iff_imp]
  intro hclear x hx out hout
  obtain ⟨pre, post, rfl, hst, hstep⟩ := (mem_trace (cacheStep S) calls none x).1 hx
  have hin := hinside.2 hclear pre (prefix_append _ _)
  have hal : EveryBucket (CachedBucket.Aligned · S.stepMs) (final (cacheStep S) none pre) :=
    final_inv (cacheStep S) _ (fun _ _ => True) (fun _ a _ h => aligned_cacheStep hs a h) pre none
      (fun _ _ => trivial) (hempty _)
  rw [← hst] at hin hal
  rw [hout] at hstep
  cases hcall : x.2.1 with
  | put c fresh => rw [hcall] at hstep; cases hstep
  | evict => rw [hcall] at hstep; cases hstep
  | getMissRanges c =>
    rw [hcall] at hstep
    cases hstep
    have hwindow := haligned x.2.1 (by simp)
    rw [hcall] at hwindow
    cases hseen : c.seen x.1 with
    | none => exact fun _ hr => by cases hr
    | some data =>
      have hentry : x.1 = some data := by
        unfold Call.seen at hseen
        split at hseen
        · cases hseen
        · exact hseen
      exact apart_getMissRanges hs (hal data hentry) (hin data hentry) _ _ _ hwindow.1 hwindow.2

/-! ## What queries give -/

/-- For a result with its values on step boundaries in the window, a `Put` is clear unless the flux boundary is in the
window, after its first step, with a whole value at the last step boundary that it has reached. -/
theorem clear_put_iff (hs : 0 < S.stepMs) (hset : c.setFails = false)
    (htype : fresh.type = .timeSeries) (hwindow : (CacheCall.put c fresh).Aligned S.stepMs)
    (hgrid : ∀ p ∈ fresh.points, p.timestamp % S.stepMs = 0 ∧ c.window.from_ ≤ p.timestamp ∧
      p.timestamp + S.stepMs ≤ c.window.to_) :
    Clear S (.put c fresh) ↔ c.window.to_ ≤ c.flux S ∨ roundDown S.stepMs (c.flux S) ≤ c.window.from_ ∨
      ∀ p ∈ fresh.points, p.isPartial = false → p.timestamp ≠ roundDown S.stepMs (c.flux S) := by
  obtain ⟨hfrom, hto⟩ := hwindow
  have hdown := roundDown_le S.stepMs (c.flux S)
  simp only [Clear, Call.cachableEnd, roundUp_of_mod hfrom]
  by_cases hover : c.window.to_ ≤ c.flux S
  · rw [min_eq_left hover, roundDown_of_mod hto]
    exact ⟨fun _ => .inl hover, fun _ _ _ _ _ p hp _ _ => ⟨(hgrid p hp).2.1, (hgrid p hp).2.2⟩⟩
  · rw [min_eq_right (by omega)]
    constructor
    · intro h
      by_cases hroom : roundDown S.stepMs (c.flux S) ≤ c.window.from_
      · exact .inr (.inl hroom)
      · refine .inr (.inr (fun p hp hw heq => ?_))
        obtain ⟨-, hle⟩ := h hset (by omega) (by omega) htype p hp hw (by omega)
        omega
    · rintro h - - hroom - p hp hw hle
      obtain ⟨hmod, hlo, -⟩ := hgrid p hp
      refine ⟨hlo, add_le_of_lt hmod (roundDown_mod _ _) ?_⟩
      rcases h with h | h | h
      · exact absurd h hover
      · omega
      · exact lt_of_le_of_ne (le_roundDown hmod hle) (h p hp hw)

/-! ## Two runs -/

theorem oneSeries_grid {fluxInterval step : Nat} {kind : QueryKind} {value : Nat → Nat → Nat → Nat} {reads : Nat → Option Nat}
    {t : Nat} (hfrom : w.from_ % step = 0) (hto : w.to_ % step = 0) :
    ∀ p ∈ ((oneSeries fluxInterval step kind value reads).execute t w).points,
      p.timestamp % step = 0 ∧ w.from_ ≤ p.timestamp ∧ p.timestamp + step ≤ w.to_ := by
  rintro p ⟨b, hb, s, hs', x, hx, rfl⟩
  rw [mem_singleton.1 hb, mem_singleton] at hs'
  rw [hs'] at hx
  obtain ⟨ts, hts, rfl⟩ := List.mem_map.1 hx
  obtain ⟨ha, hmeets, hlt⟩ := mem_intervals.1 hts
  exact ⟨ha, le_of_lt_add hfrom ha hmeets, add_le_of_lt ha hto hlt⟩

def settledCalls : List (CacheCall Nat) :=
  [.put { window := ⟨0, 30⟩, now := 1000 } (steady.execute 1000 ⟨0, 30⟩), .getMissRanges { window := ⟨0, 50⟩, now := 1001 }]

theorem settledCalls_apart : NeverOverlap steady settledCalls :=
  (neverOverlap_iff steady (by decide) settledCalls
    (forall_mem_cons.2 ⟨⟨rfl, rfl⟩, forall_mem_cons.2 ⟨⟨rfl, rfl⟩, fun _ h => by cases h⟩⟩)).2
    (forall_mem_cons.2
      ⟨(clear_put_iff (by decide) rfl rfl ⟨rfl, rfl⟩ (oneSeries_grid rfl rfl)).2 (.inl (by decide)),
        forall_mem_cons.2 ⟨trivial, fun _ h => by cases h⟩⟩)

/-- The clock is at 110, so the flux boundary at 105 is inside the interval from 100 to 110. -/
def boundaryCalls : List (CacheCall Nat) :=
  [.put { window := ⟨0, 110⟩, now := 110 } (steady.execute 110 ⟨0, 110⟩), .getMissRanges { window := ⟨0, 110⟩, now := 110 }]

/-- The value at 100 is filed in the bucket that ends at 100, and served with the range from 100 on missing. -/
theorem boundaryCalls_overlap : (∀ a ∈ boundaryCalls, a.Aligned steady.stepMs) ∧
    ¬ (∀ pre, pre <+: boundaryCalls →
      EveryBucket (CachedBucket.Inside · steady.stepMs) (final (cacheStep steady) none pre)) ∧
    ¬ ∀ x ∈ trace (cacheStep steady) none boundaryCalls, ∀ out, x.2.2 = some out → Apart out := by
  refine ⟨forall_mem_cons.2 ⟨⟨rfl, rfl⟩, forall_mem_cons.2 ⟨⟨rfl, rfl⟩, fun _ h => by cases h⟩⟩,
    fun h => ?_, fun h => ?_⟩
  · have hinside := h [boundaryCalls.head (by decide)] ⟨_, rfl⟩ _ rfl _ mem_cons_self _ mem_cons_self _
      mem_cons_self ⟨100, 10, false⟩ (by decide)
    exact absurd hinside.2 (by decide)
  · have hout := h _ (mem_cons_of_mem _ mem_cons_self) _ rfl _ rfl
    refine hout ⟨0, labelSet [], 100, 10, false⟩ ⟨_, mem_cons_self, _, mem_cons_self, ⟨100, 10, false⟩, ?_, rfl⟩
      ⟨100, 110⟩ (by decide) ⟨by decide, by decide⟩
    decide

end Querier
end DsApm
