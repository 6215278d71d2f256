import DsApm.Querier.Storing
/-!
# Transparency — when the bucket cache does not show

A call from sound buckets that meets `Serves` and `Stores` returns the points of the query on its whole window and leaves
sound buckets; so does every call of a run in which all do.  `cache_shows` has a run of two calls for each way in which
the cache shows otherwise.
-/
namespace DsApm
namespace Querier

open StepRun List

variable {V : Type}

section
variable {S : Setup V} {F : Feed V S.fluxInterval} {L : Set (List Label)}

/-! ## One call -/

theorem sound_store {c : Call} {clock : Nat} (hs : 0 < S.stepMs) (htime : Timely S c clock) (hstores : Stores S c)
    (hans : IsAnswer S F L c.now c.window (S.execute c.now c.window)) {entry : Option (CachedData V)}
    (hentry : SoundEntry S F L c.now entry) {r : Result V} (hr : IsAnswer S F L c.now c.window r) :
    SoundEntry S F L c.now (store S c entry r) := by
  have hold : ∀ b ∈ ((if c.putGetFails then none else entry).getD {}).buckets, Sound S F L c.now b := by
    intro b hb
    split at hb
    · cases hb
    · cases he : entry with
      | none => rw [he] at hb; cases hb
      | some data => rw [he] at hb; exact hentry data he b hb
  unfold store
  generalize hput : put S.fluxInterval c.now ((if c.putGetFails then none else entry).getD {}) c.window S.stepMs r = stored
  cases stored with
  | none => exact hentry
  | some data =>
    by_cases hset : c.setFails = true
    · simp only [hset, if_true]
      exact hentry
    · simp only [hset]
      intro data' hd
      cases hd
      exact sound_put hs htime hstores hans hold hr hput

/-- The result of a call, when there is one, is the answer; and there is one unless the query itself fails. -/
def Answered (S : Setup V) (F : Feed V S.fluxInterval) (L : Set (List Label)) (c : Call) (out : Option (Result V)) : Prop :=
  (c.fullFails = false → ∃ r, out = some r) ∧ ∀ r, out = some r → IsAnswer S F L c.now c.window r

theorem executeFull_spec {c : Call} {clock : Nat} (hs : 0 < S.stepMs) (hS : Answers S F L)
    (hw : c.window.from_ < c.window.to_) (htime : Timely S c clock) (hstores : Stores S c)
    {entry : Option (CachedData V)} (hentry : SoundEntry S F L c.now entry) :
    SoundEntry S F L c.now (executeFull S c entry).1 ∧ Answered S F L c (executeFull S c entry).2 := by
  have hans := hS c.now c.window hw
  unfold executeFull
  split
  · rename_i hf
    refine ⟨hentry, fun hc => ?_, fun _ hr => (by cases hr)⟩
    rw [hc] at hf
    cases hf
  · exact ⟨sound_store hs htime hstores hans hentry hans, fun _ => ⟨_, rfl⟩, fun r hr => by cases hr; exact hans⟩

/-- **A call that meets the conditions is answered and keeps the buckets sound.** -/
theorem executeWithCache_spec {c : Call} {clock : Nat} (hs : 0 < S.stepMs) (hL : Distinct L) (hS : Answers S F L)
    (hw : c.window.from_ < c.window.to_) (htime : Timely S c clock) {entry : Option (CachedData V)}
    (hserves : Serves S c entry) (hstores : Stores S c) (hentry : SoundEntry S F L c.now entry) :
    SoundEntry S F L c.now (executeWithCache S c entry).1 ∧ Answered S F L c (executeWithCache S c entry).2 := by
  have hsplit := split_getMissRanges hs hL hw hentry hserves
  have hfull := executeFull_spec hs hS hw htime hstores hentry
  obtain ⟨merged, hmerge, hans⟩ := isAnswer_mergeResults hs hL hS hsplit
  -- a shifted query is served without ranged queries, or not from the cache
  have hshift : S.kind.shifted = false ∨
      (getMissRanges S.reads S.fluxInterval c.now (c.seen entry) c.window S.stepMs).2 = [] ∨
      getMissRanges S.reads S.fluxInterval c.now (c.seen entry) c.window S.stepMs = (none, [c.window]) := by
    cases hseen : c.seen entry with
    | none => exact .inr (.inr rfl)
    | some data =>
      refine (hserves data hseen).1.imp_right (fun h => .inl ?_)
      unfold getMissRanges
      dsimp only
      split <;> exact h
  unfold executeWithCache
  generalize getMissRanges S.reads S.fluxInterval c.now (c.seen entry) c.window S.stepMs = g at hsplit hmerge hshift ⊢
  obtain ⟨cached, missing⟩ := g
  dsimp only at hsplit hmerge hshift ⊢
  split
  · -- nothing is missing: the cached part is the answer
    rename_i hhit
    obtain ⟨rfl, hsome⟩ := hhit
    obtain ⟨r, rfl⟩ := Option.isSome_iff_exists.1 hsome
    cases hmerge
    refine ⟨hentry, fun _ => ⟨_, rfl⟩, fun r' hr' => ?_⟩
    cases hr'
    exact hans
  · rename_i hmiss
    split
    · exact hfull
    · rename_i hpart
      have hunshifted : S.kind.shifted = false := by
        rcases hshift with h | h | h
        · exact h
        · -- nothing missing and nothing cached does not happen
          refine absurd ⟨h, ?_⟩ hmiss
          rw [Option.isSome_iff_ne_none]
          exact fun hc => hsplit.nonempty hc h
        · cases h
          exact absurd ⟨rfl, rfl⟩ hpart
      split
      · exact hfull
      · rename_i fresh hfresh
        rw [executeRanges_of_unshifted hunshifted hfresh, hmerge]
        dsimp only
        have hans' : IsAnswer S F L c.now c.window
            { merged with stats := (missing.map (S.execute c.now)).foldl (fun t r => t.add r.stats) merged.stats } := hans
        exact ⟨sound_store hs htime hstores (hS c.now c.window hw) hentry hans', fun _ => ⟨_, rfl⟩, fun r hr => by cases hr; exact hans'⟩

end

/-! ## Runs -/

def Meets (S : Setup V) (st : CacheState V) : Action → Prop
  | .call c => c.window.from_ < c.window.to_ ∧ Timely S c st.clock ∧ Serves S c st.entry ∧ Stores S c
  | .evict => True

/-- The call returned what the query returns on its whole window; it returned unless the query failed. -/
def Transparent (S : Setup V) (c : Call) (out : Option (Result V)) : Prop :=
  (c.fullFails = false → ∃ r, out = some r) ∧ ∀ r, out = some r → r.points = (S.execute c.now c.window).points

def intervals (stepMs : Nat) (w : TimeRange) : List Nat :=
  ((List.range (w.to_ / stepMs + 1)).map (· * stepMs)).filter
    (fun ts => decide (w.from_ < ts + stepMs) && decide (ts < w.to_))

theorem mem_intervals {stepMs : Nat} {w : TimeRange} {ts : Nat} :
    ts ∈ intervals stepMs w ↔ ts % stepMs = 0 ∧ w.from_ < ts + stepMs ∧ ts < w.to_ := by
  simp only [intervals, mem_filter, List.mem_map, mem_range, Bool.and_eq_true, decide_eq_true_eq]
  constructor
  · rintro ⟨⟨k, -, rfl⟩, h⟩
    exact ⟨Nat.mul_mod_left _ _, h⟩
  · rintro ⟨ha, h⟩
    refine ⟨⟨ts / stepMs, ?_, Nat.div_mul_cancel (Nat.dvd_of_mod_eq_zero ha)⟩, h⟩
    exact Nat.lt_succ_of_le (Nat.div_le_div_right h.2.le)

def oneSeries (fluxInterval stepMs : Nat) (kind : QueryKind) (value : Nat → Nat → Nat → Nat) (reads : Nat → Option Nat) :
    Setup Nat where
  fluxInterval := fluxInterval
  stepMs := stepMs
  kind := kind
  reads := reads
  execute t w :=
    { type := .timeSeries
      value := .timeSeries
        { queryName := "A"
          aggregations := [{ index := 0, series := [{ labels := [], values := (intervals stepMs w).map (fun ts =>
            ⟨ts, value t (max ts w.from_) (min (ts + stepMs) w.to_), isPartialValue stepMs (some w) ts⟩) }] }] } }

def oneSeriesFeed (fluxInterval : Nat) (value : Nat → Nat → Nat → Nat)
    (frozen : ∀ t t' lo hi, t ≤ t' → hi + fluxInterval ≤ t → value t lo hi = value t' lo hi) : Feed Nat fluxInterval where
  aggregate t i l lo hi v := i = 0 ∧ l = labelSet [] ∧ v = value t lo hi
  functional := by
    rintro t i l lo hi v v' ⟨-, -, rfl⟩ ⟨-, -, rfl⟩
    rfl
  frozen := by
    intro t t' i l lo hi v ht hold
    rw [frozen t t' lo hi ht hold]

theorem answers_oneSeries (fluxInterval stepMs : Nat) (kind : QueryKind) (value : Nat → Nat → Nat → Nat)
    (reads : Nat → Option Nat)
    (frozen : ∀ t t' lo hi, t ≤ t' → hi + fluxInterval ≤ t → value t lo hi = value t' lo hi) :
    Answers (oneSeries fluxInterval stepMs kind value reads) (oneSeriesFeed fluxInterval value frozen) {[]} := by
  intro t w _
  refine ⟨rfl, _, rfl, ?_, ?_⟩
  · intro b hb s hs
    rw [mem_singleton.1 hb, mem_singleton] at hs
    rw [hs]
    rfl
  · ext ⟨i, l, ts, v, c⟩
    constructor
    · rintro ⟨b, hb, s, hs, x, hx, hp⟩
      rw [mem_singleton.1 hb, mem_singleton] at hs
      rw [hs] at hx hp
      obtain ⟨ts', hts, rfl⟩ := List.mem_map.1 hx
      obtain ⟨ha, hmeets, hlt⟩ := mem_intervals.1 hts
      rw [mem_singleton.1 hb] at hp
      cases hp
      exact ⟨ha, hmeets, hlt, ⟨rfl, rfl, rfl⟩, rfl⟩
    · rintro ⟨ha, hmeets, hlt, ⟨hi, hl, hv⟩, hc⟩
      dsimp only at ha hmeets hlt hi hl hv hc
      subst hi hl hv hc
      exact ⟨_, mem_cons_self, _, mem_cons_self, _,
        List.mem_map_of_mem (a := ts) (mem_intervals.2 ⟨ha, hmeets, hlt⟩), rfl⟩

theorem distinct_nil : Distinct {[]} := by
  rintro l rfl l' rfl -
  rfl

def steadyValue (_t lo hi : Nat) : Nat := hi - lo

def lateValue (t lo hi : Nat) : Nat := if hi + 5 ≤ t then hi - lo else 0

theorem lateValue_frozen (t t' lo hi : Nat) (ht : t ≤ t') (hold : hi + 5 ≤ t) : lateValue t lo hi = lateValue t' lo hi := by
  unfold lateValue
  rw [if_pos hold, if_pos (hold.trans ht)]

def steady : Setup Nat := oneSeries 5 10 (.builder .timeSeries 0) steadyValue some

def steadyFeed : Feed Nat 5 := oneSeriesFeed 5 steadyValue (fun _ _ _ _ _ _ => rfl)

def growingWindow : List Action := [.call { window := ⟨0, 30⟩, now := 1000 }, .call { window := ⟨5, 50⟩, now := 1001 }]

theorem growingWindow_meets : ∀ x ∈ trace (step steady) {} growingWindow, Meets steady x.1 x.2.1 := by
  simp only [growingWindow, trace_cons, trace_nil, forall_mem_cons]
  refine ⟨⟨by decide, ⟨by decide, by decide⟩, fun _ h => (by cases h),
      ⟨.inr (.inl (by decide)), fun _ _ _ _ => rfl⟩⟩,
    ⟨by decide, ⟨by decide, by decide⟩, fun _ _ => ⟨.inl rfl, fun h => absurd h (by decide), fun _ => .inl rfl⟩,
      ⟨.inr (.inl (by decide)), fun _ _ _ _ => rfl⟩⟩, fun _ h => (by cases h)⟩

def Result.samples (r : Result V) : List (TimeSeriesValue V) :=
  match r.value with
  | .timeSeries d => d.aggregations.flatMap (fun b => b.series.flatMap TimeSeries.values)
  | _ => []

theorem mem_samples {r : Result V} {x : TimeSeriesValue V} :
    x ∈ r.samples ↔ ∃ i l, (⟨i, l, x.timestamp, x.value, x.isPartial⟩ : Point V) ∈ r.points := by
  unfold Result.samples Result.points
  cases r.value with
  | nil | other => simp [ResultValue.points]
  | timeSeries d =>
    constructor
    · intro hx
      obtain ⟨b, hb, hx⟩ := mem_flatMap.1 hx
      obtain ⟨s, hs, hx⟩ := mem_flatMap.1 hx
      exact ⟨b.index, labelSet s.labels, b, hb, s, hs, x, hx, rfl⟩
    · rintro ⟨i, l, b, hb, s, hs, y, hy, hp⟩
      obtain ⟨ts, v, c⟩ := x
      cases hp
      exact mem_flatMap.2 ⟨b, hb, mem_flatMap.2 ⟨s, hs, hy⟩⟩

def Shows (S : Setup V) (F : Feed V S.fluxInterval) (L : Set (List Label)) (acts : List Action) : Prop :=
  0 < S.stepMs ∧ Distinct L ∧ Answers S F L ∧
    ¬ ∀ x ∈ trace (step S) {} acts, ∀ c, x.2.1 = .call c → Transparent S c x.2.2

theorem not_transparent {S : Setup V} {c : Call} {r : Result V} (x : TimeSeriesValue V)
    (hne : ¬ (x ∈ r.samples ↔ x ∈ (S.execute c.now c.window).samples)) : ¬ Transparent S c (some r) := by
  intro h
  rw [mem_samples, mem_samples, h.2 r rfl] at hne
  exact hne Iff.rfl

def endInsideInterval : List Action :=
  [.call { window := ⟨0, 30⟩, now := 1000 }, .call { window := ⟨0, 25⟩, now := 1001 }]

def overFluxBoundary : List Action :=
  [.call { window := ⟨0, 120⟩, now := 100 }, .call { window := ⟨0, 120⟩, now := 200 }]

def shorterThanStep : List Action :=
  [.call { window := ⟨0, 30⟩, now := 1000 }, .call { window := ⟨28, 32⟩, now := 1001 }]

def partlyCachedShift : List Action :=
  [.call { window := ⟨2000, 2030⟩, now := 10000 }, .call { window := ⟨2000, 2050⟩, now := 10001 }]

def askedTwice : List Action :=
  [.call { window := ⟨0, 30⟩, now := 1000 }, .call { window := ⟨0, 30⟩, now := 1001 }]

def averageValue (_t _lo _hi : Nat) : Nat := 12346

/-- What `sanitizeValue` makes of a number from a tenth on, in ten-thousandths: it rounds to three decimals. -/
def threeDecimals (v : Nat) : Option Nat := some ((v + 5) / 10 * 10)

end Querier
end DsApm
