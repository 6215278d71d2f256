import DsApm.Lib.Lists
import DsApm.Querier.Serving
/-!
# Storing — what `Put` makes of an answer

`Put` files the values of an answer under its whole intervals before the flux boundary.  It keeps values up to the
boundary before it rounds the range down, so the interval at the boundary stays in the data although it is not over;
`Stores` leaves out the windows in which that interval is whole.  The JSON of a bucket rounds its values, so `Stores`
also asks for values that it leaves as they are.
-/
namespace DsApm
namespace Querier

open Align List

variable {V : Type}

/-- The condition on storing a window's result: the interval at the flux boundary is not whole in it, or nothing is
stored; and the values that are stored are read back from their JSON as they are. -/
structure Stores (S : Setup V) (c : Call) : Prop where
  boundary : c.flux S ≤ c.window.from_ ∨ c.window.to_ ≤ c.flux S ∨
    c.window.to_ < roundDown S.stepMs (c.flux S) + S.stepMs ∨
    roundDown S.stepMs (min c.window.to_ (c.flux S)) ≤ roundUp S.stepMs c.window.from_
  survives : ∀ p ∈ (S.execute c.now c.window).points, p.isPartial = false → p.timestamp < c.flux S →
    S.reads p.value = some p.value

/-- A call at a time when the clock has not gone back and the flux boundary is not before the epoch. -/
structure Timely (S : Setup V) (c : Call) (clock : Nat) : Prop where
  forward : clock ≤ c.now
  epoch : S.fluxInterval ≤ c.now

variable {c : Call}

theorem Timely.flux_eq {S : Setup V} {clock : Nat} (h : Timely S c clock) :
    c.flux S = c.now - S.fluxInterval := if_pos h.epoch

variable {S : Setup V} {F : Feed V S.fluxInterval} {L : Set (List Label)}

theorem points_trim (boundary : Nat) (d : TimeSeriesData V) :
    (d.trim boundary).points = {p ∈ d.points | p.isPartial = false ∧ p.timestamp ≤ boundary} := by
  ext p
  constructor
  · rintro ⟨b, hb, s, hs, x, hx, rfl⟩
    obtain ⟨b, hb', rfl⟩ := List.mem_map.1 hb
    obtain ⟨s, hs', rfl⟩ := List.mem_map.1 hs
    obtain ⟨hx', hk⟩ := mem_filter.1 hx
    rw [Bool.and_eq_true, Bool.not_eq_true', decide_eq_true_eq] at hk
    exact ⟨⟨b, hb', s, hs', x, hx', rfl⟩, hk⟩
  · rintro ⟨⟨b, hb, s, hs, x, hx, rfl⟩, hp, ht⟩
    refine ⟨_, List.mem_map_of_mem hb, _, List.mem_map_of_mem hs, x, mem_filter.2 ⟨hx, ?_⟩, rfl⟩
    rw [Bool.and_eq_true, Bool.not_eq_true', decide_eq_true_eq]
    exact ⟨hp, ht⟩

variable {boundary : Nat} {d : TimeSeriesData V}

theorem labelled_trim (h : d.labelled L) : (d.trim boundary).labelled L := by
  intro b hb s hs
  obtain ⟨b, hb', rfl⟩ := List.mem_map.1 hb
  obtain ⟨s, hs', rfl⟩ := List.mem_map.1 hs
  exact h b hb' s hs'

theorem decoded_self {reads : V → Option V} (h : ∀ p ∈ d.points, reads p.value = some p.value) :
    d.decoded reads = some d := by
  have hbuckets : d.aggregations.mapM (AggregationBucket.decoded reads) = some d.aggregations := by
    refine MapM.mapM_self (fun b hb => ?_)
    have hseries : b.series.mapM (TimeSeries.decoded reads) = some b.series := by
      refine MapM.mapM_self (fun s hs => ?_)
      have hvalues : s.values.mapM (TimeSeriesValue.decoded reads) = some s.values := by
        refine MapM.mapM_self (fun x hx => ?_)
        have hread : reads x.value = some x.value := h (x.point b.index s.labels) ⟨b, hb, s, hs, x, hx, rfl⟩
        rw [TimeSeriesValue.decoded, hread, Option.map_some]
      rw [TimeSeries.decoded, hvalues, Option.map_some]
    rw [AggregationBucket.decoded, hseries, Option.map_some]
  rw [TimeSeriesData.decoded, hbuckets, Option.map_some]

theorem mem_mergeAndDeduplicateBuckets {existing fresh : List (CachedBucket V)} {b : CachedBucket V}
    (h : b ∈ mergeAndDeduplicateBuckets existing fresh) : b ∈ existing ∨ b ∈ fresh := by
  have hfold : ∀ (l acc : List (CachedBucket V)), b ∈ l.foldl setBucket acc → b ∈ acc ∨ b ∈ l := by
    intro l
    induction l with
    | nil => exact fun acc h => .inl h
    | cons x l ih =>
      intro acc h
      rcases ih _ h with hacc | hl
      · rcases mem_append.1 hacc with hold | hnew
        · exact .inl (mem_filter.1 hold).1
        · exact .inr (mem_cons.2 (.inl (mem_singleton.1 hnew)))
      · exact .inr (mem_cons_of_mem _ hl)
  rcases hfold _ _ (mem_sortByStart.1 h) with hacc | hl
  · cases hacc
  · exact mem_append.1 hl

theorem truth_trimmed (hs : 0 < S.stepMs) (hstores : Stores S c) (hflux : c.window.from_ < c.flux S)
    (hroom : roundUp S.stepMs c.window.from_ < roundDown S.stepMs (min c.window.to_ (c.flux S))) :
    {p ∈ F.truth S.stepMs c.now c.window | p.isPartial = false ∧ p.timestamp ≤ min c.window.to_ (c.flux S)} =
      F.truth S.stepMs c.now
        ⟨roundUp S.stepMs c.window.from_, roundDown S.stepMs (min c.window.to_ (c.flux S))⟩ := by
  have hdown := roundDown_le S.stepMs (min c.window.to_ (c.flux S))
  have hup := le_roundUp hs c.window.from_
  ext p
  constructor
  · rintro ⟨hp, hwhole, hle⟩
    obtain ⟨hfrom, hto⟩ := F.whole_of_not_partial hs hp hwhole
    have ha := hp.1
    -- the interval ends before the rounded boundary
    have hend : p.timestamp + S.stepMs ≤ roundDown S.stepMs (min c.window.to_ (c.flux S)) := by
      by_cases hcase : c.window.to_ ≤ c.flux S
      · rw [min_eq_left hcase]
        exact le_roundDown (add_mod_zero ha) hto
      · have hmin : min c.window.to_ (c.flux S) = c.flux S := by omega
        have hboundary := hstores.boundary
        rw [hmin] at hle hroom hboundary ⊢
        rcases (le_roundDown ha hle).lt_or_eq with hlt | heq
        · exact add_le_of_lt ha (roundDown_mod _ _) hlt
        · omega
    have hmem := (F.mem_truth_inside (t := c.now) hs ha (hup.trans hfrom) hto).1 hp
    exact (F.mem_truth_inside (w := ⟨_, _⟩) hs ha hfrom hend).2 hmem
  · intro hp
    obtain ⟨ha, hfrom, hto⟩ := F.truth_aligned (roundUp_mod _ _) (roundDown_mod _ _) hp
    have hmem := (F.mem_truth_inside hs ha hfrom hto).1 hp
    dsimp only at hfrom hto
    exact ⟨(F.mem_truth_inside hs ha (by omega) (by omega)).2 hmem, hmem.2, by omega⟩

/-! ## What `Put` writes -/

theorem put_start (hs : 0 < S.stepMs) (n : Nat) :
    (if S.stepMs > 0 ∧ n % S.stepMs ≠ 0 then (n / S.stepMs + 1) * S.stepMs else n) = roundUp S.stepMs n := by
  unfold roundUp
  by_cases hm : n % S.stepMs = 0 <;> simp [hm, hs]

theorem put_stop (hs : 0 < S.stepMs) (n : Nat) :
    (if S.stepMs > 0 ∧ n % S.stepMs ≠ 0 then n / S.stepMs * S.stepMs else n) = roundDown S.stepMs n := by
  by_cases hm : n % S.stepMs = 0
  · rw [if_neg (by simp [hm]), roundDown_of_mod hm]
  · rw [if_pos ⟨hs, hm⟩]
    rfl

/-- The end of what `Put` may keep: the end of the window, or the flux boundary in it. -/
def Call.cachableEnd (S : Setup V) (c : Call) : Nat := min c.window.to_ (c.flux S)

theorem trim_aggregations_eq_nil :
    (d.trim boundary).aggregations = [] ↔ d.aggregations = [] := map_eq_nil_iff

variable {r : Result V}

theorem resultToBuckets_trimmed (hv : r.value = .timeSeries d)
    (ht : r.type = .timeSeries) (startMs endMs : Nat) :
    resultToBuckets r startMs endMs =
      if d.aggregations = [] then [] else [{ startMs := startMs, endMs := endMs, type := .timeSeries, value := d, stats := r.stats }] := by
  unfold resultToBuckets isEmptyResult
  rw [hv, ht]
  dsimp only
  split_ifs <;> simp_all

theorem put_eq (hs : 0 < S.stepMs) (c : Call) (existing : CachedData V) (r : Result V) :
    put S.fluxInterval c.now existing c.window S.stepMs r =
      if c.window.from_ ≥ c.flux S then none
      else match trimResultToFluxBoundary r (c.cachableEnd S) with
        | none => none
        | some trimmed =>
          if roundUp S.stepMs c.window.from_ ≥ roundDown S.stepMs (c.cachableEnd S) then none
          else if resultToBuckets trimmed (roundUp S.stepMs c.window.from_) (roundDown S.stepMs (c.cachableEnd S)) = [] ∧
              existing.buckets = [] then none
          else some
            { buckets := mergeAndDeduplicateBuckets existing.buckets
                (resultToBuckets trimmed (roundUp S.stepMs c.window.from_) (roundDown S.stepMs (c.cachableEnd S)))
              warnings := deduplicateWarnings (existing.warnings ++ trimmed.warnings) } := by
  have hcut : (if c.window.to_ > c.flux S then c.flux S else c.window.to_) = c.cachableEnd S := by
    unfold Call.cachableEnd
    split <;> omega
  unfold put
  dsimp only
  rw [show fluxBoundary S.fluxInterval c.now = c.flux S from rfl, hcut, put_start hs, put_stop hs]
  cases trimResultToFluxBoundary r (c.cachableEnd S) <;> simp [hs]

/-- **`Put` writes the whole values up to its end, under the whole intervals of the window before that end.** -/
theorem put_eq_some (hs : 0 < S.stepMs) {existing data : CachedData V}
    (h : put S.fluxInterval c.now existing c.window S.stepMs r = some data) :
    c.window.from_ < c.flux S ∧ roundUp S.stepMs c.window.from_ < roundDown S.stepMs (c.cachableEnd S) ∧
    ∃ trimmed, trimResultToFluxBoundary r (c.cachableEnd S) = some trimmed ∧
      data.buckets = mergeAndDeduplicateBuckets existing.buckets
        (resultToBuckets trimmed (roundUp S.stepMs c.window.from_) (roundDown S.stepMs (c.cachableEnd S))) := by
  rw [put_eq hs] at h
  split at h
  · cases h
  · rename_i hfrom
    split at h
    · cases h
    · rename_i trimmed htrim
      split at h
      · cases h
      · rename_i hroom
        split at h
        · cases h
        · cases h
          exact ⟨Nat.lt_of_not_le hfrom, Nat.lt_of_not_le hroom, trimmed, htrim, rfl⟩

theorem mem_resultToBuckets {trimmed : Result V} {startMs endMs : Nat} {b : CachedBucket V}
    (htrim : trimResultToFluxBoundary r boundary = some trimmed) :
    b ∈ resultToBuckets trimmed startMs endMs ↔ r.type = .timeSeries ∧ ∃ d, r.value = .timeSeries d ∧
      d.aggregations ≠ [] ∧ b = { startMs := startMs, endMs := endMs, type := .timeSeries, value := d.trim boundary
                                  stats := r.stats } := by
  unfold trimResultToFluxBoundary at htrim
  cases ht : r.type with
  | raw | scalar | trace => rw [ht] at htrim; cases htrim
  | unknown | rawStream | distribution =>
    rw [ht] at htrim
    cases htrim
    simp [resultToBuckets, isEmptyResult]
  | timeSeries =>
    rw [ht] at htrim
    cases hv : r.value with
    | nil | other =>
      rw [hv] at htrim
      cases htrim
      constructor
      · intro hb; cases hb
      · rintro ⟨-, d, hd, -⟩; cases hd
    | timeSeries d =>
      rw [hv] at htrim
      cases htrim
      rw [resultToBuckets_trimmed rfl rfl]
      by_cases ha : d.aggregations = []
      · rw [if_pos (trim_aggregations_eq_nil.2 ha)]
        constructor
        · intro hb; cases hb
        · rintro ⟨-, d', hd, hne, -⟩
          cases hd
          exact absurd ha hne
      · rw [if_neg (fun h => ha (trim_aggregations_eq_nil.1 h)), mem_singleton]
        constructor
        · rintro rfl
          exact ⟨rfl, d, rfl, ha, rfl⟩
        · rintro ⟨-, d', hd, -, rfl⟩
          cases hd
          rfl

/-- **`Put` of an answer keeps the buckets sound.** -/
theorem sound_put {clock : Nat} (hs : 0 < S.stepMs) (htime : Timely S c clock) (hstores : Stores S c)
    (hans : IsAnswer S F L c.now c.window (S.execute c.now c.window)) {existing data : CachedData V} (hold : ∀ b ∈ existing.buckets, Sound S F L c.now b)
    (hr : IsAnswer S F L c.now c.window r) (hput : put S.fluxInterval c.now existing c.window S.stepMs r = some data) :
    ∀ b ∈ data.buckets, Sound S F L c.now b := by
  obtain ⟨-, d, hd, hlab, hpts⟩ := hr
  have hflux := htime.flux_eq
  have hepoch := htime.epoch
  obtain ⟨hfrom, hroom, trimmed, htrim, hbuckets⟩ := put_eq_some hs hput
  rw [hbuckets]
  intro b hb
  rcases mem_mergeAndDeduplicateBuckets hb with hb | hb
  · exact hold b hb
  · obtain ⟨-, d', hd', -, rfl⟩ := (mem_resultToBuckets htrim).1 hb
    rw [hd] at hd'
    cases hd'
    have hstored : (d.trim (c.cachableEnd S)).points = F.truth S.stepMs c.now
        ⟨roundUp S.stepMs c.window.from_, roundDown S.stepMs (c.cachableEnd S)⟩ := by
      rw [points_trim, hpts]
      exact truth_trimmed hs hstores hfrom hroom
    have hlow := roundDown_le S.stepMs (c.cachableEnd S)
    have hcut : c.cachableEnd S ≤ c.flux S := min_le_right _ _
    refine ⟨⟨roundUp_mod _ _, roundDown_mod _ _⟩, ?_, rfl, labelled_trim hlab, hstored, ?_⟩
    · dsimp only
      omega
    · refine decoded_self (fun p hp => ?_)
      have hmem := hp
      rw [points_trim, hpts] at hmem
      rw [hstored] at hp
      obtain ⟨-, -, hto⟩ := F.truth_aligned (roundUp_mod _ _) (roundDown_mod _ _) hp
      dsimp only at hto
      exact hstores.survives p (by rw [points_of_isAnswer hans]; exact hmem.1) hmem.2.1 (by omega)

end Querier
end DsApm
