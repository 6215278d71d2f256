import DsApm.Querier.Execute
import DsApm.Querier.Feed
/-!
# Serving — what a call gets from sound buckets

The invariant of the cache: every bucket holds exactly the answer to the range it covers, and the range is frozen.
`GetMissRanges` then splits a window into clean ranges and whole intervals, and the merge of both is the window's answer.

It goes wrong in three ways, which `Serves` leaves out: a window that ends inside an interval of a bucket is served the
whole interval; a window shorter than a step is split at bucket ends and at the flux boundary, inside an interval; the
ranged queries of a shifted query are shifted twice.
-/
namespace DsApm
namespace Querier

open Align List

variable {V : Type}

/-- A result with the feed's points for the window, in series with label lists of `L`. -/
def IsAnswer (S : Setup V) (F : Feed V S.fluxInterval) (L : Set (List Label)) (t : Nat) (w : TimeRange) (r : Result V) :
    Prop :=
  r.type = .timeSeries ∧ ∃ d, r.value = .timeSeries d ∧ d.labelled L ∧ d.points = F.truth S.stepMs t w

def Answers (S : Setup V) (F : Feed V S.fluxInterval) (L : Set (List Label)) : Prop :=
  ∀ t w, w.from_ < w.to_ → IsAnswer S F L t w (S.execute t w)

/-- A bucket that holds the answer to its range, which is over and frozen, and whose JSON decodes to it. -/
structure Sound (S : Setup V) (F : Feed V S.fluxInterval) (L : Set (List Label)) (t : Nat) (b : CachedBucket V) : Prop where
  aligned : b.Aligned S.stepMs
  old : b.endMs + S.fluxInterval ≤ t
  type : b.type = .timeSeries
  labelled : b.value.labelled L
  points : b.value.points = F.truth S.stepMs t ⟨b.startMs, b.endMs⟩
  kept : b.value.decoded S.reads = some b.value

def SoundEntry (S : Setup V) (F : Feed V S.fluxInterval) (L : Set (List Label)) (t : Nat)
    (entry : Option (CachedData V)) : Prop :=
  ∀ data, entry = some data → ∀ b ∈ data.buckets, Sound S F L t b

def Call.flux (S : Setup V) (c : Call) : Nat := fluxBoundary S.fluxInterval c.now

def Serves (S : Setup V) (c : Call) (entry : Option (CachedData V)) : Prop :=
  ∀ data, c.seen entry = some data →
    (S.kind.shifted = false ∨
      findMissingRangesWithStep (c.flux S) data.buckets c.window.from_ c.window.to_ S.stepMs = []) ∧
    (c.window.from_ + S.stepMs > c.window.to_ →
      (∀ b ∈ data.buckets, b.endMs ≤ c.window.from_ ∨ c.window.to_ ≤ b.startMs) ∧
      ¬ (c.window.from_ < c.flux S ∧ c.flux S < c.window.to_ ∧ c.flux S % S.stepMs ≠ 0)) ∧
    (c.window.from_ + S.stepMs ≤ c.window.to_ →
      c.window.to_ % S.stepMs = 0 ∨ ∀ b ∈ data.buckets, ¬ (b.startMs < c.window.to_ ∧ c.window.to_ < b.endMs))

variable {S : Setup V} {F : Feed V S.fluxInterval} {L : Set (List Label)}

/-! ## Buckets -/

variable {t : Nat} {w : TimeRange}

theorem points_of_isAnswer {r : Result V} (h : IsAnswer S F L t w r) :
    r.points = F.truth S.stepMs t w := by
  obtain ⟨-, d, hd, -, hpts⟩ := h
  unfold Result.points
  rw [hd]
  exact hpts

variable {b : CachedBucket V}

theorem Sound.mono {t' : Nat} (hs : 0 < S.stepMs) (h : Sound S F L t b) (ht : t ≤ t') :
    Sound S F L t' b := by
  refine ⟨h.aligned, h.old.trans ht, h.type, h.labelled, ?_, h.kept⟩
  rw [h.points]
  have hside : ∀ u u', t ≤ u → u ≤ t' → t ≤ u' → u' ≤ t' → ∀ p : Point V,
      p ∈ F.truth S.stepMs u ⟨b.startMs, b.endMs⟩ → p ∈ F.truth S.stepMs u' ⟨b.startMs, b.endMs⟩ := by
    intro u u' hu _ hu' _ p hp
    obtain ⟨ha, hfrom, hto⟩ := F.truth_aligned h.aligned.start h.aligned.stop hp
    have hold : p.timestamp + S.stepMs + S.fluxInterval ≤ t := by
      have := h.old
      dsimp only at hto
      omega
    rw [F.mem_truth_inside hs ha hfrom hto] at hp ⊢
    exact ⟨(F.frozen hu' hold).1 ((F.frozen hu hold).2 hp.1), hp.2⟩
  ext p
  exact ⟨hside t t' le_rfl ht ht le_rfl p, hside t' t ht le_rfl le_rfl ht p⟩

theorem SoundEntry.mono {t' : Nat} {entry : Option (CachedData V)} (hs : 0 < S.stepMs) (h : SoundEntry S F L t entry)
    (ht : t ≤ t') : SoundEntry S F L t' entry := fun data hd b hb => (h data hd b hb).mono hs ht

theorem SoundEntry.none (t : Nat) : SoundEntry S F L t none := fun _ h => by cases h

/-! ## Serving -/

theorem points_filterTimestamps (keep : Nat → Bool) (d : TimeSeriesData V) :
    (d.filterTimestamps keep).points = {p ∈ d.points | keep p.timestamp = true} := by
  ext p
  constructor
  · rintro ⟨b, hb, s, hs, x, hx, rfl⟩
    obtain ⟨b, hb', rfl⟩ := List.mem_map.1 (mem_filter.1 hb).1
    obtain ⟨s, hs', rfl⟩ := List.mem_map.1 hs
    obtain ⟨hx', hk⟩ := mem_filter.1 hx
    exact ⟨⟨b, hb', s, hs', x, hx', rfl⟩, hk⟩
  · rintro ⟨⟨b, hb, s, hs, x, hx, rfl⟩, hk⟩
    refine ⟨_, mem_filter.2 ⟨List.mem_map_of_mem hb, ?_⟩, _, List.mem_map_of_mem hs, x,
      mem_filter.2 ⟨hx, hk⟩, rfl⟩
    cases hbs : b.series with
    | nil => rw [hbs] at hs; cases hs
    | cons s' ss => rfl

theorem labelled_filterTimestamps {keep : Nat → Bool} {d : TimeSeriesData V} (h : d.labelled L) :
    (d.filterTimestamps keep).labelled L := by
  intro b hb s hs
  obtain ⟨b, hb', rfl⟩ := List.mem_map.1 (mem_filter.1 hb).1
  obtain ⟨s, hs', rfl⟩ := List.mem_map.1 hs
  exact h b hb' s hs'

/-- What a call finds: a cached part that is right as far as it goes, and clean ranges for the rest. -/
structure Split (S : Setup V) (F : Feed V S.fluxInterval) (L : Set (List Label)) (t : Nat) (w : TimeRange)
    (cached : Option (Result V)) (missing : List TimeRange) : Prop where
  clean : ∀ r ∈ missing, Clean S.stepMs w r
  right : ∀ r, cached = some r → r.type = .timeSeries ∧ ∃ d, r.value = .timeSeries d ∧ d.labelled L ∧
    d.points ⊆ F.truth S.stepMs t w
  covers : ∀ p ∈ F.truth S.stepMs t w, (∃ r, cached = some r ∧ p ∈ r.points) ∨
    ∃ r ∈ missing, r.from_ < p.timestamp + S.stepMs ∧ p.timestamp < r.to_
  nonempty : cached = none → missing ≠ []

theorem split_whole (hw : w.from_ < w.to_) : Split S F L t w none [w] :=
  ⟨fun r hr => by rw [mem_singleton.1 hr]; exact ⟨le_rfl, hw, le_rfl, .inl rfl, .inl rfl⟩,
    fun _ h => (by cases h), fun p hp => .inr ⟨w, mem_cons_self, hp.2.1, hp.2.2.1⟩, fun _ => nofun⟩

theorem mem_filterRelevantBuckets {bs : List (CachedBucket V)} {startMs endMs : Nat} :
    b ∈ filterRelevantBuckets bs startMs endMs ↔ b ∈ bs ∧ startMs < b.endMs ∧ b.startMs < endMs := by
  unfold filterRelevantBuckets
  rw [mem_sortByStart, mem_filter, Bool.and_eq_true, decide_eq_true_eq, decide_eq_true_eq]

theorem Sound.whole (hs : 0 < S.stepMs) (h : Sound S F L t b) {p : Point V} :
    p ∈ b.value.points ↔ p.timestamp % S.stepMs = 0 ∧ b.startMs ≤ p.timestamp ∧ p.timestamp + S.stepMs ≤ b.endMs ∧
      p ∈ F.whole S.stepMs t := by
  rw [h.points]
  constructor
  · intro hp
    obtain ⟨ha, hfrom, hto⟩ := F.truth_aligned h.aligned.start h.aligned.stop hp
    exact ⟨ha, hfrom, hto, (F.mem_truth_inside hs ha hfrom hto).1 hp⟩
  · rintro ⟨ha, hfrom, hto, hp⟩
    exact (F.mem_truth_inside hs ha hfrom hto).2 hp

theorem points_mergeBuckets (hs : 0 < S.stepMs) (hL : Distinct L)
    {bs : List (CachedBucket V)} (h : ∀ b' ∈ b :: bs, Sound S F L t b') (warnings : List String) :
    ∃ d, (mergeBuckets S.reads b bs warnings).value = .timeSeries d ∧ d.labelled L ∧
      d.points = {p | ∃ b' ∈ b :: bs, p ∈ b'.value.points} := by
  have hkept : ∀ d, d ∈ (b :: bs).filterMap (fun b => b.value.decoded S.reads) ↔ ∃ b' ∈ b :: bs, b'.value = d := by
    intro d
    rw [mem_filterMap]
    apply exists_congr
    intro b'
    refine and_congr_right (fun hb' => ?_)
    rw [(h b' hb').kept, Option.some.injEq]
  have hjoin : ∀ d ∈ (b :: bs).filterMap (fun b => b.value.decoded S.reads),
      d.Joins L Set.univ (F.whole S.stepMs t) := by
    intro d hd
    obtain ⟨b', hb', rfl⟩ := (hkept d).1 hd
    exact ⟨(h b' hb').labelled, fun _ _ => trivial, fun p hp => (((h b' hb').whole hs).1 hp).2.2.2⟩
  obtain ⟨hpts, hlab⟩ := mergeTimeSeriesValues_spec hL F.functional_whole hjoin
  refine ⟨_, if_pos (h b mem_cons_self).type, hlab, ?_⟩
  rw [hpts]
  ext p
  simp only [Set.mem_ofPred_eq, hkept, exists_exists_and_eq_and]

/-- **What is cached and what is missing make up the window.** -/
theorem split_of (hs : 0 < S.stepMs) (hL : Distinct L) (hw : w.from_ < w.to_)
    {data : CachedData V} (hdata : ∀ b ∈ data.buckets, Sound S F L t b) {missing : List TimeRange}
    (hclean : ∀ r ∈ missing, Clean S.stepMs w r)
    (hcover : ∀ x, w.Holds x → (∃ r ∈ missing, r.Holds x) ∨
      ∃ b ∈ data.buckets, b.Holds x ∧ roundUp S.stepMs w.from_ ≤ x)
    (hend : ∀ b ∈ data.buckets, w.from_ < b.endMs → b.startMs < w.to_ → ∀ ts, ts % S.stepMs = 0 → ts < w.to_ →
      ts + S.stepMs ≤ b.endMs → ts + S.stepMs ≤ w.to_) {cached : Option (Result V)}
    (hcached : match filterRelevantBuckets data.buckets w.from_ w.to_ with
      | [] => cached = none
      | b :: bs => cached = some (filterResultToTimeRange (mergeBuckets S.reads b bs data.warnings) w.from_ w.to_)) :
    Split S F L t w cached missing := by
  -- the points of the cached part
  have hpoints : ∀ r, cached = some r → r.type = .timeSeries ∧ ∃ d, r.value = .timeSeries d ∧ d.labelled L ∧
      ∀ p, p ∈ d.points ↔ w.from_ ≤ p.timestamp ∧ p.timestamp < w.to_ ∧ ∃ b ∈ data.buckets, p ∈ b.value.points := by
    intro r hr
    split at hcached
    · rw [hcached] at hr; cases hr
    · rename_i b bs hrel
      rw [hcached, Option.some.injEq] at hr
      have hsub : ∀ b' ∈ b :: bs, b' ∈ data.buckets ∧ w.from_ < b'.endMs ∧ b'.startMs < w.to_ := by
        intro b' hb'
        rw [← hrel] at hb'
        exact mem_filterRelevantBuckets.1 hb'
      obtain ⟨d, hd, hlab, hpts⟩ := points_mergeBuckets hs hL (fun b' hb' => hdata b' (hsub b' hb').1) data.warnings
      have htype : (mergeBuckets S.reads b bs data.warnings).type = .timeSeries := (hdata b (hsub b mem_cons_self).1).type
      have hr' : r = { type := .timeSeries, stats := (mergeBuckets S.reads b bs data.warnings).stats
                       warnings := (mergeBuckets S.reads b bs data.warnings).warnings
                       value := .timeSeries (d.filterTimestamps
                         (fun t => decide (w.from_ ≤ t) && decide (t < w.to_))) } := by
        rw [← hr]
        unfold filterResultToTimeRange
        rw [htype, hd]
      refine ⟨by rw [hr'], _, by rw [hr'], labelled_filterTimestamps hlab, fun p => ?_⟩
      rw [points_filterTimestamps, hpts]
      constructor
      · rintro ⟨⟨b', hb', hp⟩, hk⟩
        rw [Bool.and_eq_true, decide_eq_true_eq, decide_eq_true_eq] at hk
        exact ⟨hk.1, hk.2, b', (hsub b' hb').1, hp⟩
      · rintro ⟨hfrom, hto, b', hb', hp⟩
        refine ⟨⟨b', ?_, hp⟩, by simp [hfrom, hto]⟩
        obtain ⟨-, hstart, hstop, -⟩ := ((hdata b' hb').whole hs).1 hp
        rw [← hrel]
        exact mem_filterRelevantBuckets.2 ⟨hb', by omega, by omega⟩
  have hsome : (∃ b ∈ data.buckets, w.from_ < b.endMs ∧ b.startMs < w.to_) → ∃ r, cached = some r := by
    rintro ⟨b, hb, hlt, hgt⟩
    have hmem := mem_filterRelevantBuckets.2 ⟨hb, hlt, hgt⟩
    split at hcached
    · rename_i hrel
      rw [hrel] at hmem
      cases hmem
    · exact ⟨_, hcached⟩
  refine ⟨hclean, fun r hr => ?_, fun p hp => ?_, fun hnone hmiss => ?_⟩
  · obtain ⟨htype, d, hd, hlab, hiff⟩ := hpoints r hr
    refine ⟨htype, d, hd, hlab, fun p hp => ?_⟩
    obtain ⟨hfrom, hto, b, hb, hpb⟩ := (hiff p).1 hp
    obtain ⟨ha, hstart, hstop, hwhole⟩ := ((hdata b hb).whole hs).1 hpb
    have hin := hend b hb (by omega) (by omega) p.timestamp ha hto hstop
    exact (F.mem_truth_inside hs ha hfrom hin).2 hwhole
  · obtain ⟨ha, hmeets, hlt, -, -⟩ := id hp
    rcases hcover (max p.timestamp w.from_) ⟨by omega, by omega⟩ with ⟨r, hr, hlo, hhi⟩ | ⟨b, hb, ⟨hlo, hhi⟩, hup⟩
    · exact .inr ⟨r, hr, by omega, by omega⟩
    · -- the instant is in a bucket and not in the cut-off first interval
      refine .inl ?_
      have hfrom : w.from_ ≤ p.timestamp := by
        by_contra hc
        rw [max_eq_right (by omega)] at hup
        have hmod : w.from_ % S.stepMs = 0 := by
          rw [le_antisymm (le_roundUp hs w.from_) hup]
          exact roundUp_mod _ _
        exact hc (le_of_lt_add hmod ha hmeets)
      rw [max_eq_left hfrom] at hlo hhi
      have hstop := add_le_of_lt ha (hdata b hb).aligned.stop hhi
      have hin := hend b hb (by omega) (by omega) p.timestamp ha hlt hstop
      have hwhole := (F.mem_truth_inside hs ha hfrom hin).1 hp
      obtain ⟨r, hr⟩ := hsome ⟨b, hb, by omega, by omega⟩
      obtain ⟨-, d, hd, -, hiff⟩ := hpoints r hr
      refine ⟨r, hr, ?_⟩
      unfold Result.points
      rw [hd]
      exact (hiff p).2 ⟨hfrom, hlt, b, hb, ((hdata b hb).whole hs).2 ⟨ha, hlo, hstop, hwhole⟩⟩
  · rcases hcover w.from_ ⟨le_rfl, hw⟩ with ⟨r, hr, -⟩ | ⟨b, hb, ⟨hlo, hhi⟩, -⟩
    · rw [hmiss] at hr; cases hr
    · obtain ⟨r, hr⟩ := hsome ⟨b, hb, hhi, by omega⟩
      rw [hnone] at hr; cases hr

/-- **A served call splits its window.** -/
theorem split_getMissRanges (hs : 0 < S.stepMs) (hL : Distinct L) {c : Call} {entry : Option (CachedData V)}
    (hw : c.window.from_ < c.window.to_) (hentry : SoundEntry S F L c.now entry) (hserves : Serves S c entry) :
    Split S F L c.now c.window (getMissRanges S.reads S.fluxInterval c.now (c.seen entry) c.window S.stepMs).1
      (getMissRanges S.reads S.fluxInterval c.now (c.seen entry) c.window S.stepMs).2 := by
  cases hseen : c.seen entry with
  | none => exact split_whole hw
  | some data =>
    obtain ⟨-, hshort, hlong⟩ := hserves data hseen
    have hdata : ∀ b ∈ data.buckets, Sound S F L c.now b := by
      unfold Call.seen at hseen
      split at hseen
      · cases hseen
      · exact hentry data hseen
    have hcached : match filterRelevantBuckets data.buckets c.window.from_ c.window.to_ with
        | [] => (getMissRanges S.reads S.fluxInterval c.now (some data) c.window S.stepMs).1 = none
        | b :: bs => (getMissRanges S.reads S.fluxInterval c.now (some data) c.window S.stepMs).1 =
            some (filterResultToTimeRange (mergeBuckets S.reads b bs data.warnings) c.window.from_ c.window.to_) := by
      unfold getMissRanges
      dsimp only
      generalize filterRelevantBuckets data.buckets c.window.from_ c.window.to_ = relevant
      cases relevant <;> rfl
    have hmissing : (getMissRanges S.reads S.fluxInterval c.now (some data) c.window S.stepMs).2 =
        findMissingRangesWithStep (c.flux S) data.buckets c.window.from_ c.window.to_ S.stepMs := by
      unfold getMissRanges Call.flux
      dsimp only
      split <;> rfl
    rw [hmissing]
    by_cases hlen : c.window.from_ + S.stepMs ≤ c.window.to_
    · obtain ⟨hclean, hcover⟩ := findMissingRangesWithStep_spec hs (c.flux S) (fun b hb => (hdata b hb).aligned) hlen
      refine split_of hs hL hw hdata hclean hcover (fun b hb _ hstart ts ha hlt hstop => ?_) hcached
      rcases hlong hlen with hmod | hno
      · exact add_le_of_lt ha hmod hlt
      · have := hno b hb
        omega
    · obtain ⟨hapart, hflux⟩ := hshort (by omega)
      obtain ⟨hclean, hcover⟩ := findMissingRangesWithStep_short hapart (by omega) hw hflux
      refine split_of hs hL hw hdata hclean (fun x hx => .inl (hcover x hx)) (fun b hb hlt hgt => ?_) hcached
      have := hapart b hb
      omega

/-! ## Fetching and merging -/

theorem executeRanges_of_unshifted {c : Call} (h : S.kind.shifted = false) : ∀ {missing : List TimeRange}
    {fresh : List (Result V)}, executeRanges S c missing = some fresh → fresh = missing.map (S.execute c.now)
  | [], fresh, hf => by
    simp only [executeRanges, mapM_nil] at hf
    cases hf
    rfl
  | tr :: missing, fresh, hf => by
    simp only [executeRanges, mapM_cons] at hf
    obtain ⟨r, hr, hf⟩ := Option.bind_eq_some_iff.1 hf
    obtain ⟨rs, hrs, hf⟩ := Option.bind_eq_some_iff.1 hf
    obtain ⟨w, hq, hr⟩ := Option.bind_eq_some_iff.1 hr
    cases hf
    rw [executeRanges_of_unshifted h hrs, map_cons]
    rcases createRangedQuery_of_unshifted h tr with heq | heq
    · rw [heq] at hq
      cases hq
      split at hr
      · cases hr
      · rw [Option.some.inj hr]
    · rw [heq] at hq; cases hq

/-- **The merge of a split is the answer to the window.** -/
theorem isAnswer_mergeResults (hs : 0 < S.stepMs) (hL : Distinct L) (hS : Answers S F L)
    {cached : Option (Result V)} {missing : List TimeRange} (h : Split S F L t w cached missing) :
    ∃ merged, mergeResults cached (missing.map (S.execute t)) = some merged ∧ IsAnswer S F L t w merged := by
  have hfresh : ∀ r ∈ missing, IsAnswer S F L t r (S.execute t r) := fun r hr => hS t r (h.clean r hr).lt
  have hpiece : ∀ r ∈ missing, ∀ p, p ∈ (S.execute t r).points ↔
      p ∈ F.truth S.stepMs t w ∧ r.from_ < p.timestamp + S.stepMs ∧ p.timestamp < r.to_ := by
    intro r hr p
    obtain ⟨-, d, hd, -, hpts⟩ := hfresh r hr
    unfold Result.points
    rw [hd]
    show p ∈ d.points ↔ _
    rw [hpts, F.truth_clean hs (h.clean r hr)]
    rfl
  have hjoin : ∀ r ∈ missing.map (S.execute t), ∀ d, r.value = .timeSeries d →
      d.Joins L Set.univ (F.truth S.stepMs t w) := by
    intro r hr d hd
    obtain ⟨tr, htr, rfl⟩ := List.mem_map.1 hr
    obtain ⟨-, d', hd', hlab, -⟩ := hfresh tr htr
    have hdd : d' = d := by
      rw [hd'] at hd
      exact ResultValue.timeSeries.inj hd
    refine ⟨hdd ▸ hlab, fun _ _ => trivial, fun p hp => ?_⟩
    refine ((hpiece tr htr p).1 ?_).1
    unfold Result.points
    rw [hd]
    exact hp
  -- what a merge of all parts would hold
  have hall : ∀ p, (p ∈ F.truth S.stepMs t w) ↔
      (∃ r, cached = some r ∧ p ∈ r.points) ∨ ∃ r ∈ missing.map (S.execute t), p ∈ r.points := by
    intro p
    constructor
    · intro hp
      refine (h.covers p hp).imp_right ?_
      rintro ⟨r, hr, hmeets⟩
      exact ⟨_, List.mem_map_of_mem hr, (hpiece r hr p).2 ⟨hp, hmeets⟩⟩
    · rintro (⟨r, hr, hp⟩ | ⟨r, hr, hp⟩)
      · obtain ⟨-, d, hd, -, hsub⟩ := h.right r hr
        unfold Result.points at hp
        rw [hd] at hp
        exact hsub hp
      · obtain ⟨tr, htr, rfl⟩ := List.mem_map.1 hr
        exact ((hpiece tr htr p).1 hp).1
  cases hc : cached with
  | none =>
    have hne := h.nonempty hc
    have hmerge := mergeTimeSeriesResults_spec hL (F.functional_truth w) none (fun _ hd => by cases hd) hjoin
    cases hm : missing with
    | nil => exact absurd hm hne
    | cons r rs =>
      obtain ⟨htype, d, hd, hlab, -⟩ := hfresh r (by rw [hm]; exact mem_cons_self)
      cases rs with
      | nil =>
        refine ⟨S.execute t r, rfl, htype, d, hd, hlab, ?_⟩
        ext p
        rw [hall p, hc, hm]
        simp [Result.points, hd, ResultValue.points]
      | cons r' rs =>
        refine ⟨_, rfl, htype, _, if_pos htype, ?_, ?_⟩
        · rw [hm] at hmerge
          exact hmerge.2
        · rw [hm] at hmerge
          refine hmerge.1.trans ?_
          ext p
          rw [hall p, hc, hm]
          simp
  | some r =>
    obtain ⟨htype, d, hd, hlab, hsub⟩ := h.right r hc
    have hmerge := mergeTimeSeriesResults_spec hL (F.functional_truth w) (some d)
      (fun d' hd' => by rw [← Option.mem_some_iff.1 hd']; exact ⟨hlab, fun _ _ => trivial, hsub⟩) hjoin
    have hpts : ∀ p, p ∈ r.points ↔ p ∈ d.points := fun p => by unfold Result.points; rw [hd]; rfl
    unfold mergeResults
    dsimp only
    split
    · rename_i hnil
      refine ⟨r, rfl, htype, d, hd, hlab, ?_⟩
      ext p
      rw [hall p, hc, hnil]
      simp [hpts]
    · rw [hd]
      refine ⟨_, rfl, htype, _, rfl, hmerge.2, ?_⟩
      refine hmerge.1.trans ?_
      ext p
      rw [hall p, hc]
      simp [hpts]

end Querier
end DsApm
