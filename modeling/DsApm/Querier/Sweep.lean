import DsApm.Querier.MissingRanges
/-!
# Sweep — the missing ranges over every window

The same two loops as in `BucketCache`, with the sums of the `uint64` arithmetic wrapped, over buckets in any order and
over every window.  What a loop gives from a cursor on is `Missing`: one lemma for a gap before a bucket, one for a move
of the cursor over one.
-/
namespace DsApm
namespace Querier

open Align List

variable {V : Type} {stepMs : Nat}

/-! ## The loops over `uint64` -/

def nextAggStart (stepMs t : Nat) : Nat := (t - t % stepMs + stepMs) % 2 ^ 64

def stepGaps64 (endMs stepMs : Nat) : Nat → List (CachedBucket V) → List TimeRange
  | currentMs, [] => stepTail endMs currentMs
  | currentMs, b :: bs =>
    if b.endMs ≤ currentMs then stepGaps64 endMs stepMs currentMs bs
    else if endMs ≤ b.startMs then stepTail endMs currentMs
    else
      let alignedBucketStart := if b.startMs % stepMs ≠ 0 then nextAggStart stepMs b.startMs else b.startMs
      let bucketEnd := min b.endMs endMs
      let bucketEnd := if bucketEnd % stepMs ≠ 0 ∧ bucketEnd < endMs then bucketEnd - bucketEnd % stepMs else bucketEnd
      (if currentMs < alignedBucketStart ∧ currentMs < endMs then [⟨currentMs, min alignedBucketStart endMs⟩] else []) ++
        stepGaps64 endMs stepMs (max currentMs bucketEnd) bs

def findMissingRangesWithStep64 (flux : Nat) (buckets : List (CachedBucket V)) (startMs endMs stepMs : Nat) :
    List TimeRange :=
  if stepMs = 0 ∨ (startMs + stepMs) % 2 ^ 64 > endMs then findMissingRangesBasic flux buckets startMs endMs
  else if startMs % stepMs ≠ 0 then
    ⟨startMs, min (nextAggStart stepMs startMs) endMs⟩ ::
      stepGaps64 endMs stepMs (nextAggStart stepMs startMs) (sortByStart buckets)
  else stepGaps64 endMs stepMs startMs (sortByStart buckets)

theorem stepGaps64_eq (endMs : Nat) : ∀ (bs : List (CachedBucket V)) (currentMs : Nat), (∀ b ∈ bs, b.Aligned stepMs) →
    stepGaps64 endMs stepMs currentMs bs = stepGaps endMs stepMs currentMs bs
  | [], _, _ => rfl
  | b :: bs, currentMs, hbs => by
    have hb := (hbs b mem_cons_self).start
    have hrest := fun cur => stepGaps64_eq endMs bs cur (fun b' hb' => hbs b' (mem_cons_of_mem _ hb'))
    simp only [stepGaps64, stepGaps, hb, ne_eq, not_true_eq_false, if_false, hrest]

structure Missing (buckets : List (CachedBucket V)) (lo hi : Nat) (ranges : List TimeRange) : Prop where
  nonempty : ∀ r ∈ ranges, r.from_ < r.to_
  within : ∀ r ∈ ranges, lo ≤ r.from_ ∧ r.to_ ≤ hi
  ordered : ranges.Pairwise (fun r r' => r.to_ ≤ r'.from_)
  cover : ∀ x, lo ≤ x → x < hi → (∃ r ∈ ranges, r.Holds x) ∨ ∃ b ∈ buckets, b.Holds x

namespace Missing

variable {buckets buckets' : List (CachedBucket V)} {lo mid stop hi : Nat} {ranges : List TimeRange}

theorem mono (h : Missing buckets lo hi ranges) (hsub : ∀ b ∈ buckets, b ∈ buckets') : Missing buckets' lo hi ranges :=
  { h with cover := fun x hlo hhi => (h.cover x hlo hhi).imp_right (fun ⟨b, hb, hx⟩ => ⟨b, hsub b hb, hx⟩) }

theorem empty (h : hi ≤ lo) : Missing buckets lo hi [] where
  nonempty := by simp
  within := by simp
  ordered := .nil
  cover := fun x hlo hhi => by omega

theorem whole (h : lo < hi) : Missing buckets lo hi [⟨lo, hi⟩] where
  nonempty := by simpa using h
  within := by simp
  ordered := pairwise_singleton _ _
  cover := fun x hlo hhi => .inl ⟨_, mem_singleton_self _, hlo, hhi⟩

theorem skip (h : Missing buckets mid hi ranges) (hle : lo ≤ mid)
    (hheld : ∀ x, lo ≤ x → x < mid → x < hi → ∃ b ∈ buckets, b.Holds x) : Missing buckets lo hi ranges where
  nonempty := h.nonempty
  within := fun r hr => ⟨hle.trans (h.within r hr).1, (h.within r hr).2⟩
  ordered := h.ordered
  cover := fun x hlo hhi => by
    by_cases hx : x < mid
    · exact .inr (hheld x hlo hx hhi)
    · exact h.cover x (by omega) hhi

theorem gap (h : Missing buckets stop hi ranges) (hlt : lo < stop) (hstop : stop ≤ hi) :
    Missing buckets lo hi (⟨lo, stop⟩ :: ranges) where
  nonempty := forall_mem_cons.2 ⟨hlt, h.nonempty⟩
  within := forall_mem_cons.2 ⟨⟨le_rfl, hstop⟩, fun r hr => ⟨hlt.le.trans (h.within r hr).1, (h.within r hr).2⟩⟩
  ordered := pairwise_cons.2 ⟨fun r hr => (h.within r hr).1, h.ordered⟩
  cover := fun x hlo hhi => by
    by_cases hx : x < stop
    · exact .inl ⟨_, mem_cons_self, hlo, hx⟩
    · rcases h.cover x (by omega) hhi with ⟨r, hr, hin⟩ | hb
      · exact .inl ⟨r, mem_cons_of_mem _ hr, hin⟩
      · exact .inr hb

theorem turn {b : CachedBucket V} (hb : b ∈ buckets) (hpos : b.startMs < b.endMs) (hstart : b.startMs < hi)
    (h : Missing buckets (max lo (min b.endMs hi)) hi ranges) :
    Missing buckets lo hi ((if lo < b.startMs then [⟨lo, b.startMs⟩] else []) ++ ranges) := by
  have hheld : ∀ x, b.startMs ≤ x → x < b.endMs → ∃ b ∈ buckets, b.Holds x := fun x hx hx' => ⟨b, hb, hx, hx'⟩
  split
  · rename_i hlt
    refine gap (skip h (by omega) (fun x hx hmid _ => hheld x hx (by omega))) hlt hstart.le
  · exact skip h (by omega) (fun x hx hmid _ => hheld x (by omega) (by omega))

end Missing

theorem stepTail_missing (bs : List (CachedBucket V)) (endMs currentMs : Nat) :
    Missing bs currentMs endMs (stepTail endMs currentMs) := by
  unfold stepTail
  split
  · exact .whole (by assumption)
  · exact .empty (by omega)

theorem basicTail_missing (bs : List (CachedBucket V)) (flux endMs currentMs : Nat) :
    Missing bs currentMs endMs (basicTail flux endMs currentMs) := by
  unfold basicTail
  split_ifs with hlt hcut hin
  · rw [min_eq_right (by omega)]
    exact .gap (.whole hin) hcut (by omega)
  · rw [min_eq_left (by omega)]
    exact .whole hlt
  · exact .whole hlt
  · exact .empty (by omega)

theorem basicGaps_missing (flux startMs endMs : Nat) : ∀ (bs : List (CachedBucket V)) (currentMs : Nat),
    (∀ b ∈ bs, b.startMs < b.endMs) → startMs ≤ currentMs →
    Missing bs currentMs endMs (basicGaps flux startMs endMs currentMs bs)
  | [], currentMs, _, _ => basicTail_missing _ _ _ _
  | b :: bs, currentMs, hpos, hle => by
    have hrest := fun b' hb' => hpos b' (mem_cons_of_mem _ hb')
    rw [basicGaps]
    split_ifs with hend hstart hgap
    · exact (basicGaps_missing flux startMs endMs bs currentMs hrest hle).mono (fun _ => mem_cons_of_mem _)
    · exact basicTail_missing _ _ _ _
    all_goals
      have hnext := (basicGaps_missing flux startMs endMs bs (max currentMs (min b.endMs endMs)) hrest (by omega)).mono
        (fun _ => mem_cons_of_mem b)
      have hturn := hnext.turn mem_cons_self (hpos b mem_cons_self) (by omega)
    · rwa [if_pos hgap, ← min_eq_left (show b.startMs ≤ endMs by omega)] at hturn
    · rwa [if_neg hgap] at hturn

theorem stepGaps_missing (endMs : Nat) : ∀ (bs : List (CachedBucket V)) (currentMs : Nat),
    (∀ b ∈ bs, b.startMs < b.endMs) → (∀ b ∈ bs, b.Aligned stepMs) →
    Missing bs currentMs endMs (stepGaps endMs stepMs currentMs bs)
  | [], currentMs, _, _ => stepTail_missing _ _ _
  | b :: bs, currentMs, hpos, hbs => by
    have hrest := fun cur => (stepGaps_missing endMs bs cur (fun b' hb' => hpos b' (mem_cons_of_mem _ hb'))
      (fun b' hb' => hbs b' (mem_cons_of_mem _ hb'))).mono (fun _ => mem_cons_of_mem b)
    by_cases hend : b.endMs ≤ currentMs
    · rw [stepGaps, if_pos hend]
      exact hrest currentMs
    · by_cases hstart : endMs ≤ b.startMs
      · rw [stepGaps, if_neg hend, if_pos hstart]
        exact stepTail_missing _ _ _
      · rw [stepGaps_cons (hbs b mem_cons_self) bs (by omega) (by omega)]
        exact (hrest _).turn mem_cons_self (hpos b mem_cons_self) (by omega)

theorem findMissingRangesBasic_missing (flux : Nat) {bs : List (CachedBucket V)} (hpos : ∀ b ∈ bs, b.startMs < b.endMs)
    (startMs endMs : Nat) : Missing bs startMs endMs (findMissingRangesBasic flux bs startMs endMs) :=
  (basicGaps_missing flux startMs endMs (sortByStart bs) startMs (fun b hb => hpos b (mem_sortByStart.1 hb)) le_rfl).mono
    (fun _ => mem_sortByStart.1)

/-- The cut-off first interval and the loop, while the next interval starts below `2^64`. -/
theorem stepWindow_missing {bs : List (CachedBucket V)} {startMs endMs : Nat} (hpos : ∀ b ∈ bs, b.startMs < b.endMs)
    (hbs : ∀ b ∈ bs, b.Aligned stepMs) (hs : 0 < stepMs) (hw : startMs < endMs) (hfits : roundUp stepMs startMs < 2 ^ 64) :
    Missing bs startMs endMs (if startMs % stepMs ≠ 0 then
      ⟨startMs, min (nextAggStart stepMs startMs) endMs⟩ ::
        stepGaps64 endMs stepMs (nextAggStart stepMs startMs) (sortByStart bs)
      else stepGaps64 endMs stepMs startMs (sortByStart bs)) := by
  have hsorted : ∀ b ∈ sortByStart bs, b.Aligned stepMs := fun b hb => hbs b (mem_sortByStart.1 hb)
  have hgaps : ∀ cur, Missing bs cur endMs (stepGaps64 endMs stepMs cur (sortByStart bs)) := by
    intro cur
    rw [stepGaps64_eq _ _ _ hsorted]
    exact (stepGaps_missing endMs _ cur (fun b hb => hpos b (mem_sortByStart.1 hb)) hsorted).mono
      (fun _ => mem_sortByStart.1)
  split
  · rename_i hmod
    have hup := roundUp_eq hmod
    have hnext : nextAggStart stepMs startMs = roundUp stepMs startMs := by
      rw [nextAggStart, ← hup, Nat.mod_eq_of_lt hfits]
    have hlt : startMs < roundUp stepMs startMs := by
      rw [hup]
      have := Nat.mod_lt startMs hs
      omega
    rw [hnext]
    rcases le_total (roundUp stepMs startMs) endMs with hle | hle
    · rw [min_eq_left hle]
      exact .gap (hgaps _) hlt hle
    · -- the window ends inside its first interval: nothing is left for the loop
      rw [min_eq_right hle]
      exact .gap ((hgaps _).skip hle (fun x hx _ hhi => by omega)) hw le_rfl
  · exact hgaps startMs

/-- **Every window: what is missing, unless the next interval's start wraps.** -/
theorem findMissingRangesWithStep64_missing_iff (flux : Nat) {bs : List (CachedBucket V)} {startMs endMs : Nat}
    (hpos : ∀ b ∈ bs, b.startMs < b.endMs) (hbs : 0 < stepMs → ∀ b ∈ bs, b.Aligned stepMs) (hw : startMs < endMs)
    (hend : endMs < 2 ^ 64) (hstep : stepMs < 2 ^ 64) :
    Missing bs startMs endMs (findMissingRangesBasic flux bs startMs endMs) ∧
    (Missing bs startMs endMs (findMissingRangesWithStep64 flux bs startMs endMs stepMs) ↔ roundUp stepMs startMs < 2 ^ 64) := by
  have hbasic := findMissingRangesBasic_missing flux hpos startMs endMs
  refine ⟨hbasic, ?_⟩
  unfold findMissingRangesWithStep64
  rcases Nat.eq_zero_or_pos stepMs with rfl | hs
  · rw [if_pos (.inl rfl)]
    refine iff_of_true hbasic ?_
    unfold roundUp
    split <;> omega
  have hle := roundUp_le_add stepMs startMs
  constructor
  · intro h
    by_contra hwrap
    -- both sums wrap, and the first range ends before it starts
    have hmod : startMs % stepMs ≠ 0 := fun hc => hwrap (by rw [roundUp_of_mod hc]; omega)
    have hup := roundUp_eq hmod
    have hrem := Nat.mod_lt startMs hs
    have hnext : nextAggStart stepMs startMs < startMs := by
      rw [nextAggStart, ← hup]
      omega
    rw [if_neg (by omega), if_pos hmod] at h
    have := h.nonempty _ mem_cons_self
    dsimp only at this
    omega
  · intro hfits
    split
    · exact hbasic
    · exact stepWindow_missing hpos (hbs hs) hs hw hfits

def nested : List (CachedBucket Unit) :=
  [⟨60, 120, .timeSeries, {}, {}⟩, ⟨0, 180, .timeSeries, {}, {}⟩, ⟨240, 300, .timeSeries, {}, {}⟩]

theorem nested_missing :
    Missing nested 90 400 (findMissingRangesBasic 350 nested 90 400) ∧
    (Missing nested 90 400 (findMissingRangesWithStep64 350 nested 90 400 60) ↔ roundUp 60 90 < 2 ^ 64) := by
  refine findMissingRangesWithStep64_missing_iff 350 (by decide) (fun _ b hb => ?_) (by decide) (by decide) (by decide)
  simp only [nested, mem_cons, not_mem_nil, or_false] at hb
  rcases hb with rfl | rfl | rfl <;> exact ⟨rfl, rfl⟩

/-- A window within a minute of the end of `uint64`: the first range goes back to the epoch. -/
theorem lastMinute_reversed : ¬ Missing nested (2 ^ 64 - 10) (2 ^ 64 - 1)
    (findMissingRangesWithStep64 0 nested (2 ^ 64 - 10) (2 ^ 64 - 1) 60) := by
  intro h
  have := h.nonempty ⟨2 ^ 64 - 10, 44⟩ (by decide)
  revert this
  decide

end Querier
end DsApm
