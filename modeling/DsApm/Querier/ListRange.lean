import Mathlib.Data.Nat.Log
import Mathlib.Tactic.Ring
import DsApm.Lib.Contiguous
/-!
# ListRange — `list_range.go`

How the window of a list query is cut into ranges that double in width backwards from its end.  Times are `uint64`, so
every difference and product is taken modulo `2^64`.  The loop need not end, hence the fuel; after `k` turns without a
wrap the cursor and the next bucket still add up to the end and one hour, which is the invariant of the proofs.
-/
namespace DsApm
namespace Querier

open Option

def hourNanos : Nat := 3600000000000

structure TsRange where
  fromNS : Nat
  toNS : Nat
  deriving DecidableEq, Repr

def digitCount : Nat → Nat
  | 0 => 0
  | n + 1 => digitCount ((n + 1) / 10) + 1

/-- `ToNanoSecs`: scaled up to nineteen digits; `math.Pow(10, -1)` is zero as a `uint64`. -/
def toNanoSecs (epoch : Nat) : Nat :=
  let count := if epoch = 0 then 1 else digitCount epoch
  epoch * (if count ≤ 19 then 10 ^ (19 - count) else 0) % 2 ^ 64

def bucketLoop (startNS : Nat) : Nat → Nat → Nat → Option (List TsRange)
  | 0, _, _ => none
  | fuel + 1, curEnd, bucket =>
    let curStart := (curEnd + 2 ^ 64 - bucket) % 2 ^ 64
    let curStart := if curStart < startNS then startNS else curStart
    if curStart = startNS then some [⟨curStart, curEnd⟩]
    else (bucketLoop startNS fuel curStart (bucket * 2 % 2 ^ 64)).map (⟨curStart, curEnd⟩ :: ·)

def makeBuckets (fuel start end_ : Nat) : Option (List TsRange) :=
  let startNS := toNanoSecs start
  let endNS := toNanoSecs end_
  if (endNS + 2 ^ 64 - startNS) % 2 ^ 64 ≤ hourNanos then some [⟨startNS, endNS⟩]
  else bucketLoop startNS fuel endNS hourNanos

/-! ## Nanoseconds -/

theorem digitCount_eq : ∀ {k n : Nat}, 10 ^ k ≤ n → n < 10 ^ (k + 1) → digitCount n = k + 1
  | _, 0, hle, _ => absurd hle (by simp)
  | 0, n + 1, _, hlt => by
    rw [digitCount, Nat.div_eq_of_lt (by simpa using hlt), digitCount]
  | k + 1, n + 1, hle, hlt => by
    rw [digitCount, digitCount_eq (k := k) ((Nat.le_div_iff_mul_le (by omega)).2 (by rwa [pow_succ] at hle))
      (Nat.div_lt_of_lt_mul (by rwa [pow_succ, Nat.mul_comm] at hlt))]

theorem exists_digits : ∀ {n : Nat}, 0 < n → ∃ k, 10 ^ k ≤ n ∧ n < 10 ^ (k + 1) := fun {n} h =>
  ⟨Nat.log 10 n, Nat.pow_log_le_self 10 (by omega), Nat.lt_pow_succ_log_self (by omega) n⟩

theorem toNanoSecs_of_digits {k n : Nat} (hle : 10 ^ k ≤ n) (hlt : n < 10 ^ (k + 1)) (hk : k < 19) :
    toNanoSecs n = n * 10 ^ (18 - k) ∧ n * 10 ^ (18 - k) < 10 ^ 19 := by
  have hpos : n ≠ 0 := by
    have := Nat.pow_pos (n := k) (show 0 < 10 by omega)
    omega
  have hbound : n * 10 ^ (18 - k) < 10 ^ 19 := by
    calc n * 10 ^ (18 - k) < 10 ^ (k + 1) * 10 ^ (18 - k) := Nat.mul_lt_mul_of_pos_right hlt (Nat.pow_pos (by omega))
      _ = 10 ^ 19 := by rw [← pow_add]; congr 1; omega
  refine ⟨?_, hbound⟩
  unfold toNanoSecs
  dsimp only
  rw [if_neg hpos, digitCount_eq hle hlt, if_pos (by omega), show 19 - (k + 1) = 18 - k by omega]
  exact Nat.mod_eq_of_lt (hbound.trans (by decide))

theorem toNanoSecs_of_large {n : Nat} (hle : 10 ^ 19 ≤ n) (hlt : n < 10 ^ 20) : toNanoSecs n = 0 := by
  unfold toNanoSecs
  dsimp only
  have hpos : n ≠ 0 := by omega
  rw [if_neg hpos, digitCount_eq hle hlt, if_neg (by omega), Nat.mul_zero, Nat.zero_mod]

theorem toNanoSecs_lt {n : Nat} (hn : n < 2 ^ 64) : toNanoSecs n < 10 ^ 19 := by
  rcases Nat.eq_zero_or_pos n with rfl | hpos
  · decide
  · obtain ⟨k, hle, hlt⟩ := exists_digits hpos
    by_cases hk : k < 19
    · obtain ⟨heq, hbound⟩ := toNanoSecs_of_digits hle hlt hk
      rwa [heq]
    · rw [toNanoSecs_of_large ((Nat.pow_le_pow_right (by omega) (by omega)).trans hle) (hn.trans (by decide))]
      decide

/-- Milliseconds of a date that `ToNanoSecs` takes for milliseconds: the epoch, or thirteen digits. -/
def Milliseconds (t : Nat) : Prop := t = 0 ∨ 10 ^ 12 ≤ t ∧ t < 10 ^ 13

/-- **Only thirteen digits are taken for milliseconds.** -/
theorem toNanoSecs_eq_iff {n : Nat} (hn : n < 2 ^ 64) : toNanoSecs n = n * 10 ^ 6 ↔ Milliseconds n := by
  unfold Milliseconds
  rcases Nat.eq_zero_or_pos n with rfl | hpos
  · simp [toNanoSecs]
  · obtain ⟨k, hle, hlt⟩ := exists_digits hpos
    by_cases hk : k < 19
    · rw [(toNanoSecs_of_digits hle hlt hk).1, Nat.mul_right_inj hpos.ne', Nat.pow_right_inj (by omega)]
      constructor
      · intro h
        obtain rfl : k = 12 := by omega
        exact .inr ⟨hle, hlt⟩
      · intro h
        obtain ⟨hlow, hhigh⟩ := h.resolve_left hpos.ne'
        have h1 : 12 < k + 1 := (Nat.pow_lt_pow_iff_right (by omega)).1 (hlow.trans_lt hlt)
        have h2 : k < 13 := (Nat.pow_lt_pow_iff_right (by omega)).1 (hle.trans_lt hhigh)
        omega
    · have hlarge : 10 ^ 19 ≤ n := (Nat.pow_le_pow_right (by omega) (by omega)).trans hle
      rw [toNanoSecs_of_large hlarge (hn.trans (by decide))]
      omega

/-! ## The loop -/

/-- Ranges that follow one another down from `hi` to `lo`, none of them empty, and nothing else. -/
structure Splits (lo hi : Nat) (out : List TsRange) : Prop where
  nonempty : ∀ r ∈ out, r.fromNS < r.toNS
  contiguous : out.IsChain (fun r r' => r'.toNS = r.fromNS)
  union : ∀ t, (∃ r ∈ out, r.fromNS ≤ t ∧ t < r.toNS) ↔ lo ≤ t ∧ t < hi

theorem bucketLoop_down {startNS : Nat} : ∀ {fuel curEnd bucket : Nat} {out : List TsRange},
    bucketLoop startNS fuel curEnd bucket = some out →
    Contiguous.Down TsRange.fromNS TsRange.toNS startNS curEnd out
  | 0, _, _, _, h => by cases h
  | fuel + 1, curEnd, bucket, out, h => by
    rw [bucketLoop] at h
    generalize (if (curEnd + 2 ^ 64 - bucket) % 2 ^ 64 < startNS then startNS else (curEnd + 2 ^ 64 - bucket) % 2 ^ 64) =
      curStart at h
    split at h
    · rename_i hstop
      cases h
      exact .last (x := (⟨curStart, curEnd⟩ : TsRange)) hstop
    · obtain ⟨rest, hrest, rfl⟩ := map_eq_some_iff.1 h
      exact .cons (x := (⟨curStart, curEnd⟩ : TsRange)) (bucketLoop_down hrest)

theorem bucketLoop_fits (startNS : Nat) {curEnd bucket total : Nat} (fuel : Nat) (htotal : curEnd + bucket = total)
    (hlt : total < 2 ^ 64) (hfits : bucket ≤ curEnd) :
    bucketLoop startNS (fuel + 1) curEnd bucket =
      if curEnd - bucket ≤ startNS then some [⟨startNS, curEnd⟩]
      else (bucketLoop startNS fuel (curEnd - bucket) (bucket * 2)).map (⟨curEnd - bucket, curEnd⟩ :: ·) := by
  have hsub : (curEnd + 2 ^ 64 - bucket) % 2 ^ 64 = curEnd - bucket := by omega
  have hdouble : bucket * 2 % 2 ^ 64 = bucket * 2 := by omega
  rw [bucketLoop, hsub, hdouble]
  by_cases hle : curEnd - bucket ≤ startNS
  · have hmax : (if curEnd - bucket < startNS then startNS else curEnd - bucket) = startNS := by
      split <;> omega
    rw [if_pos hle, hmax, if_pos rfl]
  · have hmax : (if curEnd - bucket < startNS then startNS else curEnd - bucket) = curEnd - bucket := if_neg (by omega)
    rw [if_neg hle, hmax, if_neg (by omega)]

theorem bucketLoop_wraps {startNS curEnd bucket total fuel : Nat} {out : List TsRange} (htotal : curEnd + bucket = total)
    (hlt : total < 2 ^ 64) (hstart : startNS < curEnd) (hwrap : curEnd < bucket)
    (h : bucketLoop startNS fuel curEnd bucket = some out) : ∃ r ∈ out, r.toNS < r.fromNS := by
  cases fuel with
  | zero => cases h
  | succ fuel =>
    have hsub : (curEnd + 2 ^ 64 - bucket) % 2 ^ 64 = curEnd + 2 ^ 64 - bucket := by omega
    rw [bucketLoop, hsub] at h
    have hmax : (if curEnd + 2 ^ 64 - bucket < startNS then startNS else curEnd + 2 ^ 64 - bucket) =
        curEnd + 2 ^ 64 - bucket := if_neg (by omega)
    rw [hmax, if_neg (by omega)] at h
    obtain ⟨rest, _, rfl⟩ := map_eq_some_iff.1 h
    exact ⟨_, List.mem_cons_self, by dsimp only; omega⟩

/-- No bucket that the loop still needs is wider than the time below the cursor: with `total` for the cursor and the
bucket together, the bucket of turn `k` has doubled `k` times and the cursor is what is left. -/
def BucketsFit (startNS total bucket : Nat) : Prop := ∀ k, startNS + bucket * 2 ^ k < total → bucket * 2 ^ (k + 1) ≤ total

theorem mul_two_le (bucket k : Nat) : bucket * 2 ≤ bucket * 2 ^ (k + 1) :=
  Nat.mul_le_mul_left _ (Nat.le_self_pow (by omega) 2)

theorem BucketsFit.next {startNS total bucket : Nat} (h : BucketsFit startNS total bucket) : BucketsFit startNS total (bucket * 2) := by
  intro k hk
  have hpow : ∀ j, bucket * 2 * 2 ^ j = bucket * 2 ^ (j + 1) := fun j => by ring
  rw [hpow] at hk ⊢
  exact h (k + 1) hk

theorem BucketsFit.of_recent {startNS total bucket : Nat} (h : total ≤ 2 * startNS) : BucketsFit startNS total bucket := by
  intro k hk
  have hpow : bucket * 2 ^ (k + 1) = 2 * (bucket * 2 ^ k) := by ring
  omega

/-- **The loop gives non-empty ranges exactly when every bucket fits.** -/
theorem bucketLoop_nonempty_iff (startNS : Nat) {total : Nat} (hlt : total < 2 ^ 64) : ∀ (n curEnd bucket : Nat),
    curEnd ≤ n → curEnd + bucket = total → startNS < curEnd → 0 < bucket →
    ((∃ fuel out, bucketLoop startNS fuel curEnd bucket = some out ∧ ∀ r ∈ out, r.fromNS < r.toNS) ↔
      BucketsFit startNS total bucket)
  | 0, curEnd, _, hn, _, hstart, _ => by omega
  | n + 1, curEnd, bucket, hn, htotal, hstart, hpos => by
    by_cases hfits : bucket ≤ curEnd
    · have hturn := fun fuel => bucketLoop_fits startNS fuel htotal hlt hfits
      by_cases hle : curEnd - bucket ≤ startNS
      · -- the last turn
        refine iff_of_true ⟨1, [⟨startNS, curEnd⟩], by rw [hturn, if_pos hle], by simpa using hstart⟩ ?_
        intro k hk
        cases k with
        | zero => omega
        | succ k =>
          have := mul_two_le bucket k
          omega
      · have hrest := bucketLoop_nonempty_iff startNS hlt n (curEnd - bucket) (bucket * 2) (by omega) (by omega)
          (by omega) (by omega)
        constructor
        · rintro ⟨fuel, out, h, hne⟩
          cases fuel with
          | zero => cases h
          | succ fuel =>
            rw [hturn, if_neg hle] at h
            obtain ⟨rest, hrun, rfl⟩ := map_eq_some_iff.1 h
            have hnext := hrest.1 ⟨fuel, rest, hrun, fun r hr => hne r (List.mem_cons_of_mem _ hr)⟩
            intro k hk
            cases k with
            | zero => omega
            | succ k =>
              have hpow : ∀ j, bucket * 2 * 2 ^ j = bucket * 2 ^ (j + 1) := fun j => by ring
              rw [← hpow] at hk ⊢
              exact hnext k hk
        · intro h
          obtain ⟨fuel, rest, hrun, hne⟩ := hrest.2 h.next
          refine ⟨fuel + 1, ⟨curEnd - bucket, curEnd⟩ :: rest, by rw [hturn, if_neg hle, hrun]; rfl, ?_⟩
          exact List.forall_mem_cons.2 ⟨by dsimp only; omega, hne⟩
    · refine iff_of_false ?_ (fun h => ?_)
      · rintro ⟨fuel, out, h, hne⟩
        obtain ⟨r, hr, hrev⟩ := bucketLoop_wraps htotal hlt hstart (by omega) h
        exact absurd (hne r hr) (by omega)
      · have := h 0
        omega

theorem makeBuckets_down {fuel start end_ : Nat} {out : List TsRange} (h : makeBuckets fuel start end_ = some out) :
    Contiguous.Down TsRange.fromNS TsRange.toNS (toNanoSecs start) (toNanoSecs end_) out := by
  unfold makeBuckets at h
  dsimp only at h
  split at h
  · cases h
    exact .last (x := (⟨toNanoSecs start, toNanoSecs end_⟩ : TsRange)) rfl
  · exact bucketLoop_down h

/-- **What is split, in nanoseconds.** -/
theorem makeBuckets_nonempty_iff {start end_ : Nat} (hstart : start < 2 ^ 64) (hend : end_ < 2 ^ 64)
    (hwide : hourNanos ≤ toNanoSecs end_) :
    (∃ fuel out, makeBuckets fuel start end_ = some out ∧ ∀ r ∈ out, r.fromNS < r.toNS) ↔
      toNanoSecs start < toNanoSecs end_ ∧
        BucketsFit (toNanoSecs start) (toNanoSecs end_ + hourNanos) hourNanos := by
  have hs := toNanoSecs_lt hstart
  have he := toNanoSecs_lt hend
  have hlt : toNanoSecs end_ + hourNanos < 2 ^ 64 := by
    unfold hourNanos
    omega
  unfold makeBuckets
  dsimp only
  by_cases hle : toNanoSecs end_ ≤ toNanoSecs start
  · -- a window turned round is never cut into non-empty ranges
    refine iff_of_false ?_ (by omega)
    rintro ⟨fuel, out, h, hne⟩
    have hdown := @makeBuckets_down fuel start end_ _ h
    exact absurd (hdown.lt hne) (by omega)
  · by_cases hshort : (toNanoSecs end_ + 2 ^ 64 - toNanoSecs start) % 2 ^ 64 ≤ hourNanos
    · refine iff_of_true ⟨0, _, if_pos hshort, by simp; omega⟩ ⟨by omega, fun k hk => ?_⟩
      have hsub : (toNanoSecs end_ + 2 ^ 64 - toNanoSecs start) % 2 ^ 64 = toNanoSecs end_ - toNanoSecs start := by omega
      cases k with
      | zero => omega
      | succ k =>
        have := mul_two_le hourNanos k
        omega
    · simp only [if_neg hshort]
      rw [bucketLoop_nonempty_iff _ hlt (toNanoSecs end_) _ _ le_rfl rfl (by omega) (by decide)]
      exact ⟨fun h => ⟨by omega, h⟩, fun h => h.2⟩

/-- **`makeBuckets` splits the window exactly when both ends are taken for milliseconds and every bucket fits.** -/
theorem makeBuckets_splits_iff {start end_ : Nat} (hle : start ≤ end_) (hend : end_ < 2 ^ 64) :
    (∃ fuel out, makeBuckets fuel start end_ = some out ∧ Splits (start * 10 ^ 6) (end_ * 10 ^ 6) out) ↔
      start < end_ ∧ Milliseconds start ∧ Milliseconds end_ ∧
        BucketsFit (start * 10 ^ 6) (end_ * 10 ^ 6 + hourNanos) hourNanos := by
  have hstart : start < 2 ^ 64 := by omega
  constructor
  · rintro ⟨fuel, out, hrun, hsplits⟩
    have hdown := makeBuckets_down hrun
    have hlt := hdown.lt hsplits.nonempty
    obtain ⟨hfrom, hto⟩ := Contiguous.ends_unique hlt
      (fun t => (hdown.union hsplits.nonempty t).symm.trans (hsplits.union t))
    have hms := (toNanoSecs_eq_iff hstart).1 hfrom
    have hms' := (toNanoSecs_eq_iff hend).1 hto
    have hwide : hourNanos ≤ toNanoSecs end_ := by
      unfold Milliseconds at hms'
      unfold hourNanos
      omega
    have hfits := ((makeBuckets_nonempty_iff hstart hend hwide).1 ⟨fuel, out, hrun, hsplits.nonempty⟩).2
    rw [hfrom, hto] at hfits hlt
    exact ⟨by omega, hms, hms', hfits⟩
  · rintro ⟨hlt, hms, hms', hfits⟩
    have hfrom := (toNanoSecs_eq_iff hstart).2 hms
    have hto := (toNanoSecs_eq_iff hend).2 hms'
    have hwide : hourNanos ≤ toNanoSecs end_ := by
      unfold Milliseconds at hms'
      unfold hourNanos
      omega
    rw [← hfrom, ← hto] at hfits ⊢
    obtain ⟨fuel, out, hrun, hne⟩ := (makeBuckets_nonempty_iff hstart hend hwide).2 ⟨by omega, hfits⟩
    have hdown := makeBuckets_down hrun
    exact ⟨fuel, out, hrun, hne, hdown.isChain, hdown.union hne⟩

/-- A month, in milliseconds of 2023. -/
theorem month_splits :
    (∃ fuel out, makeBuckets fuel 1697400000000 1700000000000 = some out ∧
      Splits (1697400000000 * 10 ^ 6) (1700000000000 * 10 ^ 6) out) ↔
      1697400000000 < 1700000000000 ∧ Milliseconds 1697400000000 ∧ Milliseconds 1700000000000 ∧
        BucketsFit (1697400000000 * 10 ^ 6) (1700000000000 * 10 ^ 6 + hourNanos) hourNanos :=
  makeBuckets_splits_iff (by decide) (by decide)

/-! ## Windows in milliseconds

Seen from a caller that takes each range back to milliseconds.
-/

theorem bucketLoop_mono {startNS : Nat} : ∀ {fuel fuel' curEnd bucket : Nat} {out : List TsRange}, fuel ≤ fuel' →
    bucketLoop startNS fuel curEnd bucket = some out → bucketLoop startNS fuel' curEnd bucket = some out
  | 0, _, _, _, _, _, h => by cases h
  | fuel + 1, 0, _, _, _, hle, _ => absurd hle (by omega)
  | fuel + 1, fuel' + 1, curEnd, bucket, out, hle, h => by
    rw [bucketLoop] at h ⊢
    generalize (if (curEnd + 2 ^ 64 - bucket) % 2 ^ 64 < startNS then startNS else (curEnd + 2 ^ 64 - bucket) % 2 ^ 64) =
      curStart at h ⊢
    split at h
    · rename_i hstop
      rw [if_pos hstop, h]
    · rename_i hmore
      obtain ⟨rest, hrest, rfl⟩ := map_eq_some_iff.1 h
      rw [if_neg hmore, bucketLoop_mono (by omega) hrest]
      rfl

theorem makeBuckets_mono {fuel fuel' start end_ : Nat} {out : List TsRange} (hle : fuel ≤ fuel')
    (h : makeBuckets fuel start end_ = some out) : makeBuckets fuel' start end_ = some out := by
  unfold makeBuckets at h ⊢
  dsimp only at h ⊢
  split at h
  · rename_i hshort
    rw [if_pos hshort, h]
  · rename_i hlong
    rw [if_neg hlong]
    exact bucketLoop_mono hle h

theorem makeBuckets_unique {fuel fuel' start end_ : Nat} {out out' : List TsRange}
    (h : makeBuckets fuel start end_ = some out) (h' : makeBuckets fuel' start end_ = some out') : out = out' := by
  have heq := makeBuckets_mono (Nat.le_max_left fuel fuel') h
  rw [makeBuckets_mono (Nat.le_max_right fuel fuel') h'] at heq
  exact (some_inj.1 heq).symm

theorem bucketLoop_aligned {startNS m total : Nat} (hs : m ∣ startNS) (hlt : total < 2 ^ 64) :
    ∀ {fuel curEnd bucket : Nat} {out : List TsRange}, m ∣ curEnd → m ∣ bucket → curEnd + bucket = total →
    startNS < curEnd → bucketLoop startNS fuel curEnd bucket = some out → (∀ r ∈ out, r.fromNS < r.toNS) →
    ∀ r ∈ out, m ∣ r.fromNS ∧ m ∣ r.toNS
  | 0, _, _, _, _, _, _, _, h, _ => by cases h
  | fuel + 1, curEnd, bucket, out, hend, hbucket, htotal, hstart, h, hne => by
    by_cases hfits : bucket ≤ curEnd
    · rw [bucketLoop_fits startNS fuel htotal hlt hfits] at h
      split at h
      · cases h
        simp [hs, hend]
      · obtain ⟨rest, hrest, rfl⟩ := map_eq_some_iff.1 h
        have hsub : m ∣ curEnd - bucket := Nat.dvd_sub hend hbucket
        refine List.forall_mem_cons.2 ⟨⟨hsub, hend⟩, ?_⟩
        exact bucketLoop_aligned hs hlt hsub (hbucket.mul_right 2) (by omega) (by omega) hrest
          (fun r hr => hne r (List.mem_cons_of_mem _ hr))
    · obtain ⟨r, hr, hrev⟩ := bucketLoop_wraps htotal hlt hstart (by omega) h
      exact absurd (hne r hr) (by omega)

theorem toNanoSecs_div {x : Nat} (hlow : 10 ^ 18 ≤ x) (hhigh : x < 10 ^ 19) (hms : 10 ^ 6 ∣ x) :
    toNanoSecs (x / 10 ^ 6) = x := by
  have hdiv : x / 10 ^ 6 * 10 ^ 6 = x := Nat.div_mul_cancel hms
  rw [(toNanoSecs_eq_iff (by omega)).2 (.inr ⟨by omega, by omega⟩), hdiv]

structure Cut (fromMS toMS : Nat) : Prop where
  start : 10 ^ 12 ≤ fromMS ∧ fromMS < 10 ^ 13
  stop : 10 ^ 12 ≤ toMS ∧ toMS < 10 ^ 13
  fits : fromMS < toMS → BucketsFit (fromMS * 10 ^ 6) (toMS * 10 ^ 6 + hourNanos) hourNanos

theorem toNanoSecs_date {t : Nat} (h : 10 ^ 12 ≤ t ∧ t < 10 ^ 13) : toNanoSecs t = t * 10 ^ 6 :=
  (toNanoSecs_eq_iff (by omega)).2 (.inr h)

theorem makeBuckets_reversed {fromMS toMS : Nat} (hfrom : 10 ^ 12 ≤ fromMS ∧ fromMS < 10 ^ 13)
    (hto : 10 ^ 12 ≤ toMS ∧ toMS < 10 ^ 13) (hlt : toMS < fromMS) (fuel : Nat) :
    makeBuckets (fuel + 1) fromMS toMS = some [⟨fromMS * 10 ^ 6, toMS * 10 ^ 6⟩] := by
  have hwrap : (toMS * 10 ^ 6 + 2 ^ 64 - fromMS * 10 ^ 6) % 2 ^ 64 = toMS * 10 ^ 6 + 2 ^ 64 - fromMS * 10 ^ 6 :=
    Nat.mod_eq_of_lt (by omega)
  unfold makeBuckets
  dsimp only
  rw [toNanoSecs_date hfrom, toNanoSecs_date hto, hwrap, if_neg (by unfold hourNanos; omega),
    bucketLoop_fits _ fuel rfl (by unfold hourNanos; omega) (by unfold hourNanos; omega), if_pos (by omega)]

section Cut

variable {fromMS toMS : Nat} (h : Cut fromMS toMS)
include h

theorem Cut.nonempty (hlt : fromMS < toMS) :
    ∃ fuel out, makeBuckets fuel fromMS toMS = some out ∧ ∀ r ∈ out, r.fromNS < r.toNS := by
  obtain ⟨hfrom, hto, hfits⟩ := h
  refine (makeBuckets_nonempty_iff (by omega) (by omega) ?_).2 ⟨?_, ?_⟩
  · rw [toNanoSecs_date hto]
    unfold hourNanos
    omega
  · rw [toNanoSecs_date hto, toNanoSecs_date hfrom]
    omega
  · rw [toNanoSecs_date hto, toNanoSecs_date hfrom]
    exact hfits hlt

theorem Cut.returns : ∃ fuel out, makeBuckets fuel fromMS toMS = some out := by
  rcases Nat.lt_trichotomy fromMS toMS with hlt | rfl | hgt
  · obtain ⟨fuel, out, hout, _⟩ := h.nonempty hlt
    exact ⟨fuel, out, hout⟩
  · refine ⟨0, [⟨toNanoSecs fromMS, toNanoSecs fromMS⟩], ?_⟩
    unfold makeBuckets
    dsimp only
    rw [if_pos (by unfold hourNanos; omega)]
  · exact ⟨1, _, makeBuckets_reversed h.start h.stop hgt 0⟩

/-- **The ranges of a window that is cut**, with their ends as they come back from milliseconds. -/
theorem Cut.ranges (hlt : fromMS < toMS) {fuel : Nat} {out : List TsRange}
    (hout : makeBuckets fuel fromMS toMS = some out) :
    Contiguous.Down TsRange.fromNS TsRange.toNS (fromMS * 10 ^ 6) (toMS * 10 ^ 6) out ∧
      (∀ r ∈ out, r.fromNS < r.toNS) ∧
      ∀ r ∈ out, toNanoSecs (r.fromNS / 10 ^ 6) = r.fromNS ∧ toNanoSecs (r.toNS / 10 ^ 6) = r.toNS := by
  obtain ⟨fuel', out', hout', hne⟩ := h.nonempty hlt
  obtain rfl := makeBuckets_unique hout hout'
  obtain ⟨hfrom, hto, -⟩ := h
  have hdown := makeBuckets_down hout
  rw [toNanoSecs_date hto, toNanoSecs_date hfrom] at hdown
  have haligned : ∀ r ∈ out, 10 ^ 6 ∣ r.fromNS ∧ 10 ^ 6 ∣ r.toNS := by
    unfold makeBuckets at hout
    dsimp only at hout
    rw [toNanoSecs_date hto, toNanoSecs_date hfrom] at hout
    split at hout
    · cases hout
      simp
    · refine bucketLoop_aligned (Dvd.intro_left _ rfl) ?_ (Dvd.intro_left _ rfl) (by decide) rfl (by omega) hout hne
      unfold hourNanos
      omega
  refine ⟨hdown, hne, fun r hr => ?_⟩
  obtain ⟨hlow, hhigh⟩ := hdown.bounds hne r hr
  have hr' := hne r hr
  obtain ⟨hfromms, htoms⟩ := haligned r hr
  exact ⟨toNanoSecs_div (by omega) (by omega) hfromms, toNanoSecs_div (by omega) (by omega) htoms⟩

theorem Cut.empty (hle : toMS ≤ fromMS) {fuel : Nat} {out : List TsRange}
    (hout : makeBuckets fuel fromMS toMS = some out) :
    ∀ r ∈ out, toNanoSecs (r.toNS / 10 ^ 6) ≤ toNanoSecs (r.fromNS / 10 ^ 6) := by
  have hone : out = [⟨fromMS * 10 ^ 6, toMS * 10 ^ 6⟩] := by
    rcases Nat.lt_or_eq_of_le hle with hlt | rfl
    · exact makeBuckets_unique hout (makeBuckets_reversed h.start h.stop hlt 0)
    · unfold makeBuckets at hout
      dsimp only at hout
      rw [if_pos (by unfold hourNanos; omega), toNanoSecs_date h.start] at hout
      exact (some_inj.1 hout).symm
  intro r hr
  rw [hone, List.mem_singleton] at hr
  rw [hr, Nat.mul_div_cancel _ (by decide), Nat.mul_div_cancel _ (by decide), toNanoSecs_date h.start, toNanoSecs_date h.stop]
  exact Nat.mul_le_mul_right _ hle

end Cut

/-! ## Windows from the epoch

Nothing is below the start, so only a cursor that meets the epoch exactly ends the loop. -/

theorem bucketLoop_diverges : ∀ (fuel curEnd bucket : Nat), bucket < 2 ^ 64 →
    (∀ k, bucket * 2 ^ (k + 1) % 2 ^ 64 ≠ (curEnd + bucket) % 2 ^ 64) → bucketLoop 0 fuel curEnd bucket = none
  | 0, _, _, _, _ => rfl
  | fuel + 1, curEnd, bucket, hlt, hmiss => by
    have hnow := hmiss 0
    have hnonzero : (curEnd + 2 ^ 64 - bucket) % 2 ^ 64 ≠ 0 := by omega
    rw [bucketLoop]
    rw [if_neg (Nat.not_lt_zero _), if_neg hnonzero, map_eq_none_iff]
    refine bucketLoop_diverges fuel _ _ (Nat.mod_lt _ (by decide)) (fun k => ?_)
    have hbucket : bucket * 2 % 2 ^ 64 * 2 ^ (k + 1) % 2 ^ 64 = bucket * 2 ^ (k + 1 + 1) % 2 ^ 64 := by
      rw [Nat.mod_mul_mod]
      congr 1
      ring
    rw [hbucket]
    have := hmiss (k + 1)
    omega

/-- **A window from the epoch whose length is no sum of buckets: `makeBuckets` never returns.** -/
theorem makeBuckets_diverges {end_ : Nat} (hend : end_ < 2 ^ 64) (hlong : hourNanos < toNanoSecs end_)
    (hmiss : ∀ k, hourNanos * 2 ^ (k + 1) % 2 ^ 64 ≠ (toNanoSecs end_ + hourNanos) % 2 ^ 64) (fuel : Nat) :
    makeBuckets fuel 0 end_ = none := by
  have hzero : toNanoSecs 0 = 0 := by decide
  have := toNanoSecs_lt hend
  unfold makeBuckets
  dsimp only
  rw [hzero, if_neg (by omega)]
  exact bucketLoop_diverges fuel _ _ (by decide) hmiss

theorem hourNanos_doubled (k : Nat) : hourNanos * 2 ^ (51 + k) % 2 ^ 64 = 0 := by
  rw [pow_add, ← Nat.mul_assoc, ← Nat.mod_mul_mod, show hourNanos * 2 ^ 51 % 2 ^ 64 = 0 by decide, Nat.zero_mul,
    Nat.zero_mod]

theorem makeBuckets_epoch (fuel : Nat) : makeBuckets fuel 0 1700000000000 = none := by
  have hns : toNanoSecs 1700000000000 = 1700000000000 * 10 ^ 6 := toNanoSecs_date (by decide)
  refine makeBuckets_diverges (by decide) (by rw [hns]; decide) (fun k => ?_) fuel
  rw [hns]
  by_cases hk : k < 50
  · have : ∀ k < 50, hourNanos * 2 ^ (k + 1) % 2 ^ 64 ≠ (1700000000000 * 10 ^ 6 + hourNanos) % 2 ^ 64 := by decide
    exact this k hk
  · rw [show k + 1 = 51 + (k - 50) by omega, hourNanos_doubled]
    decide

theorem epoch_never_splits :
    ¬ ∃ fuel out, makeBuckets fuel 0 1700000000000 = some out ∧ Splits (0 * 10 ^ 6) (1700000000000 * 10 ^ 6) out := by
  rintro ⟨fuel, out, h, _⟩
  rw [makeBuckets_epoch] at h
  cases h

end Querier
end DsApm
