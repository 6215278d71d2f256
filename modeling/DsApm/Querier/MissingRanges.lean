import DsApm.Querier.BucketCache
/-!
# MissingRanges — what the two loops leave out and what they give

Over aligned buckets, in any order: the gaps of `findMissingRangesWithStep` start and end on multiples of the step,
except at the ends of the window, and every instant of the window is in a gap or in a bucket.
-/
namespace DsApm
namespace Querier

open Align List

variable {V : Type} {stepMs : Nat}

structure CachedBucket.Aligned (b : CachedBucket V) (stepMs : Nat) : Prop where
  start : b.startMs % stepMs = 0
  stop : b.endMs % stepMs = 0

structure Clean (stepMs : Nat) (w r : TimeRange) : Prop where
  start : w.from_ ≤ r.from_
  lt : r.from_ < r.to_
  stop : r.to_ ≤ w.to_
  from_ok : r.from_ = w.from_ ∨ r.from_ % stepMs = 0
  to_ok : r.to_ = w.to_ ∨ r.to_ % stepMs = 0

def TimeRange.Holds (r : TimeRange) (x : Nat) : Prop := r.from_ ≤ x ∧ x < r.to_

def CachedBucket.Holds (b : CachedBucket V) (x : Nat) : Prop := b.startMs ≤ x ∧ x < b.endMs

theorem stepGaps_cons {endMs currentMs : Nat} {b : CachedBucket V} (hb : b.Aligned stepMs) (bs : List (CachedBucket V))
    (hend : currentMs < b.endMs) (hstart : b.startMs < endMs) :
    stepGaps endMs stepMs currentMs (b :: bs) =
      (if currentMs < b.startMs then [⟨currentMs, b.startMs⟩] else []) ++
        stepGaps endMs stepMs (max currentMs (min b.endMs endMs)) bs := by
  have hcur : (currentMs < b.startMs ∧ currentMs < endMs) ↔ currentMs < b.startMs := by omega
  have hround : ¬ (min b.endMs endMs % stepMs ≠ 0 ∧ min b.endMs endMs < endMs) := by
    rintro ⟨hmod, hlt⟩
    rw [min_eq_left (by omega)] at hmod
    exact hmod hb.stop
  rw [stepGaps, if_neg (by omega), if_neg (by omega)]
  simp only [hb.start, ne_eq, not_true_eq_false, if_false, hcur]
  rw [if_neg hround, min_eq_left hstart.le]

theorem stepTail_clean {w r : TimeRange} {currentMs : Nat} (hcur : currentMs % stepMs = 0 ∨ w.to_ ≤ currentMs)
    (hfrom : w.from_ ≤ currentMs) (hr : r ∈ stepTail w.to_ currentMs) : Clean stepMs w r := by
  unfold stepTail at hr
  split at hr
  · rw [mem_singleton] at hr
    subst hr
    exact ⟨hfrom, by assumption, le_rfl, .inr (hcur.resolve_right (by omega)), .inl rfl⟩
  · cases hr

theorem stepTail_cover {endMs currentMs x : Nat} (hle : currentMs ≤ x) (hx : x < endMs) :
    ∃ r ∈ stepTail endMs currentMs, r.Holds x := by
  refine ⟨⟨currentMs, endMs⟩, ?_, hle, hx⟩
  unfold stepTail
  rw [if_pos (by omega)]
  exact mem_cons_self

theorem stepGaps_clean {w : TimeRange} : ∀ (bs : List (CachedBucket V)) (currentMs : Nat),
    (∀ b ∈ bs, b.Aligned stepMs) → (currentMs % stepMs = 0 ∨ w.to_ ≤ currentMs) → w.from_ ≤ currentMs →
    ∀ r ∈ stepGaps w.to_ stepMs currentMs bs, Clean stepMs w r
  | [], _, _, hcur, hfrom, _, hr => stepTail_clean hcur hfrom hr
  | b :: bs, currentMs, hbs, hcur, hfrom, r, hr => by
    have hb := hbs b mem_cons_self
    have hrest := fun b' hb' => hbs b' (mem_cons_of_mem _ hb')
    by_cases hend : b.endMs ≤ currentMs
    · rw [stepGaps, if_pos hend] at hr
      exact stepGaps_clean bs currentMs hrest hcur hfrom r hr
    · by_cases hstart : w.to_ ≤ b.startMs
      · rw [stepGaps, if_neg hend, if_pos hstart] at hr
        exact stepTail_clean hcur hfrom hr
      · rw [stepGaps_cons hb bs (by omega) (by omega)] at hr
        rcases mem_append.1 hr with hr | hr
        · split at hr
          · rw [mem_singleton] at hr
            subst hr
            exact ⟨hfrom, by assumption, by dsimp only; omega, .inr (hcur.resolve_right (by omega)), .inr hb.start⟩
          · cases hr
        · refine stepGaps_clean bs _ hrest ?_ (by omega) r hr
          rcases le_total (min b.endMs w.to_) currentMs with hle | hle
          · rwa [max_eq_left hle]
          · rw [max_eq_right hle]
            rcases le_total b.endMs w.to_ with he | he
            · rw [min_eq_left he]
              exact .inl hb.stop
            · rw [min_eq_right he]
              exact .inr le_rfl

theorem stepGaps_cover {endMs x : Nat} (hx : x < endMs) : ∀ (bs : List (CachedBucket V)) (currentMs : Nat),
    (∀ b ∈ bs, b.Aligned stepMs) → currentMs ≤ x →
    (∃ r ∈ stepGaps endMs stepMs currentMs bs, r.Holds x) ∨ ∃ b ∈ bs, b.Holds x
  | [], _, _, hle => .inl (stepTail_cover hle hx)
  | b :: bs, currentMs, hbs, hle => by
    have hb := hbs b mem_cons_self
    have hrest := fun b' hb' => hbs b' (mem_cons_of_mem _ hb')
    by_cases hend : b.endMs ≤ currentMs
    · rw [stepGaps, if_pos hend]
      rcases stepGaps_cover hx bs currentMs hrest hle with h | ⟨b', hb', h⟩
      · exact .inl h
      · exact .inr ⟨b', mem_cons_of_mem _ hb', h⟩
    · by_cases hstart : endMs ≤ b.startMs
      · rw [stepGaps, if_neg hend, if_pos hstart]
        exact .inl (stepTail_cover hle hx)
      · rw [stepGaps_cons hb bs (by omega) (by omega)]
        by_cases hgap : x < b.startMs
        · refine .inl ⟨⟨currentMs, b.startMs⟩, mem_append_left _ ?_, hle, hgap⟩
          rw [if_pos (by omega)]
          exact mem_cons_self
        · by_cases hin : x < b.endMs
          · exact .inr ⟨b, mem_cons_self, by omega, hin⟩
          · rcases stepGaps_cover hx bs (max currentMs (min b.endMs endMs)) hrest (by omega) with ⟨r, hr, h⟩ | ⟨b', hb', h⟩
            · exact .inl ⟨r, mem_append_right _ hr, h⟩
            · exact .inr ⟨b', mem_cons_of_mem _ hb', h⟩

theorem mem_sortByStart {bs : List (CachedBucket V)} {b : CachedBucket V} : b ∈ sortByStart bs ↔ b ∈ bs :=
  mem_insertionSort _

/-- **A window of at least one step: clean ranges, and with the buckets they cover the window.** -/
theorem findMissingRangesWithStep_spec (hs : 0 < stepMs) (flux : Nat) {w : TimeRange} {bs : List (CachedBucket V)}
    (hbs : ∀ b ∈ bs, b.Aligned stepMs) (hlong : w.from_ + stepMs ≤ w.to_) :
    (∀ r ∈ findMissingRangesWithStep flux bs w.from_ w.to_ stepMs, Clean stepMs w r) ∧
    ∀ x, w.Holds x → (∃ r ∈ findMissingRangesWithStep flux bs w.from_ w.to_ stepMs, r.Holds x) ∨
      ∃ b ∈ bs, b.Holds x ∧ roundUp stepMs w.from_ ≤ x := by
  have hsorted : ∀ b ∈ sortByStart bs, b.Aligned stepMs := fun b hb => hbs b (mem_sortByStart.1 hb)
  have hcover : ∀ {currentMs x : Nat}, currentMs ≤ x → x < w.to_ →
      (∃ r ∈ stepGaps w.to_ stepMs currentMs (sortByStart bs), r.Holds x) ∨ ∃ b ∈ bs, b.Holds x := by
    intro currentMs x hle hlt
    rcases stepGaps_cover hlt (sortByStart bs) currentMs hsorted hle with h | ⟨b, hb, h⟩
    · exact .inl h
    · exact .inr ⟨b, mem_sortByStart.1 hb, h⟩
  unfold findMissingRangesWithStep
  rw [if_neg (by omega)]
  dsimp only
  by_cases hmod : w.from_ % stepMs = 0
  · rw [if_neg (by simpa using hmod)]
    refine ⟨stepGaps_clean _ _ hsorted (.inl hmod) le_rfl, fun x hx => (hcover hx.1 hx.2).imp_right ?_⟩
    rintro ⟨b, hb, h⟩
    exact ⟨b, hb, h, by rw [roundUp_of_mod hmod]; exact hx.1⟩
  · -- the cut-off first interval is a range of its own
    have hup := roundUp_eq hmod
    have hle := le_roundUp hs w.from_
    have hmodUp := roundUp_mod stepMs w.from_
    have hto : roundUp stepMs w.from_ ≤ w.to_ := (roundUp_le_add stepMs w.from_).trans hlong
    have hlt : w.from_ < roundUp stepMs w.from_ := lt_of_le_of_ne hle (fun hc => hmod (by rw [hc]; exact hmodUp))
    rw [if_pos (by simpa using hmod), ← hup, min_eq_left hto]
    constructor
    · intro r hr
      rcases mem_cons.1 hr with rfl | hr
      · exact ⟨le_rfl, hlt, hto, .inl rfl, .inr hmodUp⟩
      · exact stepGaps_clean _ _ hsorted (.inl hmodUp) hle r hr
    · intro x hx
      by_cases hfirst : x < roundUp stepMs w.from_
      · exact .inl ⟨_, mem_cons_self, hx.1, hfirst⟩
      · rcases hcover (Nat.le_of_not_lt hfirst) hx.2 with ⟨r, hr, h⟩ | ⟨b, hb, h⟩
        · exact .inl ⟨r, mem_cons_of_mem _ hr, h⟩
        · exact .inr ⟨b, hb, h, Nat.le_of_not_lt hfirst⟩

theorem basicGaps_of_apart {flux startMs endMs : Nat} : ∀ (bs : List (CachedBucket V)),
    (∀ b ∈ bs, b.endMs ≤ startMs ∨ endMs ≤ b.startMs) → basicGaps flux startMs endMs startMs bs = basicTail flux endMs startMs
  | [], _ => rfl
  | b :: bs, h => by
    rw [basicGaps]
    split
    · exact basicGaps_of_apart bs (fun b' hb' => h b' (mem_cons_of_mem _ hb'))
    · rename_i hend
      rw [if_pos ((h b mem_cons_self).resolve_left hend)]

/-- **A window shorter than a step, with no bucket in it and not cut inside an interval.** -/
theorem findMissingRangesWithStep_short {flux : Nat} {w : TimeRange} {bs : List (CachedBucket V)}
    (hbs : ∀ b ∈ bs, b.endMs ≤ w.from_ ∨ w.to_ ≤ b.startMs) (hshort : w.from_ + stepMs > w.to_) (hw : w.from_ < w.to_)
    (hflux : ¬ (w.from_ < flux ∧ flux < w.to_ ∧ flux % stepMs ≠ 0)) :
    (∀ r ∈ findMissingRangesWithStep flux bs w.from_ w.to_ stepMs, Clean stepMs w r) ∧
    ∀ x, w.Holds x → ∃ r ∈ findMissingRangesWithStep flux bs w.from_ w.to_ stepMs, r.Holds x := by
  have hgaps : findMissingRangesWithStep flux bs w.from_ w.to_ stepMs = basicTail flux w.to_ w.from_ := by
    unfold findMissingRangesWithStep findMissingRangesBasic
    rw [if_pos (.inr hshort)]
    exact basicGaps_of_apart _ (fun b hb => hbs b (mem_sortByStart.1 hb))
  have hclean : Clean stepMs w w := ⟨le_rfl, hw, le_rfl, .inl rfl, .inl rfl⟩
  rw [hgaps]
  unfold basicTail
  rw [if_pos hw]
  by_cases hcut : w.from_ < flux
  · rw [if_pos hcut]
    by_cases hin : flux < w.to_
    · have hmod : flux % stepMs = 0 := by
        by_contra hc
        exact hflux ⟨hcut, hin, hc⟩
      rw [if_pos hin, min_eq_right hin.le]
      constructor
      · intro r hr
        simp only [mem_cons, not_mem_nil, or_false] at hr
        rcases hr with rfl | rfl
        · exact ⟨le_rfl, hcut, hin.le, .inl rfl, .inr hmod⟩
        · exact ⟨hcut.le, hin, le_rfl, .inr hmod, .inl rfl⟩
      · intro x hx
        by_cases hxf : x < flux
        · exact ⟨_, mem_cons_self, hx.1, hxf⟩
        · exact ⟨_, mem_cons_of_mem _ mem_cons_self, by simpa using hxf, hx.2⟩
    · rw [if_neg hin, min_eq_left (by omega)]
      exact ⟨fun r hr => by rw [mem_singleton.1 hr]; exact hclean, fun x hx => ⟨_, mem_cons_self, hx⟩⟩
  · rw [if_neg hcut]
    exact ⟨fun r hr => by rw [mem_singleton.1 hr]; exact hclean, fun x hx => ⟨_, mem_cons_self, hx⟩⟩

end Querier
end DsApm
