import DsApm.Querier.MissingRanges
/-!
# Feed — what a query should return

A feed says which aggregate a query has, at a time, over a range of instants; what is older than the flux interval is
frozen.  `Feed.truth` is the answer to a range query: for each interval that meets the window, the aggregate of the part
inside it.  Clean ranges of a window give the window's own answer, and whole intervals do not depend on the window.
-/
namespace DsApm
namespace Querier

open Align

variable {V : Type}

structure Feed (V : Type) (fluxInterval : Nat) where
  -- at a time, the value for an aggregation and a label set over the instants from the first up to the second
  aggregate : Nat → Int → (String → Option LabelValue) → Nat → Nat → V → Prop
  functional : ∀ {t i l lo hi v v'}, aggregate t i l lo hi v → aggregate t i l lo hi v' → v = v'
  frozen : ∀ {t t' i l lo hi v}, t ≤ t' → hi + fluxInterval ≤ t → (aggregate t i l lo hi v ↔ aggregate t' i l lo hi v)

namespace Feed

variable {flux stepMs t : Nat} (F : Feed V flux)

def truth (stepMs t : Nat) (w : TimeRange) : Set (Point V) :=
  {p | p.timestamp % stepMs = 0 ∧ w.from_ < p.timestamp + stepMs ∧ p.timestamp < w.to_ ∧
    F.aggregate t p.index p.labels (max p.timestamp w.from_) (min (p.timestamp + stepMs) w.to_) p.value ∧
    p.isPartial = isPartialValue stepMs (some w) p.timestamp}

theorem functional_truth (w : TimeRange) : Functional (F.truth stepMs t w) := by
  rintro ⟨i, l, ts, v, c⟩ ⟨-, -, -, hv, hc⟩ ⟨i', l', ts', v', c'⟩ ⟨-, -, -, hv', hc'⟩ ⟨hi, hl, hts⟩
  simp only at hi hl hts hv hv' hc hc'
  subst hi hl hts
  rw [F.functional hv hv', hc, hc']

def whole (stepMs t : Nat) : Set (Point V) :=
  {p | F.aggregate t p.index p.labels p.timestamp (p.timestamp + stepMs) p.value ∧ p.isPartial = false}

theorem functional_whole : Functional (F.whole stepMs t) := by
  rintro ⟨i, l, ts, v, c⟩ ⟨hv, hc⟩ ⟨i', l', ts', v', c'⟩ ⟨hv', hc'⟩ ⟨hi, hl, hts⟩
  simp only at hi hl hts hv hv' hc hc'
  subst hi hl hts
  rw [F.functional hv hv', hc, hc']

end Feed

theorem isPartialValue_eq {stepMs : Nat} (hs : 0 < stepMs) (w : TimeRange) (ts : Nat) :
    isPartialValue stepMs (some w) ts = true ↔
      ts < roundUp stepMs w.from_ ∨ (w.to_ < ts + stepMs ∧ w.to_ % stepMs ≠ 0) := by
  have hup : (if w.from_ % stepMs ≠ 0 then (w.from_ / stepMs + 1) * stepMs else w.from_) = roundUp stepMs w.from_ := by
    unfold roundUp
    split <;> simp_all
  simp only [isPartialValue, if_neg hs.ne', hup]
  split
  · simp [*]
  · split
    · simp [*]
    · simp [*]

variable {stepMs t : Nat} {flux : Nat}

theorem isPartialValue_inside (hs : 0 < stepMs) {w : TimeRange} {ts : Nat} (ha : ts % stepMs = 0) (hfrom : w.from_ ≤ ts)
    (hto : ts + stepMs ≤ w.to_) : isPartialValue stepMs (some w) ts = false := by
  rw [← Bool.not_eq_true, isPartialValue_eq hs]
  have := (roundUp_le_iff hs ha).2 hfrom
  omega

theorem Feed.mem_truth_inside (F : Feed V flux) (hs : 0 < stepMs) {w : TimeRange} {p : Point V}
    (ha : p.timestamp % stepMs = 0) (hfrom : w.from_ ≤ p.timestamp) (hto : p.timestamp + stepMs ≤ w.to_) :
    p ∈ F.truth stepMs t w ↔ p ∈ F.whole stepMs t := by
  have hpart := isPartialValue_inside hs ha hfrom hto
  unfold truth whole
  rw [Set.mem_ofPred_eq, Set.mem_ofPred_eq, max_eq_left hfrom, min_eq_left hto, hpart]
  constructor
  · rintro ⟨-, -, -, hv, hp⟩
    exact ⟨hv, hp⟩
  · rintro ⟨hv, hp⟩
    exact ⟨ha, by omega, by omega, hv, hp⟩

theorem Feed.truth_aligned (F : Feed V flux) {w : TimeRange} (hfrom : w.from_ % stepMs = 0)
    (hto : w.to_ % stepMs = 0) {p : Point V} (hp : p ∈ F.truth stepMs t w) :
    p.timestamp % stepMs = 0 ∧ w.from_ ≤ p.timestamp ∧ p.timestamp + stepMs ≤ w.to_ :=
  ⟨hp.1, le_of_lt_add hfrom hp.1 hp.2.1, add_le_of_lt hp.1 hto hp.2.2.1⟩

theorem Feed.whole_of_not_partial (F : Feed V flux) (hs : 0 < stepMs) {w : TimeRange} {p : Point V}
    (hp : p ∈ F.truth stepMs t w) (hw : p.isPartial = false) :
    roundUp stepMs w.from_ ≤ p.timestamp ∧ p.timestamp + stepMs ≤ w.to_ := by
  obtain ⟨ha, -, hlt, -, hpart⟩ := hp
  rw [hw, eq_comm, ← Bool.not_eq_true, isPartialValue_eq hs, not_or, not_and_not_right] at hpart
  refine ⟨by omega, ?_⟩
  by_contra hc
  exact hc (add_le_of_lt ha (hpart.2 (by omega)) hlt)

/-- **A clean range gives the window's answer for the intervals it meets.** -/
theorem Feed.truth_clean (F : Feed V flux) (hs : 0 < stepMs) {w r : TimeRange} (h : Clean stepMs w r) :
    F.truth stepMs t r = {p ∈ F.truth stepMs t w | r.from_ < p.timestamp + stepMs ∧ p.timestamp < r.to_} := by
  have hstart := h.start
  have hstop := h.stop
  -- at an interval the range meets, range and window see the same part of it
  have hsame : ∀ ts, ts % stepMs = 0 → r.from_ < ts + stepMs → ts < r.to_ →
      max ts r.from_ = max ts w.from_ ∧ min (ts + stepMs) r.to_ = min (ts + stepMs) w.to_ ∧
        isPartialValue stepMs (some r) ts = isPartialValue stepMs (some w) ts := by
    intro ts ha hfrom hto
    have hlo : r.from_ = w.from_ ∨ r.from_ ≤ ts := h.from_ok.imp_right (fun hr => le_of_lt_add hr ha hfrom)
    have hhi : r.to_ = w.to_ ∨ ts + stepMs ≤ r.to_ := h.to_ok.imp_right (fun hr => add_le_of_lt ha hr hto)
    refine ⟨by omega, by omega, ?_⟩
    rw [Bool.eq_iff_iff, isPartialValue_eq hs, isPartialValue_eq hs]
    have hleft : ts < roundUp stepMs r.from_ ↔ ts < roundUp stepMs w.from_ := by
      rcases hlo with heq | hle
      · rw [heq]
      · have h1 := (roundUp_le_iff hs ha).2 hle
        have h2 := (roundUp_le_iff hs ha).2 (hstart.trans hle)
        omega
    have hright : (r.to_ < ts + stepMs ∧ r.to_ % stepMs ≠ 0) ↔ (w.to_ < ts + stepMs ∧ w.to_ % stepMs ≠ 0) := by
      rcases hhi with heq | hle
      · rw [heq]
      · constructor
        · rintro ⟨hlt, -⟩; omega
        · rintro ⟨hlt, -⟩; omega
    rw [hleft, hright]
  ext p
  constructor
  · rintro ⟨ha, hfrom, hto, hv, hp⟩
    obtain ⟨hmax, hmin, hpart⟩ := hsame p.timestamp ha hfrom hto
    rw [hmax, hmin] at hv
    rw [hpart] at hp
    exact ⟨⟨ha, by omega, by omega, hv, hp⟩, hfrom, hto⟩
  · rintro ⟨⟨ha, -, -, hv, hp⟩, hfrom, hto⟩
    obtain ⟨hmax, hmin, hpart⟩ := hsame p.timestamp ha hfrom hto
    rw [← hmax, ← hmin] at hv
    rw [← hpart] at hp
    exact ⟨ha, hfrom, hto, hv, hp⟩

end Querier
end DsApm
