import DsApm.Lib.Cover
import DsApm.Waterfall.Completeness
/-!
# ServiceTime — how long each service was at work in a trace

`calculateServiceTime` sweeps over a service's spans in the order of their starts, and the query service's `CalculateServiceTime`
first merges the intervals and then adds up what is left.  Both measure the union of the spans: neither counts a moment twice, or
one at which the service had no span.
-/
namespace DsApm
namespace Waterfall

open Cover List Option

/-! ## From the waterfall -/

/-- A span appended to its service's; a placeholder has no service. -/
def addToService (serviceSpans : GoMap String (List WaterfallSpan)) (span : WaterfallSpan) : GoMap String (List WaterfallSpan) :=
  if span.serviceName ≠ "" then GoMap.put (fun spans => spans.getD [] ++ [span]) serviceSpans span.serviceName else serviceSpans

def serviceSpans (spans : List WaterfallSpan) : GoMap String (List WaterfallSpan) := spans.foldl addToService ∅

structure ServiceSweep where
  currentStart : UInt64
  currentEnd : UInt64
  total : UInt64

def ServiceSweep.step (s : ServiceSweep) (span : WaterfallSpan) : ServiceSweep :=
  let startNano := span.timeUnixNano
  let endNano := startNano + span.durationNano
  if s.currentEnd ≥ startNano then
    if endNano > s.currentEnd then { s with currentEnd := endNano } else s
  else ⟨startNano, endNano, s.total + (s.currentEnd - s.currentStart)⟩

/-- The time of one service, or none where `spans[0]` is not there. -/
def serviceTime (S : SortSlice) (spans : List WaterfallSpan) : Option UInt64 :=
  match S.sort (fun span => toLex (span.timeUnixNano.toNat, "")) spans with
  | [] => none
  | first :: rest =>
    let s := rest.foldl ServiceSweep.step ⟨first.timeUnixNano, first.timeUnixNano + first.durationNano, 0⟩
    some (s.total + (s.currentEnd - s.currentStart))

def calculateServiceTime (S : SortSlice) (spans : List WaterfallSpan) : GoMap String UInt64 :=
  GoMap.filterMapVal (fun _ spans => serviceTime S spans) (serviceSpans spans)

/-! ## From the query service -/

structure Interval where
  startTime : UInt64
  duration : UInt64
  service : String
  deriving DecidableEq

def mergeFrom : Interval → List Interval → List Interval
  | current, [] => [current]
  | current, next :: rest =>
    if current.startTime + current.duration ≥ next.startTime then
      let endTime := max (current.startTime + current.duration) (next.startTime + next.duration)
      mergeFrom { current with duration := endTime - current.startTime } rest
    else current :: mergeFrom next rest

def mergeIntervals : List Interval → List Interval
  | [] => []
  | current :: rest => mergeFrom current rest

def totalTime (intervals : List Interval) : UInt64 := intervals.foldl (fun totalTime interval => totalTime + interval.duration) 0

def CalculateServiceTime (S : SortSlice) (serviceIntervals : GoMap String (List Interval)) : GoMap String UInt64 :=
  GoMap.filterMapVal (fun _ intervals =>
    some (totalTime (mergeIntervals (S.sort (fun interval => toLex (interval.startTime.toNat, "")) intervals)))) serviceIntervals

/-! ## What they measure -/

def during (start duration : UInt64) : Nat × Nat := (start.toNat, start.toNat + duration.toNat)

def WaterfallSpan.during (span : WaterfallSpan) : Nat × Nat := Waterfall.during span.timeUnixNano span.durationNano

def Interval.during (interval : Interval) : Nat × Nat := Waterfall.during interval.startTime interval.duration

def Fits (i : Nat × Nat) : Prop := i.2 < 2 ^ 64

def spansOf (spans : List WaterfallSpan) (service : String) : List WaterfallSpan := spans.filter (fun span => span.serviceName = service)

def atWork (spans : List WaterfallSpan) (service : String) : Finset Nat := cover ((spansOf spans service).map (·.during))

def SameIntervals (spans : List WaterfallSpan) (serviceIntervals : GoMap String (List Interval)) : Prop :=
  ∀ service, (serviceIntervals.lookup service).map (fun l => (l.map (·.during) : Multiset (Nat × Nat))) =
    ((serviceSpans spans).lookup service).map (fun l => (l.map (·.during) : Multiset (Nat × Nat)))

theorem toNat_end {start duration : UInt64} (h : Fits (during start duration)) :
    (start + duration).toNat = (during start duration).2 := by
  rw [UInt64.toNat_add]
  exact Nat.mod_eq_of_lt h

theorem sort_during {α : Type} (S : SortSlice) (start : α → UInt64) (ival : α → Nat × Nat) (hstart : ∀ a, (ival a).1 = (start a).toNat)
    (l : List α) : ((S.sort (fun a => toLex ((start a).toNat, "")) l).map ival).Pairwise (fun i j => i.1 ≤ j.1) := by
  rw [pairwise_map]
  refine (S.sorted _ l).imp fun {a b} hab => ?_
  rw [hstart, hstart]
  rcases Prod.Lex.toLex_le_toLex.1 hab with hlt | ⟨heq, _⟩
  · exact hlt.le
  · exact heq.le

/-! ### The sweep -/

section
variable {s : ServiceSweep}

def ServiceSweep.result (s : ServiceSweep) : UInt64 := s.total + (s.currentEnd - s.currentStart)

def ServiceSweep.current (s : ServiceSweep) : Nat × Nat := (s.currentStart.toNat, s.currentEnd.toNat)

theorem toNat_result (h : s.currentStart ≤ s.currentEnd) :
    s.result.toNat = (s.total.toNat + (s.current.2 - s.current.1)) % 2 ^ 64 := by
  unfold ServiceSweep.result
  rw [UInt64.toNat_add, UInt64.toNat_sub_of_le _ _ h]
  rfl

theorem step_meet {span : WaterfallSpan} (hfits : Fits span.during) (hmeet : span.during.1 ≤ s.current.2) :
    (s.step span).total = s.total ∧ (s.step span).current = (s.current.1, max s.current.2 span.during.2) := by
  have hend := toNat_end hfits
  have hge : s.currentEnd ≥ span.timeUnixNano := UInt64.le_iff_toNat_le.2 hmeet
  simp only [ServiceSweep.step, hge, if_true]
  split
  · rename_i hgt
    have hlt := UInt64.lt_iff_toNat_lt.1 hgt
    rw [hend] at hlt
    exact ⟨rfl, Prod.ext rfl (hend.trans (max_eq_right hlt.le).symm)⟩
  · rename_i hle
    have hle := UInt64.le_iff_toNat_le.1 (UInt64.not_lt.1 hle)
    rw [hend] at hle
    exact ⟨rfl, Prod.ext rfl (max_eq_left hle).symm⟩

theorem step_past {span : WaterfallSpan} (hfits : Fits span.during) (hpast : s.current.2 < span.during.1) :
    (s.step span).total = s.result ∧ (s.step span).current = span.during := by
  have hlt : ¬s.currentEnd ≥ span.timeUnixNano := UInt64.not_le.2 (UInt64.lt_iff_toNat_lt.2 hpast)
  simp only [ServiceSweep.step, hlt, if_false]
  exact ⟨rfl, Prod.ext rfl (toNat_end hfits)⟩

end

theorem run_eq : ∀ (spans : List WaterfallSpan) (s : ServiceSweep), (∀ span ∈ spans, Fits span.during) → s.currentStart ≤ s.currentEnd →
    (spans.foldl ServiceSweep.step s).result.toNat = (s.total.toNat + sweep s.current (spans.map (·.during))) % 2 ^ 64
  | [], _, _, horder => toNat_result horder
  | span :: spans, s, hfits, horder => by
    obtain ⟨hspan, hspans⟩ := forall_mem_cons.1 hfits
    rw [foldl_cons, map_cons, sweep]
    split
    · rename_i hmeet
      obtain ⟨htotal, hcurrent⟩ := step_meet hspan hmeet
      have horder' : (s.step span).currentStart ≤ (s.step span).currentEnd := by
        have hle : s.current.1 ≤ s.current.2 := UInt64.le_iff_toNat_le.1 horder
        refine UInt64.le_iff_toNat_le.2 ?_
        change (s.step span).current.1 ≤ (s.step span).current.2
        rw [hcurrent]
        exact hle.trans (le_max_left _ _)
      rw [run_eq spans _ hspans horder', htotal, hcurrent]
    · rename_i hpast
      obtain ⟨htotal, hcurrent⟩ := step_past hspan (Nat.lt_of_not_le hpast)
      have horder' : (s.step span).currentStart ≤ (s.step span).currentEnd := by
        refine UInt64.le_iff_toNat_le.2 ?_
        change (s.step span).current.1 ≤ (s.step span).current.2
        rw [hcurrent]
        exact Nat.le_add_right _ _
      rw [run_eq spans _ hspans horder', htotal, hcurrent, toNat_result horder, Nat.mod_add_mod, Nat.add_assoc]

/-! ### The merge -/

theorem totalTime_foldl : ∀ (intervals : List Interval) (t : UInt64),
    (intervals.foldl (fun totalTime interval => totalTime + interval.duration) t).toNat =
      (t.toNat + (intervals.map (·.duration.toNat)).sum) % 2 ^ 64
  | [], t => (Nat.mod_eq_of_lt t.toNat_lt).symm
  | interval :: intervals, t => by
    rw [foldl_cons, totalTime_foldl intervals, UInt64.toNat_add, map_cons, sum_cons, Nat.mod_add_mod, Nat.add_assoc]

def Interval.merge (current next : Interval) : Interval :=
  { current with duration := max (current.startTime + current.duration) (next.startTime + next.duration) - current.startTime }

theorem during_merge {current next : Interval} (hcurrent : Fits current.during) (hnext : Fits next.during) :
    (current.merge next).during = (current.during.1, max current.during.2 next.during.2) := by
  have hend : (max (current.startTime + current.duration) (next.startTime + next.duration)).toNat =
      max current.during.2 next.during.2 := by
    rw [UInt64.toNat_max, toNat_end hcurrent, toNat_end hnext]
    rfl
  have hle : current.during.1 ≤ max current.during.2 next.during.2 := (Nat.le_add_right _ _).trans (le_max_left _ _)
  have hstart : current.startTime ≤ max (current.startTime + current.duration) (next.startTime + next.duration) := by
    rw [UInt64.le_iff_toNat_le, hend]
    exact hle
  refine Prod.ext rfl ?_
  change current.startTime.toNat + (_ - current.startTime).toNat = _
  rw [UInt64.toNat_sub_of_le _ _ hstart, hend]
  exact Nat.add_sub_cancel' hle

theorem sum_mergeFrom : ∀ (rest : List Interval) (current : Interval), (∀ next ∈ rest, Fits next.during) → Fits current.during →
    ((mergeFrom current rest).map (·.duration.toNat)).sum = sweep current.during (rest.map (·.during))
  | [], current, _, _ => by
    rw [mergeFrom, map_singleton, sum_singleton, map_nil, sweep]
    exact (Nat.add_sub_cancel_left ..).symm
  | next :: rest, current, hfits, hcurrent => by
    obtain ⟨hnext, hrest⟩ := forall_mem_cons.1 hfits
    have hend := toNat_end hcurrent
    have hend' := toNat_end hnext
    rw [mergeFrom, map_cons, sweep]
    split
    · rename_i hmeet
      have hmeet : next.during.1 ≤ current.during.2 := by
        have hle := UInt64.le_iff_toNat_le.1 hmeet
        rwa [hend] at hle
      have hmerge := during_merge hcurrent hnext
      have hfit : Fits (current.merge next).during := by
        rw [hmerge]
        exact max_lt hcurrent hnext
      rw [if_pos hmeet, ← hmerge]
      exact sum_mergeFrom rest (current.merge next) hrest hfit
    · rename_i hpast
      have hpast : ¬next.during.1 ≤ current.during.2 := by
        have hlt := UInt64.lt_iff_toNat_lt.1 (UInt64.not_le.1 hpast)
        rw [hend] at hlt
        exact Nat.not_le.2 hlt
      rw [if_neg hpast, map_cons, sum_cons, sum_mergeFrom rest next hrest hnext]
      congr 1
      exact (Nat.add_sub_cancel_left ..).symm

/-! ### One service -/

theorem card_cover_lt {l : List (Nat × Nat)} (h : ∀ i ∈ l, Fits i) : (cover l).card < 2 ^ 64 := by
  have hle : (cover l).card ≤ 2 ^ 64 - 1 := card_cover_le fun i hi => Nat.le_sub_one_of_lt (h i hi)
  omega

theorem serviceTime_eq (S : SortSlice) {spans : List WaterfallSpan} (hne : spans ≠ []) (hfits : ∀ span ∈ spans, Fits span.during) :
    (serviceTime S spans).map UInt64.toNat = some (cover (spans.map (·.during))).card := by
  have hsorted := sort_during S WaterfallSpan.timeUnixNano WaterfallSpan.during (fun _ => rfl) spans
  have hperm := S.perm (fun span : WaterfallSpan => toLex (span.timeUnixNano.toNat, "")) spans
  unfold serviceTime
  cases hsort : S.sort (fun span : WaterfallSpan => toLex (span.timeUnixNano.toNat, "")) spans with
  | nil =>
    rw [hsort] at hperm
    exact absurd hperm.nil_eq.symm hne
  | cons first rest =>
    rw [hsort] at hsorted hperm
    have hall : ∀ span ∈ first :: rest, Fits span.during := fun span hspan => hfits span (hperm.mem_iff.1 hspan)
    obtain ⟨hfirst, hrest⟩ := forall_mem_cons.1 hall
    have hcurrent : ServiceSweep.current ⟨first.timeUnixNano, first.timeUnixNano + first.durationNano, 0⟩ = first.during :=
      Prod.ext rfl (toNat_end hfirst)
    have horder : first.timeUnixNano ≤ first.timeUnixNano + first.durationNano := by
      rw [UInt64.le_iff_toNat_le, toNat_end hfirst]
      exact Nat.le_add_right _ _
    have hrun := run_eq rest ⟨first.timeUnixNano, first.timeUnixNano + first.durationNano, 0⟩ hrest horder
    have hcover := cover_perm (hperm.map WaterfallSpan.during)
    rw [hcurrent, sweep_eq hsorted, ← map_cons, hcover] at hrun
    rw [map_some, some_inj]
    refine hrun.trans ?_
    rw [UInt64.toNat_zero, Nat.zero_add]
    exact Nat.mod_eq_of_lt (card_cover_lt (List.forall_mem_map.2 hfits))

theorem totalTime_eq (S : SortSlice) {intervals : List Interval} (hfits : ∀ interval ∈ intervals, Fits interval.during) :
    (totalTime (mergeIntervals (S.sort (fun interval => toLex (interval.startTime.toNat, "")) intervals))).toNat =
      (cover (intervals.map (·.during))).card := by
  have hsorted := sort_during S Interval.startTime Interval.during (fun _ => rfl) intervals
  have hperm := S.perm (fun interval : Interval => toLex (interval.startTime.toNat, "")) intervals
  have hcover := cover_perm (hperm.map Interval.during)
  have hlt := card_cover_lt (List.forall_mem_map.2 hfits)
  rw [← hcover] at hlt ⊢
  unfold totalTime
  rw [totalTime_foldl, UInt64.toNat_zero, Nat.zero_add]
  cases hsort : S.sort (fun interval : Interval => toLex (interval.startTime.toNat, "")) intervals with
  | nil => rfl
  | cons current rest =>
    rw [hsort] at hsorted hperm hlt
    have hall : ∀ interval ∈ current :: rest, Fits interval.during := fun i hi => hfits i (hperm.mem_iff.1 hi)
    obtain ⟨hcurrent, hrest⟩ := forall_mem_cons.1 hall
    rw [mergeIntervals, sum_mergeFrom rest current hrest hcurrent, sweep_eq hsorted, ← map_cons]
    exact Nat.mod_eq_of_lt hlt

/-! ### Every service -/

def HasSpan (spans : List WaterfallSpan) (service : String) : Prop := service ≠ "" ∧ ∃ span ∈ spans, span.serviceName = service

instance (spans : List WaterfallSpan) (service : String) : Decidable (HasSpan spans service) := inferInstanceAs (Decidable (_ ∧ _))

theorem spansOf_eq_nil {spans : List WaterfallSpan} {service : String} (hname : service ≠ "") (h : ¬HasSpan spans service) :
    spansOf spans service = [] := by
  unfold spansOf
  rw [filter_eq_nil_iff]
  exact fun span hspan heq => h ⟨hname, span, hspan, of_decide_eq_true heq⟩

theorem spansOf_ne_nil {spans : List WaterfallSpan} {service : String} (h : HasSpan spans service) : spansOf spans service ≠ [] := by
  obtain ⟨_, span, hspan, hservice⟩ := h
  exact ne_nil_of_mem (mem_filter.2 ⟨hspan, decide_eq_true hservice⟩)

theorem lookup_addToService (m : GoMap String (List WaterfallSpan)) (span : WaterfallSpan) (service : String) :
    (addToService m span).lookup service =
      if service ≠ "" ∧ span.serviceName = service then some ((m.lookup service).getD [] ++ [span]) else m.lookup service := by
  unfold addToService
  by_cases hservice : span.serviceName = service
  · subst hservice
    by_cases hempty : span.serviceName = ""
    · simp [hempty]
    · simp [hempty, GoMap.lookup_put]
  · have hservice' : ¬service = span.serviceName := fun h => hservice h.symm
    by_cases hempty : span.serviceName = ""
    · simp [hempty]
    · simp [hempty, hservice, hservice', GoMap.lookup_put]

theorem hasSpan_concat (spans : List WaterfallSpan) (span : WaterfallSpan) (service : String) :
    HasSpan (spans ++ [span]) service ↔ HasSpan spans service ∨ service ≠ "" ∧ span.serviceName = service := by
  unfold HasSpan
  simp only [mem_append, mem_singleton, or_and_right, exists_or, exists_eq_left, and_or_left]

theorem lookup_serviceSpans (service : String) (spans : List WaterfallSpan) :
    (serviceSpans spans).lookup service = if HasSpan spans service then some (spansOf spans service) else none := by
  unfold serviceSpans
  induction spans using List.reverseRecOn with
  | nil => simp [HasSpan]
  | append_singleton spans span ih =>
    rw [foldl_append, foldl_cons, foldl_nil, lookup_addToService, ih]
    simp only [hasSpan_concat]
    by_cases hspan : service ≠ "" ∧ span.serviceName = service
    · have hconcat : spansOf (spans ++ [span]) service = spansOf spans service ++ [span] := by simp [spansOf, hspan.2]
      rw [if_pos hspan, if_pos (Or.inr hspan), hconcat]
      split
      · rfl
      · rename_i hnone
        rw [spansOf_eq_nil hspan.1 hnone]
        rfl
    · rw [if_neg hspan]
      by_cases hhas : HasSpan spans service
      · have hother : ¬span.serviceName = service := fun h => hspan ⟨hhas.1, h⟩
        have hconcat : spansOf (spans ++ [span]) service = spansOf spans service := by simp [spansOf, hother]
        rw [if_pos hhas, if_pos (Or.inl hhas), hconcat]
      · rw [if_neg hhas, if_neg (not_or.2 ⟨hhas, hspan⟩)]

def nanoseconds (times : GoMap String UInt64) (service : String) : Option Nat := (times.lookup service).map UInt64.toNat

/-- **The time of a service is the length of the union of its spans, and both ways of adding it up agree.** -/
theorem calculateServiceTime_eq (S S' : SortSlice) (spans : List WaterfallSpan) (hfits : ∀ span ∈ spans, Fits span.during)
    (serviceIntervals : GoMap String (List Interval)) (hsame : SameIntervals spans serviceIntervals) (service : String) :
    nanoseconds (calculateServiceTime S spans) service =
        (if HasSpan spans service then some (atWork spans service).card else none) ∧
      (CalculateServiceTime S' serviceIntervals).lookup service = (calculateServiceTime S spans).lookup service := by
  have hv3 : nanoseconds (calculateServiceTime S spans) service =
      if HasSpan spans service then some (atWork spans service).card else none := by
    unfold nanoseconds calculateServiceTime
    rw [GoMap.lookup_filterMapVal, lookup_serviceSpans]
    split
    · rename_i hhas
      exact serviceTime_eq S (spansOf_ne_nil hhas) fun span hspan => hfits span (mem_of_mem_filter hspan)
    · rfl
  have hv2 : nanoseconds (CalculateServiceTime S' serviceIntervals) service =
      if HasSpan spans service then some (atWork spans service).card else none := by
    have hservice := hsame service
    rw [lookup_serviceSpans] at hservice
    unfold nanoseconds CalculateServiceTime
    rw [GoMap.lookup_filterMapVal]
    cases hintervals : serviceIntervals.lookup service with
    | none =>
      rw [hintervals] at hservice
      split
      · rename_i hhas
        rw [if_pos hhas] at hservice
        nomatch hservice
      · rfl
    | some intervals =>
      rw [hintervals] at hservice
      split
      · rename_i hhas
        rw [if_pos hhas] at hservice
        have hperm : (intervals.map Interval.during).Perm ((spansOf spans service).map WaterfallSpan.during) :=
          Multiset.coe_eq_coe.1 (some_inj.1 hservice)
        have hintervals : ∀ interval ∈ intervals, Fits interval.during := by
          intro interval hinterval
          obtain ⟨span, hspan, heq⟩ := List.mem_map.1 (hperm.mem_iff.1 (List.mem_map_of_mem hinterval))
          rw [← heq]
          exact hfits span (mem_of_mem_filter hspan)
        rw [bind_some, map_some, totalTime_eq S' hintervals, cover_perm hperm]
        rfl
      · rename_i hhas
        rw [if_neg hhas] at hservice
        nomatch hservice
  refine ⟨hv3, ?_⟩
  exact map_injective (fun a b h => UInt64.toNat_inj.1 h) (hv2.trans hv3.symm)

def intervalsOf (spans : List WaterfallSpan) : GoMap String (List Interval) :=
  GoMap.filterMapVal (fun _ l => some (l.map fun span => ⟨span.timeUnixNano, span.durationNano, span.serviceName⟩)) (serviceSpans spans)

theorem sameIntervals_intervalsOf (spans : List WaterfallSpan) : SameIntervals spans (intervalsOf spans) := by
  intro service
  unfold intervalsOf
  rw [GoMap.lookup_filterMapVal]
  cases (serviceSpans spans).lookup service with
  | none => rfl
  | some l =>
    rw [bind_some, map_some, map_some, List.map_map]
    rfl

def working (spanID : String) (timeUnixNano durationNano : UInt64) : WaterfallSpan :=
  { newMissingWaterfallSpan spanID "t" timeUnixNano durationNano with serviceName := "s" }

def shift : List WaterfallSpan := [working "d" 9 1, working "a" 1 2, working "c" 5 2, working "b" 2 3]

theorem calculateServiceTime_shift : nanoseconds (calculateServiceTime stable shift) "s" = some 7 ∧
    (CalculateServiceTime stable (intervalsOf shift)).lookup "s" = (calculateServiceTime stable shift).lookup "s" :=
  calculateServiceTime_eq stable stable shift (by unfold Fits; decide) (intervalsOf shift) (sameIntervals_intervalsOf shift) "s"

end Waterfall
end DsApm
