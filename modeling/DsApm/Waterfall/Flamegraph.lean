import DsApm.Waterfall.Completeness
import DsApm.Waterfall.Window
import Mathlib.Data.List.Flatten
/-!
# Flamegraph — the spans that are sampled of each level

`flamegraph.go`.  Of a level with many spans the five longest are returned, the selected one, and the first two of each of fifty
parts of the time range, so a span may be returned twice, and one that starts past the last part not at all.  On which levels
neither happens is `Clear` (`flamegraph_iff`).
-/
namespace DsApm
namespace Waterfall

open List Option

structure FlamegraphSpan where
  timeUnixNano : UInt64
  durationNano : UInt64
  spanID : String
  deriving DecidableEq, Repr

def flamegraphSpanLevelLimit : Float := 50
def flamegraphSpanLimitPerLevel : Nat := 100
def flamegraphSamplingBucketCount : Nat := 50
def flamegraphTopLatencySpanCount : Nat := 5

/-! ## The levels of a request -/

def findIndexForSelectedSpan (spans : List (List FlamegraphSpan)) (selectedSpanID : String) : Nat :=
  spans.zipIdx.foldl (fun level l => if l.1.any (·.spanID = selectedSpanID) then l.2 else level) 0

def selectedIndex (selectedSpanID : String) (selectedSpans : List (List FlamegraphSpan)) : Nat :=
  if selectedSpanID ≠ "" then findIndexForSelectedSpan selectedSpans selectedSpanID else 0

/-- The limits of the levels that are returned, of so many, around the selected one. -/
def levelLimits (selectedIndex : Nat) (levels : Nat) : Int × Int :=
  let lowerLimit : Int := selectedIndex - truncate (flamegraphSpanLevelLimit * 0.4)
  let upperLimit : Int := selectedIndex + truncate (flamegraphSpanLevelLimit * 0.6)
  let upper := if lowerLimit < 0 then upperLimit - lowerLimit else upperLimit
  let lower := if lowerLimit < 0 then 0 else lowerLimit
  let lower' := if upper > levels then lower - (upper - levels) else lower
  let upper' : Int := if upper > levels then levels else upper
  (if lower' < 0 then 0 else lower', upper')

theorem levelLimits_spec (selectedIndex levels : Nat) : 0 ≤ (levelLimits selectedIndex levels).1 ∧
    (levelLimits selectedIndex levels).2 ≤ levels ∧ (selectedIndex < levels →
      (levelLimits selectedIndex levels).1 ≤ selectedIndex ∧ selectedIndex < (levelLimits selectedIndex levels).2) := by
  have h04 : truncate (flamegraphSpanLevelLimit * 0.4) = 20 := rfl
  have h06 : truncate (flamegraphSpanLevelLimit * 0.6) = 30 := rfl
  simp only [levelLimits, h04, h06]
  omega

/-! ## The spans of a level -/

section
variable (startTime endTime : UInt64)

def bucketSize : UInt64 :=
  let size := (endTime - startTime) / 50
  if size = 0 then 1 else size

def FlamegraphSpan.Starts (span : FlamegraphSpan) : Prop := startTime ≤ span.timeUnixNano ∧ span.timeUnixNano ≤ endTime

instance (span : FlamegraphSpan) : Decidable (span.Starts startTime endTime) := inferInstanceAs (Decidable (_ ∧ _))

def FlamegraphSpan.bucketIndex (span : FlamegraphSpan) : Nat := ((span.timeUnixNano - startTime) / bucketSize startTime endTime).toNat

def addToBucket (bucketedSpans : List (List FlamegraphSpan)) (span : FlamegraphSpan) : List (List FlamegraphSpan) :=
  if span.Starts startTime endTime ∧ span.bucketIndex startTime endTime < flamegraphSamplingBucketCount then
    bucketedSpans.modify (span.bucketIndex startTime endTime) (· ++ [span])
  else bucketedSpans

def bucketed (spans : List FlamegraphSpan) : List (List FlamegraphSpan) :=
  spans.foldl (addToBucket startTime endTime) (List.replicate flamegraphSamplingBucketCount [])

def byLatency (S : SortSlice) (spans : List FlamegraphSpan) : List FlamegraphSpan :=
  S.sort (fun span => toLex (2 ^ 64 - span.durationNano.toNat, "")) spans

def lastWithID (spans : List FlamegraphSpan) (selectedSpanID : String) : Option FlamegraphSpan :=
  (spans.filter (·.spanID = selectedSpanID)).getLast?

/-- `getLatencyAndTimestampBucketedSpans`, of more spans than are taken for their latency. -/
def getLatencyAndTimestampBucketedSpans (S : SortSlice) (spans : List FlamegraphSpan) (selectedSpanID : String)
    (isSelectedSpanIDPresent : Bool) : List FlamegraphSpan :=
  let spans := byLatency S spans
  spans.take flamegraphTopLatencySpanCount ++
    (if isSelectedSpanIDPresent then (lastWithID spans selectedSpanID).toList else []) ++
    (bucketed startTime endTime spans).flatMap (List.take 2)

end

def sampleLevel (S : SortSlice) (selectedSpanID : String) (startTime endTime : UInt64) (isSelected : Bool)
    (spans : List FlamegraphSpan) : List FlamegraphSpan :=
  if flamegraphSpanLimitPerLevel < spans.length then
    getLatencyAndTimestampBucketedSpans startTime endTime S spans selectedSpanID isSelected
  else spans

def getSelectedSpansForFlamegraphForRequest (S : SortSlice) (selectedSpanID : String) (selectedSpans : List (List FlamegraphSpan))
    (startTime endTime : UInt64) : List (List FlamegraphSpan) :=
  let selected := selectedIndex selectedSpanID selectedSpans
  let limits := levelLimits selected selectedSpans.length
  (List.range' limits.1.toNat (limits.2 - limits.1).toNat).map fun i =>
    sampleLevel S selectedSpanID startTime endTime (i = selected) (selectedSpans.getD i [])

/-! ## What is right of a level, and when -/

section
variable (selectedSpanID : String) (startTime endTime : UInt64)

/-- What is returned of a level is right: spans of the level, none twice, the selected span if it is there, the longest ones,
and one in each part of the range in which some start. -/
structure Represents (level sampled : List FlamegraphSpan) : Prop where
  subset : sampled ⊆ level
  nodup : sampled.Nodup
  selected : selectedSpanID ≠ "" → (∃ span ∈ level, span.spanID = selectedSpanID) → ∃ span ∈ sampled, span.spanID = selectedSpanID
  longest : ∃ top others, level.Perm (top ++ others) ∧ min flamegraphTopLatencySpanCount level.length ≤ top.length ∧ top ⊆ sampled ∧
    ∀ span ∈ top, ∀ other ∈ others, other.durationNano ≤ span.durationNano
  parts : ∀ span ∈ level, span.Starts startTime endTime →
    ∃ other ∈ sampled, other.Starts startTime endTime ∧ other.bucketIndex startTime endTime = span.bucketIndex startTime endTime

def part (spans : List FlamegraphSpan) (i : Nat) : List FlamegraphSpan :=
  spans.filter fun span => span.Starts startTime endTime ∧ span.bucketIndex startTime endTime = i

def singledOut (spans : List FlamegraphSpan) (isSelected : Bool) : List FlamegraphSpan :=
  spans.take flamegraphTopLatencySpanCount ++ if isSelected then (lastWithID spans selectedSpanID).toList else []

/-- The level, longest spans first, is sampled right: the longest spans and the selected one are none of them sampled for
their buckets, they are where a part past the last bucket has spans, and the selected span is sampled if it is looked for on
another level. -/
structure Clear (isSelected : Bool) (spans : List FlamegraphSpan) : Prop where
  once : (singledOut selectedSpanID spans isSelected).Nodup
  apart : ∀ i < flamegraphSamplingBucketCount, ((part startTime endTime spans i).take 2).Nodup ∧
    ∀ span ∈ singledOut selectedSpanID spans isSelected, span ∉ (part startTime endTime spans i).take 2
  shown : selectedSpanID ≠ "" → isSelected = false → (∃ span ∈ spans, span.spanID = selectedSpanID) →
    ∃ span, span.spanID = selectedSpanID ∧ (span ∈ singledOut selectedSpanID spans isSelected ∨
      ∃ i < flamegraphSamplingBucketCount, span ∈ (part startTime endTime spans i).take 2)
  past : ∀ span ∈ spans, span.Starts startTime endTime → flamegraphSamplingBucketCount ≤ span.bucketIndex startTime endTime →
    ∃ other ∈ singledOut selectedSpanID spans isSelected,
      other.Starts startTime endTime ∧ other.bucketIndex startTime endTime = span.bucketIndex startTime endTime

/-! ## The buckets -/

variable {startTime endTime}

theorem part_cons (span : FlamegraphSpan) (spans : List FlamegraphSpan) (i : Nat) : part startTime endTime (span :: spans) i =
    (if span.Starts startTime endTime ∧ span.bucketIndex startTime endTime = i then [span] else []) ++ part startTime endTime spans i := by
  unfold part
  rw [filter_cons]
  simp only [decide_eq_true_eq]
  split_ifs <;> rfl

theorem bucketed_from : ∀ (spans : List FlamegraphSpan) (buckets : List (List FlamegraphSpan)) (i : Nat),
    i < flamegraphSamplingBucketCount → (spans.foldl (addToBucket startTime endTime) buckets)[i]? =
      buckets[i]?.map (· ++ part startTime endTime spans i)
  | [], buckets, i, _ => by simp [part]
  | span :: spans, buckets, i, hi => by
    rw [foldl_cons, bucketed_from spans _ i hi, addToBucket, part_cons]
    by_cases hin : span.Starts startTime endTime ∧ span.bucketIndex startTime endTime < flamegraphSamplingBucketCount
    · rw [if_pos hin, List.getElem?_modify]
      by_cases hix : span.bucketIndex startTime endTime = i
      · simp [hix, hin.1, Function.comp_def]
      · simp [hix]
    · have hno : ¬ (span.Starts startTime endTime ∧ span.bucketIndex startTime endTime = i) := fun h => hin ⟨h.1, h.2 ▸ hi⟩
      rw [if_neg hin, if_neg hno, nil_append]

theorem length_bucketed_from (spans : List FlamegraphSpan) (buckets : List (List FlamegraphSpan)) :
    (spans.foldl (addToBucket startTime endTime) buckets).length = buckets.length := by
  induction spans generalizing buckets with
  | nil => rfl
  | cons span spans ih =>
    rw [foldl_cons, ih, addToBucket]
    split_ifs
    · exact length_modify ..
    · rfl

theorem bucketed_eq (spans : List FlamegraphSpan) :
    bucketed startTime endTime spans = (List.range flamegraphSamplingBucketCount).map (part startTime endTime spans) := by
  refine ext_getElem? fun i => ?_
  by_cases hi : i < flamegraphSamplingBucketCount
  · rw [bucketed, bucketed_from _ _ i hi]
    simp [hi]
  · have hlen : (bucketed startTime endTime spans).length = flamegraphSamplingBucketCount := by
      rw [bucketed, length_bucketed_from, List.length_replicate]
    rw [List.getElem?_eq_none (by omega), List.getElem?_eq_none (by simpa using hi)]

variable {selectedSpanID}

variable {isSelected : Bool} {level : List FlamegraphSpan}

theorem mem_sampled {S : SortSlice} {span : FlamegraphSpan} :
    span ∈ getLatencyAndTimestampBucketedSpans startTime endTime S level selectedSpanID isSelected ↔
      span ∈ singledOut selectedSpanID (byLatency S level) isSelected ∨
        ∃ i < flamegraphSamplingBucketCount, span ∈ (part startTime endTime (byLatency S level) i).take 2 := by
  simp only [getLatencyAndTimestampBucketedSpans, bucketed_eq, singledOut, mem_append, mem_flatMap, List.mem_map,
    mem_range]
  constructor
  · rintro (h | ⟨_, ⟨i, hi, rfl⟩, h⟩)
    · exact Or.inl h
    · exact Or.inr ⟨i, hi, h⟩
  · rintro (h | ⟨i, hi, h⟩)
    · exact Or.inl h
    · exact Or.inr ⟨_, ⟨i, hi, rfl⟩, h⟩

theorem mem_part {spans : List FlamegraphSpan} {i : Nat} {span : FlamegraphSpan} : span ∈ part startTime endTime spans i ↔
    span ∈ spans ∧ span.Starts startTime endTime ∧ span.bucketIndex startTime endTime = i := by
  simp [part]

theorem nodup_sampled_iff {S : SortSlice} :
    (getLatencyAndTimestampBucketedSpans startTime endTime S level selectedSpanID isSelected).Nodup ↔
      (singledOut selectedSpanID (byLatency S level) isSelected).Nodup ∧ ∀ i < flamegraphSamplingBucketCount,
        ((part startTime endTime (byLatency S level) i).take 2).Nodup ∧
          ∀ span ∈ singledOut selectedSpanID (byLatency S level) isSelected, span ∉ (part startTime endTime (byLatency S level) i).take 2 := by
  have hapart : ((List.range flamegraphSamplingBucketCount).map (part startTime endTime (byLatency S level))).Pairwise
      (Function.onFun List.Disjoint (List.take 2)) := by
    rw [pairwise_map]
    refine pairwise_lt_range.imp fun {i j} hij span hi hj => ?_
    have hispan := mem_part.1 (mem_of_mem_take hi)
    have hjspan := mem_part.1 (mem_of_mem_take hj)
    omega
  unfold getLatencyAndTimestampBucketedSpans
  dsimp only
  rw [bucketed_eq, nodup_append, nodup_flatMap, and_iff_left hapart]
  refine and_congr_right fun _ => ?_
  simp only [List.mem_map, mem_range, mem_flatMap, forall_exists_index, and_imp, forall_apply_eq_imp_iff₂]
  constructor
  · rintro ⟨hpairs, hdisjoint⟩ i hi
    exact ⟨hpairs i hi, fun span hspan hpart => hdisjoint span hspan span i hi hpart rfl⟩
  · intro h
    refine ⟨fun i hi => (h i hi).1, ?_⟩
    intro span hspan other i hi hpart heq
    exact (h i hi).2 span hspan (heq ▸ hpart)

/-! ## The levels -/

theorem byLatency_perm (S : SortSlice) (level : List FlamegraphSpan) : (byLatency S level).Perm level := S.perm _ _

theorem byLatency_sorted (S : SortSlice) (level : List FlamegraphSpan) :
    (byLatency S level).Pairwise fun span other => other.durationNano ≤ span.durationNano := by
  refine (S.sorted _ level).imp fun {span other} h => ?_
  rw [UInt64.le_iff_toNat_le]
  have hspan := span.durationNano.toNat_lt
  have hother := other.durationNano.toNat_lt
  rcases Prod.Lex.toLex_le_toLex.1 h with hlt | ⟨heq, -⟩ <;> omega

theorem lastWithID_isSome {spans : List FlamegraphSpan} (h : ∃ span ∈ spans, span.spanID = selectedSpanID) :
    ∃ span ∈ lastWithID spans selectedSpanID, span.spanID = selectedSpanID := by
  obtain ⟨span, hspan, hid⟩ := h
  have hne : spans.filter (·.spanID = selectedSpanID) ≠ [] :=
    ne_nil_of_mem (mem_filter.2 ⟨hspan, decide_eq_true hid⟩)
  refine ⟨_, List.getLast?_eq_some_getLast hne, ?_⟩
  simpa using (mem_filter.1 (getLast_mem hne)).2

/-- **A level is sampled right exactly if it is clear.** -/
theorem represents_sampled_iff {S : SortSlice} :
    Represents selectedSpanID startTime endTime level
        (getLatencyAndTimestampBucketedSpans startTime endTime S level selectedSpanID isSelected) ↔
      Clear selectedSpanID startTime endTime isSelected (byLatency S level) := by
  have hmem : ∀ {span}, span ∈ byLatency S level ↔ span ∈ level := (byLatency_perm S level).mem_iff
  constructor
  · rintro ⟨-, hnodup, hselected, -, hparts⟩
    obtain ⟨honce, hapart⟩ := nodup_sampled_iff.1 hnodup
    refine ⟨honce, hapart, fun hid _ ⟨span, hspan, hspanID⟩ => ?_, fun span hspan hstarts hpast => ?_⟩
    · obtain ⟨other, hother, hotherID⟩ := hselected hid ⟨span, hmem.1 hspan, hspanID⟩
      exact ⟨other, hotherID, mem_sampled.1 hother⟩
    · obtain ⟨other, hother, hotherStarts, hindex⟩ := hparts span (hmem.1 hspan) hstarts
      rcases mem_sampled.1 hother with hother | ⟨i, hi, hother⟩
      · exact ⟨other, hother, hotherStarts, hindex⟩
      · have := (mem_part.1 (mem_of_mem_take hother)).2.2
        omega
  · rintro ⟨honce, hapart, hshown, hpast⟩
    refine ⟨fun span hspan => ?_, nodup_sampled_iff.2 ⟨honce, hapart⟩, fun hid hlevel => ?_, ?_, fun span hspan hstarts => ?_⟩
    · rcases mem_sampled.1 hspan with hspan | ⟨i, -, hspan⟩
      · rcases mem_append.1 hspan with htop | hlast
        · exact hmem.1 (mem_of_mem_take htop)
        · split_ifs at hlast
          · exact hmem.1 (mem_filter.1 (mem_of_getLast? (mem_toList.1 hlast))).1
          · cases hlast
      · exact hmem.1 (mem_part.1 (mem_of_mem_take hspan)).1
    · have hsorted : ∃ span ∈ byLatency S level, span.spanID = selectedSpanID := by
        simpa only [hmem] using hlevel
      cases hsel : isSelected with
      | true =>
        obtain ⟨span, hspan, hspanID⟩ := lastWithID_isSome hsorted
        refine ⟨span, mem_sampled.2 (Or.inl (mem_append_right _ ?_)), hspanID⟩
        simpa using hspan
      | false =>
        subst hsel
        obtain ⟨span, hspanID, hspan⟩ := hshown hid rfl hsorted
        exact ⟨span, mem_sampled.2 hspan, hspanID⟩
    · have hsplit := take_append_drop flamegraphTopLatencySpanCount (byLatency S level)
      refine ⟨(byLatency S level).take flamegraphTopLatencySpanCount, (byLatency S level).drop flamegraphTopLatencySpanCount, ?_, ?_,
        fun span hspan => mem_sampled.2 (Or.inl (mem_append_left _ hspan)), ?_⟩
      · rw [hsplit]
        exact (byLatency_perm S level).symm
      · rw [length_take, (byLatency_perm S level).length_eq]
      · have hsorted := byLatency_sorted S level
        rw [← hsplit, pairwise_append] at hsorted
        exact hsorted.2.2
    · by_cases hi : span.bucketIndex startTime endTime < flamegraphSamplingBucketCount
      · have hpart := mem_part.2 ⟨hmem.2 hspan, hstarts, rfl⟩
        obtain ⟨first, rest, hfirst⟩ := exists_cons_of_ne_nil (ne_nil_of_mem hpart)
        have hin : first ∈ (part startTime endTime (byLatency S level) (span.bucketIndex startTime endTime)).take 2 := by
          rw [hfirst]
          exact mem_cons_self
        have hother := mem_part.1 (mem_of_mem_take hin)
        exact ⟨first, mem_sampled.2 (Or.inr ⟨_, hi, hin⟩), hother.2.1, hother.2.2⟩
      · obtain ⟨other, hother, hotherStarts, hindex⟩ := hpast span (hmem.2 hspan) hstarts (by omega)
        exact ⟨other, mem_sampled.2 (Or.inl hother), hotherStarts, hindex⟩

theorem represents_self_iff : Represents selectedSpanID startTime endTime level level ↔ level.Nodup := by
  refine ⟨fun h => h.nodup, fun h => ⟨fun _ hspan => hspan, h, fun _ hspan => hspan, ?_, fun span hspan hstarts => ?_⟩⟩
  · exact ⟨level, [], by simp, min_le_right _ _, fun _ hspan => hspan, fun _ _ _ hother => by cases hother⟩
  · exact ⟨span, hspan, hstarts, rfl⟩

end

theorem length_sampleLevel_le (S : SortSlice) (selectedSpanID : String) (startTime endTime : UInt64) (isSelected : Bool)
    (spans : List FlamegraphSpan) : (sampleLevel S selectedSpanID startTime endTime isSelected spans).length ≤
      flamegraphTopLatencySpanCount + 1 + flamegraphSamplingBucketCount * 2 := by
  have hbuckets : ((bucketed startTime endTime (byLatency S spans)).flatMap (List.take 2)).length ≤
      flamegraphSamplingBucketCount * 2 := by
    rw [length_flatMap, bucketed_eq, List.map_map]
    refine (List.sum_le_card_nsmul _ 2 fun n hn => ?_).trans (by simp)
    obtain ⟨i, -, rfl⟩ := List.mem_map.1 hn
    exact length_take_le _ _
  have hselected : (if isSelected then (lastWithID (byLatency S spans) selectedSpanID).toList else []).length ≤ 1 := by
    split_ifs
    · cases lastWithID (byLatency S spans) selectedSpanID <;> simp
    · simp
  unfold sampleLevel
  split_ifs with hlarge
  · rw [getLatencyAndTimestampBucketedSpans, length_append, length_append, length_take]
    omega
  · exact (Nat.le_of_not_lt hlarge).trans (by decide)

/-- **A response is bounded**, however large the trace: fifty levels, of 106 spans each. -/
theorem flamegraph_bounded (S : SortSlice) (selectedSpanID : String) (levels : List (List FlamegraphSpan))
    (startTime endTime : UInt64) :
    let sampled := getSelectedSpansForFlamegraphForRequest S selectedSpanID levels startTime endTime
    sampled.length = min 50 levels.length ∧ ∀ spans ∈ sampled, spans.length ≤ 106 := by
  intro sampled
  constructor
  · have h04 : truncate (flamegraphSpanLevelLimit * 0.4) = 20 := rfl
    have h06 : truncate (flamegraphSpanLevelLimit * 0.6) = 30 := rfl
    simp only [sampled, getSelectedSpansForFlamegraphForRequest, List.length_map, length_range', levelLimits, h04, h06]
    omega
  · intro spans hspans
    obtain ⟨i, -, rfl⟩ := List.mem_map.1 hspans
    exact length_sampleLevel_le S selectedSpanID startTime endTime _ _

/-- **Flamegraph sampling.** -/
theorem flamegraph_iff (S : SortSlice) (selectedSpanID : String) (levels : List (List FlamegraphSpan)) (startTime endTime : UInt64) :
    let selected := selectedIndex selectedSpanID levels
    let lower := (levelLimits selected levels.length).1.toNat
    let upper := (levelLimits selected levels.length).2.toNat
    let sampled := getSelectedSpansForFlamegraphForRequest S selectedSpanID levels startTime endTime
    upper ≤ levels.length ∧ sampled.length = upper - lower ∧
      ((∀ i, ∀ level ∈ levels[lower + i]?, ∀ spans ∈ sampled[i]?, Represents selectedSpanID startTime endTime level spans) ↔
        ∀ i, lower ≤ i → i < upper → ∀ level ∈ levels[i]?, if flamegraphSpanLimitPerLevel < level.length then
          Clear selectedSpanID startTime endTime (i = selected) (byLatency S level) else level.Nodup) := by
  intro selected lower upper sampled
  obtain ⟨hlower, hupper, -⟩ := levelLimits_spec selected levels.length
  have hspan : ((levelLimits selected levels.length).2 - (levelLimits selected levels.length).1).toNat = upper - lower := by omega
  have hsampled : sampled = (List.range' lower (upper - lower)).map fun i =>
      sampleLevel S selectedSpanID startTime endTime (i = selected) (levels.getD i []) := by
    rw [← hspan]
    rfl
  have hlevel : ∀ i, ∀ level ∈ levels[i]?, (Represents selectedSpanID startTime endTime level
      (sampleLevel S selectedSpanID startTime endTime (i = selected) (levels.getD i [])) ↔
        if flamegraphSpanLimitPerLevel < level.length then
          Clear selectedSpanID startTime endTime (i = selected) (byLatency S level) else level.Nodup) := by
    intro i level hlevel
    rw [getD_eq_getElem?_getD, mem_def.1 hlevel, getD_some, sampleLevel]
    split_ifs
    · exact represents_sampled_iff
    · exact represents_self_iff
  refine ⟨by omega, by rw [hsampled, List.length_map, length_range'], fun h i hi hi' level hl => ?_, fun h i level hl spans hs => ?_⟩
  · refine (hlevel i level hl).1 (h (i - lower) level (by rwa [Nat.add_sub_cancel' hi]) _ ?_)
    rw [hsampled, List.getElem?_map, List.getElem?_range' (by omega), mem_def, map_some]
    congr 2 <;> simp only [Nat.one_mul, Nat.add_sub_cancel' hi]
  · rw [hsampled, List.getElem?_map, mem_def, map_eq_some_iff] at hs
    obtain ⟨j, hj, rfl⟩ := hs
    obtain ⟨hlen, rfl⟩ := List.getElem?_eq_some_iff.1 hj
    rw [length_range'] at hlen
    rw [getElem_range', Nat.one_mul]
    exact (hlevel (lower + i) level hl).2 (h (lower + i) (by omega) (by omega) level hl)

def together (n : Nat) : List FlamegraphSpan := (List.range n).map fun i => ⟨7, UInt64.ofNat i, toString i⟩

/-- The longest span of a level is returned twice. -/
theorem longest_twice : ¬ ∀ i : Nat, ∀ level ∈ [together 101][i]?,
    ∀ spans ∈ (getSelectedSpansForFlamegraphForRequest stable "" [together 101] 0 100)[i]?, Represents "" 0 100 level spans := by
  have hsampled : getSelectedSpansForFlamegraphForRequest stable "" [together 101] 0 100 =
      [sampleLevel stable "" 0 100 true (together 101)] := rfl
  have hlarge : flamegraphSpanLimitPerLevel < (together 101).length := by
    rw [together, List.length_map, length_range]
    decide
  intro h
  have hclear := h 0 (together 101) rfl (sampleLevel stable "" 0 100 true (together 101)) (by rw [hsampled]; rfl)
  rw [sampleLevel, if_pos hlarge, represents_sampled_iff] at hclear
  obtain ⟨first, rest, hfirst⟩ : ∃ first rest, byLatency stable (together 101) = first :: rest :=
    exists_cons_of_ne_nil fun hnil => by
      have hlen := (byLatency_perm stable (together 101)).length_eq
      rw [hnil, length_nil] at hlen
      omega
  have htime : first.timeUnixNano = 7 := by
    have hmem : first ∈ together 101 := (byLatency_perm stable _).mem_iff.1 (hfirst ▸ mem_cons_self)
    obtain ⟨i, -, rfl⟩ := List.mem_map.1 hmem
    rfl
  have hpart : part 0 100 (byLatency stable (together 101)) 3 = first :: part 0 100 rest 3 := by
    have hstarts : first.Starts 0 100 ∧ first.bucketIndex 0 100 = 3 := by
      rw [FlamegraphSpan.Starts, FlamegraphSpan.bucketIndex, htime]
      decide
    rw [hfirst, part_cons, if_pos hstarts]
    rfl
  refine (hclear.apart 3 (by decide)).2 first ?_ ?_
  · rw [singledOut, hfirst]
    exact mem_append_left _ mem_cons_self
  · rw [hpart]
    exact mem_cons_self

end Waterfall
end DsApm
