import DsApm.Lib.GoMap
/-!
# Pipeline — the processors of the server in the pipeline of a collector

`buildPipeline` edits the processors of a collector's pipeline after a list of its own, the spec: what is enabled and missing goes in,
what is disabled comes out, and what the spec does not name stays.  It works by positions of the list as it was, and slices that do
not fit panic.
-/
namespace DsApm
namespace PipelineBuilder

open List Option

@[ext]
structure PipelineStatus where
  name : String
  enabled : Bool
  deriving DecidableEq

inductive Signal where
  | metrics
  | traces
  | other (name : String)
  deriving DecidableEq

/-- Whether the spec's first and its second processor are enabled, of the one signal and of the other. -/
structure Flags where
  metrics : Bool × Bool
  traces : Bool × Bool

def metricsPipelineSpec (flags : Flags) : List PipelineStatus := [⟨"filter", flags.metrics.1⟩, ⟨"batch", flags.metrics.2⟩]

def tracesPipelineSpec (flags : Flags) : List PipelineStatus := [⟨"signoz_tail_sampling", flags.traces.1⟩, ⟨"batch", flags.traces.2⟩]

def checkDuplicates (pipeline : List String) : Bool := !decide pipeline.Nodup

def sliceFrom (s : List String) (lo : Nat) : Option (List String) := if lo ≤ s.length then some (s.drop lo) else none

/-- `s[:hi]`.  Past the length the capacity decides, but there the other slice of the statement panics. -/
def sliceTo (s : List String) (hi : Nat) : Option (List String) := if hi ≤ s.length then some (s.take hi) else none

def existing (current : List String) : GoMap String Nat :=
  current.zipIdx.foldl (fun existing p => GoMap.put (fun _ => p.2) existing p.1) ∅

structure Build where
  pipeline : List String
  lastMatched : Int
  inserts : Nat

def removeAt (pipeline : List String) (currentPos : Nat) : Option (List String) :=
  if (currentPos : Int) - 1 ≤ 0 then sliceFrom pipeline (currentPos + 1)
  else do
    let prior ← sliceTo pipeline (currentPos - 1)
    let next ← sliceFrom pipeline (currentPos + 1)
    return prior ++ next

def insertAt (pipeline : List String) (lastMatched : Int) (name : String) : Option (List String) :=
  if lastMatched ≤ 0 then do
    let next ← sliceFrom pipeline (lastMatched + 1).toNat
    return name :: next
  else do
    let prior ← sliceTo pipeline lastMatched.toNat
    let next ← sliceFrom pipeline lastMatched.toNat
    return prior ++ name :: next

def build (existing : GoMap String Nat) (s : Build) (m : PipelineStatus) : Option Build :=
  match existing.lookup m.name with
  | some loc => do
    let currentPos := loc + s.inserts
    let pipeline ← if m.enabled then some s.pipeline else removeAt s.pipeline currentPos
    return { s with pipeline := pipeline, lastMatched := currentPos }
  | none =>
    if m.enabled then do
      let pipeline ← insertAt s.pipeline s.lastMatched m.name
      return { s with pipeline := pipeline, inserts := s.inserts + 1 }
    else some s

def merge (spec : List PipelineStatus) (current : List String) : Option (List String) :=
  (spec.foldlM (build (existing current)) ⟨current, -1, 0⟩).map Build.pipeline

inductive Outcome where
  | returned (pipeline : List String)
  | failed (pipeline : List String) (err : String)
  | panicked
  deriving DecidableEq

def buildFrom (spec : List PipelineStatus) (current : List String) : Outcome :=
  match merge spec current with
  | none => .panicked
  | some pipeline =>
    if checkDuplicates pipeline then
      .failed pipeline ("the effective config has an unexpected processor sequence: [" ++ String.intercalate " " pipeline ++ "]")
    else .returned pipeline

def buildPipeline (flags : Flags) (signal : Signal) (current : List String) : Outcome :=
  match signal with
  | .metrics => buildFrom (metricsPipelineSpec flags) current
  | .traces => buildFrom (tracesPipelineSpec flags) current
  | .other _ => .failed [] "invalid signal"

/-! ## What it is to do -/

/-- A pipeline that has what the spec enables, nothing it disables, and the rest as it was. -/
structure Merged (spec : List PipelineStatus) (current pipeline : List String) : Prop where
  enabled : ∀ m ∈ spec, m.enabled = true → pipeline.count m.name = 1
  disabled : ∀ m ∈ spec, m.enabled = false → m.name ∉ pipeline
  /-- Two processors of the spec that were in its order still are. -/
  order : ∀ m m', [m, m'].Sublist spec → m.enabled = true → m'.enabled = true →
    [m.name, m'.name].Sublist current → [m.name, m'.name].Sublist pipeline
  others : pipeline.filter (fun p => p ∉ spec.map (·.name)) = current.filter (fun p => p ∉ spec.map (·.name))

/-! ## The steps -/

/-- A removal takes the element before the position as well, unless there is none. -/
theorem removeAt_eq (pipeline : List String) (i : Nat) :
    removeAt pipeline i = if i < pipeline.length then some (pipeline.take (i - 1) ++ pipeline.drop (i + 1)) else none := by
  unfold removeAt sliceFrom sliceTo
  by_cases hfirst : (i : Int) - 1 ≤ 0
  · have hzero : i - 1 = 0 := by omega
    rw [if_pos hfirst, hzero, take_zero, nil_append]
    rfl
  · rw [if_neg hfirst]
    by_cases hlt : i < pipeline.length
    · have hle : i - 1 ≤ pipeline.length := by omega
      have hle' : i + 1 ≤ pipeline.length := hlt
      simp [hlt, hle, hle']
    · have hnot : ¬i + 1 ≤ pipeline.length := hlt
      rw [if_neg hlt, if_neg hnot]
      by_cases hle : i - 1 ≤ pipeline.length
      · rw [if_pos hle]
        rfl
      · rw [if_neg hle]
        rfl

theorem length_removed {pipeline : List String} {i : Nat} (hlt : i < pipeline.length) :
    (pipeline.take (i - 1) ++ pipeline.drop (i + 1)).length = if i = 0 then pipeline.length - 1 else pipeline.length - 2 := by
  rw [List.length_append, length_take, length_drop]
  split_ifs <;> omega

theorem insertAt_front (pipeline : List String) (name : String) : insertAt pipeline (-1) name = some (name :: pipeline) := by
  simp [insertAt, sliceFrom]

theorem insertAt_first (pipeline : List String) (name : String) :
    insertAt pipeline 0 name = if 1 ≤ pipeline.length then some (name :: pipeline.drop 1) else none := by
  unfold insertAt sliceFrom
  split_ifs <;> simp_all

theorem insertAt_later (pipeline : List String) {i : Nat} (hi : i ≠ 0) (name : String) :
    insertAt pipeline i name = if i ≤ pipeline.length then some (pipeline.take i ++ name :: pipeline.drop i) else none := by
  have hpos : ¬(i : Int) ≤ 0 := by omega
  unfold insertAt sliceFrom sliceTo
  rw [if_neg hpos, Int.toNat_natCast]
  split_ifs <;> rfl

section
variable {existing : GoMap String Nat} {s : Build} {m : PipelineStatus}

theorem build_kept {loc : Nat} (h : existing.lookup m.name = some loc) (hm : m.enabled = true) :
    build existing s m = some { s with lastMatched := (loc + s.inserts : Nat) } := by
  simp [build, h, hm]

theorem build_removed {loc : Nat} (h : existing.lookup m.name = some loc) (hm : m.enabled = false) :
    build existing s m = (removeAt s.pipeline (loc + s.inserts)).map
      (fun pipeline => { s with pipeline := pipeline, lastMatched := (loc + s.inserts : Nat) }) := by
  simp only [build, h, hm]
  cases removeAt s.pipeline (loc + s.inserts) <;> rfl

theorem build_inserted (h : existing.lookup m.name = none) (hm : m.enabled = true) :
    build existing s m = (insertAt s.pipeline s.lastMatched m.name).map
      (fun pipeline => { s with pipeline := pipeline, inserts := s.inserts + 1 }) := by
  simp only [build, h, hm]
  cases insertAt s.pipeline s.lastMatched m.name <;> rfl

theorem build_absent (h : existing.lookup m.name = none) (hm : m.enabled = false) : build existing s m = some s := by
  simp [build, h, hm]

end

theorem lookup_existing {current : List String} (hnd : current.Nodup) (name : String) :
    (∃ i, (existing current).lookup name = some i ∧ current[i]? = some name) ∨
      (existing current).lookup name = none ∧ name ∉ current := by
  have hkeys : (current.zipIdx.map Prod.fst).Nodup := by simpa using hnd
  by_cases hname : name ∈ current
  · obtain ⟨i, hi⟩ := mem_iff_getElem?.1 hname
    have hmem : (name, i) ∈ current.zipIdx := mem_zipIdx_iff_getElem?.2 hi
    refine Or.inl ⟨i, ?_, hi⟩
    exact GoMap.lookup_foldl_put_of_mem (fun b _ => b) _ ∅ hkeys hmem
  · refine Or.inr ⟨?_, hname⟩
    exact (GoMap.lookup_foldl_put_of_not_mem (fun b _ => b) _ ∅ (by simpa using hname)).trans rfl

/-! ## No processor twice -/

theorem sublist_removeAt {pipeline r : List String} {i : Nat} (h : removeAt pipeline i = some r) : r.Sublist pipeline := by
  rw [removeAt_eq] at h
  split at h
  · cases h
    conv_rhs => rw [← take_append_drop (i - 1) pipeline]
    exact (List.Sublist.refl _).append (drop_sublist_drop_left pipeline (by omega))
  · nomatch h

theorem perm_insertAt {pipeline r : List String} {k : Int} {name : String} (h : insertAt pipeline k name = some r) :
    ∃ rest, rest.Sublist pipeline ∧ r.Perm (name :: rest) := by
  unfold insertAt sliceFrom sliceTo at h
  split at h
  · split at h
    · cases h
      exact ⟨_, drop_sublist _ _, List.Perm.refl _⟩
    · nomatch h
  · split at h
    · cases h
      refine ⟨pipeline, List.Sublist.refl _, ?_⟩
      conv_rhs => rw [← take_append_drop k.toNat pipeline]
      exact perm_middle
    · nomatch h

theorem nodup_build {existing : GoMap String Nat} {s s' : Build} {m : PipelineStatus} (hnd : s.pipeline.Nodup)
    (hfresh : existing.lookup m.name = none → m.name ∉ s.pipeline) (h : build existing s m = some s') :
    s'.pipeline.Nodup ∧ ∀ name ∈ s'.pipeline, name ∈ s.pipeline ∨ name = m.name := by
  cases hlookup : existing.lookup m.name with
  | some loc =>
    cases hm : m.enabled with
    | true =>
      rw [build_kept hlookup hm] at h
      cases h
      exact ⟨hnd, fun name hname => Or.inl hname⟩
    | false =>
      rw [build_removed hlookup hm, map_eq_some_iff] at h
      obtain ⟨pipeline, hremove, rfl⟩ := h
      have hsub := sublist_removeAt hremove
      exact ⟨hsub.nodup hnd, fun name hname => Or.inl (hsub.subset hname)⟩
  | none =>
    cases hm : m.enabled with
    | true =>
      rw [build_inserted hlookup hm, map_eq_some_iff] at h
      obtain ⟨pipeline, hinsert, rfl⟩ := h
      obtain ⟨rest, hsub, hperm⟩ := perm_insertAt hinsert
      refine ⟨hperm.nodup_iff.2 (nodup_cons.2 ⟨fun hmem => hfresh hlookup (hsub.subset hmem), hsub.nodup hnd⟩), ?_⟩
      intro name hname
      rcases mem_cons.1 (hperm.mem_iff.1 hname) with rfl | hname
      · exact Or.inr rfl
      · exact Or.inl (hsub.subset hname)
    | false =>
      rw [build_absent hlookup hm] at h
      cases h
      exact ⟨hnd, fun name hname => Or.inl hname⟩

theorem nodup_foldlM {existing : GoMap String Nat} : ∀ {spec : List PipelineStatus} {s s' : Build},
    (spec.map (·.name)).Nodup → s.pipeline.Nodup → (∀ m ∈ spec, existing.lookup m.name = none → m.name ∉ s.pipeline) →
    spec.foldlM (build existing) s = some s' → s'.pipeline.Nodup
  | [], s, s', _, hnd, _, h => by
    cases h
    exact hnd
  | m :: spec, s, s', hspec, hnd, hfresh, h => by
    rw [map_cons, nodup_cons] at hspec
    rw [foldlM_cons] at h
    obtain ⟨s₁, hstep, hrest⟩ := bind_eq_some_iff.1 h
    obtain ⟨hnd', hmem⟩ := nodup_build hnd (hfresh m mem_cons_self) hstep
    refine nodup_foldlM hspec.2 hnd' (fun m' hm' hlookup hin => ?_) hrest
    rcases hmem _ hin with hin | heq
    · exact hfresh m' (mem_cons_of_mem _ hm') hlookup hin
    · exact hspec.1 (heq ▸ List.mem_map_of_mem hm')

theorem buildFrom_eq {spec : List PipelineStatus} {current : List String} (hspec : (spec.map (·.name)).Nodup) (hnd : current.Nodup) :
    buildFrom spec current = match merge spec current with
      | none => .panicked
      | some pipeline => .returned pipeline := by
  unfold buildFrom
  cases h : merge spec current with
  | none => rfl
  | some pipeline =>
    obtain ⟨s', hs', rfl⟩ := map_eq_some_iff.1 h
    have hnodup : s'.pipeline.Nodup := by
      refine nodup_foldlM hspec hnd (fun m _ hlookup hmem => ?_) hs'
      rcases lookup_existing hnd m.name with ⟨i, hi, _⟩ | ⟨_, hnot⟩
      · rw [hlookup] at hi
        nomatch hi
      · exact hnot hmem
    have hdup : checkDuplicates s'.pipeline = false := by
      unfold checkDuplicates
      rw [decide_eq_true hnodup]
      rfl
    dsimp only
    rw [hdup]
    rfl

/-! ## A spec of two -/

section
variable {a b : PipelineStatus} {current r : List String}

def PipelineStatus.wanted (m : PipelineStatus) : Nat := m.enabled.toNat

theorem length_eq_counts (hne : a.name ≠ b.name) (l : List String) :
    l.length = l.count a.name + l.count b.name + (l.filter (fun p => p ∉ [a, b].map (·.name))).length := by
  induction l with
  | nil => rfl
  | cons p l ih =>
    rw [length_cons, ih]
    by_cases ha : p = a.name
    · subst ha
      simp [hne]
      omega
    · by_cases hb : p = b.name
      · subst hb
        simp [ha]
        omega
      · simp [ha, hb]
        omega

theorem count_of_merged {spec : List PipelineStatus} (h : Merged spec current r) {m : PipelineStatus} (hm : m ∈ spec) :
    r.count m.name = m.wanted := by
  unfold PipelineStatus.wanted
  cases henabled : m.enabled with
  | true => exact h.enabled m hm henabled
  | false => exact count_eq_zero_of_not_mem (h.disabled m hm henabled)

theorem length_of_merged (hne : a.name ≠ b.name) (h : Merged [a, b] current r) :
    r.length + current.count a.name + current.count b.name = current.length + a.wanted + b.wanted := by
  have hr := length_eq_counts hne r
  have hcurrent := length_eq_counts hne current
  rw [count_of_merged h mem_cons_self, count_of_merged h (mem_cons_of_mem _ mem_cons_self), h.others] at hr
  omega

theorem merged_of_counts (ha : r.count a.name = a.wanted) (hb : r.count b.name = b.wanted)
    (horder : a.enabled = true → b.enabled = true → [a.name, b.name].Sublist current → [a.name, b.name].Sublist r)
    (hothers : r.filter (fun p => p ∉ [a, b].map (·.name)) = current.filter (fun p => p ∉ [a, b].map (·.name))) :
    Merged [a, b] current r where
  enabled m hm henabled := by
    have hcount : r.count m.name = m.wanted := by
      rcases mem_pair.1 hm with rfl | rfl
      · exact ha
      · exact hb
    rw [hcount, PipelineStatus.wanted, henabled]
    rfl
  disabled m hm hdisabled := by
    have hcount : r.count m.name = m.wanted := by
      rcases mem_pair.1 hm with rfl | rfl
      · exact ha
      · exact hb
    rw [PipelineStatus.wanted, hdisabled] at hcount
    exact List.count_eq_zero.1 hcount
  order m m' hsub henabled henabled' := by
    have heq : [m, m'] = [a, b] := hsub.eq_of_length rfl
    injection heq with hm htail
    injection htail with hm' _
    subst hm hm'
    exact horder henabled henabled'
  others := hothers

theorem count_of_getElem? (hnd : current.Nodup) {i : Nat} {name : String} (h : current[i]? = some name) : current.count name = 1 :=
  count_eq_one_of_mem hnd (mem_of_getElem? h)

theorem merged_tail (hne : a.name ≠ b.name) {x : PipelineStatus} (hx : x ∈ [a, b]) (hnd : current.Nodup)
    (hhead : current[0]? = some x.name) (hdisabled : x.enabled = false)
    (hother : ∀ y ∈ [a, b], y.name ≠ x.name → current.count y.name = y.wanted) : Merged [a, b] current (current.drop 1) := by
  obtain ⟨rest, rfl⟩ : ∃ rest, current = x.name :: rest := by
    cases current with
    | nil => nomatch hhead
    | cons p rest => exact ⟨rest, congrArg (· :: rest) (some_inj.1 hhead)⟩
  rw [nodup_cons] at hnd
  have hcount : ∀ y ∈ [a, b], rest.count y.name = y.wanted := by
    intro y hy
    by_cases hname : y.name = x.name
    · have heq : y = x := by
        rcases mem_pair.1 hx with rfl | rfl <;> rcases mem_pair.1 hy with rfl | rfl
        · rfl
        · exact absurd hname.symm hne
        · exact absurd hname hne
        · rfl
      rw [heq, PipelineStatus.wanted, hdisabled]
      exact count_eq_zero_of_not_mem hnd.1
    · rw [← hother y hy hname, count_cons_of_ne (fun h => hname h.symm)]
  refine merged_of_counts (hcount a (by simp)) (hcount b (by simp)) (fun ha hb => ?_) ?_
  · rcases mem_pair.1 hx with rfl | rfl
    · rw [hdisabled] at ha
      nomatch ha
    · rw [hdisabled] at hb
      nomatch hb
  · have hin : x.name ∈ [a, b].map (·.name) := List.mem_map_of_mem hx
    simp only [drop_one, tail_cons, filter_cons, hin, not_true_eq_false, decide_false, Bool.false_eq_true, if_false]

/-- When a call does what it is to do, by where the two of the spec are among the `n` processors: nothing may be removed past the
front, after a removal nothing more is to be done, and nothing is inserted after a match at the front or before a removal.  Where
the positions get past the end the call panics. -/
def Meets (n : Nat) : Bool → Option Nat → Bool → Option Nat → Prop
  | true, none, true, _ => True
  | true, some _, true, some _ => True
  | true, some i, true, none => i ≠ 0
  | true, _, false, none => True
  | true, none, false, some _ => False
  | true, some _, false, some j => j = 0
  | false, none, true, _ => True
  | false, none, false, none => True
  | false, none, false, some j => j = 0
  | false, some i, true, some _ => i = 0
  | false, some i, true, none => i + 1 = n
  | false, some i, false, none => i = 0
  | false, some i, false, some j => if i = 0 then j + 1 = n else n ≤ j + 2

def Correct (a b : PipelineStatus) (current : List String) : Prop :=
  ∀ pipeline, buildFrom [a, b] current = .returned pipeline → Merged [a, b] current pipeline

theorem correct_of_none (h : merge [a, b] current = none) : Correct a b current := by
  intro pipeline hreturned
  unfold buildFrom at hreturned
  rw [h] at hreturned
  nomatch hreturned

theorem correct_of_some (hne : a.name ≠ b.name) (hnd : current.Nodup) (h : merge [a, b] current = some r) :
    Correct a b current ↔ Merged [a, b] current r := by
  have hspec : ([a, b].map (·.name)).Nodup := by simpa using hne
  unfold Correct
  rw [buildFrom_eq hspec hnd, h]
  constructor
  · intro hall
    exact hall r rfl
  · rintro hmerged pipeline ⟨⟩
    exact hmerged

theorem merge_pair : merge [a, b] current =
    ((build (existing current) ⟨current, -1, 0⟩ a).bind fun s => build (existing current) s b).map Build.pipeline := by
  unfold merge
  simp [foldlM_cons]

theorem wanted_true (h : a.enabled = true) : a.wanted = 1 := by
  rw [PipelineStatus.wanted, h]
  rfl

theorem wanted_false (h : a.enabled = false) : a.wanted = 0 := by
  rw [PipelineStatus.wanted, h]
  rfl

theorem correct_inserted (hne : a.name ≠ b.name) (hnd : current.Nodup) (hplace : (existing current).lookup a.name = none)
    (hmissing : a.name ∉ current) (ha : a.enabled = true) :
    Correct a b current ↔ Meets current.length true none b.enabled ((existing current).lookup b.name) := by
  have hwanted := wanted_true ha
  have hcount : current.count a.name = 0 := count_eq_zero_of_not_mem hmissing
  have hstep : build (existing current) ⟨current, -1, 0⟩ a = some ⟨a.name :: current, -1, 1⟩ := by
    rw [build_inserted hplace ha, insertAt_front]
    rfl
  rcases lookup_existing hnd b.name with ⟨j, hj, hget⟩ | ⟨hj, hmissing'⟩
  · have hcount' := count_of_getElem? hnd hget
    have hlt : j < current.length := (List.getElem?_eq_some_iff.1 hget).1
    rw [hj]
    cases hb : b.enabled with
    | true =>
      have hmerge : merge [a, b] current = some (a.name :: current) := by
        rw [merge_pair, hstep, bind_some, build_kept hj hb]
        rfl
      rw [correct_of_some hne hnd hmerge]
      have hwanted' := wanted_true hb
      refine iff_of_true (merged_of_counts ?_ ?_ ?_ ?_) trivial
      · rw [count_cons_self, hcount, hwanted]
      · rw [count_cons_of_ne hne, hcount', hwanted']
      · exact fun _ _ hsub => absurd (hsub.subset mem_cons_self) hmissing
      · simp
    | false =>
      have hmerge : merge [a, b] current = some ((a.name :: current).take j ++ (a.name :: current).drop (j + 2)) := by
        have hlt' : j + 1 < (a.name :: current).length := Nat.succ_lt_succ hlt
        rw [merge_pair, hstep, bind_some, build_removed hj hb, removeAt_eq, if_pos hlt']
        rfl
      rw [correct_of_some hne hnd hmerge]
      refine iff_of_false (fun hmerged => ?_) id
      have hlength := length_of_merged hne hmerged
      have hlt' : j + 1 < (a.name :: current).length := Nat.succ_lt_succ hlt
      have hremoved := length_removed hlt'
      rw [if_neg (Nat.succ_ne_zero j), length_cons] at hremoved
      rw [hwanted, wanted_false hb, hcount, hcount'] at hlength
      change ((a.name :: current).take (j + 1 - 1) ++ (a.name :: current).drop (j + 1 + 1)).length + 0 + 1 = _ at hlength
      rw [hremoved] at hlength
      omega
  · have hcount' : current.count b.name = 0 := count_eq_zero_of_not_mem hmissing'
    rw [hj]
    cases hb : b.enabled with
    | true =>
      have hmerge : merge [a, b] current = some (b.name :: a.name :: current) := by
        rw [merge_pair, hstep, bind_some, build_inserted hj hb, insertAt_front]
        rfl
      rw [correct_of_some hne hnd hmerge]
      refine iff_of_true (merged_of_counts ?_ ?_ ?_ ?_) trivial
      · rw [count_cons_of_ne hne.symm, count_cons_self, hcount, hwanted]
      · rw [count_cons_self, count_cons_of_ne hne, hcount', wanted_true hb]
      · exact fun _ _ hsub => absurd (hsub.subset mem_cons_self) hmissing
      · simp
    | false =>
      have hmerge : merge [a, b] current = some (a.name :: current) := by
        rw [merge_pair, hstep, bind_some, build_absent hj hb]
        rfl
      rw [correct_of_some hne hnd hmerge]
      refine iff_of_true (merged_of_counts ?_ ?_ ?_ ?_) trivial
      · rw [count_cons_self, hcount, hwanted]
      · rw [count_cons_of_ne hne, hcount', wanted_false hb]
      · exact fun _ _ hsub => absurd (hsub.subset mem_cons_self) hmissing
      · simp

theorem correct_unchanged (hne : a.name ≠ b.name) (hnd : current.Nodup) {s s' : Build}
    (ha : build (existing current) ⟨current, -1, 0⟩ a = some s) (hb : build (existing current) s b = some s')
    (hs : s'.pipeline = current) (hcount : current.count a.name = a.wanted) (hcount' : current.count b.name = b.wanted) :
    Correct a b current := by
  have hmerge : merge [a, b] current = some current := by rw [merge_pair, ha, bind_some, hb, ← hs]; rfl
  rw [correct_of_some hne hnd hmerge]
  exact merged_of_counts hcount hcount' (fun _ _ hsub => hsub) rfl

theorem correct_second_removed (hne : a.name ≠ b.name) (hnd : current.Nodup) {k : Int}
    (hstep : build (existing current) ⟨current, -1, 0⟩ a = some ⟨current, k, 0⟩) (ha : current.count a.name = a.wanted) {j : Nat}
    (hj : (existing current).lookup b.name = some j) (hget : current[j]? = some b.name) (hb : b.enabled = false) :
    Correct a b current ↔ j = 0 := by
  have hlt : j < current.length := (List.getElem?_eq_some_iff.1 hget).1
  have hmerge : merge [a, b] current = some (current.take (j - 1) ++ current.drop (j + 1)) := by
    rw [merge_pair, hstep, bind_some, build_removed hj hb]
    dsimp only
    rw [Nat.add_zero, removeAt_eq, if_pos hlt]
    rfl
  rw [correct_of_some hne hnd hmerge]
  constructor
  · intro hmerged
    have hlength := length_of_merged hne hmerged
    rw [length_removed hlt, ha, count_of_getElem? hnd hget, wanted_false hb] at hlength
    by_contra hj0
    rw [if_neg hj0] at hlength
    omega
  · rintro rfl
    refine merged_tail hne (x := b) (by simp) hnd hget hb fun y hy hname => ?_
    rcases mem_pair.1 hy with rfl | rfl
    · exact ha
    · exact absurd rfl hname

theorem correct_absent (hne : a.name ≠ b.name) (hnd : current.Nodup) (hplace : (existing current).lookup a.name = none)
    (hmissing : a.name ∉ current) (ha : a.enabled = false) :
    Correct a b current ↔ Meets current.length false none b.enabled ((existing current).lookup b.name) := by
  have hcount : current.count a.name = a.wanted := by rw [count_eq_zero_of_not_mem hmissing, wanted_false ha]
  have hstep : build (existing current) ⟨current, -1, 0⟩ a = some ⟨current, -1, 0⟩ := build_absent hplace ha
  rcases lookup_existing hnd b.name with ⟨j, hj, hget⟩ | ⟨hj, hmissing'⟩
  · rw [hj]
    cases hb : b.enabled with
    | true =>
      refine iff_of_true (correct_unchanged hne hnd hstep (build_kept hj hb) rfl hcount ?_) trivial
      rw [count_of_getElem? hnd hget, wanted_true hb]
    | false => exact correct_second_removed hne hnd hstep hcount hj hget hb
  · rw [hj]
    cases hb : b.enabled with
    | true =>
      have hmerge : merge [a, b] current = some (b.name :: current) := by
        rw [merge_pair, hstep, bind_some, build_inserted hj hb, insertAt_front]
        rfl
      rw [correct_of_some hne hnd hmerge]
      refine iff_of_true (merged_of_counts ?_ ?_ (fun _ _ hsub => absurd (hsub.subset mem_cons_self) hmissing) ?_) trivial
      · rw [count_cons_of_ne hne.symm, hcount]
      · rw [count_cons_self, count_eq_zero_of_not_mem hmissing', wanted_true hb]
      · simp
    | false =>
      refine iff_of_true (correct_unchanged hne hnd hstep (build_absent hj hb) rfl hcount ?_) trivial
      rw [count_eq_zero_of_not_mem hmissing', wanted_false hb]

theorem correct_kept (hne : a.name ≠ b.name) (hnd : current.Nodup) {i : Nat} (hplace : (existing current).lookup a.name = some i)
    (hat : current[i]? = some a.name) (ha : a.enabled = true) :
    Correct a b current ↔ Meets current.length true (some i) b.enabled ((existing current).lookup b.name) := by
  have hlt : i < current.length := (List.getElem?_eq_some_iff.1 hat).1
  have hcount : current.count a.name = a.wanted := by rw [count_of_getElem? hnd hat, wanted_true ha]
  have hstep : build (existing current) ⟨current, -1, 0⟩ a = some ⟨current, i, 0⟩ := build_kept hplace ha
  rcases lookup_existing hnd b.name with ⟨j, hj, hget⟩ | ⟨hj, hmissing⟩
  · rw [hj]
    cases hb : b.enabled with
    | true =>
      refine iff_of_true (correct_unchanged hne hnd hstep (build_kept hj hb) rfl hcount ?_) trivial
      rw [count_of_getElem? hnd hget, wanted_true hb]
    | false => exact correct_second_removed hne hnd hstep hcount hj hget hb
  · have hcount' : current.count b.name = 0 := count_eq_zero_of_not_mem hmissing
    have horder : [a.name, b.name].Sublist current → False := fun hsub => hmissing (hsub.subset (by simp))
    rw [hj]
    cases hb : b.enabled with
    | true =>
      have hwanted := wanted_true hb
      by_cases hi : i = 0
      · subst hi
        have hmerge : merge [a, b] current = some (b.name :: current.drop 1) := by
          rw [merge_pair, hstep, bind_some, build_inserted hj hb]
          dsimp only
          rw [Int.ofNat_zero, insertAt_first, if_pos (Nat.succ_le_of_lt hlt)]
          rfl
        rw [correct_of_some hne hnd hmerge]
        refine iff_of_false (fun hmerged => ?_) (fun h => h rfl)
        have hlength := length_of_merged hne hmerged
        rw [length_cons, length_drop, hcount, hcount', hwanted] at hlength
        omega
      · have hmerge : merge [a, b] current = some (current.take i ++ b.name :: current.drop i) := by
          rw [merge_pair, hstep, bind_some, build_inserted hj hb]
          dsimp only
          rw [insertAt_later current hi, if_pos (Nat.le_of_lt hlt)]
          rfl
        have hsplit : ∀ name, (current.take i ++ b.name :: current.drop i).count name = (b.name :: current).count name := by
          intro name
          rw [perm_middle.count_eq, take_append_drop]
        rw [correct_of_some hne hnd hmerge]
        refine iff_of_true (merged_of_counts ?_ ?_ (fun _ _ hsub => (horder hsub).elim) ?_) hi
        · rw [hsplit, count_cons_of_ne hne.symm, hcount]
        · rw [hsplit, count_cons_self, hcount', hwanted]
        · rw [filter_append, filter_cons_of_neg (by simp), ← filter_append, take_append_drop]
    | false =>
      refine iff_of_true (correct_unchanged hne hnd hstep (build_absent hj hb) rfl hcount ?_) trivial
      rw [hcount', wanted_false hb]

theorem correct_removed (hne : a.name ≠ b.name) (hnd : current.Nodup) {i : Nat} (hplace : (existing current).lookup a.name = some i)
    (hat : current[i]? = some a.name) (ha : a.enabled = false) :
    Correct a b current ↔ Meets current.length false (some i) b.enabled ((existing current).lookup b.name) := by
  have hlt : i < current.length := (List.getElem?_eq_some_iff.1 hat).1
  have hcount := count_of_getElem? hnd hat
  have hlength := length_removed hlt
  have hwanted := wanted_false ha
  -- What is left is of the right length only if the first was in front.
  obtain ⟨rest, hrest⟩ : ∃ rest, current.take (i - 1) ++ current.drop (i + 1) = rest := ⟨_, rfl⟩
  rw [hrest] at hlength
  have hstep : build (existing current) ⟨current, -1, 0⟩ a = some ⟨rest, i, 0⟩ := by
    rw [build_removed hplace ha]
    dsimp only
    rw [Nat.add_zero, removeAt_eq, if_pos hlt, hrest]
    rfl
  rcases lookup_existing hnd b.name with ⟨j, hj, hget⟩ | ⟨hj, hmissing⟩
  · have hcount' := count_of_getElem? hnd hget
    rw [hj]
    cases hb : b.enabled with
    | true =>
      have hmerge : merge [a, b] current = some rest := by
        rw [merge_pair, hstep, bind_some, build_kept hj hb]
        rfl
      rw [correct_of_some hne hnd hmerge]
      constructor
      · intro hmerged
        have hlen := length_of_merged hne hmerged
        rw [hlength, hcount, hcount', hwanted, wanted_true hb] at hlen
        by_contra hi
        have hi : ¬i = 0 := hi
        rw [if_neg hi] at hlen
        omega
      · rintro rfl
        rw [← hrest]
        refine merged_tail hne (x := a) (by simp) hnd hat ha fun y hy hname => ?_
        rcases mem_pair.1 hy with rfl | rfl
        · exact absurd rfl hname
        · rw [hcount', wanted_true hb]
    | false =>
      have hlt' : j < current.length := (List.getElem?_eq_some_iff.1 hget).1
      have hij : i ≠ j := by
        rintro rfl
        rw [hat, some_inj] at hget
        exact hne hget
      by_cases hroom : j < rest.length
      · have hmerge : merge [a, b] current = some (rest.take (j - 1) ++ rest.drop (j + 1)) := by
          rw [merge_pair, hstep, bind_some, build_removed hj hb]
          dsimp only
          rw [Nat.add_zero, removeAt_eq, if_pos hroom]
          rfl
        rw [correct_of_some hne hnd hmerge]
        refine iff_of_false (fun hmerged => ?_) (fun hmeets => ?_)
        · have hlen := length_of_merged hne hmerged
          rw [length_removed hroom, hlength, hcount, hcount', hwanted, wanted_false hb] at hlen
          split_ifs at hlen hlength <;> omega
        · change (if i = 0 then j + 1 = current.length else current.length ≤ j + 2) at hmeets
          split_ifs at hmeets hlength <;> omega
      · have hmerge : merge [a, b] current = none := by
          rw [merge_pair, hstep, bind_some, build_removed hj hb]
          dsimp only
          rw [Nat.add_zero, removeAt_eq, if_neg hroom]
          rfl
        refine iff_of_true (correct_of_none hmerge) ?_
        change if i = 0 then j + 1 = current.length else current.length ≤ j + 2
        split_ifs at hlength ⊢ <;> omega
  · have hcount' : current.count b.name = 0 := count_eq_zero_of_not_mem hmissing
    rw [hj]
    cases hb : b.enabled with
    | true =>
      change Correct a b current ↔ i + 1 = current.length
      have hinsert : build (existing current) ⟨rest, i, 0⟩ b =
          (insertAt rest i b.name).map (fun pipeline => ⟨pipeline, i, 1⟩) := build_inserted hj hb
      by_cases hroom : i + 1 < current.length
      · obtain ⟨r, hr, hrlength⟩ : ∃ r, insertAt rest i b.name = some r ∧ r.length + 1 = current.length := by
          by_cases hi : i = 0
          · subst hi
            rw [if_pos rfl] at hlength
            refine ⟨b.name :: rest.drop 1, ?_, ?_⟩
            · rw [Int.ofNat_zero, insertAt_first, if_pos (by omega)]
            · rw [length_cons, length_drop]
              omega
          · rw [if_neg hi] at hlength
            refine ⟨rest.take i ++ b.name :: rest.drop i, ?_, ?_⟩
            · rw [insertAt_later rest hi, if_pos (by omega)]
            · rw [List.length_append, length_cons, length_take, length_drop]
              omega
        have hmerge : merge [a, b] current = some r := by
          rw [merge_pair, hstep, bind_some, hinsert, hr]
          rfl
        rw [correct_of_some hne hnd hmerge]
        refine iff_of_false (fun hmerged => ?_) (by omega)
        have hlen := length_of_merged hne hmerged
        rw [hcount, hcount', hwanted, wanted_true hb] at hlen
        omega
      · have hnone : insertAt rest i b.name = none := by
          by_cases hi : i = 0
          · subst hi
            rw [if_pos rfl] at hlength
            rw [Int.ofNat_zero, insertAt_first, if_neg (by omega)]
          · rw [if_neg hi] at hlength
            rw [insertAt_later rest hi, if_neg (by omega)]
        have hmerge : merge [a, b] current = none := by
          rw [merge_pair, hstep, bind_some, hinsert, hnone]
          rfl
        exact iff_of_true (correct_of_none hmerge) (by omega)
    | false =>
      have hmerge : merge [a, b] current = some rest := by
        rw [merge_pair, hstep, bind_some, build_absent hj hb]
        rfl
      rw [correct_of_some hne hnd hmerge]
      constructor
      · intro hmerged
        have hlen := length_of_merged hne hmerged
        rw [hlength, hcount, hcount', hwanted, wanted_false hb] at hlen
        by_contra hi
        have hi : ¬i = 0 := hi
        rw [if_neg hi] at hlen
        omega
      · rintro rfl
        rw [← hrest]
        refine merged_tail hne (x := a) (by simp) hnd hat ha fun y hy hname => ?_
        rcases mem_pair.1 hy with rfl | rfl
        · exact absurd rfl hname
        · rw [hcount', wanted_false hb]

theorem correct_iff (hne : a.name ≠ b.name) (hnd : current.Nodup) : Correct a b current ↔
    Meets current.length a.enabled ((existing current).lookup a.name) b.enabled ((existing current).lookup b.name) := by
  rcases lookup_existing hnd a.name with ⟨i, hi, hat⟩ | ⟨hi, hmissing⟩
  · rw [hi]
    cases ha : a.enabled with
    | true => exact correct_kept hne hnd hi hat ha
    | false => exact correct_removed hne hnd hi hat ha
  · rw [hi]
    cases ha : a.enabled with
    | true => exact correct_inserted hne hnd hi hmissing ha
    | false => exact correct_absent hne hnd hi hmissing ha

end

theorem lookup_eq_idxOf? {current : List String} (hnd : current.Nodup) (name : String) :
    (existing current).lookup name = current.idxOf? name := by
  rcases lookup_existing hnd name with ⟨i, hi, hat⟩ | ⟨hi, hmissing⟩
  · obtain ⟨hlt, heq⟩ := List.getElem?_eq_some_iff.1 hat
    rw [hi]
    refine (List.idxOf?_eq_some_iff.2 ⟨hlt, heq, fun j hj hsame => ?_⟩).symm
    have hij : j = i := (List.Nodup.getElem_inj_iff hnd).1 (hsame.trans heq.symm)
    exact absurd hij (Nat.ne_of_lt hj)
  · rw [hi, List.idxOf?_eq_none_iff.2 hmissing]

/-- **A merge does what it is to do exactly where nothing is taken out past the front or put in after a match at the front.** -/
theorem buildPipeline_iff (flags : Flags) {current : List String} (hnd : current.Nodup) :
    ((∀ pipeline, buildPipeline flags .metrics current = .returned pipeline → Merged (metricsPipelineSpec flags) current pipeline) ↔
      Meets current.length flags.metrics.1 (current.idxOf? "filter") flags.metrics.2 (current.idxOf? "batch")) ∧
    ((∀ pipeline, buildPipeline flags .traces current = .returned pipeline → Merged (tracesPipelineSpec flags) current pipeline) ↔
      Meets current.length flags.traces.1 (current.idxOf? "signoz_tail_sampling") flags.traces.2 (current.idxOf? "batch")) := by
  rw [← lookup_eq_idxOf? hnd, ← lookup_eq_idxOf? hnd, ← lookup_eq_idxOf? hnd]
  exact ⟨correct_iff (a := ⟨"filter", flags.metrics.1⟩) (b := ⟨"batch", flags.metrics.2⟩) (by simp) hnd,
    correct_iff (a := ⟨"signoz_tail_sampling", flags.traces.1⟩) (b := ⟨"batch", flags.traces.2⟩) (by simp) hnd⟩

def initialFlags : Flags := ⟨(false, true), (false, true)⟩

theorem buildPipeline_iff_sampling :
    ((∀ pipeline, buildPipeline initialFlags .metrics ["signoz_tail_sampling", "batch"] = .returned pipeline →
        Merged (metricsPipelineSpec initialFlags) ["signoz_tail_sampling", "batch"] pipeline) ↔ Meets 2 false none true (some 1)) ∧
    ((∀ pipeline, buildPipeline initialFlags .traces ["signoz_tail_sampling", "batch"] = .returned pipeline →
        Merged (tracesPipelineSpec initialFlags) ["signoz_tail_sampling", "batch"] pipeline) ↔ Meets 2 false (some 0) true (some 1)) :=
  buildPipeline_iff initialFlags (by decide)

/-- **A disabled processor in the second place takes the user's own in the first with it.** -/
theorem memory_limiter_lost : ¬∀ flags signal current, current.Nodup → ∀ pipeline,
    buildPipeline flags signal current = .returned pipeline →
    (signal = .traces → Merged (tracesPipelineSpec flags) current pipeline) ∧
      (signal = .metrics → Merged (metricsPipelineSpec flags) current pipeline) := by
  intro h
  have hreturned : buildPipeline initialFlags .traces ["memory_limiter", "signoz_tail_sampling", "batch"] = .returned ["batch"] := by
    decide
  have hmerged := (h initialFlags .traces _ (by decide) _ hreturned).1 rfl
  have hothers := hmerged.others
  exact absurd hothers (by decide)

end PipelineBuilder
end DsApm
