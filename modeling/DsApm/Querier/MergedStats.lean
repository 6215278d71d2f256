import DsApm.Querier.Execute
/-!
# MergedStats — the end of `executeWithCache`

The statistics of the fresh results are summed up and added to those of the merged result.  With a cached result the
merge starts from the cached statistics; without one it starts from the first fresh result, whose statistics are then in
the sum a second time, and whose warnings are the only ones.
-/
namespace DsApm
namespace Querier

variable {V : Type}

def totalStats (fresh : List (Result V)) : ExecStats := fresh.foldl (fun t r => t.add r.stats) {}

def mergeFresh (cached : Option (Result V)) (fresh : List (Result V)) : Option (Result V) :=
  (mergeResults cached fresh).map (fun merged => { merged with stats := merged.stats.add (totalStats fresh) })

/-! ## Sums -/

@[simp] theorem ExecStats.zero_add (a : ExecStats) : ExecStats.add {} a = a := by
  simp [ExecStats.add]

@[simp] theorem ExecStats.add_zero (a : ExecStats) : a.add {} = a := by
  simp [ExecStats.add]

theorem ExecStats.add_assoc (a b c : ExecStats) : (a.add b).add c = a.add (b.add c) := by
  simp [ExecStats.add, Nat.add_assoc]

theorem ExecStats.add_eq_right {a b : ExecStats} : a.add b = b ↔ a = {} := by
  cases a
  cases b
  simp [ExecStats.add]

theorem foldl_stats : ∀ (fresh : List (Result V)) (t : ExecStats),
    fresh.foldl (fun t r => t.add r.stats) t = t.add (totalStats fresh)
  | [], t => (t.add_zero).symm
  | r :: fresh, t => by
    have hsum : totalStats (r :: fresh) = r.stats.add (totalStats fresh) := by
      rw [totalStats, List.foldl_cons, foldl_stats fresh, ExecStats.zero_add]
    rw [List.foldl_cons, foldl_stats fresh, hsum, ExecStats.add_assoc]

/-- **The result of a call that merges is that of `mergeFresh`.** -/
theorem executeWithCache_merges {S : Setup V} {c : Call} {entry : Option (CachedData V)} {cached : Option (Result V)}
    {missing : List TimeRange} {fresh : List (Result V)}
    (hget : getMissRanges S.reads S.fluxInterval c.now (c.seen entry) c.window S.stepMs = (cached, missing))
    (hsome : missing ≠ []) (hpart : ¬ (cached.isNone ∧ missing = [c.window]))
    (hfresh : executeRanges S c missing = some fresh) :
    (executeWithCache S c entry).2 = mergeFresh cached fresh := by
  unfold executeWithCache mergeFresh
  rw [hget]
  dsimp only
  rw [if_neg (fun h => hsome h.1), if_neg hpart, hfresh]
  dsimp only
  cases mergeResults cached fresh with
  | none => rfl
  | some merged => simp only [Option.map_some, foldl_stats]

/-! ## What is counted -/

def Result.Typed (r : Result V) : Prop := r.type = .timeSeries → ∃ d, r.value = .timeSeries d

def Counted (cached : Option (Result V)) (fresh : List (Result V)) : Prop :=
  ∃ merged, mergeFresh cached fresh = some merged ∧
    merged.stats = ((cached.map Result.stats).getD {}).add (totalStats fresh) ∧
    ∀ r ∈ fresh, ∀ w ∈ r.warnings, w ∈ merged.warnings

theorem mergeResults_cached {c : Result V} (hc : c.Typed) (first : Result V) (rest : List (Result V)) :
    ∃ merged, mergeResults (some c) (first :: rest) = some merged ∧ merged.stats = c.stats ∧
      merged.warnings = c.warnings ++ (first :: rest).flatMap Result.warnings := by
  unfold mergeResults
  dsimp only
  rw [if_neg (List.cons_ne_nil _ _)]
  by_cases htype : c.type = .timeSeries
  · obtain ⟨d, hd⟩ := hc htype
    rw [if_pos htype, hd]
    exact ⟨_, rfl, rfl, rfl⟩
  · rw [if_neg htype]
    exact ⟨_, rfl, rfl, rfl⟩

theorem mergeResults_uncached (first : Result V) (rest : List (Result V)) :
    ∃ merged, mergeResults none (first :: rest) = some merged ∧ merged.stats = first.stats ∧
      merged.warnings = first.warnings := by
  cases rest with
  | nil => exact ⟨_, rfl, rfl, rfl⟩
  | cons r rest => exact ⟨_, rfl, rfl, rfl⟩

/-- **When the merge counts everything once**: with a cached result always; without one, when the first fresh result
has no statistics and every warning. -/
theorem mergeFresh_counted_iff (cached : Option (Result V)) (first : Result V) (rest : List (Result V)) :
    Counted cached (first :: rest) ↔ match cached with
      | some c => c.Typed
      | none => first.stats = {} ∧ ∀ r ∈ rest, ∀ w ∈ r.warnings, w ∈ first.warnings := by
  unfold Counted mergeFresh
  cases cached with
  | none =>
    obtain ⟨merged, hmerge, hstats, hwarn⟩ := mergeResults_uncached first rest
    rw [hmerge]
    simp only [Option.map_some, Option.some.injEq, exists_eq_left', Option.map_none, Option.getD_none, hstats, hwarn,
      ExecStats.zero_add, ExecStats.add_eq_right]
    rw [List.forall_mem_cons]
    exact and_congr_right' ⟨fun h => h.2, fun h => ⟨fun _ hw => hw, h⟩⟩
  | some c =>
    constructor
    · rintro ⟨merged, hmerge, -⟩ htype
      cases hvalue : c.value with
      | timeSeries d => exact ⟨d, rfl⟩
      | nil | other => simp [mergeResults, htype, hvalue] at hmerge
    · intro hc
      obtain ⟨merged, hmerge, hstats, hwarn⟩ := mergeResults_cached hc first rest
      rw [hmerge]
      refine ⟨_, rfl, by simp [hstats], fun r hr w hw => ?_⟩
      simp only [hwarn]
      exact List.mem_append_right _ (List.mem_flatMap.2 ⟨r, hr, hw⟩)

/-- Two fresh results and none cached: five rows and seven make seventeen, and the second's warning is lost. -/
theorem uncached_counted_twice :
    ¬ Counted (V := Unit) none
        [⟨.timeSeries, .timeSeries {}, ⟨5, 0, 0⟩, [], ""⟩, ⟨.timeSeries, .timeSeries {}, ⟨7, 0, 0⟩, ["slow"], ""⟩] := by
  rintro ⟨merged, hmerge, hstats, -⟩
  cases hmerge
  revert hstats
  decide

end Querier
end DsApm
