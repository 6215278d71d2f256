import DsApm.Querier.FormulaLookup
import DsApm.Rules.Hysteresis
/-!
# FormulaResult — the result of a formula

Where a formula over the results can be read in one way only, its result has one series for each greatest label set that
yields a value, with the value of the expression at each timestamp, and it does not depend on the orders of the loops or on
the order in which the goroutines finish (`formula_evaluated`).
-/
namespace DsApm
namespace Querier

open Latest List Option
open Rules (Float64)

section
variable {V : Type} [Float64 V]

/-! ## What a formula means -/

section
variable (fold : Char → Char) (fe : FormulaEvaluator V) (data : GoMap String (TimeSeriesData V))

def defaultOf (var : String) : Option V := if (fe.canDefaultZero.lookup var).getD false = true then some Float64.zero else none

/-- The value of a variable for a label set: that of its series whose labels are in the label set, or its default. -/
def valueOf (target : List Label) (timestamp : Nat) (var : String) : Option V :=
  ((seriesFor fold fe data target var).bind (fun s => s.valueAt timestamp)).or (defaultOf fe var)

/-- The value of the formula: every variable has a value or a default, one has a value, and the expression has one. -/
structure PointAt (target : List Label) (timestamp : Nat) (value : V) : Prop where
  seen : ∃ var ∈ fe.vars, ((seriesFor fold fe data target var).bind (fun s => s.valueAt timestamp)).isSome = true
  all : ∀ var ∈ fe.vars, (valueOf fold fe data target timestamp var).isSome = true
  expression : fe.expression.valueIn
    (fun var => if var ∈ fe.vars then valueOf fold fe data target timestamp var else none) = some value

def Referenced (s : TimeSeries V) : Prop := ∃ var ∈ fe.vars, s ∈ referencedSeries fold fe data var

structure Maximal (s : TimeSeries V) : Prop where
  referenced : Referenced fold fe data s
  greatest : ∀ s', Referenced fold fe data s' → Contained s.labels s'.labels → Contained s'.labels s.labels

structure FormulaResult (result : List (TimeSeries V)) : Prop where
  maximal : ∀ s ∈ result, ∃ s', Maximal fold fe data s' ∧ s'.labels = s.labels
  complete : ∀ s', Maximal fold fe data s' → (∃ t w, PointAt fold fe data s'.labels t w) →
    ∃ s ∈ result, SameLabels s.labels s'.labels
  once : result.Pairwise (fun s s' => ¬ SameLabels s.labels s'.labels)
  nonempty : ∀ s ∈ result, s.values ≠ []
  increasing : ∀ s ∈ result, s.values.Pairwise (fun x y => x.timestamp < y.timestamp)
  values : ∀ s ∈ result, ∀ x, x ∈ s.values ↔ ∃ t w, PointAt fold fe data s.labels t w ∧ x = { timestamp := t, value := w }

end

/-! ## One timestamp -/

omit [Float64 V] in
theorem collectValues_spec (found : GoMap String (GoMap Nat V)) (timestamp : Nat) (vars : List String) :
    (∀ var, (collectValues vars found timestamp).1.lookup var =
      if var ∈ vars then (found.lookup var).bind (fun m => m.lookup timestamp) else none) ∧
    (collectValues vars found timestamp).2 =
      (vars.filter (fun var => ((found.lookup var).bind (fun m => m.lookup timestamp)).isSome)).length := by
  unfold collectValues
  generalize hval : (fun var : String => (found.lookup var).bind (fun m => m.lookup timestamp)) = val
  have happ : ∀ var, (found.lookup var).bind (fun m => m.lookup timestamp) = val var := fun var => congrFun hval var
  simp only [happ]
  induction vars using List.reverseRecOn with
  | nil => exact ⟨fun _ => rfl, rfl⟩
  | append_singleton vars x ih =>
    rw [foldl_append, foldl_cons, foldl_nil, filter_append, List.length_append]
    generalize List.foldl _ ((∅, 0) : GoMap String V × Nat) vars = acc at ih ⊢
    cases hx : val x with
    | none =>
      refine ⟨fun var => ?_, by simp [ih.2, hx]⟩
      rw [ih.1 var]
      by_cases hvar : var = x
      · subst hvar
        simp [hx]
      · simp [hvar]
    | some value =>
      refine ⟨fun var => ?_, by simp [ih.2, hx]⟩
      by_cases hvar : var = x
      · subst hvar
        simp [hx]
      · simp [hvar, AList.lookup_insert_ne hvar, ih.1 var]

theorem applyDefaults_spec (fe : FormulaEvaluator V) (hnd : fe.vars.Nodup) (acc : GoMap String V × Nat) :
    (∀ var, (applyDefaults fe acc).1.lookup var =
      if var ∈ fe.vars then (acc.1.lookup var).or (defaultOf fe var) else acc.1.lookup var) ∧
    (applyDefaults fe acc).2 = acc.2 +
      (fe.vars.filter (fun var => (acc.1.lookup var).isNone && (defaultOf fe var).isSome)).length := by
  have hdefault : ∀ var, (defaultOf fe var).isSome = (fe.canDefaultZero.lookup var).getD false := by
    intro var
    unfold defaultOf
    split_ifs with h
    · exact h.symm
    · simpa using h
  unfold applyDefaults
  generalize fe.vars = vars at hnd
  induction vars using List.reverseRecOn with
  | nil => exact ⟨fun _ => rfl, rfl⟩
  | append_singleton vars x ih =>
    obtain ⟨hvars, _, hdisjoint⟩ := nodup_append.1 hnd
    have hx : x ∉ vars := fun hin => hdisjoint x hin x (mem_singleton_self x) rfl
    obtain ⟨hlookup, hcount⟩ := ih hvars
    rw [foldl_append, foldl_cons, foldl_nil, filter_append, List.length_append]
    generalize vars.foldl (fun acc var =>
      if (acc.1.lookup var).isNone && (fe.canDefaultZero.lookup var).getD false
      then (acc.1.insert var Float64.zero, acc.2 + 1) else acc) acc = acc' at hlookup hcount
    have hsame : acc'.1.lookup x = acc.1.lookup x := by rw [hlookup, if_neg hx]
    rw [hsame, ← hdefault x]
    by_cases hc : ((acc.1.lookup x).isNone && (defaultOf fe x).isSome) = true
    · rw [if_pos hc]
      refine ⟨fun var => ?_, by simp [hcount, hc]; omega⟩
      by_cases hvar : var = x
      · subst hvar
        rw [Bool.and_eq_true, isNone_iff_eq_none] at hc
        have hzero : defaultOf fe var = some Float64.zero := by
          have hsome := hc.2
          unfold defaultOf at hsome ⊢
          split_ifs at hsome ⊢ with h
          · rfl
          · cases hsome
        simp [hc.1, hzero]
      · simp [hvar, AList.lookup_insert_ne hvar, hlookup var]
    · rw [if_neg hc]
      refine ⟨fun var => ?_, by simp [hcount, hc]⟩
      by_cases hvar : var = x
      · subst hvar
        rw [hsame]
        cases hl : acc.1.lookup var with
        | some v => simp
        | none =>
          rw [hl] at hc
          have hnone : defaultOf fe var = none := by simpa using hc
          simp [hnone]
      · simp [hvar, hlookup var]

theorem evaluateAt_eq (fe : FormulaEvaluator V) (hnd : fe.vars.Nodup) {found : GoMap String (GoMap Nat V)} {timestamp : Nat}
    {val : String → Option V} (hval : ∀ var ∈ fe.vars,
      ((found.lookup var).bind (fun m => m.lookup timestamp)).or (defaultOf fe var) = val var) :
    evaluateAt fe found timestamp = if ∀ var ∈ fe.vars, (val var).isSome = true
      then fe.expression.valueIn (fun var => if var ∈ fe.vars then val var else none) else none := by
  obtain ⟨hcollect, hcollected⟩ := collectValues_spec found timestamp fe.vars
  obtain ⟨hlookup, hcount⟩ := applyDefaults_spec fe hnd (collectValues fe.vars found timestamp)
  have hvalues : (fun var => (applyDefaults fe (collectValues fe.vars found timestamp)).1.lookup var) =
      fun var => if var ∈ fe.vars then val var else none := by
    funext var
    rw [hlookup, hcollect]
    split_ifs with hvar
    · exact hval var hvar
    · rfl
  have hlength : (applyDefaults fe (collectValues fe.vars found timestamp)).2 =
      (fe.vars.filter (fun var => (val var).isSome)).length := by
    have hadd : ∀ (l : List String) (p q : String → Bool),
        (l.filter p).length + (l.filter (fun x => !p x && q x)).length = (l.filter (fun x => p x || q x)).length := by
      intro l p q
      induction l with
      | nil => rfl
      | cons x l ih =>
        cases hp : p x <;> cases hq : q x <;> simp [hp, hq] <;> omega
    rw [hcount, hcollected]
    have hnone : fe.vars.filter (fun var => ((collectValues fe.vars found timestamp).1.lookup var).isNone &&
        (defaultOf fe var).isSome) = fe.vars.filter (fun var =>
          !((found.lookup var).bind (fun m => m.lookup timestamp)).isSome && (defaultOf fe var).isSome) :=
      filter_congr (fun var hvar => by
        rw [hcollect, if_pos hvar, ← not_isSome])
    rw [hnone, hadd]
    refine congrArg List.length (filter_congr (fun var hvar => ?_))
    rw [← hval var hvar, isSome_or]
  unfold evaluateAt
  simp only [hvalues, hlength, ne_eq, length_filter_eq_length_iff]
  split_ifs <;> rfl

/-! ## One label set -/

omit [Float64 V] in
theorem variableData_fold (f : MapEntry AggregationRef → Option (GoMap Nat V)) (l : List (MapEntry AggregationRef))
    (hnd : (l.map Sigma.fst).Nodup) :
    (∀ var d, (l.foldl (fun acc e => match f e with
        | some timestampData => (acc.1.insert e.1 timestampData, acc.2 ∪ timestampData.keys.toFinset)
        | none => acc) ((∅, ∅) : GoMap String (GoMap Nat V) × Finset Nat)).1.lookup var = some d ↔
      ∃ e ∈ l, e.1 = var ∧ f e = some d) ∧
    (∀ t, t ∈ (l.foldl (fun acc e => match f e with
        | some timestampData => (acc.1.insert e.1 timestampData, acc.2 ∪ timestampData.keys.toFinset)
        | none => acc) ((∅, ∅) : GoMap String (GoMap Nat V) × Finset Nat)).2 ↔
      ∃ e ∈ l, ∃ d, f e = some d ∧ t ∈ d.keys) := by
  induction l using List.reverseRecOn with
  | nil =>
    constructor
    · intro var d
      exact iff_of_false (fun h => by cases h) (fun ⟨_, h, _⟩ => by cases h)
    · intro t
      exact iff_of_false (fun h => by cases h) (fun ⟨_, h, _⟩ => by cases h)
  | append_singleton l x ih =>
    rw [map_append, map_singleton] at hnd
    obtain ⟨hl, _, hdisjoint⟩ := nodup_append.1 hnd
    have hx : ∀ e ∈ l, e.1 ≠ x.1 := fun e he heq =>
      hdisjoint e.1 (List.mem_map_of_mem he) x.1 (mem_singleton_self _) heq
    obtain ⟨hlookup, hmem⟩ := ih hl
    rw [foldl_append, foldl_cons, foldl_nil]
    generalize l.foldl (fun acc e => match f e with
      | some timestampData => (acc.1.insert e.1 timestampData, acc.2 ∪ timestampData.keys.toFinset)
      | none => acc) ((∅, ∅) : GoMap String (GoMap Nat V) × Finset Nat) = acc at hlookup hmem
    cases hf : f x with
    | none =>
      refine ⟨fun var d => (hlookup var d).trans ?_, fun t => (hmem t).trans ?_⟩ <;> simp [or_and_right, exists_or, hf]
    | some m =>
      constructor
      · intro var d
        simp only
        by_cases hvar : var = x.1
        · subst hvar
          rw [AList.lookup_insert]
          constructor
          · intro h
            exact ⟨x, by simp, rfl, hf.trans h⟩
          · rintro ⟨e, he, heq, hd⟩
            rcases mem_append.1 he with he | he
            · exact absurd heq (hx e he)
            · rw [mem_singleton.1 he, hf] at hd
              exact hd
        · rw [AList.lookup_insert_ne hvar, hlookup]
          constructor
          · rintro ⟨e, he, h⟩
            exact ⟨e, mem_append.2 (Or.inl he), h⟩
          · rintro ⟨e, he, heq, hd⟩
            rcases mem_append.1 he with he | he
            · exact ⟨e, he, heq, hd⟩
            · exact absurd (heq.symm.trans (congrArg Sigma.fst (mem_singleton.1 he))) hvar
      · intro t
        simp only [Finset.mem_union, hmem, List.mem_toFinset, mem_append, mem_singleton, or_and_right, exists_or,
          exists_eq_left, hf, Option.some.injEq, exists_eq_left']

section
variable {fold : Char → Char} {fe : FormulaEvaluator V} {data : GoMap String (TimeSeriesData V)}

theorem PointAt.congr {target target' : List Label} (h : SameLabels target target') {t : Nat} {w : V}
    (hp : PointAt fold fe data target t w) : PointAt fold fe data target' t w := by
  have hsub : ∀ labels, isSubset target labels = isSubset target' labels := by
    intro labels
    rw [Bool.eq_iff_iff, isSubset_iff, isSubset_iff]
    exact ⟨fun hc => hc.trans h.1, fun hc => hc.trans h.2⟩
  have hfor : ∀ var, seriesFor fold fe data target var = seriesFor fold fe data target' var := by
    intro var
    unfold seriesFor
    simp only [hsub]
  have hvalue : ∀ var, valueOf fold fe data target t var = valueOf fold fe data target' t var := by
    intro var
    unfold valueOf
    rw [hfor]
  obtain ⟨hseen, hall, hexpression⟩ := hp
  simp only [hfor, hvalue] at hseen hall hexpression
  exact ⟨hseen, hall, hexpression⟩

variable (hrefs : ∀ var, var ∈ fe.aggRefs ↔ var ∈ fe.vars) (hnd : fe.vars.Nodup) (hw : WellLabelled fold fe data)
  (hu : Unambiguous fold fe data)

include hrefs hnd hw hu

omit [Float64 V] hnd in
theorem variableData_spec (o : Orders V) (g : Ranges V) (target : List Label) :
    (∀ var ∈ fe.vars, (variableData g fe (buildSeriesLookup fold o fe data) target).1.lookup var =
      (seriesFor fold fe data target var).map (fun s => storeValues s.values ∅)) ∧
    (∀ t, t ∈ (variableData g fe (buildSeriesLookup fold o fe data) target).2 ↔
      ∃ var ∈ fe.vars, ((seriesFor fold fe data target var).bind (fun s => s.valueAt t)).isSome = true) := by
  have hentries : ((g.refs.order fe.aggRefs.entries).map Sigma.fst).Nodup :=
    ((g.refs.perm _).map _).nodup_iff.2 fe.aggRefs.nodupKeys
  obtain ⟨hlookup, hmem⟩ := variableData_fold
    (fun e => matchingData (g.metadata e.1) (buildSeriesLookup fold o fe data) target e.1) _ hentries
  have hof : ∀ var, var ∈ fe.vars ↔ ∃ e ∈ g.refs.order fe.aggRefs.entries, e.1 = var := by
    intro var
    rw [← hrefs, AList.mem_keys, AList.keys, List.keys]
    simp only [← (g.refs.perm fe.aggRefs.entries).mem_iff, List.mem_map]
  unfold variableData
  constructor
  · intro var hvar
    ext d
    rw [← matchingData_eq hrefs hu hw o (g.metadata var) target hvar]
    refine (hlookup var d).trans ?_
    constructor
    · rintro ⟨e, _, rfl, hd⟩
      exact hd
    · intro hd
      obtain ⟨e, he, rfl⟩ := (hof var).1 hvar
      exact ⟨e, he, rfl, hd⟩
  · intro t
    have hkeys : ∀ var ∈ fe.vars, ∀ visit : Visit (MapEntry (TimeSeries V)),
        (∃ d, matchingData visit (buildSeriesLookup fold o fe data) target var = some d ∧ t ∈ d.keys) ↔
          ((seriesFor fold fe data target var).bind (fun s => s.valueAt t)).isSome = true := by
      intro var hvar visit
      rw [matchingData_eq hrefs hu hw o visit target hvar]
      cases seriesFor fold fe data target var with
      | none => simp
      | some s =>
        rw [map_some, bind_some, ← storeValues_lookup, AList.lookup_isSome, AList.mem_keys]
        simp
    refine (hmem t).trans ?_
    constructor
    · rintro ⟨e, he, hd⟩
      have hvar : e.1 ∈ fe.vars := (hof e.1).2 ⟨e, he, rfl⟩
      exact ⟨e.1, hvar, (hkeys e.1 hvar _).1 hd⟩
    · rintro ⟨var, hvar, hsome⟩
      obtain ⟨e, he, rfl⟩ := (hof var).1 hvar
      exact ⟨e, he, (hkeys e.1 hvar _).2 hsome⟩

theorem mem_resultValues (o : Orders V) (g : Ranges V) (target : List Label) (x : TimeSeriesValue V) :
    x ∈ ((variableData g fe (buildSeriesLookup fold o fe data) target).2.sort (· ≤ ·)).filterMap (fun timestamp =>
        (evaluateAt fe (variableData g fe (buildSeriesLookup fold o fe data) target).1 timestamp).map
          (fun value => { timestamp, value : TimeSeriesValue V })) ↔
      ∃ t w, PointAt fold fe data target t w ∧ x = { timestamp := t, value := w } := by
  obtain ⟨hlookup, hmem⟩ := variableData_spec hrefs hw hu o g target
  have heval : ∀ t, evaluateAt fe (variableData g fe (buildSeriesLookup fold o fe data) target).1 t =
      if ∀ var ∈ fe.vars, (valueOf fold fe data target t var).isSome = true
      then fe.expression.valueIn (fun var => if var ∈ fe.vars then valueOf fold fe data target t var else none)
      else none := by
    intro t
    refine evaluateAt_eq fe hnd (fun var hvar => ?_)
    rw [hlookup var hvar]
    unfold valueOf
    cases seriesFor fold fe data target var with
    | none => rfl
    | some s => rw [map_some, bind_some, bind_some, storeValues_lookup]
  rw [mem_filterMap]
  simp only [Finset.mem_sort, hmem, heval, map_eq_some_iff]
  constructor
  · rintro ⟨t, hseen, w, hvalue, rfl⟩
    split_ifs at hvalue with hall
    exact ⟨t, w, ⟨hseen, hall, hvalue⟩, rfl⟩
  · rintro ⟨t, w, hpoint, rfl⟩
    exact ⟨t, hpoint.seen, w, by rw [if_pos hpoint.all, hpoint.expression], rfl⟩

theorem evaluateForLabelSet_spec (o : Orders V) (g : Ranges V) (target : List Label) :
    (∀ s, evaluateForLabelSet g fe (buildSeriesLookup fold o fe data) target = some s →
      s.labels = target ∧ s.values ≠ [] ∧ s.values.Pairwise (fun x y => x.timestamp < y.timestamp) ∧
      ∀ x, x ∈ s.values ↔ ∃ t w, PointAt fold fe data target t w ∧ x = { timestamp := t, value := w }) ∧
    ((∃ t w, PointAt fold fe data target t w) →
      (evaluateForLabelSet g fe (buildSeriesLookup fold o fe data) target).isSome = true) := by
  have hvalues := mem_resultValues hrefs hnd hw hu o g target
  unfold evaluateForLabelSet
  simp only
  have hsorted : (((variableData g fe (buildSeriesLookup fold o fe data) target).2.sort (· ≤ ·)).filterMap
      (fun timestamp => (evaluateAt fe (variableData g fe (buildSeriesLookup fold o fe data) target).1 timestamp).map
        (fun value => { timestamp, value : TimeSeriesValue V }))).Pairwise (fun x y => x.timestamp < y.timestamp) := by
    refine List.Pairwise.filterMap _ ?_ (Finset.sortedLT_sort _).pairwise
    intro t t' hlt x hx x' hx'
    obtain ⟨_, _, rfl⟩ := map_eq_some_iff.1 hx
    obtain ⟨_, _, rfl⟩ := map_eq_some_iff.1 hx'
    exact hlt
  generalize ((variableData g fe (buildSeriesLookup fold o fe data) target).2.sort (· ≤ ·)).filterMap (fun timestamp =>
    (evaluateAt fe (variableData g fe (buildSeriesLookup fold o fe data) target).1 timestamp).map
      (fun value => { timestamp, value : TimeSeriesValue V })) = values at hvalues hsorted
  constructor
  · intro s hs
    split_ifs at hs with hempty
    rw [← Option.some.inj hs]
    exact ⟨rfl, fun hnil => hempty (List.isEmpty_iff.2 hnil), hsorted, hvalues⟩
  · rintro ⟨t, w, hpoint⟩
    have hin := (hvalues { timestamp := t, value := w }).2 ⟨t, w, hpoint, rfl⟩
    rw [if_neg (fun hempty => by rw [List.isEmpty_iff.1 hempty] at hin; cases hin)]
    rfl

omit hrefs hnd hw hu in
theorem mem_evaluateFormula (o : Orders V) (s : TimeSeries V) : s ∈ evaluateFormula fold o fe data ↔
    ∃ x ∈ (findUniqueLabelSets o (buildSeriesLookup fold o fe data)).zipIdx,
      evaluateForLabelSet (o.goroutines x.2) fe (buildSeriesLookup fold o fe data) x.1 = some s := by
  unfold evaluateFormula
  simp only
  rw [(o.finished.perm _).mem_iff, mem_filterMap]

theorem formulaResult (o : Orders V) : FormulaResult fold fe data (evaluateFormula fold o fe data) := by
  have hgreatest := greatest_uniqueLabelSets o (buildSeriesLookup fold o fe data) (fun s hs => by
    obtain ⟨var, hvar, hin⟩ := (mem_metadata hrefs hu o).1 hs
    exact hu.labels var hvar s hin)
  have hspec := evaluateForLabelSet_spec hrefs hnd hw hu o
  have hset : ∀ x ∈ (findUniqueLabelSets o (buildSeriesLookup fold o fe data)).zipIdx,
      x.1 ∈ findUniqueLabelSets o (buildSeriesLookup fold o fe data) :=
    fun x hx => mem_of_getElem? (mem_zipIdx_iff_getElem?.1 hx)
  -- what a goroutine returns
  have hone : ∀ s ∈ evaluateFormula fold o fe data, ∃ g, ∃ l ∈ findUniqueLabelSets o (buildSeriesLookup fold o fe data),
      evaluateForLabelSet g fe (buildSeriesLookup fold o fe data) l = some s := by
    intro s hs
    obtain ⟨x, hx, heval⟩ := (mem_evaluateFormula o s).1 hs
    exact ⟨_, x.1, hset x hx, heval⟩
  constructor
  · intro s hs
    obtain ⟨g, l, hl, heval⟩ := hone s hs
    obtain ⟨s', hs', hlabels⟩ := hgreatest.from_series l hl
    refine ⟨s', ⟨(mem_metadata hrefs hu o).1 hs', fun s'' hs'' hsub => ?_⟩, hlabels.trans ((hspec g l).1 s heval).1.symm⟩
    rw [hlabels] at hsub ⊢
    exact hgreatest.maximal l hl s'' ((mem_metadata hrefs hu o).2 hs'') hsub
  · rintro s' ⟨hreferenced, hmaximal⟩ ⟨t, w, hpoint⟩
    obtain ⟨l, hl, hsub⟩ := hgreatest.covered s' ((mem_metadata hrefs hu o).2 hreferenced)
    obtain ⟨s'', hs'', hlabels⟩ := hgreatest.from_series l hl
    have hback : Contained l s'.labels := by
      rw [← hlabels] at hsub ⊢
      exact hmaximal s'' ((mem_metadata hrefs hu o).1 hs'') hsub
    obtain ⟨n, hn⟩ := mem_iff_getElem?.1 hl
    obtain ⟨s, hs⟩ := isSome_iff_exists.1
      ((hspec (o.goroutines n) l).2 ⟨t, w, hpoint.congr ⟨hsub, hback⟩⟩)
    refine ⟨s, (mem_evaluateFormula o s).2 ⟨(l, n), mem_zipIdx_iff_getElem?.2 hn, hs⟩, ?_⟩
    rw [((hspec _ l).1 s hs).1]
    exact ⟨hback, hsub⟩
  · have hsymm : ∀ {s s' : TimeSeries V}, ¬ SameLabels s.labels s'.labels → ¬ SameLabels s'.labels s.labels :=
      fun h h' => h h'.symm
    refine ((o.finished.perm _).pairwise_iff hsymm).2 ?_
    have hapart := hgreatest.apart
    rw [← zipIdx_map_fst 0 (findUniqueLabelSets o (buildSeriesLookup fold o fe data)), pairwise_map] at hapart
    refine List.Pairwise.filterMap _ ?_ hapart
    intro x x' hne s hs s' hs' hsame
    rw [((hspec _ x.1).1 s hs).1, ((hspec _ x'.1).1 s' hs').1] at hsame
    exact hne.1 hsame.1
  · intro s hs
    obtain ⟨g, l, _, heval⟩ := hone s hs
    exact ((hspec g l).1 s heval).2.1
  · intro s hs
    obtain ⟨g, l, _, heval⟩ := hone s hs
    exact ((hspec g l).1 s heval).2.2.1
  · intro s hs x
    obtain ⟨g, l, _, heval⟩ := hone s hs
    obtain ⟨hlabels, _, _, hvalues⟩ := (hspec g l).1 s heval
    rw [hlabels]
    exact hvalues x

end

/-! ## Any order -/

section
variable {fold : Char → Char} {fe : FormulaEvaluator V} {data : GoMap String (TimeSeriesData V)}

/-- Every series of the one is in the other, with the same label set and the same values. -/
def Within (result result' : List (TimeSeries V)) : Prop :=
  ∀ s ∈ result, ∃ s' ∈ result', SameLabels s.labels s'.labels ∧ s.values = s'.values

theorem FormulaResult.within {result result' : List (TimeSeries V)} (h : FormulaResult fold fe data result)
    (h' : FormulaResult fold fe data result') : Within result result' := by
  intro s hs
  obtain ⟨m, hm, hlabels⟩ := h.maximal s hs
  obtain ⟨x, hx⟩ := exists_mem_of_ne_nil _ (h.nonempty s hs)
  obtain ⟨t, w, hpoint, _⟩ := (h.values s hs x).1 hx
  rw [← hlabels] at hpoint
  obtain ⟨s', hs', hsame⟩ := h'.complete m hm ⟨t, w, hpoint⟩
  rw [hlabels] at hsame
  refine ⟨s', hs', hsame.symm, ?_⟩
  have hmem : ∀ x, x ∈ s.values ↔ x ∈ s'.values := by
    intro x
    rw [h.values s hs x, h'.values s' hs' x]
    constructor
    · rintro ⟨t, w, hp, rfl⟩
      exact ⟨t, w, hp.congr hsame.symm, rfl⟩
    · rintro ⟨t, w, hp, rfl⟩
      exact ⟨t, w, hp.congr hsame, rfl⟩
  have hincreasing := h.increasing s hs
  have hincreasing' := h'.increasing s' hs'
  have hne : ∀ {x y : TimeSeriesValue V}, x.timestamp < y.timestamp → x ≠ y := by
    rintro x y hlt rfl
    exact Nat.lt_irrefl _ hlt
  have hperm : s.values.Perm s'.values :=
    (perm_ext_iff_of_nodup (hincreasing.imp hne) (hincreasing'.imp hne)).2 hmem
  exact hperm.eq_of_pairwise (fun x y _ _ hxy hyx => absurd hxy (Nat.lt_asymm hyx)) hincreasing hincreasing'

theorem mem_parseReferences {vars : List String} {aggRefs aggRefs' : GoMap String AggregationRef}
    (h : parseReferences vars aggRefs = some aggRefs') (var : String) : var ∈ aggRefs' ↔ var ∈ vars ∨ var ∈ aggRefs := by
  induction vars generalizing aggRefs with
  | nil =>
    rw [← Option.some.inj h]
    exact ⟨Or.inr, fun h => h.resolve_left not_mem_nil⟩
  | cons v vars ih =>
    rw [parseReferences] at h
    split at h
    · cases h
    · rw [ih h, AList.mem_insert, mem_cons]
      tauto

end

end

/-! ## Three formulas -/

def sumOf (vars : List String) : Expression Int := ⟨vars, fun f => (vars.mapM f).map (fun l => .number l.sum)⟩

def asRanged {α : Type} : Visit α := ⟨id, fun _ => List.Perm.refl _⟩

def inReverse {α : Type} : Visit α := ⟨List.reverse, List.reverse_perm⟩

def sumEvaluator (vars : List String) : Option (FormulaEvaluator Int) :=
  newFormulaEvaluator (fun _ => some (sumOf vars)) Char.toUpper (fun _ => asRanged) "" ∅

def firstFirst : Orders Int := ⟨asRanged, fun _ => asRanged, asRanged, fun _ => ⟨asRanged, fun _ => asRanged⟩, asRanged⟩

def lastFirst : Orders Int := ⟨asRanged, fun _ => inReverse, asRanged, fun _ => ⟨asRanged, fun _ => asRanged⟩, asRanged⟩

def oneAt (labels : List Label) (value : Int) : TimeSeries Int := { labels, values := [{ timestamp := 0, value }] }

def countOf (series : List (TimeSeries Int)) : TimeSeriesData Int := { aggregations := [{ index := 0, series }] }

theorem wellLabelled_of_length {fold : Char → Char} {fe : FormulaEvaluator Int} {data : GoMap String (TimeSeriesData Int)}
    (h : ∀ var ∈ fe.vars, (referencedSeries fold fe data var).length ≤ 1) : WellLabelled fold fe data := by
  have hone : ∀ var ∈ fe.vars, referencedSeries fold fe data var = [] ∨ ∃ s, referencedSeries fold fe data var = [s] := by
    intro var hvar
    have hlen := h var hvar
    match hs : referencedSeries fold fe data var with
    | [] => exact Or.inl rfl
    | [s] => exact Or.inr ⟨s, rfl⟩
    | _ :: _ :: _ => rw [hs] at hlen; simp at hlen
  constructor
  · intro var hvar s hs s' hs' k hk
    rcases hone var hvar with hnil | ⟨x, hx⟩
    · rw [hnil] at hs; cases hs
    · rw [hx, mem_singleton] at hs hs'
      rw [hs', ← hs]
      exact hk
  · intro var hvar
    rcases hone var hvar with hnil | ⟨x, hx⟩
    · rw [hnil]; exact List.Pairwise.nil
    · rw [hx]; exact pairwise_singleton _ _

def inCart : List Label := [⟨"service", .text "cart"⟩]

def requests : GoMap String (TimeSeriesData Int) :=
  AList.insert "A" (countOf [oneAt inCart 1]) (AList.insert "B" (countOf [oneAt [] 10]) ∅)

def twoQueries : FormulaEvaluator Int := (sumEvaluator ["A", "B"]).get (by decide)

def twoSpellings : GoMap String (TimeSeriesData Int) :=
  AList.insert "ab" (countOf [oneAt [] 1]) (AList.insert "aB" (countOf [oneAt [] 2]) ∅)

def thirdSpelling : FormulaEvaluator Int := (sumEvaluator ["AB"]).get (by decide)

def onlyA : GoMap String (TimeSeriesData Int) := AList.insert "A" (countOf [oneAt inCart 1]) ∅

def withBar : FormulaEvaluator Int := (sumEvaluator ["A", "A|0"]).get (by decide)

end Querier
end DsApm
