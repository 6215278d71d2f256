import DsApm.Querier.LabelSets
/-!
# FormulaLookup — what a formula's variables find

The keys under which the series of the variables are kept are all different where no variable, followed by a bar, begins a key
of another.  There, and where a query is named by one spelling only, each variable finds its own series whatever the orders
of the loops.
-/
namespace DsApm
namespace Querier

open Latest List
open Rules (Float64)

/-! ## Keys -/

theorem buildSeriesKey_toList (var : String) (i : Nat) (labels : List Label) :
    ∃ rest, (buildSeriesKey var i labels).toList = (var ++ "|").toList ++ (Nat.toDigits 10 i ++ rest) ∧
      (rest = [] ∨ ∃ rest', rest = '|' :: rest') := by
  have hdigits : (toString i).toList = Nat.toDigits 10 i := Nat.toList_repr
  unfold buildSeriesKey
  simp only [String.intercalate_cons_cons]
  generalize (labels.insertionSort (fun a b => a.name ≤ b.name)).map (fun l => l.name ++ "=" ++ l.value.format) = parts
  cases parts with
  | nil =>
    refine ⟨[], ?_, Or.inl rfl⟩
    rw [String.intercalate_singleton, String.toList_append, hdigits, append_nil]
  | cons p parts =>
    refine ⟨'|' :: ("|".intercalate (p :: parts)).toList, ?_, Or.inr ⟨_, rfl⟩⟩
    have hbar : "|".toList = ['|'] := by decide
    simp only [String.intercalate_cons_cons, String.toList_append, hdigits, hbar, List.append_assoc, cons_append,
      nil_append]

theorem prefix_buildSeriesKey (var : String) (i : Nat) (labels : List Label) :
    (var ++ "|").toList <+: (buildSeriesKey var i labels).toList := by
  obtain ⟨rest, h, _⟩ := buildSeriesKey_toList var i labels
  rw [h]
  exact prefix_append _ _

theorem index_eq_of_buildSeriesKey {var : String} {i j : Nat} {labels labels' : List Label}
    (h : buildSeriesKey var i labels = buildSeriesKey var j labels') : i = j := by
  obtain ⟨rest, hi, hrest⟩ := buildSeriesKey_toList var i labels
  obtain ⟨rest', hj, hrest'⟩ := buildSeriesKey_toList var j labels'
  rw [h, hj, append_cancel_left_eq] at hi
  -- the index is what comes before the next bar
  have htake : ∀ (n : Nat) (r : List Char), (r = [] ∨ ∃ r', r = '|' :: r') →
      (Nat.toDigits 10 n ++ r).takeWhile Char.isDigit = Nat.toDigits 10 n := by
    intro n r hr
    have hdigits : ∀ c ∈ Nat.toDigits 10 n, c.isDigit = true :=
      fun c hc => Nat.isDigit_of_mem_toDigits (by decide) (by decide) hc
    rw [takeWhile_append_of_pos hdigits]
    rcases hr with rfl | ⟨r', rfl⟩
    · simp
    · have hbar : Char.isDigit '|' = false := by decide
      rw [takeWhile_cons_of_neg (by rw [hbar]; exact Bool.false_ne_true), append_nil]
  have hdigits := congrArg (List.takeWhile Char.isDigit) hi
  rw [htake j rest' hrest', htake i rest hrest] at hdigits
  have hvalue := congrArg (fun l => Nat.ofDigitChars 10 l 0) hdigits
  simpa using hvalue.symm

/-! ## The lookup -/

section
variable {V : Type}

theorem add_lookup {lookup : SeriesLookup V} {key : String} (series : TimeSeries V) (h : lookup.data.lookup key = none)
    (k : String) :
    (lookup.add key series).data.lookup k = (if k = key then some (storeValues series.values ∅) else lookup.data.lookup k) ∧
    (lookup.add key series).seriesMetadata.lookup k = if k = key then some series else lookup.seriesMetadata.lookup k := by
  unfold SeriesLookup.add
  rw [h]
  by_cases hk : k = key
  · subst hk
    rw [if_pos rfl, if_pos rfl]
    exact ⟨AList.lookup_insert _, AList.lookup_insert _⟩
  · rw [if_neg hk, if_neg hk]
    exact ⟨AList.lookup_insert_ne hk, AList.lookup_insert_ne hk⟩

theorem foldl_add_lookup (l : List (String × TimeSeries V)) (lookup : SeriesLookup V) (hnd : (l.map Prod.fst).Nodup)
    (hnew : ∀ k ∈ l.map Prod.fst, lookup.data.lookup k = none) (k : String) :
    (l.foldl (fun lookup x => lookup.add x.1 x.2) lookup).data.lookup k =
      ((l.lookup k).map (fun s => storeValues s.values ∅)).or (lookup.data.lookup k) ∧
    (l.foldl (fun lookup x => lookup.add x.1 x.2) lookup).seriesMetadata.lookup k =
      (l.lookup k).or (lookup.seriesMetadata.lookup k) := by
  induction l generalizing lookup with
  | nil => exact ⟨rfl, rfl⟩
  | cons x l ih =>
    rw [map_cons, nodup_cons] at hnd
    have hadd := add_lookup x.2 (hnew x.1 mem_cons_self)
    have hrest : ∀ k ∈ l.map Prod.fst, (lookup.add x.1 x.2).data.lookup k = none := by
      intro k hk
      have hne : k ≠ x.1 := fun heq => hnd.1 (heq ▸ hk)
      rw [(hadd k).1, if_neg hne]
      exact hnew k (mem_cons_of_mem _ hk)
    obtain ⟨hdata, hmeta⟩ := ih (lookup.add x.1 x.2) hnd.2 hrest
    rw [foldl_cons, hdata, hmeta, (hadd k).1, (hadd k).2, lookup_cons]
    by_cases hk : k = x.1
    · have hnone : l.lookup k = none := lookup_eq_none_iff.2 (fun y hy => by
        rw [bne_iff_ne, hk]
        exact fun heq => hnd.1 (List.mem_map.2 ⟨y, hy, heq.symm⟩))
      rw [if_pos hk, if_pos hk, hnone, hk, beq_self_eq_true]
      exact ⟨rfl, rfl⟩
    · have hbeq : (k == x.1) = false := beq_eq_false_iff_ne.2 hk
      rw [if_neg hk, if_neg hk, hbeq]
      exact ⟨rfl, rfl⟩

theorem lookup_eq_some_iff_mem {l : List (String × TimeSeries V)} (hnd : (l.map Prod.fst).Nodup) {k : String}
    {s : TimeSeries V} : l.lookup k = some s ↔ (k, s) ∈ l := by
  induction l with
  | nil => simp
  | cons x l ih =>
    rw [map_cons, nodup_cons] at hnd
    rw [lookup_cons, mem_cons]
    by_cases hk : k = x.1
    · subst hk
      rw [beq_self_eq_true]
      have hnot : (x.1, s) ∉ l := fun hin => hnd.1 (List.mem_map.2 ⟨_, hin, rfl⟩)
      simp only [Option.some.injEq, hnot, or_false]
      exact ⟨fun h => by rw [← h], fun h => (congrArg Prod.snd h).symm⟩
    · have hbeq : (k == x.1) = false := beq_eq_false_iff_ne.2 hk
      rw [hbeq]
      refine (ih hnd.2).trans ⟨Or.inr, fun h => h.resolve_left (fun heq => hk (congrArg Prod.fst heq))⟩

/-- The values of a series as the lookup has them: a later value of a timestamp replaces an earlier one. -/
def TimeSeries.valueAt (s : TimeSeries V) (timestamp : Nat) : Option V :=
  (s.values.reverse.find? (fun x => x.timestamp == timestamp)).map TimeSeriesValue.value

theorem storeValues_lookup (s : TimeSeries V) (timestamp : Nat) :
    (storeValues s.values ∅).lookup timestamp = s.valueAt timestamp := by
  unfold storeValues TimeSeries.valueAt
  induction s.values using List.reverseRecOn with
  | nil => rfl
  | append_singleton l x ih =>
    rw [foldl_append, foldl_cons, foldl_nil, reverse_append, reverse_singleton,
      singleton_append, List.find?_cons]
    by_cases hx : timestamp = x.timestamp
    · subst hx
      rw [beq_self_eq_true]
      exact AList.lookup_insert _
    · have hbeq : (x.timestamp == timestamp) = false := beq_eq_false_iff_ne.2 (Ne.symm hx)
      rw [AList.lookup_insert_ne hx, ih, hbeq]

/-! ## The series of a variable -/

variable (fold : Char → Char) (fe : FormulaEvaluator V) (data : GoMap String (TimeSeriesData V))

def referencedSeries (var : String) : List (TimeSeries V) :=
  match fe.aggRefs.lookup var with
  | some ref => targetSeries fold ⟨id, fun _ => List.Perm.refl _⟩ data ref
  | none => []

/-- The series of an aggregation have the same names of labels and pairwise different values. -/
structure WellLabelled : Prop where
  names : ∀ var ∈ fe.vars, ∀ s ∈ referencedSeries fold fe data var, ∀ s' ∈ referencedSeries fold fe data var,
    ∀ k ∈ s.labels.map Label.name, k ∈ s'.labels.map Label.name
  values : ∀ var ∈ fe.vars, (referencedSeries fold fe data var).Pairwise (fun s s' =>
    ∃ k v v', labelSet s.labels k = some v ∧ labelSet s'.labels k = some v' ∧ v.equal v' = false)

structure Unambiguous : Prop where
  /-- A query that is not there under the name that the formula uses is there under one other spelling at most. -/
  queries : ∀ var ∈ fe.vars, ∀ ref, fe.aggRefs.lookup var = some ref → data.lookup ref.queryName = none →
    ∀ k ∈ data.keys, ∀ k' ∈ data.keys, GoStd.equalFold fold k ref.queryName = true →
      GoStd.equalFold fold k' ref.queryName = true → k = k'
  /-- No variable, followed by a bar, begins the key of a series of another. -/
  keys : ∀ u ∈ fe.vars, ∀ v ∈ fe.vars, u ≠ v → ∀ x ∈ (referencedSeries fold fe data u).zipIdx,
    ¬ (v ++ "|").toList <+: (buildSeriesKey u x.2 x.1.labels).toList
  labels : ∀ var ∈ fe.vars, ∀ s ∈ referencedSeries fold fe data var, ProperLabels s.labels

variable {fold fe data}

theorem findData_eq {queryName : String}
    (h : data.lookup queryName = none → ∀ k ∈ data.keys, ∀ k' ∈ data.keys, GoStd.equalFold fold k queryName = true →
      GoStd.equalFold fold k' queryName = true → k = k') (visit visit' : Visit (MapEntry (TimeSeriesData V))) :
    findData fold visit data queryName = findData fold visit' data queryName := by
  unfold findData
  cases hl : data.lookup queryName with
  | some d => rfl
  | none =>
    have hunique : ∀ a ∈ data.entries, ∀ b ∈ data.entries, ∀ x y : MapEntry (TimeSeriesData V),
        Option.guard (fun e => GoStd.equalFold fold e.1 queryName) a = some x →
        Option.guard (fun e => GoStd.equalFold fold e.1 queryName) b = some y → x = y := by
      intro a ha b hb x y hx hy
      obtain ⟨rfl, hfa⟩ := Option.guard_eq_some_iff.1 hx
      obtain ⟨rfl, hfb⟩ := Option.guard_eq_some_iff.1 hy
      have hkey := h hl a.1 (List.mem_map_of_mem ha) b.1 (List.mem_map_of_mem hb) hfa hfb
      exact data.nodupKeys.eq_of_fst_eq ha hb hkey
    have hfind : (visit.order data.entries).find? (fun e => GoStd.equalFold fold e.1 queryName) =
        (visit'.order data.entries).find? (fun e => GoStd.equalFold fold e.1 queryName) := by
      rw [← List.findSome?_guard, ← List.findSome?_guard]
      ext x
      rw [visit.findSome?_eq_some_iff hunique, visit'.findSome?_eq_some_iff hunique]
    simp only [hfind]

theorem targetSeries_eq (h : Unambiguous fold fe data) {var : String} (hvar : var ∈ fe.vars) {ref : AggregationRef}
    (href : fe.aggRefs.lookup var = some ref) (visit : Visit (MapEntry (TimeSeriesData V))) :
    targetSeries fold visit data ref = referencedSeries fold fe data var := by
  unfold referencedSeries
  rw [href]
  unfold targetSeries
  rw [findData_eq (h.queries var hvar ref href) visit]

theorem eq_of_contained (h : WellLabelled fold fe data) {var : String} (hvar : var ∈ fe.vars) {target : List Label}
    {x y : TimeSeries V × Nat} (hx : x ∈ (referencedSeries fold fe data var).zipIdx) (hy : y ∈ (referencedSeries fold fe data var).zipIdx)
    (hxt : Contained x.1.labels target) (hyt : Contained y.1.labels target) : x = y := by
  by_contra hne
  have hpairs := h.values var hvar
  rw [← zipIdx_map_fst 0 (referencedSeries fold fe data var), pairwise_map] at hpairs
  have hsymm : Std.Symm (fun x y : TimeSeries V × Nat => ∃ k v v', labelSet x.1.labels k = some v ∧
      labelSet y.1.labels k = some v' ∧ v.equal v' = false) := by
    refine ⟨fun x y ⟨k, v, v', hv, hv', heq⟩ => ⟨k, v', v, hv', hv, ?_⟩⟩
    by_contra htrue
    rw [Bool.not_eq_false] at htrue
    rw [LabelValue.equal_symm htrue] at heq
    cases heq
  obtain ⟨k, v, v', hv, hv', hdiffer⟩ := hpairs.forall hx hy hne
  -- both values are equal to the target's
  obtain ⟨w, hw, heq⟩ := hxt k v hv
  obtain ⟨w', hw', heq'⟩ := hyt k v' hv'
  rw [hw] at hw'
  rw [← Option.some.inj hw'] at heq'
  rw [LabelValue.equal_trans (LabelValue.equal_symm heq) heq'] at hdiffer
  cases hdiffer

/-! ## What is in the lookup -/

def keyedSeries (fold : Char → Char) (o : Orders V) (fe : FormulaEvaluator V) (data : GoMap String (TimeSeriesData V)) :
    List (String × TimeSeries V) :=
  (o.refs.order fe.aggRefs.entries).flatMap (fun e =>
    (targetSeries fold (o.queries e.1) data e.2).zipIdx.map (fun x => (buildSeriesKey e.1 x.2 x.1.labels, x.1)))

theorem buildSeriesLookup_eq (o : Orders V) : buildSeriesLookup fold o fe data =
    (keyedSeries fold o fe data).foldl (fun lookup x => lookup.add x.1 x.2) { data := ∅, seriesMetadata := ∅ } := by
  unfold buildSeriesLookup keyedSeries
  rw [foldl_flatMap]
  simp only [foldl_map]

variable (hrefs : ∀ var, var ∈ fe.aggRefs ↔ var ∈ fe.vars) (hu : Unambiguous fold fe data)

include hrefs hu

theorem mem_keyedSeries (o : Orders V) {key : String} {s : TimeSeries V} : (key, s) ∈ keyedSeries fold o fe data ↔
    ∃ var ∈ fe.vars, ∃ i, (s, i) ∈ (referencedSeries fold fe data var).zipIdx ∧ key = buildSeriesKey var i s.labels := by
  unfold keyedSeries
  rw [mem_flatMap]
  constructor
  · rintro ⟨e, he, hmem⟩
    have hlookup : fe.aggRefs.lookup e.1 = some e.2 := AList.mem_lookup_iff.2 ((o.refs.perm _).mem_iff.1 he)
    have hvar : e.1 ∈ fe.vars := (hrefs e.1).1 (AList.lookup_isSome.1 (by rw [hlookup]; rfl))
    rw [targetSeries_eq hu hvar hlookup] at hmem
    obtain ⟨⟨s', i⟩, hx, heq⟩ := List.mem_map.1 hmem
    obtain ⟨rfl, rfl⟩ := Prod.mk.inj heq
    exact ⟨e.1, hvar, i, hx, rfl⟩
  · rintro ⟨var, hvar, i, hx, rfl⟩
    obtain ⟨ref, hlookup⟩ := Option.isSome_iff_exists.1 (AList.lookup_isSome.2 ((hrefs var).2 hvar))
    refine ⟨⟨var, ref⟩, (o.refs.perm _).mem_iff.2 (AList.mem_lookup_iff.1 hlookup), ?_⟩
    rw [targetSeries_eq hu hvar hlookup]
    exact List.mem_map.2 ⟨(s, i), hx, rfl⟩

theorem nodup_keyedSeries (o : Orders V) : ((keyedSeries fold o fe data).map Prod.fst).Nodup := by
  have hkeys : ((o.refs.order fe.aggRefs.entries).map Sigma.fst).Nodup :=
    ((o.refs.perm _).map _).nodup_iff.2 fe.aggRefs.nodupKeys
  have hlookup : ∀ e ∈ o.refs.order fe.aggRefs.entries, fe.aggRefs.lookup e.1 = some e.2 :=
    fun e he => AList.mem_lookup_iff.2 ((o.refs.perm _).mem_iff.1 he)
  have hvars : ∀ e ∈ o.refs.order fe.aggRefs.entries, e.1 ∈ fe.vars :=
    fun e he => (hrefs e.1).1 (AList.lookup_isSome.1 (by rw [hlookup e he]; rfl))
  unfold keyedSeries
  rw [map_flatMap, nodup_flatMap]
  constructor
  · intro e _
    have hindex : ((targetSeries fold (o.queries e.1) data e.2).zipIdx.map Prod.snd).Nodup := by
      rw [zipIdx_map_snd]
      exact nodup_range'
    rw [List.Nodup, pairwise_map] at hindex
    rw [List.map_map, List.Nodup, pairwise_map]
    exact hindex.imp (fun hne heq => hne (index_eq_of_buildSeriesKey heq))
  · rw [List.Nodup, pairwise_map] at hkeys
    refine (List.Pairwise.and_mem.1 hkeys).imp ?_
    rintro e e' ⟨he, he', hne⟩ key hkey hkey'
    simp only [List.map_map] at hkey hkey'
    rw [targetSeries_eq hu (hvars e he) (hlookup e he)] at hkey
    obtain ⟨x, hx, rfl⟩ := List.mem_map.1 hkey
    obtain ⟨x', _, heq⟩ := List.mem_map.1 hkey'
    refine hu.keys e.1 (hvars e he) e'.1 (hvars e' he') hne x hx ?_
    have hpre := prefix_buildSeriesKey e'.1 x'.2 x'.1.labels
    have heq' : buildSeriesKey e'.1 x'.2 x'.1.labels = buildSeriesKey e.1 x.2 x.1.labels := heq
    rwa [heq'] at hpre

theorem buildSeriesLookup_lookup (o : Orders V) {key : String} {s : TimeSeries V} :
    ((buildSeriesLookup fold o fe data).seriesMetadata.lookup key = some s ↔ (key, s) ∈ keyedSeries fold o fe data) ∧
    ((key, s) ∈ keyedSeries fold o fe data →
      (buildSeriesLookup fold o fe data).data.lookup key = some (storeValues s.values ∅)) := by
  have hnd := nodup_keyedSeries hrefs hu o
  obtain ⟨hdata, hmeta⟩ := foldl_add_lookup (keyedSeries fold o fe data) { data := ∅, seriesMetadata := ∅ } hnd
    (fun _ _ => rfl) key
  rw [buildSeriesLookup_eq]
  have hempty : ∀ {α : Type}, (∅ : GoMap String α).lookup key = none := rfl
  constructor
  · rw [hmeta, hempty, Option.or_none]
    exact lookup_eq_some_iff_mem hnd
  · intro hin
    rw [hdata, (lookup_eq_some_iff_mem hnd).2 hin]
    rfl

theorem mem_metadata (o : Orders V) {s : TimeSeries V} :
    s ∈ GoMap.values (buildSeriesLookup fold o fe data).seriesMetadata ↔ ∃ var ∈ fe.vars, s ∈ referencedSeries fold fe data var := by
  rw [GoMap.mem_values]
  constructor
  · rintro ⟨key, hkey⟩
    obtain ⟨var, hvar, i, hx, _⟩ := (mem_keyedSeries hrefs hu o).1 ((buildSeriesLookup_lookup hrefs hu o).1.1 hkey)
    exact ⟨var, hvar, mem_of_getElem? (mem_zipIdx_iff_getElem?.1 hx)⟩
  · rintro ⟨var, hvar, hs⟩
    obtain ⟨i, hi⟩ := mem_iff_getElem?.1 hs
    refine ⟨buildSeriesKey var i s.labels, (buildSeriesLookup_lookup hrefs hu o).1.2 ?_⟩
    exact (mem_keyedSeries hrefs hu o).2 ⟨var, hvar, i, mem_zipIdx_iff_getElem?.2 hi, rfl⟩

/-! ## What a variable finds -/

def seriesFor (fold : Char → Char) (fe : FormulaEvaluator V) (data : GoMap String (TimeSeriesData V))
    (target : List Label) (var : String) : Option (TimeSeries V) :=
  (referencedSeries fold fe data var).find? (fun s => isSubset target s.labels)

omit hrefs hu in
theorem seriesFor_eq_some_iff (hw : WellLabelled fold fe data) {target : List Label} {var : String} (hvar : var ∈ fe.vars)
    {s : TimeSeries V} : seriesFor fold fe data target var = some s ↔
      ∃ i, (s, i) ∈ (referencedSeries fold fe data var).zipIdx ∧ Contained s.labels target := by
  have hindexed : ∀ {s : TimeSeries V}, s ∈ referencedSeries fold fe data var → ∃ i, (s, i) ∈ (referencedSeries fold fe data var).zipIdx := by
    intro s hs
    obtain ⟨i, hi⟩ := mem_iff_getElem?.1 hs
    exact ⟨i, mem_zipIdx_iff_getElem?.2 hi⟩
  unfold seriesFor
  constructor
  · intro h
    obtain ⟨i, hi⟩ := hindexed (mem_of_find?_eq_some h)
    have hsub : isSubset target s.labels = true := by simpa using List.find?_some h
    exact ⟨i, hi, isSubset_iff.1 hsub⟩
  · rintro ⟨i, hi, hsub⟩
    cases hf : (referencedSeries fold fe data var).find? (fun s => isSubset target s.labels) with
    | none =>
      exact absurd (isSubset_iff.2 hsub)
        (List.find?_eq_none.1 hf s (mem_of_getElem? (mem_zipIdx_iff_getElem?.1 hi)))
    | some s' =>
      obtain ⟨j, hj⟩ := hindexed (mem_of_find?_eq_some hf)
      have hsub' : isSubset target s'.labels = true := by simpa using List.find?_some hf
      rw [(Prod.mk.inj (eq_of_contained hw hvar hj hi (isSubset_iff.1 hsub') hsub)).1]

theorem matchingData_eq (hw : WellLabelled fold fe data) (o : Orders V) (visit : Visit (MapEntry (TimeSeries V)))
    (target : List Label) {var : String} (hvar : var ∈ fe.vars) :
    matchingData visit (buildSeriesLookup fold o fe data) target var =
      (seriesFor fold fe data target var).map (fun s => storeValues s.values ∅) := by
  -- an entry that is found is a series of the variable's own
  have hfound : ∀ e ∈ (buildSeriesLookup fold o fe data).seriesMetadata.entries, ∀ d,
      (if (var ++ "|").toList.isPrefixOf e.1.toList && isSubset target e.2.labels
        then (buildSeriesLookup fold o fe data).data.lookup e.1 else none) = some d →
      seriesFor fold fe data target var = some e.2 ∧ d = storeValues e.2.values ∅ := by
    intro e he d hd
    have hin := (buildSeriesLookup_lookup hrefs hu o).1.1 (AList.mem_lookup_iff.2 he)
    split at hd
    · rename_i hmatch
      rw [Bool.and_eq_true, isPrefixOf_iff_prefix] at hmatch
      rw [(buildSeriesLookup_lookup hrefs hu o).2 hin] at hd
      obtain ⟨u, hvaru, i, hi, hkey⟩ := (mem_keyedSeries hrefs hu o).1 hin
      by_cases heq : u = var
      · subst heq
        exact ⟨(seriesFor_eq_some_iff hw hvar).2 ⟨i, hi, isSubset_iff.1 hmatch.2⟩, (Option.some.inj hd).symm⟩
      · have hnot := hu.keys u hvaru var hvar heq (e.2, i) hi
        rw [← hkey] at hnot
        exact absurd hmatch.1 hnot
    · cases hd
  unfold matchingData
  ext d
  rw [visit.findSome?_eq_some_iff]
  · constructor
    · rintro ⟨e, he, hd⟩
      obtain ⟨hfor, rfl⟩ := hfound e he d hd
      rw [hfor]; rfl
    · intro hd
      obtain ⟨s, hs, rfl⟩ := Option.map_eq_some_iff.1 hd
      obtain ⟨i, hi, hsub⟩ := (seriesFor_eq_some_iff hw hvar).1 hs
      have hin := (mem_keyedSeries hrefs hu o).2 ⟨var, hvar, i, hi, rfl⟩
      refine ⟨⟨_, s⟩, AList.mem_lookup_iff.1 ((buildSeriesLookup_lookup hrefs hu o).1.2 hin), ?_⟩
      rw [if_pos]
      · exact (buildSeriesLookup_lookup hrefs hu o).2 hin
      · rw [Bool.and_eq_true, isPrefixOf_iff_prefix]
        exact ⟨prefix_buildSeriesKey _ _ _, isSubset_iff.2 hsub⟩
  · intro a ha b hb x y hx hy
    obtain ⟨hfora, rfl⟩ := hfound a ha x hx
    obtain ⟨hforb, rfl⟩ := hfound b hb y hy
    rw [hfora] at hforb
    rw [Option.some.inj hforb]

end

end Querier
end DsApm
