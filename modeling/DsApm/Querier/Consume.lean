import DsApm.Lib.Lists
import DsApm.Lib.Gather
import DsApm.Lib.GoMap
import DsApm.Lib.GoStd
import DsApm.Querier.TimeSeries
import Mathlib.Data.String.Basic
/-!
# Consume — `readAsTimeSeries`

Every row gives a point for each of its aggregations, and the points go to series by the aggregation and by the row's
label values, sorted and joined.  The values do not say which label has them, and may have the separator in them, so
rows with other label maps can share a series.

Floating-point numbers are a type with the two functions the code uses of it.
-/
namespace DsApm
namespace Querier

open List

variable {F : Type}

/-! ## A row -/

structure Column where
  name : String
  -- the kind of the scan type is one of a number
  numeric : Bool
  deriving DecidableEq, Repr

/-- A slot after `Scan`, by the cases of the type switch. -/
inductive Slot (F : Type) where
  | time (ms : Nat)
  | number (v : F)
  | nullableNumber (v : Option F)
  | text (s : String)
  | nullableText (s : Option String)
  | other

structure Scanned (F : Type) where
  ts : Nat := 0
  lblVals : List String := []
  lblObjs : List Label := []
  aggValues : GoMap Nat F := ∅
  fallback : Option F := none

/-- `aggRe`, and the number it matches; `Atoi` gives the greatest `int` for one that is too large. -/
def aggIndex (name : String) : Option Nat :=
  let digits := name.toList.drop "__result_".length
  if "__result_".toList.isPrefixOf name.toList ∧ digits ≠ [] ∧ digits.all Char.isDigit then
    some (((GoStd.atoi digits).map Int.toNat).getD (2 ^ 63 - 1))
  else none

def legacyReservedColumnTargetAliases : List String := ["__result", "__value", "result", "res", "value"]

def numericColsCount (columns : List Column) : Nat := (columns.filter Column.numeric).length

def Scanned.label (st : Scanned F) (name : String) (text : String) (value : LabelValue) : Scanned F :=
  { st with lblVals := st.lblVals ++ [text], lblObjs := st.lblObjs ++ [⟨name, value⟩] }

section Reading

-- `fmt.Sprint` of a number, and whether it is neither NaN nor infinite
variable (sprint : F → String) (finite : F → Bool)

def Scanned.number (numericColsCount : Nat) (st : Scanned F) (name : String) (val : F) : Scanned F :=
  match aggIndex name with
  | some id => { st with aggValues := st.aggValues.insert id val }
  | none =>
    if numericColsCount = 1 then { st with fallback := some val }
    else if name ∈ legacyReservedColumnTargetAliases then { st with fallback := some val }
    else st.label name (sprint val) (.number (sprint val))

def Scanned.slot (numericColsCount : Nat) (st : Scanned F) (column : Column) : Slot F → Scanned F
  | .time ms => { st with ts := ms }
  | .number val => st.number sprint numericColsCount column.name val
  | .nullableNumber (some v) => st.number sprint numericColsCount column.name v
  | .nullableNumber none => st
  | .text s => st.label column.name s (.text s)
  | .nullableText s => st.label column.name (s.getD "") (.text (s.getD ""))
  | .other => st

def scanRow (columns : List Column) (row : List (Slot F)) : Scanned F :=
  (columns.zip row).foldl (fun st slot => st.slot sprint (numericColsCount columns) slot.1 slot.2) {}

/-- The aggregations of a row; without any, the single value stands for the first. -/
def Scanned.results (st : Scanned F) : List (Nat × F) :=
  if st.aggValues.entries = [] then st.fallback.toList.map (fun v => (0, v))
  else st.aggValues.entries.map (fun e => (e.1, e.2))

/-! ## Series -/

structure Sample (F : Type) where
  agg : Nat
  labelsKey : String
  labels : List Label
  value : TimeSeriesValue F

def Sample.key (s : Sample F) : Nat × String := (s.agg, s.labelsKey)

def labelsKey (lblVals : List String) : String := ",".intercalate (lblVals.insertionSort (· ≤ ·))

def rowSamples (queryWindow : Option TimeRange) (stepMs : Nat) (columns : List Column) (row : List (Slot F)) :
    List (Sample F) :=
  let st := scanRow sprint columns row
  if st.ts = 0 then []
  else (st.results.filter (fun r => finite r.2)).map (fun r =>
    { agg := r.1, labelsKey := labelsKey st.lblVals, labels := st.lblObjs
      value := ⟨st.ts, r.2, isPartialValue stepMs queryWindow st.ts⟩ })

def samples (queryWindow : Option TimeRange) (stepMs : Nat) (columns : List Column) (rows : List (List (Slot F))) :
    List (Sample F) :=
  rows.flatMap (rowSamples sprint finite queryWindow stepMs columns)

/-- `seriesMap`: a key's first point starts a series with the labels of its row, and every point is appended. -/
def seriesMap (ss : List (Sample F)) : List ((Nat × String) × TimeSeries F) :=
  Gather.gather Sample.key (fun s => ⟨s.labels, [s.value]⟩) (fun t s => { t with values := t.values ++ [s.value] }) ss

def readAsTimeSeries (queryWindow : Option TimeRange) (stepMs : Nat) (queryName : String) (columns : List Column)
    (rows : List (List (Slot F))) : TimeSeriesData F :=
  let m := seriesMap (samples sprint finite queryWindow stepMs columns rows)
  match (m.map (fun e => e.1.1)).max? with
  | none => { queryName := queryName }
  | some maxAgg =>
    let buckets : List (AggregationBucket F) := (List.range (maxAgg + 1)).map (fun i : Nat =>
      { index := i, alias_ := "__result_" ++ toString i
        series := (m.filter (fun e => decide (e.1.1 = i))).map Prod.snd })
    { queryName := queryName, aggregations := buckets.filter (fun b => !b.series.isEmpty) }

end Reading

/-! ## The rows behind a series -/

section Rows

variable (sprint : F → String) (finite : F → Bool) (queryWindow : Option TimeRange) (stepMs : Nat) (columns : List Column)

def numbered (rows : List (List (Slot F))) : List (Nat × Sample F) :=
  rows.zipIdx.flatMap (fun x => (rowSamples sprint finite queryWindow stepMs columns x.1).map (fun s => (x.2, s)))

/-- The pass of `seriesMap`, with the numbers of the rows in place of their points. -/
def rowMap (rows : List (List (Slot F))) : List ((Nat × String) × List Nat) :=
  Gather.gather (fun x : Nat × Sample F => x.2.key) (fun x => [x.1]) (fun l x => l ++ [x.1])
    (numbered sprint finite queryWindow stepMs columns rows)

def Contributes (row : List (Slot F)) (agg : Nat) : Prop :=
  ∃ s ∈ rowSamples sprint finite queryWindow stepMs columns row, s.agg = agg

def labelMap (row : List (Slot F)) : String → Option LabelValue := labelSet (scanRow sprint columns row).lblObjs

def rowKey (row : List (Slot F)) : String := labelsKey (scanRow sprint columns row).lblVals

/-- Rows of an aggregation share a series exactly when their label maps are equal. -/
def GroupedByLabels (rows : List (List (Slot F))) : Prop :=
  ∀ agg a b ra rb, rows[a]? = some ra → rows[b]? = some rb →
    Contributes sprint finite queryWindow stepMs columns ra agg → Contributes sprint finite queryWindow stepMs columns rb agg →
    ((∃ e ∈ rowMap sprint finite queryWindow stepMs columns rows, e.1.1 = agg ∧ a ∈ e.2 ∧ b ∈ e.2) ↔
      labelMap sprint columns ra = labelMap sprint columns rb)

variable {sprint finite queryWindow stepMs columns}

theorem samples_eq (rows : List (List (Slot F))) : samples sprint finite queryWindow stepMs columns rows =
    (numbered sprint finite queryWindow stepMs columns rows).map Prod.snd := by
  simp only [samples, numbered, map_flatMap, List.map_map, Function.comp_def, List.map_id']
  rw [← flatMap_map (fun x : List (Slot F) × Nat => x.1), zipIdx_map_fst]

theorem mem_numbered {rows : List (List (Slot F))} {n : Nat} {s : Sample F} :
    (n, s) ∈ numbered sprint finite queryWindow stepMs columns rows ↔
      ∃ row, rows[n]? = some row ∧ s ∈ rowSamples sprint finite queryWindow stepMs columns row := by
  unfold numbered
  rw [mem_flatMap]
  constructor
  · rintro ⟨⟨row, m⟩, hrow, hs⟩
    obtain ⟨t, ht, heq⟩ := List.mem_map.1 hs
    obtain ⟨rfl, rfl⟩ := Prod.mk.inj heq
    exact ⟨row, mk_mem_zipIdx_iff_getElem?.1 hrow, ht⟩
  · rintro ⟨row, hrow, hs⟩
    exact ⟨(row, n), mk_mem_zipIdx_iff_getElem?.2 hrow, List.mem_map_of_mem hs⟩

/-- **A series has the points of its rows, in their order, and the labels of the first.** -/
theorem mem_seriesMap {rows : List (List (Slot F))} {k : Nat × String} {t : TimeSeries F} {l : List Nat}
    (hl : (k, l) ∈ rowMap sprint finite queryWindow stepMs columns rows) :
    (k, t) ∈ seriesMap (samples sprint finite queryWindow stepMs columns rows) ↔
      ∃ group : List (Nat × Sample F),
        group = (numbered sprint finite queryWindow stepMs columns rows).filter (fun x => decide (x.2.key = k)) ∧
        l = group.map Prod.fst ∧ t.values = group.map (fun x => x.2.value) ∧
        group.head?.map (fun x => x.2.labels) = some t.labels := by
  have hseries : ∀ group : List (Sample F), Gather.collected (fun s : Sample F => TimeSeries.mk s.labels [s.value])
      (fun t s => { t with values := t.values ++ [s.value] }) group = some t ↔
        t.values = group.map Sample.value ∧ group.head?.map Sample.labels = some t.labels := by
    intro group
    cases group with
    | nil => simp [Gather.collected]
    | cons s group =>
      have hfold : ∀ (l : List (Sample F)) (t : TimeSeries F),
          l.foldl (fun t s => { t with values := t.values ++ [s.value] }) t = ⟨t.labels, t.values ++ l.map Sample.value⟩ := by
        intro l
        induction l with
        | nil => simp
        | cons x l ih => simp [ih]
      rw [Gather.collected, hfold]
      cases t
      simp [and_comm, eq_comm]
  rw [rowMap, Gather.mem_gather] at hl
  rw [seriesMap, Gather.mem_gather, samples_eq, List.filter_map, hseries]
  simp only [Function.comp_def]
  generalize (numbered sprint finite queryWindow stepMs columns rows).filter (fun x => decide (x.2.key = k)) = group at *
  cases group with
  | nil => cases hl
  | cons x rest =>
    rw [Gather.collected_list] at hl
    cases hl
    simp [Function.comp_def]

theorem mem_rowMap {rows : List (List (Slot F))} {k : Nat × String} {a b : Nat} :
    (∃ e ∈ rowMap sprint finite queryWindow stepMs columns rows, e.1 = k ∧ a ∈ e.2 ∧ b ∈ e.2) ↔
      (∃ s, (a, s) ∈ numbered sprint finite queryWindow stepMs columns rows ∧ s.key = k) ∧
      (∃ s, (b, s) ∈ numbered sprint finite queryWindow stepMs columns rows ∧ s.key = k) := by
  have hrows : ∀ n, n ∈ ((numbered sprint finite queryWindow stepMs columns rows).filter
      (fun x => decide (x.2.key = k))).map Prod.fst ↔
        ∃ s, (n, s) ∈ numbered sprint finite queryWindow stepMs columns rows ∧ s.key = k := by
    intro n
    simp
  rw [← hrows a, ← hrows b]
  have hmem : ∀ l, (k, l) ∈ rowMap sprint finite queryWindow stepMs columns rows ↔
      Gather.collected (fun x : Nat × Sample F => [x.1]) (fun l x => l ++ [x.1])
        ((numbered sprint finite queryWindow stepMs columns rows).filter (fun x => decide (x.2.key = k))) = some l :=
    fun l => Gather.mem_gather
  generalize (numbered sprint finite queryWindow stepMs columns rows).filter (fun x => decide (x.2.key = k)) = group at *
  constructor
  · rintro ⟨⟨k', l⟩, he, rfl, ha, hb⟩
    rw [hmem] at he
    cases group with
    | nil => cases he
    | cons x rest =>
      rw [Gather.collected_list] at he
      cases he
      exact ⟨ha, hb⟩
  · rintro ⟨ha, hb⟩
    cases group with
    | nil => cases ha
    | cons x rest => exact ⟨(k, _), (hmem _).2 (Gather.collected_list _ _ _), rfl, ha, hb⟩

theorem key_of_mem_rowSamples {row : List (Slot F)} {s : Sample F}
    (h : s ∈ rowSamples sprint finite queryWindow stepMs columns row) : s.labelsKey = rowKey sprint columns row := by
  unfold rowSamples at h
  dsimp only at h
  split at h
  · cases h
  · obtain ⟨r, -, rfl⟩ := List.mem_map.1 h
    rfl

theorem share_iff {rows : List (List (Slot F))} {agg a b : Nat} {ra rb : List (Slot F)} (ha : rows[a]? = some ra)
    (hb : rows[b]? = some rb) (hca : Contributes sprint finite queryWindow stepMs columns ra agg)
    (hcb : Contributes sprint finite queryWindow stepMs columns rb agg) :
    (∃ e ∈ rowMap sprint finite queryWindow stepMs columns rows, e.1.1 = agg ∧ a ∈ e.2 ∧ b ∈ e.2) ↔
      rowKey sprint columns ra = rowKey sprint columns rb := by
  have hown : ∀ {n row k}, rows[n]? = some row → (∃ s, (n, s) ∈ numbered sprint finite queryWindow stepMs columns rows ∧
      s.key = k) → rowKey sprint columns row = k.2 := by
    rintro n row k hrow ⟨s, hs, rfl⟩
    obtain ⟨row', hrow', hs⟩ := mem_numbered.1 hs
    obtain rfl := Option.some.inj (hrow.symm.trans hrow')
    exact (key_of_mem_rowSamples hs).symm
  have hhas : ∀ {n row}, rows[n]? = some row → Contributes sprint finite queryWindow stepMs columns row agg →
      ∃ s, (n, s) ∈ numbered sprint finite queryWindow stepMs columns rows ∧ s.key = (agg, rowKey sprint columns row) := by
    rintro n row hrow ⟨s, hs, rfl⟩
    exact ⟨s, mem_numbered.2 ⟨row, hrow, hs⟩, Prod.ext rfl (key_of_mem_rowSamples hs)⟩
  constructor
  · rintro ⟨e, he, -, hea, heb⟩
    obtain ⟨hsa, hsb⟩ := mem_rowMap.1 ⟨e, he, rfl, hea, heb⟩
    rw [hown ha hsa, hown hb hsb]
  · intro hkey
    obtain ⟨e, he, hek, hea, heb⟩ := mem_rowMap.2 ⟨hhas ha hca, hkey ▸ hhas hb hcb⟩
    exact ⟨e, he, by rw [hek], hea, heb⟩

/-- **Rows are grouped by their label maps exactly when the joined label values tell the maps apart.** -/
theorem groupedByLabels_iff (sprint : F → String) (finite : F → Bool) (queryWindow : Option TimeRange) (stepMs : Nat)
    (columns : List Column) (rows : List (List (Slot F))) :
    GroupedByLabels sprint finite queryWindow stepMs columns rows ↔
      ∀ agg, ∀ ra ∈ rows, ∀ rb ∈ rows, Contributes sprint finite queryWindow stepMs columns ra agg →
        Contributes sprint finite queryWindow stepMs columns rb agg →
        (rowKey sprint columns ra = rowKey sprint columns rb ↔ labelMap sprint columns ra = labelMap sprint columns rb) := by
  constructor
  · intro h agg ra hra rb hrb hca hcb
    obtain ⟨a, ha⟩ := mem_iff_getElem?.1 hra
    obtain ⟨b, hb⟩ := mem_iff_getElem?.1 hrb
    rw [← share_iff ha hb hca hcb]
    exact h agg a b ra rb ha hb hca hcb
  · intro h agg a b ra rb ha hb hca hcb
    rw [share_iff ha hb hca hcb]
    exact h agg ra (mem_of_getElem? ha) rb (mem_of_getElem? hb) hca hcb

end Rows

/-! ## Equal maps, equal keys -/

section Keys

variable {sprint : F → String}

/-- The texts are the values of the labels, and the labels have names of columns. -/
structure Scanned.Labelled (st : Scanned F) (names : List String) : Prop where
  vals : st.lblVals = st.lblObjs.map (fun l => l.value.format)
  names : (st.lblObjs.map Label.name).Sublist names

theorem Scanned.Labelled.label {st : Scanned F} {names : List String} (h : st.Labelled names) (name text : String)
    {value : LabelValue} (hvalue : value.format = text) : (st.label name text value).Labelled (names ++ [name]) where
  vals := by simp [Scanned.label, h.vals, hvalue]
  names := by
    rw [Scanned.label, map_append]
    exact h.names.append (List.Sublist.refl _)

theorem Scanned.Labelled.slot {st : Scanned F} {names : List String} (h : st.Labelled names) (count : Nat)
    (column : Column) (c : Slot F) : (st.slot sprint count column c).Labelled (names ++ [column.name]) := by
  have hskip : ∀ {st' : Scanned F}, st'.lblVals = st.lblVals → st'.lblObjs = st.lblObjs →
      st'.Labelled (names ++ [column.name]) := fun hvals hobjs =>
    ⟨by rw [hvals, hobjs, h.vals], by rw [hobjs]; exact h.names.trans (sublist_append_left _ _)⟩
  have hnumber : ∀ v, (st.number sprint count column.name v).Labelled (names ++ [column.name]) := by
    intro v
    unfold Scanned.number
    split
    · exact hskip rfl rfl
    · split_ifs
      · exact hskip rfl rfl
      · exact hskip rfl rfl
      · exact h.label _ _ rfl
  cases c with
  | time ms => exact hskip rfl rfl
  | number v => exact hnumber v
  | nullableNumber v =>
    cases v with
    | none => exact hskip rfl rfl
    | some v => exact hnumber v
  | text s => exact h.label _ _ rfl
  | nullableText s => exact h.label _ _ rfl
  | other => exact hskip rfl rfl

theorem zip_names : ∀ (columns : List Column) (row : List (Slot F)),
    ((columns.zip row).map (fun slot => slot.1.name)).Sublist (columns.map Column.name)
  | [], _ => by simp
  | _ :: _, [] => by simp
  | column :: columns, _ :: row => (zip_names columns row).cons_cons column.name

theorem scanRow_labelled (sprint : F → String) (columns : List Column) (row : List (Slot F)) :
    (scanRow sprint columns row).Labelled (columns.map Column.name) := by
  have hfold : ∀ (slots : List (Column × Slot F)) (st : Scanned F) (names : List String), st.Labelled names →
      (slots.foldl (fun st slot => st.slot sprint (numericColsCount columns) slot.1 slot.2) st).Labelled
        (names ++ slots.map (fun slot => slot.1.name)) := by
    intro slots
    induction slots with
    | nil => intro st names h; simpa using h
    | cons slot slots ih =>
      intro st names h
      have hslot : (st.slot sprint (numericColsCount columns) slot.1 slot.2).Labelled _ := h.slot _ slot.1 slot.2
      simpa using ih _ _ hslot
  have hrow := hfold (columns.zip row) {} [] ⟨rfl, .slnil⟩
  exact ⟨hrow.vals, hrow.names.trans (zip_names columns row)⟩

theorem labelSet_eq_some_iff {labels : List Label} (hnd : (labels.map Label.name).Nodup) {name : String} {v : LabelValue} :
    labelSet labels name = some v ↔ ⟨name, v⟩ ∈ labels := by
  unfold labelSet
  rw [Option.map_eq_some_iff]
  constructor
  · rintro ⟨l, hl, rfl⟩
    obtain rfl : l.name = name := by simpa using List.find?_some hl
    exact mem_reverse.1 (mem_of_find?_eq_some hl)
  · intro hmem
    cases hf : labels.reverse.find? (fun l => decide (l.name = name)) with
    | none => exact absurd (List.find?_eq_none.1 hf _ (mem_reverse.2 hmem)) (by simp)
    | some l =>
      have hl : l ∈ labels := mem_reverse.1 (mem_of_find?_eq_some hf)
      have hname : l.name = name := by simpa using List.find?_some hf
      have heq : l = ⟨name, v⟩ := inj_on_of_nodup_map hnd hl hmem hname
      exact ⟨l, rfl, by rw [heq]⟩

/-- **With distinct column names, equal label maps have equal keys**: only keys that are too coarse do harm. -/
theorem rowKey_congr {columns : List Column} (hnames : (columns.map Column.name).Nodup) {ra rb : List (Slot F)}
    (h : labelMap sprint columns ra = labelMap sprint columns rb) : rowKey sprint columns ra = rowKey sprint columns rb := by
  have ha := scanRow_labelled sprint columns ra
  have hb := scanRow_labelled sprint columns rb
  have hnda := ha.names.nodup hnames
  have hndb := hb.names.nodup hnames
  have hperm : (scanRow sprint columns ra).lblObjs.Perm (scanRow sprint columns rb).lblObjs := by
    refine (perm_ext_iff_of_nodup hnda.of_map hndb.of_map).2 (fun l => ?_)
    have hl := congrFun h l.name
    unfold labelMap at hl
    rw [show l = ⟨l.name, l.value⟩ from rfl, ← labelSet_eq_some_iff hnda, ← labelSet_eq_some_iff hndb, hl]
  have hvals : (scanRow sprint columns ra).lblVals.Perm (scanRow sprint columns rb).lblVals := by
    rw [ha.vals, hb.vals]
    exact hperm.map _
  unfold rowKey labelsKey
  rw [Dedup.sort_perm hvals]

end Keys

/-! ## The points of a result -/

def callColumns : List Column := [⟨"ts", false⟩, ⟨"caller", false⟩, ⟨"callee", false⟩, ⟨"__result_0", true⟩]

def callRows : List (List (Slot Nat)) :=
  [[.time 60000, .text "cart", .text "stock", .number 7], [.time 60000, .text "stock", .text "cart", .number 2]]

theorem same_call_key : rowKey toString callColumns [.time 60000, .text "cart", .text "stock", .number 7] =
    rowKey toString callColumns [.time 120000, .text "cart", .text "stock", .number 2] :=
  rowKey_congr (by decide) rfl

/-- Both directions are in one series. -/
theorem callRows_mixed : ¬ GroupedByLabels toString (fun _ => true) none 60000 callColumns callRows := by
  intro h
  have hfirst : Contributes toString (fun _ => true) none 60000 callColumns callRows.head! 0 :=
    ⟨_, mem_cons_self, rfl⟩
  have hsecond : Contributes toString (fun _ => true) none 60000 callColumns (callRows.get ⟨1, by decide⟩) 0 :=
    ⟨_, mem_cons_self, rfl⟩
  have hkey : rowKey (F := Nat) toString callColumns callRows.head! = rowKey toString callColumns (callRows.get ⟨1, by decide⟩) := by
    decide
  have hmap := (h 0 0 1 _ _ rfl rfl hfirst hsecond).1 ((share_iff rfl rfl hfirst hsecond).2 hkey)
  exact absurd (congrFun hmap "caller") (by decide)

end Querier
end DsApm
