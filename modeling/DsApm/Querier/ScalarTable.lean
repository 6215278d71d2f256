import DsApm.Lib.Lists
import DsApm.Querier.TimeSeries
/-!
# ScalarTable — `convertTimeSeriesDataToScalar`

A table with a row for each series of the first aggregation.  The group columns are the labels of its first series; a row
is written from the labels of its own series, so its aggregation cells start where its own labels end.  The cells of the
other aggregations come from the series at the same position, whatever labels that has.
-/
namespace DsApm
namespace Querier

open List Option

variable {V : Type}

inductive ColumnType where
  | group | aggregation
  deriving DecidableEq, Repr

structure ColumnDescriptor where
  name : String
  queryName : String := ""
  aggregationIndex : Int := 0
  unit : String := ""
  type : ColumnType
  deriving DecidableEq, Repr

structure ScalarData (C : Type) where
  queryName : String := ""
  columns : List ColumnDescriptor := []
  data : List (List C) := []
  deriving DecidableEq, Repr

inductive Cell (V : Type) where
  | nil
  | label (v : LabelValue)
  | number (v : V)
  deriving DecidableEq, Repr

def Cell.na : Cell V := .label (.text "n/a")

/-! ## The conversion -/

def setCell (row : List (Cell V)) (i : Nat) (c : Cell V) : Option (List (Cell V)) :=
  if i < row.length then some (row.set i c) else none

def setCells (row : List (Cell V)) (i : Nat) : List (Cell V) → Option (List (Cell V))
  | [] => some row
  | c :: cs => (setCell row i c).bind (fun row => setCells row (i + 1) cs)

def AggregationBucket.lastValue (agg : AggregationBucket V) (seriesIdx : Nat) : Cell V :=
  match agg.series[seriesIdx]?.bind (fun s => s.values.getLast?) with
  | some x => .number x.value
  | none => .na

def aggregationColumn (queryName : String) (agg : AggregationBucket V) : ColumnDescriptor :=
  { name := if agg.alias_ = "" then "__result_" ++ toString agg.index else agg.alias_
    queryName := queryName, aggregationIndex := agg.index, unit := agg.unit, type := .aggregation }

def groupColumns (queryName : String) (series : List (TimeSeries V)) : List ColumnDescriptor :=
  match series with
  | [] => []
  | s :: _ => s.labels.map (fun l => { name := l.name, queryName := queryName, type := .group })

def convertRow (columns : List ColumnDescriptor) (aggs : List (AggregationBucket V)) (seriesIdx : Nat) (s : TimeSeries V) :
    Option (List (Cell V)) :=
  (setCells (List.replicate columns.length .nil) 0 (s.labels.map (fun l => .label l.value))).bind (fun row =>
    setCells row s.labels.length (aggs.map (fun agg => agg.lastValue seriesIdx)))

/-- `convertTimeSeriesDataToScalar`; nothing when it panics. -/
def convertTimeSeriesDataToScalar (tsData : TimeSeriesData V) (queryName : String) : Option (ScalarData (Cell V)) :=
  match tsData.aggregations with
  | [] => some { queryName := queryName }
  | agg :: aggs =>
    let columns := groupColumns queryName agg.series ++ (agg :: aggs).map (aggregationColumn queryName)
    (agg.series.zipIdx.mapM (fun x => convertRow columns (agg :: aggs) x.2 x.1)).map (fun data =>
      { queryName := queryName, columns := columns, data := data })

/-! ## What a table says -/

def cellsOf (type : ColumnType) (columns : List ColumnDescriptor) (row : List (Cell V)) : List (String × Cell V) :=
  ((columns.zip row).filter (fun x => decide (x.1.type = type))).map (fun x => (x.1.name, x.2))

def cellMap (cells : List (String × Cell V)) (name : String) : Option (Cell V) :=
  (cells.reverse.find? (fun x => decide (x.1 = name))).map Prod.snd

def TimeSeries.Carries (s : TimeSeries V) (labels : String → Option (Cell V)) : Prop :=
  ∀ name, (labelSet s.labels name).map Cell.label = labels name

/-- The cell shows the aggregation's last value for the labels, or that it has none. -/
def AggregationBucket.Shows (agg : AggregationBucket V) (labels : String → Option (Cell V)) (cell : Cell V) : Prop :=
  (∃ s ∈ agg.series, s.Carries labels ∧ ∃ x, s.values.getLast? = some x ∧ cell = .number x.value) ∨
  (cell = .na ∧ ∀ s ∈ agg.series, s.Carries labels → s.values = [])

/-- The table has every series, and each aggregation cell shows its aggregation for the labels of its row. -/
structure Represents (d : TimeSeriesData V) (sd : ScalarData (Cell V)) : Prop where
  cells : ∀ row ∈ sd.data, List.Forall₂ (fun agg cell => agg.Shows (cellMap (cellsOf .group sd.columns row)) cell)
    d.aggregations ((cellsOf .aggregation sd.columns row).map Prod.snd)
  every : ∀ agg ∈ d.aggregations, ∀ s ∈ agg.series, ∃ row ∈ sd.data, s.Carries (cellMap (cellsOf .group sd.columns row))

def labelsUnder (first s : TimeSeries V) : String → Option (Cell V) :=
  cellMap ((first.labels.map Label.name).zip (s.labels.map (fun l => .label l.value)))

/-- The aggregations have the same labels at the same positions, as far as the cells tell. -/
def InLine (aggs : List (AggregationBucket V)) : Prop :=
  match aggs with
  | [] => True
  | agg :: _ => match agg.series with
    | [] => ∀ other ∈ aggs, other.series = []
    | first :: _ =>
      (∀ s ∈ agg.series, s.labels.length = first.labels.length) ∧
      (∀ i s, agg.series[i]? = some s → ∀ other ∈ aggs, other.Shows (labelsUnder first s) (other.lastValue i)) ∧
      (∀ other ∈ aggs, ∀ t ∈ other.series, ∃ s ∈ agg.series, t.Carries (labelsUnder first s))

/-! ## Rows -/

theorem setCells_over : ∀ (cs pre old post : List (Cell V)), old.length = cs.length →
    setCells (pre ++ old ++ post) pre.length cs = some (pre ++ cs ++ post)
  | [], pre, old, post, h => by
    rw [length_nil, List.length_eq_zero_iff] at h
    rw [h, setCells]
  | c :: cs, pre, [], post, h => by simp at h
  | c :: cs, pre, o :: old, post, h => by
    have hset : (pre ++ o :: old ++ post).set pre.length c = (pre ++ [c]) ++ old ++ post := by simp
    have hrest := setCells_over cs (pre ++ [c]) old post (by simpa using h)
    rw [List.length_append, List.length_singleton] at hrest
    rw [setCells, setCell, if_pos (by simp), bind_some, hset, hrest]
    simp

theorem setCells_beyond : ∀ (cs row : List (Cell V)) (i : Nat), cs ≠ [] → row.length < i + cs.length →
    setCells row i cs = none
  | [], _, _, h, _ => absurd rfl h
  | c :: cs, row, i, _, h => by
    rw [setCells, setCell]
    split
    · rename_i hi
      rw [bind_some]
      rw [length_cons] at h
      refine setCells_beyond cs _ _ ?_ (by rw [length_set]; omega)
      rintro rfl
      rw [length_nil] at h
      omega
    · rfl

section Row

variable {columns : List ColumnDescriptor} {aggs : List (AggregationBucket V)} {groups : Nat}

theorem convertRow_fits (hlen : columns.length = groups + aggs.length) (seriesIdx : Nat) {s : TimeSeries V}
    (hs : s.labels.length ≤ groups) :
    convertRow columns aggs seriesIdx s = some (s.labels.map (fun l => .label l.value) ++
      aggs.map (fun agg => agg.lastValue seriesIdx) ++ List.replicate (groups - s.labels.length) .nil) := by
  have hsplit : List.replicate columns.length (Cell.nil : Cell V) = [] ++ List.replicate s.labels.length .nil ++
      (List.replicate aggs.length .nil ++ List.replicate (groups - s.labels.length) .nil) := by
    rw [hlen, nil_append, ← replicate_add, ← replicate_add]
    congr 1
    omega
  have hlabels := setCells_over (s.labels.map (fun l => Cell.label l.value)) [] (List.replicate s.labels.length .nil)
    (List.replicate aggs.length .nil ++ List.replicate (groups - s.labels.length) .nil : List (Cell V)) (by simp)
  have haggs := setCells_over (aggs.map (fun agg => agg.lastValue seriesIdx)) (s.labels.map (fun l => Cell.label l.value))
    (List.replicate aggs.length .nil) (List.replicate (groups - s.labels.length) .nil) (by simp)
  rw [List.length_map] at haggs
  rw [convertRow, hsplit]
  rw [length_nil] at hlabels
  rw [hlabels, bind_some, nil_append, ← List.append_assoc, haggs]

theorem convertRow_panics (hlen : columns.length = groups + aggs.length) (haggs : aggs ≠ []) (seriesIdx : Nat)
    {s : TimeSeries V} (hs : groups < s.labels.length) : convertRow columns aggs seriesIdx s = none := by
  rw [convertRow]
  by_cases hfit : s.labels.length ≤ columns.length
  · have hsplit : List.replicate columns.length (Cell.nil : Cell V) = [] ++ List.replicate s.labels.length .nil ++
        List.replicate (columns.length - s.labels.length) .nil := by
      rw [nil_append, ← replicate_add]
      congr 1
      omega
    have hlabels := setCells_over (s.labels.map (fun l => Cell.label l.value)) [] (List.replicate s.labels.length .nil)
      (List.replicate (columns.length - s.labels.length) .nil : List (Cell V)) (by simp)
    rw [length_nil] at hlabels
    rw [hsplit, hlabels, bind_some]
    exact setCells_beyond _ _ _ (by simpa using haggs) (by simp; omega)
  · rw [setCells_beyond _ _ _ ?_ (by simp; omega), bind_none]
    intro hnil
    rw [map_eq_nil_iff] at hnil
    rw [hnil] at hs
    cases hs

end Row

/-! ## The two parts of a row -/

section Parts

variable {gs as : List ColumnDescriptor} {L R : List (Cell V)}

theorem zip_of_type {type : ColumnType} {cs : List ColumnDescriptor} (htype : ∀ c ∈ cs, c.type = type) (row : List (Cell V)) :
    (cs.zip row).filter (fun x => decide (x.1.type = type)) = cs.zip row :=
  filter_eq_self.2 (fun x hx => by simpa using htype x.1 (of_mem_zip hx).1)

theorem zip_of_other {type other : ColumnType} (hne : other ≠ type) {cs : List ColumnDescriptor}
    (htype : ∀ c ∈ cs, c.type = other) (row : List (Cell V)) :
    (cs.zip row).filter (fun x => decide (x.1.type = type)) = [] :=
  filter_eq_nil_iff.2 (fun x hx => by simpa [htype x.1 (of_mem_zip hx).1] using hne)

theorem cellsOf_group (hgs : ∀ c ∈ gs, c.type = .group) (has : ∀ c ∈ as, c.type = .aggregation) (hL : gs.length = L.length) :
    cellsOf .group (gs ++ as) (L ++ R) = (gs.map ColumnDescriptor.name).zip L := by
  rw [cellsOf, zip_append hL, filter_append, zip_of_type hgs, zip_of_other (by decide) has, append_nil,
    zip_map_left]
  rfl

theorem cellsOf_aggregation (hgs : ∀ c ∈ gs, c.type = .group) (has : ∀ c ∈ as, c.type = .aggregation)
    (hL : gs.length = L.length) (hR : as.length = R.length) :
    (cellsOf .aggregation (gs ++ as) (L ++ R)).map Prod.snd = R := by
  rw [cellsOf, zip_append hL, filter_append, zip_of_type has, zip_of_other (by decide) hgs, nil_append,
    List.map_map]
  exact map_snd_zip hR.ge

end Parts

section Table

variable {queryName : String} {first : TimeSeries V} {rest : List (TimeSeries V)} {aggs : List (AggregationBucket V)}

def tableColumns (queryName : String) (first : TimeSeries V) (aggs : List (AggregationBucket V)) : List ColumnDescriptor :=
  groupColumns queryName [first] ++ aggs.map (aggregationColumn queryName)

theorem groupColumns_type (queryName : String) (series : List (TimeSeries V)) :
    ∀ c ∈ groupColumns queryName series, c.type = .group := by
  intro c hc
  cases series with
  | nil => cases hc
  | cons s rest =>
    obtain ⟨l, -, rfl⟩ := List.mem_map.1 hc
    rfl

theorem aggregationColumns_type (queryName : String) (aggs : List (AggregationBucket V)) :
    ∀ c ∈ aggs.map (aggregationColumn queryName), c.type = .aggregation := by
  intro c hc
  obtain ⟨agg, -, rfl⟩ := List.mem_map.1 hc
  rfl

theorem tableColumns_length : (tableColumns queryName first aggs).length = first.labels.length + aggs.length := by
  simp [tableColumns, groupColumns]

def tableRow (aggs : List (AggregationBucket V)) (i : Nat) (s : TimeSeries V) : List (Cell V) :=
  s.labels.map (fun l => .label l.value) ++ aggs.map (fun agg => agg.lastValue i)

theorem convertRow_eq_tableRow (i : Nat) {s : TimeSeries V} (hs : s.labels.length = first.labels.length) :
    convertRow (tableColumns queryName first aggs) aggs i s = some (tableRow aggs i s) := by
  rw [convertRow_fits tableColumns_length i hs.le, hs, Nat.sub_self, replicate_zero, append_nil, tableRow]

variable (queryName aggs) in
theorem cellsOf_tableRow (i : Nat) {s : TimeSeries V} (hs : s.labels.length = first.labels.length) :
    cellMap (cellsOf .group (tableColumns queryName first aggs) (tableRow aggs i s)) = labelsUnder first s ∧
    (cellsOf .aggregation (tableColumns queryName first aggs) (tableRow aggs i s)).map Prod.snd =
      aggs.map (fun agg => agg.lastValue i) := by
  have hlen : (groupColumns queryName [first]).length = (s.labels.map (fun l => (Cell.label l.value : Cell V))).length := by
    simp [groupColumns, hs]
  constructor
  · rw [tableColumns, tableRow, cellsOf_group (groupColumns_type _ _) (aggregationColumns_type _ _) hlen]
    simp [groupColumns, labelsUnder, Function.comp_def]
  · exact cellsOf_aggregation (groupColumns_type _ _) (aggregationColumns_type _ _) hlen (by simp)

theorem nil_mem_cells (haggs : aggs ≠ []) (i : Nat) {s : TimeSeries V} (hs : s.labels.length < first.labels.length)
    {row : List (Cell V)} (hrow : convertRow (tableColumns queryName first aggs) aggs i s = some row) :
    Cell.nil ∈ (cellsOf .aggregation (tableColumns queryName first aggs) row).map Prod.snd := by
  rw [convertRow_fits tableColumns_length i hs.le, Option.some.injEq] at hrow
  have hpos : 0 < aggs.length := length_pos_iff.2 haggs
  have hlen : row.length = first.labels.length + aggs.length := by
    rw [← hrow]
    simp
    omega
  rw [← take_append_drop first.labels.length row, tableColumns, cellsOf_aggregation (groupColumns_type _ _)
    (aggregationColumns_type _ _) (by simp [groupColumns, hlen]) (by simp [hlen])]
  refine mem_of_getElem? (i := aggs.length - 1) ?_
  rw [List.getElem?_drop, ← hrow, List.getElem?_append_right (by simp; omega), List.getElem?_replicate, if_pos (by simp; omega)]

/-- **What the conversion gives when every row fits.** -/
theorem convert_eq {agg : AggregationBucket V} (hseries : agg.series = first :: rest)
    (hlabels : ∀ s ∈ agg.series, s.labels.length = first.labels.length) {d : TimeSeriesData V} (hd : d.aggregations = agg :: aggs) :
    convertTimeSeriesDataToScalar d queryName = some
      { queryName := queryName, columns := tableColumns queryName first (agg :: aggs)
        data := agg.series.zipIdx.map (fun x => tableRow (agg :: aggs) x.2 x.1) } := by
  have hcolumns : groupColumns queryName agg.series ++ (agg :: aggs).map (aggregationColumn queryName) =
      tableColumns queryName first (agg :: aggs) := by rw [hseries]; rfl
  have hdata : agg.series.zipIdx.mapM (fun x => convertRow (tableColumns queryName first (agg :: aggs)) (agg :: aggs) x.2 x.1) =
      some (agg.series.zipIdx.map (fun x => tableRow (agg :: aggs) x.2 x.1)) := by
    rw [MapM.mapM_eq_some_iff_map, List.map_map]
    refine map_congr_left (fun x hx => ?_)
    exact convertRow_eq_tableRow x.2 (hlabels x.1 (fst_mem_of_mem_zipIdx hx))
  unfold convertTimeSeriesDataToScalar
  rw [hd]
  dsimp only
  rw [hcolumns, hdata]
  rfl

theorem labels_of_represents {agg : AggregationBucket V} (hseries : agg.series = first :: rest) {d : TimeSeriesData V}
    (hd : d.aggregations = agg :: aggs) {sd : ScalarData (Cell V)} (hsd : convertTimeSeriesDataToScalar d queryName = some sd)
    (h : Represents d sd) : ∀ s ∈ agg.series, s.labels.length = first.labels.length := by
  have hcolumns : groupColumns queryName agg.series ++ (agg :: aggs).map (aggregationColumn queryName) =
      tableColumns queryName first (agg :: aggs) := by rw [hseries]; rfl
  unfold convertTimeSeriesDataToScalar at hsd
  rw [hd] at hsd
  dsimp only at hsd
  rw [hcolumns] at hsd
  obtain ⟨data, hdata, rfl⟩ := map_eq_some_iff.1 hsd
  intro s hs
  obtain ⟨i, hi⟩ := mem_iff_getElem?.1 hs
  have hi := mk_mem_zipIdx_iff_getElem?.2 hi
  obtain ⟨row, hrow, hconvert⟩ : ∃ row ∈ data, convertRow (tableColumns queryName first (agg :: aggs)) (agg :: aggs) i s = some row := by
    have hmap := MapM.mapM_eq_some_iff_map.1 hdata
    have hmem : convertRow (tableColumns queryName first (agg :: aggs)) (agg :: aggs) i s ∈ data.map some := by
      rw [← hmap]
      exact List.mem_map_of_mem hi
    obtain ⟨row, hrow, heq⟩ := List.mem_map.1 hmem
    exact ⟨row, hrow, heq.symm⟩
  rcases lt_trichotomy s.labels.length first.labels.length with hlt | heq | hgt
  · have hnil := nil_mem_cells (cons_ne_nil _ _) i hlt hconvert
    obtain ⟨other, -, hshows⟩ := MapM.exists_left (h.cells row hrow) _ hnil
    rcases hshows with ⟨t, -, -, x, -, hx⟩ | ⟨hna, -⟩
    · cases hx
    · cases hna
  · exact heq
  · rw [convertRow_panics tableColumns_length (cons_ne_nil _ _) i hgt] at hconvert
    cases hconvert

theorem represents_table {d : TimeSeriesData V} (hd : d.aggregations = aggs) {series : List (TimeSeries V)}
    (hlabels : ∀ s ∈ series, s.labels.length = first.labels.length) :
    Represents d { queryName := queryName, columns := tableColumns queryName first aggs
                   data := series.zipIdx.map (fun x => tableRow aggs x.2 x.1) } ↔
      (∀ i s, series[i]? = some s → ∀ other ∈ aggs, other.Shows (labelsUnder first s) (other.lastValue i)) ∧
      (∀ other ∈ aggs, ∀ t ∈ other.series, ∃ s ∈ series, t.Carries (labelsUnder first s)) := by
  have hrows : ∀ {row : List (Cell V)}, row ∈ series.zipIdx.map (fun x => tableRow aggs x.2 x.1) ↔
      ∃ i s, series[i]? = some s ∧ tableRow aggs i s = row := by
    intro row
    constructor
    · intro h
      obtain ⟨x, hx, rfl⟩ := List.mem_map.1 h
      exact ⟨x.2, x.1, mk_mem_zipIdx_iff_getElem?.1 hx, rfl⟩
    · rintro ⟨i, s, hs, rfl⟩
      exact List.mem_map_of_mem (f := fun x => tableRow aggs x.2 x.1) (mk_mem_zipIdx_iff_getElem?.2 hs)
  have hcells := fun i s (hs : series[i]? = some s) => cellsOf_tableRow queryName aggs i
    (hlabels s (mem_of_getElem? hs))
  have hshows : ∀ i s, series[i]? = some s →
      (List.Forall₂ (fun agg cell => agg.Shows (cellMap (cellsOf .group (tableColumns queryName first aggs) (tableRow aggs i s))) cell)
        aggs ((cellsOf .aggregation (tableColumns queryName first aggs) (tableRow aggs i s)).map Prod.snd) ↔
      ∀ other ∈ aggs, other.Shows (labelsUnder first s) (other.lastValue i)) := by
    intro i s hs
    rw [(hcells i s hs).1, (hcells i s hs).2, List.forall₂_map_right_iff, List.forall₂_same]
  constructor
  · intro h
    refine ⟨fun i s hs => (hshows i s hs).1 ?_, fun other hother t ht => ?_⟩
    · have := h.cells _ (hrows.2 ⟨i, s, hs, rfl⟩)
      rwa [hd] at this
    · obtain ⟨row, hrow, hcarries⟩ := h.every other (hd ▸ hother) t ht
      obtain ⟨i, s, hs, rfl⟩ := hrows.1 hrow
      rw [(hcells i s hs).1] at hcarries
      exact ⟨s, mem_of_getElem? hs, hcarries⟩
  · rintro ⟨hvalues, hevery⟩
    refine ⟨fun row hrow => ?_, fun other hother t ht => ?_⟩
    · obtain ⟨i, s, hs, rfl⟩ := hrows.1 hrow
      rw [hd]
      exact (hshows i s hs).2 (hvalues i s hs)
    · obtain ⟨s, hs, hcarries⟩ := hevery other (hd ▸ hother) t ht
      obtain ⟨i, hi⟩ := mem_iff_getElem?.1 hs
      refine ⟨_, hrows.2 ⟨i, s, hi, rfl⟩, ?_⟩
      rwa [(hcells i s hi).1]

end Table

/-- **The conversion is right exactly when the aggregations are in line.** -/
theorem convert_represents_iff (d : TimeSeriesData V) (queryName : String) :
    (∃ sd, convertTimeSeriesDataToScalar d queryName = some sd ∧ Represents d sd) ↔ InLine d.aggregations := by
  cases hd : d.aggregations with
  | nil =>
    refine iff_of_true ⟨{ queryName := queryName }, ?_, ?_⟩ trivial
    · rw [convertTimeSeriesDataToScalar, hd]
    · exact ⟨fun _ h => (by cases h), fun _ h => (by rw [hd] at h; cases h)⟩
  | cons agg aggs =>
    cases hseries : agg.series with
    | nil =>
      have hsd : convertTimeSeriesDataToScalar d queryName = some
          { queryName := queryName, columns := (agg :: aggs).map (aggregationColumn queryName), data := [] } := by
        unfold convertTimeSeriesDataToScalar
        rw [hd]
        dsimp only
        rw [hseries]
        rfl
      simp only [hsd, Option.some.injEq, exists_eq_left', InLine, hseries]
      constructor
      · intro h other hother
        refine eq_nil_iff_forall_not_mem.2 (fun t ht => ?_)
        obtain ⟨row, hrow, -⟩ := h.every other (hd ▸ hother) t ht
        cases hrow
      · intro h
        refine ⟨fun _ hrow => (by cases hrow), fun other hother t ht => ?_⟩
        rw [hd] at hother
        rw [h other hother] at ht
        cases ht
    | cons first rest =>
      simp only [InLine, hseries]
      rw [← hseries]
      constructor
      · rintro ⟨sd, hsd, h⟩
        have hlabels := labels_of_represents hseries hd hsd h
        rw [convert_eq hseries hlabels hd, Option.some.injEq] at hsd
        subst hsd
        exact ⟨hlabels, (represents_table hd hlabels).1 h⟩
      · rintro ⟨hlabels, h⟩
        exact ⟨_, convert_eq hseries hlabels hd, (represents_table hd hlabels).2 h⟩

/-- Two series whose label lists differ in length, as rows with a missing number give them. -/
def raggedData : TimeSeriesData Nat :=
  { queryName := "A"
    aggregations := [{ index := 0, series := [⟨[], [⟨1000, 5, false⟩]⟩, ⟨[⟨"code", .number "404"⟩], [⟨1000, 7, false⟩]⟩] }] }

/-- The second row has no place for its value. -/
theorem raggedData_panics : ¬ ∃ sd, convertTimeSeriesDataToScalar raggedData "A" = some sd ∧ Represents raggedData sd := by
  rintro ⟨sd, hsd, -⟩
  have hpanic : convertTimeSeriesDataToScalar raggedData "A" = none := by decide
  rw [hpanic] at hsd
  cases hsd

end Querier
end DsApm
