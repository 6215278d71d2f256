import DsApm.Lib.Gather
import DsApm.Lib.GoMap
import DsApm.Lib.Latest
import DsApm.Querier.ScalarTable
import Mathlib.Data.String.Basic
/-!
# ScalarMerge — `mergeScalarData` and `deduplicateRows`

The rows of several tables are put together under a text of their group values, the values with blanks between them.  A
row's aggregation cells are written column by column: every column that names the row's query gets the value of the first
aggregation column of that query with its index.  The values are a type with the functions the code uses of `any`.
-/
namespace DsApm
namespace Querier

open Latest List

structure Dynamic (C : Type) where
  -- `fmt.Sprintf("%v", v)`
  format : C → String
  -- the string `"n/a"`
  na : C
  format_na : format na = "n/a"
  -- both are numbers, and the first is greater
  above : C → C → Bool

def sprintParts (parts : List String) : String := "[" ++ " ".intercalate parts ++ "]"

section Model

variable {C : Type} [DecidableEq C] (D : Dynamic C)

/-! ## Sorting -/

def compareAbove (a b : C) : Bool := if a = D.na then false else if b = D.na then true else D.above a b

def sortByFirstAggregation (data : List (List C)) (columns : List ColumnDescriptor) : List (List C) :=
  match columns.findIdx? (fun c => decide (c.type = .aggregation)) with
  | none => data
  | some i => data.insertionSort (fun r r' => compareAbove D (r'[i]?.getD D.na) (r[i]?.getD D.na) = false)

def defaultSort (applyDefaultSort : Bool) (data : List (List C)) (columns : List ColumnDescriptor) : List (List C) :=
  if applyDefaultSort then sortByFirstAggregation D data columns else data

/-! ## `deduplicateRows` -/

def buildRowKey (row : List C) (indices : List Nat) : String :=
  sprintParts (indices.map (fun i => (row[i]?.map D.format).getD "n/a"))

/-- The values of a row where the row kept so far has none; the rows of a table have one length. -/
def fillCells : List C → List C → List C
  | e :: existing, v :: row => (if e = D.na ∧ v ≠ D.na then v else e) :: fillCells existing row
  | existing, _ => existing

def groupIndices (columns : List ColumnDescriptor) : List Nat :=
  (columns.zipIdx.filter (fun x => decide (x.1.type = .group))).map Prod.snd

def deduplicateRows (sd : ScalarData C) (applyDefaultSort : Bool) : ScalarData C :=
  let uniqueRows := Gather.gather (fun row => buildRowKey D row (groupIndices sd.columns)) id (fillCells D) sd.data
  { columns := sd.columns, data := defaultSort D applyDefaultSort (uniqueRows.map Prod.snd) sd.columns }

/-! ## `mergeScalarData` -/

structure InputRow (C : Type) where
  queryName : String
  sd : ScalarData C
  row : List C

def groupIndex (columns : List ColumnDescriptor) (name : String) : Option Nat :=
  ((columns.zipIdx.filter (fun x => decide (x.1.type = .group) && decide (x.1.name = name))).getLast?).map Prod.snd

def InputRow.groupCell (x : InputRow C) (name : String) : Option C :=
  (groupIndex x.sd.columns name).bind (fun i => x.row[i]?)

def buildKeyFromGroupCols (x : InputRow C) (groupCols : List String) : String :=
  sprintParts (groupCols.map (fun name => ((x.groupCell name).map D.format).getD "n/a"))

def addGroupColumn (groups : List ColumnDescriptor) (col : ColumnDescriptor) : List ColumnDescriptor :=
  if col.type = .group ∧ col.name ∉ groups.map ColumnDescriptor.name then groups ++ [col] else groups

def collectGroupColumns (tables : List (ScalarData C)) : List ColumnDescriptor :=
  (tables.flatMap ScalarData.columns).foldl addGroupColumn []

/-- The value of a row for an aggregation column: of its table's first column with the index. -/
def InputRow.aggregationCell (x : InputRow C) (col : ColumnDescriptor) : Option C :=
  (x.sd.columns.findIdx? (fun c => decide (c.type = .aggregation) && decide (c.aggregationIndex = col.aggregationIndex))).bind
    (fun i => x.row[i]?)

def InputRow.writes (x : InputRow C) (col : ColumnDescriptor) : Option C :=
  if col.queryName = x.queryName then x.aggregationCell col else none

def InputRow.tuple (groupCols : List String) (x : InputRow C) : List C :=
  groupCols.map (fun name => (x.groupCell name).getD D.na)

def newRow (groupCols : List String) (aggs : List ColumnDescriptor) (x : InputRow C) : List C :=
  x.tuple D groupCols ++ aggs.map (fun _ => D.na)

def writeRow (groupCols : List String) (aggs : List ColumnDescriptor) (mergedRow : List C) (x : InputRow C) : List C :=
  mergedRow.take groupCols.length ++
    List.zipWith (fun col cell => (x.writes col).getD cell) aggs (mergedRow.drop groupCols.length)

def queryNames (results : GoMap String (ScalarData C)) : List String := results.keys.insertionSort (· ≤ ·)

def inputRows (results : GoMap String (ScalarData C)) : List (InputRow C) :=
  (queryNames results).flatMap (fun q => (results.lookup q).toList.flatMap (fun sd => sd.data.map (fun row => ⟨q, sd, row⟩)))

/-- An aggregation column with the query that it is from, and its place there. -/
structure OwnedColumn where
  queryName : String
  place : Nat
  col : ColumnDescriptor

def ownedColumns (results : GoMap String (ScalarData C)) : List OwnedColumn :=
  (queryNames results).flatMap (fun q => (results.lookup q).toList.flatMap (fun sd =>
    (sd.columns.zipIdx.filter (fun x => decide (x.1.type = .aggregation))).map (fun x => ⟨q, x.2, x.1⟩)))

def groupsOf (visit : Visit (Sigma (fun _ : String => ScalarData C))) (results : GoMap String (ScalarData C)) :
    List ColumnDescriptor :=
  collectGroupColumns ((visit.order results.entries).map Sigma.snd)

/-- `rowMap` of the merge: each key's first row starts a row, and every row is written into its key's. -/
def mergedRows (groupCols : List String) (aggs : List ColumnDescriptor) (rows : List (InputRow C)) : List (String × List C) :=
  Gather.gather (fun x => buildKeyFromGroupCols D x groupCols)
    (fun x => writeRow groupCols aggs (newRow D groupCols aggs x) x) (writeRow groupCols aggs) rows

/-- `mergeScalarData`; the tables are ranged over in some order to collect the group columns. -/
def mergeScalarData (visit : Visit (Sigma (fun _ : String => ScalarData C))) (results : GoMap String (ScalarData C))
    (applyDefaultSort : Bool) : ScalarData C :=
  let groups := groupsOf visit results
  let groupCols := groups.map ColumnDescriptor.name
  let aggs := (ownedColumns results).map OwnedColumn.col
  let rows := (mergedRows D groupCols aggs (inputRows results)).map Prod.snd
  { columns := groups ++ aggs, data := defaultSort D applyDefaultSort rows (groups ++ aggs) }

/-! ## What the merged table says -/

/-- The cell shows every value that the column's query has for the tuple, or that it has none. -/
def OwnedColumn.Holds (o : OwnedColumn) (groupCols : List String) (rows : List (InputRow C)) (tuple : List C) (cell : C) :
    Prop :=
  (∀ y ∈ rows, y.queryName = o.queryName → y.tuple D groupCols = tuple → ∀ v, y.row[o.place]? = some v → cell = v) ∧
  ((∀ y ∈ rows, y.queryName = o.queryName → y.tuple D groupCols = tuple → y.row[o.place]? = none) → cell = D.na)

/-- One row for each tuple of group values that occurs, with the values of the queries for it. -/
structure IsTable (groupCols : List String) (results : GoMap String (ScalarData C)) (data : List (List C)) : Prop where
  once : data.Pairwise (fun r r' => r.take groupCols.length ≠ r'.take groupCols.length)
  occurs : ∀ r ∈ data, ∃ x ∈ inputRows results, r.take groupCols.length = x.tuple D groupCols
  present : ∀ x ∈ inputRows results, ∃ r ∈ data, r.take groupCols.length = x.tuple D groupCols
  cells : ∀ r ∈ data, List.Forall₂ (fun (o : OwnedColumn) cell =>
    o.Holds D groupCols (inputRows results) (r.take groupCols.length) cell) (ownedColumns results) (r.drop groupCols.length)

def lastWritten (xs : List (InputRow C)) (col : ColumnDescriptor) (old : C) : C :=
  ((xs.filterMap (fun x => x.writes col)).getLast?).getD old

def Tells (groupCols : List String) (rows : List (InputRow C)) : Prop :=
  ∀ x ∈ rows, ∀ y ∈ rows, buildKeyFromGroupCols D x groupCols = buildKeyFromGroupCols D y groupCols →
    x.tuple D groupCols = y.tuple D groupCols

/-- The last row of a tuple to write into a column writes what the column's own query has there. -/
def Finds (groupCols : List String) (results : GoMap String (ScalarData C)) : Prop :=
  ∀ x ∈ inputRows results, ∀ o ∈ ownedColumns results, o.Holds D groupCols (inputRows results) (x.tuple D groupCols)
    (lastWritten ((inputRows results).filter (fun y => decide (y.tuple D groupCols = x.tuple D groupCols))) o.col D.na)

/-! ## One row of the merged table -/

omit [DecidableEq C] in
theorem buildKeyFromGroupCols_eq (x : InputRow C) (groupCols : List String) :
    buildKeyFromGroupCols D x groupCols = sprintParts ((x.tuple D groupCols).map D.format) := by
  have hcell : ∀ c : Option C, (c.map D.format).getD "n/a" = D.format (c.getD D.na) := by
    intro c
    cases c with
    | none => exact D.format_na.symm
    | some v => rfl
  rw [buildKeyFromGroupCols, InputRow.tuple, List.map_map]
  congr 1
  exact map_congr_left (fun name _ => hcell _)

omit [DecidableEq C] in
theorem lastWritten_cons (x : InputRow C) (xs : List (InputRow C)) (col : ColumnDescriptor) (old : C) :
    lastWritten (x :: xs) col old = lastWritten xs col ((x.writes col).getD old) := by
  unfold lastWritten
  cases hw : x.writes col with
  | none => simp [hw]
  | some v => simp [hw, List.getLast?_cons]

section Row

variable {groupCols : List String} {aggs : List ColumnDescriptor}

omit [DecidableEq C] in
@[simp] theorem length_tuple (x : InputRow C) : (x.tuple D groupCols).length = groupCols.length := List.length_map _

omit [DecidableEq C] in
theorem foldl_writeRow {T : List C} (hT : T.length = groupCols.length) : ∀ (xs : List (InputRow C)) (f : ColumnDescriptor → C),
    xs.foldl (writeRow groupCols aggs) (T ++ aggs.map f) = T ++ aggs.map (fun col => lastWritten xs col (f col))
  | [], _ => rfl
  | x :: xs, f => by
    have hstep : writeRow groupCols aggs (T ++ aggs.map f) x = T ++ aggs.map (fun col => (x.writes col).getD (f col)) := by
      rw [writeRow, ← hT, take_left, drop_left, zipWith_map_right, zipWith_self]
    rw [foldl_cons, hstep, foldl_writeRow hT xs]
    simp only [lastWritten_cons]

omit [DecidableEq C] in
theorem collected_writeRow (x : InputRow C) (rest : List (InputRow C)) :
    Gather.collected (fun x => writeRow groupCols aggs (newRow D groupCols aggs x) x) (writeRow groupCols aggs) (x :: rest) =
      some (x.tuple D groupCols ++ aggs.map (fun col => lastWritten (x :: rest) col D.na)) := by
  have hfold := @foldl_writeRow C groupCols aggs _ (length_tuple D x) (x :: rest) (fun _ => D.na)
  rw [foldl_cons] at hfold
  rw [Gather.collected, newRow, hfold]

end Row

/-! ## The columns -/

omit [DecidableEq C] in
theorem collectGroupColumns_type (tables : List (ScalarData C)) : ∀ col ∈ collectGroupColumns tables, col.type = .group := by
  refine List.foldlRecOn (motive := fun groups : List ColumnDescriptor => ∀ col ∈ groups, col.type = .group)
    _ _ (by simp) (fun groups ih col _ => ?_)
  rw [addGroupColumn]
  split
  · rename_i hnew
    intro c hc
    rcases mem_append.1 hc with hc | hc
    · exact ih c hc
    · exact mem_singleton.1 hc ▸ hnew.1
  · exact ih

omit [DecidableEq C] in
theorem ownedColumns_type (results : GoMap String (ScalarData C)) : ∀ o ∈ ownedColumns results, o.col.type = .aggregation := by
  intro o ho
  obtain ⟨q, -, ho⟩ := mem_flatMap.1 ho
  obtain ⟨sd, -, ho⟩ := mem_flatMap.1 ho
  obtain ⟨x, hx, rfl⟩ := List.mem_map.1 ho
  exact of_decide_eq_true (mem_filter.1 hx).2

theorem groupIndices_append {groups aggs : List ColumnDescriptor} (hg : ∀ col ∈ groups, col.type = .group)
    (ha : ∀ col ∈ aggs, col.type = .aggregation) : groupIndices (groups ++ aggs) = List.range groups.length := by
  have hfront : groups.zipIdx.filter (fun x => decide (x.1.type = .group)) = groups.zipIdx :=
    filter_eq_self.2 (fun x hx => decide_eq_true (hg _ (fst_mem_of_mem_zipIdx hx)))
  have hback : (aggs.zipIdx (0 + groups.length)).filter (fun x => decide (x.1.type = .group)) = [] :=
    filter_eq_nil_iff.2 (fun x hx => by simp [ha _ (fst_mem_of_mem_zipIdx hx)])
  rw [groupIndices, zipIdx_append, filter_append, hfront, hback, append_nil, zipIdx_map_snd,
    range_eq_range']

omit [DecidableEq C] in
theorem buildRowKey_range (T A : List C) :
    buildRowKey D (T ++ A) (List.range T.length) = sprintParts (T.map D.format) := by
  rw [buildRowKey]
  congr 1
  refine ext_getElem (by simp) (fun i hi _ => ?_)
  have hT : i < T.length := by simpa using hi
  simp [List.getElem?_append_left hT, List.getElem?_eq_getElem hT]

/-! ## The rows -/

theorem defaultSort_perm (b : Bool) (data : List (List C)) (columns : List ColumnDescriptor) :
    (defaultSort D b data columns).Perm data := by
  unfold defaultSort sortByFirstAggregation
  split
  · split
    · exact .refl _
    · exact perm_insertionSort _ _
  · exact .refl _

section Merged

variable {groupCols : List String} {aggs : List ColumnDescriptor} {rows : List (InputRow C)}

def keyed (groupCols : List String) (rows : List (InputRow C)) (k : String) : List (InputRow C) :=
  rows.filter (fun y => decide (buildKeyFromGroupCols D y groupCols = k))

omit [DecidableEq C] in
theorem mem_mergedRows {k : String} {r : List C} : (k, r) ∈ mergedRows D groupCols aggs rows ↔
    ∃ x rest, keyed D groupCols rows k = x :: rest ∧
      r = x.tuple D groupCols ++ aggs.map (fun col => lastWritten (x :: rest) col D.na) := by
  rw [mergedRows, Gather.mem_gather, keyed]
  cases rows.filter (fun y => decide (buildKeyFromGroupCols D y groupCols = k)) with
  | nil => simp [Gather.collected]
  | cons x rest =>
    rw [collected_writeRow, Option.some_inj]
    constructor
    · rintro rfl
      exact ⟨x, rest, rfl, rfl⟩
    · rintro ⟨x', rest', heq, rfl⟩
      cases heq
      rfl

omit [DecidableEq C] in
theorem mem_rows {r : List C} : r ∈ (mergedRows D groupCols aggs rows).map Prod.snd ↔
    ∃ x ∈ rows, ∃ rest, keyed D groupCols rows (buildKeyFromGroupCols D x groupCols) = x :: rest ∧
      r = x.tuple D groupCols ++ aggs.map (fun col => lastWritten (x :: rest) col D.na) := by
  rw [List.mem_map]
  constructor
  · rintro ⟨⟨k, r⟩, hr, rfl⟩
    obtain ⟨x, rest, hx, hr⟩ := (mem_mergedRows D).1 hr
    have hin : x ∈ keyed D groupCols rows k := hx ▸ mem_cons_self
    obtain ⟨hmem, hkey⟩ := mem_filter.1 hin
    rw [decide_eq_true_eq] at hkey
    exact ⟨x, hmem, rest, hkey ▸ hx, hr⟩
  · rintro ⟨x, -, rest, hx, hr⟩
    exact ⟨(_, r), (mem_mergedRows D).2 ⟨x, rest, hx, hr⟩, rfl⟩

omit [DecidableEq C] in
theorem exists_row {x : InputRow C} (hx : x ∈ rows) : ∃ y ∈ rows, ∃ rest,
    buildKeyFromGroupCols D y groupCols = buildKeyFromGroupCols D x groupCols ∧
      keyed D groupCols rows (buildKeyFromGroupCols D y groupCols) = y :: rest := by
  cases hk : keyed D groupCols rows (buildKeyFromGroupCols D x groupCols) with
  | nil => exact absurd (decide_eq_true rfl) (filter_eq_nil_iff.1 hk x hx)
  | cons y rest =>
    have hin : y ∈ keyed D groupCols rows (buildKeyFromGroupCols D x groupCols) := hk ▸ mem_cons_self
    obtain ⟨hmem, hkey⟩ := mem_filter.1 hin
    have heq := of_decide_eq_true hkey
    exact ⟨y, hmem, rest, heq, by rw [heq, hk]⟩

theorem keyed_eq (h : Tells D groupCols rows) {x : InputRow C} (hx : x ∈ rows) :
    keyed D groupCols rows (buildKeyFromGroupCols D x groupCols) =
      rows.filter (fun y => decide (y.tuple D groupCols = x.tuple D groupCols)) := by
  refine filter_congr (fun y hy => decide_eq_decide.2 ⟨h y hy x hx, fun heq => ?_⟩)
  rw [buildKeyFromGroupCols_eq, buildKeyFromGroupCols_eq, heq]

end Merged

theorem deduplicateRows_mergeScalarData (visit : Visit (Sigma (fun _ : String => ScalarData C)))
    (results : GoMap String (ScalarData C)) (b b' : Bool) :
    (deduplicateRows D (mergeScalarData D visit results b) b').data.Perm
      ((mergedRows D ((groupsOf visit results).map ColumnDescriptor.name) ((ownedColumns results).map OwnedColumn.col)
        (inputRows results)).map Prod.snd) := by
  generalize hrows : mergedRows D ((groupsOf visit results).map ColumnDescriptor.name)
    ((ownedColumns results).map OwnedColumn.col) (inputRows results) = entries
  generalize hmerged : defaultSort D b (entries.map Prod.snd)
    (groupsOf visit results ++ (ownedColumns results).map OwnedColumn.col) = merged
  have hperm : merged.Perm (entries.map Prod.snd) := hmerged ▸ defaultSort_perm D b _ _
  have hindices : groupIndices (groupsOf visit results ++ (ownedColumns results).map OwnedColumn.col) =
      List.range (groupsOf visit results).length := by
    refine groupIndices_append (collectGroupColumns_type _) (fun col hcol => ?_)
    obtain ⟨o, ho, rfl⟩ := List.mem_map.1 hcol
    exact ownedColumns_type results o ho
  -- a merged row has the text that it is kept under
  have hkeys : (entries.map Prod.snd).map (fun row => buildRowKey D row (List.range (groupsOf visit results).length)) =
      entries.map Prod.fst := by
    rw [List.map_map]
    refine map_congr_left (fun e he => ?_)
    rw [← hrows] at he
    obtain ⟨x, rest, hx, hr⟩ := (mem_mergedRows D).1 he
    have hin : x ∈ keyed D ((groupsOf visit results).map ColumnDescriptor.name) (inputRows results) e.1 :=
      hx ▸ mem_cons_self
    have hkey := of_decide_eq_true (mem_filter.1 hin).2
    have hlen : (groupsOf visit results).length = (x.tuple D ((groupsOf visit results).map ColumnDescriptor.name)).length := by
      simp
    rw [Function.comp_apply, hr, hlen, buildRowKey_range, ← buildKeyFromGroupCols_eq, hkey]
  have hnodup : (merged.map (fun row => buildRowKey D row (List.range (groupsOf visit results).length))).Nodup := by
    rw [(hperm.map _).nodup_iff, hkeys, ← hrows]
    exact Gather.nodup_keys _
  have hdata : (mergeScalarData D visit results b).data = merged := by
    rw [← hmerged, ← hrows]
    rfl
  have hcolumns : (mergeScalarData D visit results b).columns =
      groupsOf visit results ++ (ownedColumns results).map OwnedColumn.col := rfl
  rw [deduplicateRows, hdata, hcolumns, hindices]
  dsimp only
  rw [Gather.gather_of_nodup hnodup, List.map_map]
  refine (defaultSort_perm D b' _ _).trans ?_
  have hid : merged.map (Prod.snd ∘ fun row => (buildRowKey D row (List.range (groupsOf visit results).length), id row)) =
      merged := List.map_id _
  rw [hid]
  exact hperm

/-! ## The condition -/

section Table

variable {groupCols : List String} {results : GoMap String (ScalarData C)}

omit [DecidableEq C] in
theorem IsTable.perm {data data' : List (List C)} (hp : data.Perm data') (h : IsTable D groupCols results data) :
    IsTable D groupCols results data' where
  once := (hp.pairwise_iff (fun hne heq => hne heq.symm)).1 h.once
  occurs r hr := h.occurs r (hp.mem_iff.2 hr)
  present x hx := by
    obtain ⟨r, hr, heq⟩ := h.present x hx
    exact ⟨r, hp.mem_iff.1 hr, heq⟩
  cells r hr := h.cells r (hp.mem_iff.2 hr)

omit [DecidableEq C] in
theorem forall₂_ownedColumns {P : OwnedColumn → C → Prop} {f : ColumnDescriptor → C} :
    List.Forall₂ P (ownedColumns results) (((ownedColumns results).map OwnedColumn.col).map f) ↔
      ∀ o ∈ ownedColumns results, P o (f o.col) := by
  rw [List.map_map, List.forall₂_map_right_iff, List.forall₂_same]
  rfl

omit [DecidableEq C] in
theorem take_row (x : InputRow C) (A : List C) : (x.tuple D groupCols ++ A).take groupCols.length = x.tuple D groupCols := by
  rw [← length_tuple D x, take_left]

omit [DecidableEq C] in
theorem drop_row (x : InputRow C) (A : List C) : (x.tuple D groupCols ++ A).drop groupCols.length = A := by
  rw [← length_tuple D x, drop_left]

omit [DecidableEq C] in
theorem IsTable.tells {aggs : List ColumnDescriptor}
    (h : IsTable D groupCols results ((mergedRows D groupCols aggs (inputRows results)).map Prod.snd)) :
    Tells D groupCols (inputRows results) := by
  have hown : ∀ x ∈ inputRows results, ∀ z rest,
      keyed D groupCols (inputRows results) (buildKeyFromGroupCols D x groupCols) = z :: rest →
      z.tuple D groupCols = x.tuple D groupCols := by
    intro x hx z rest hz
    obtain ⟨r, hr, heq⟩ := h.present x hx
    obtain ⟨y, -, rest', hy, rfl⟩ := (mem_rows D).1 hr
    rw [take_row] at heq
    have hkey : buildKeyFromGroupCols D y groupCols = buildKeyFromGroupCols D x groupCols := by
      rw [buildKeyFromGroupCols_eq, buildKeyFromGroupCols_eq, heq]
    rw [hkey, hz] at hy
    cases hy
    exact heq
  intro x hx y hy hkey
  obtain ⟨z, -, rest, hzx, hz⟩ := exists_row D hx
  rw [hzx] at hz
  rw [← hown x hx z rest hz]
  rw [hkey] at hz
  exact hown y hy z rest hz

theorem IsTable.finds (h : IsTable D groupCols results
    ((mergedRows D groupCols ((ownedColumns results).map OwnedColumn.col) (inputRows results)).map Prod.snd)) :
    Finds D groupCols results := by
  have htells := h.tells
  intro x hx
  obtain ⟨z, hzin, rest, hkey, hz⟩ := exists_row D hx
  have hrow := h.cells _ ((mem_rows D).2 ⟨z, hzin, rest, hz, rfl⟩)
  rw [take_row, drop_row, forall₂_ownedColumns, ← hz, keyed_eq D htells hzin, htells z hzin x hx hkey] at hrow
  exact hrow

omit [DecidableEq C] in
theorem once_mergedRows (aggs : List ColumnDescriptor) (rows : List (InputRow C)) :
    ((mergedRows D groupCols aggs rows).map Prod.snd).Pairwise
      (fun r r' => r.take groupCols.length ≠ r'.take groupCols.length) := by
  have hnodup : ((mergedRows D groupCols aggs rows).map Prod.fst).Nodup := Gather.nodup_keys _
  have htext : ∀ e ∈ mergedRows D groupCols aggs rows, e.1 = sprintParts ((e.2.take groupCols.length).map D.format) := by
    intro e he
    obtain ⟨x, rest, hx, hr⟩ := (mem_mergedRows D).1 he
    have hin : x ∈ keyed D groupCols rows e.1 := hx ▸ mem_cons_self
    rw [hr, take_row, ← buildKeyFromGroupCols_eq, of_decide_eq_true (mem_filter.1 hin).2]
  rw [pairwise_map]
  refine (pairwise_map.1 hnodup).imp_of_mem (fun {e e'} he he' hne heq => hne ?_)
  rw [htext e he, htext e' he', heq]

/-- **The merged rows are a table** exactly where the texts tell the tuples apart and the last row of a tuple writes what
the column's own query has. -/
theorem isTable_mergedRows_iff : IsTable D groupCols results
    ((mergedRows D groupCols ((ownedColumns results).map OwnedColumn.col) (inputRows results)).map Prod.snd) ↔
      Tells D groupCols (inputRows results) ∧ Finds D groupCols results := by
  refine ⟨fun h => ⟨h.tells, h.finds⟩, ?_⟩
  rintro ⟨htells, hfinds⟩
  refine ⟨once_mergedRows D _ _, fun r hr => ?_, fun x hx => ?_, fun r hr => ?_⟩
  · obtain ⟨x, hx, rest, -, rfl⟩ := (mem_rows D).1 hr
    exact ⟨x, hx, take_row D x _⟩
  · obtain ⟨z, hzin, rest, hkey, hz⟩ := exists_row D hx
    refine ⟨_, (mem_rows D).2 ⟨z, hzin, rest, hz, rfl⟩, ?_⟩
    rw [take_row, htells z hzin x hx hkey]
  · obtain ⟨x, hx, rest, hz, rfl⟩ := (mem_rows D).1 hr
    rw [take_row, drop_row, forall₂_ownedColumns, ← hz, keyed_eq D htells hx]
    exact hfinds x hx

end Table

/-- **The merge gives one row for each tuple with its values** exactly where the texts of the tuples tell them apart and
the last row of a tuple to write into a column writes what the column's query has for it. -/
theorem mergeScalarData_isTable_iff (visit : Visit (Sigma (fun _ : String => ScalarData C)))
    (results : GoMap String (ScalarData C)) (b b' : Bool) :
    IsTable D ((groupsOf visit results).map ColumnDescriptor.name) results
        (deduplicateRows D (mergeScalarData D visit results b) b').data ↔
      Tells D ((groupsOf visit results).map ColumnDescriptor.name) (inputRows results) ∧
      Finds D ((groupsOf visit results).map ColumnDescriptor.name) results := by
  have hperm := deduplicateRows_mergeScalarData D visit results b b'
  rw [← isTable_mergedRows_iff]
  exact ⟨fun h => h.perm D hperm, fun h => h.perm D hperm.symm⟩

end Model

def wordsAndNumbers : Dynamic (String ⊕ Int) where
  format
    | .inl word => word
    | .inr n => toString n
  na := .inl "n/a"
  format_na := rfl
  above
    | .inr a, .inr b => decide (b < a)
    | _, _ => false

def blankInName : GoMap String (ScalarData (String ⊕ Int)) :=
  (∅ : GoMap String (ScalarData (String ⊕ Int))).insert "A"
    { queryName := "A"
      columns := [{ name := "service", queryName := "A", type := .group }, { name := "zone", queryName := "A", type := .group },
        { name := "count", queryName := "A", type := .aggregation }]
      data := [[.inl "cart", .inl "eu west", .inr 3], [.inl "cart eu", .inl "west", .inr 5]] }

/-- One row is left, with the first names and the second number. -/
theorem mergeScalarData_blankInName : ¬ ∀ (visit : Visit (Sigma (fun _ : String => ScalarData (String ⊕ Int))))
    (results : GoMap String (ScalarData (String ⊕ Int))) (b b' : Bool),
    IsTable wordsAndNumbers ((groupsOf visit results).map ColumnDescriptor.name) results
      (deduplicateRows wordsAndNumbers (mergeScalarData wordsAndNumbers visit results b) b').data := by
  intro h
  have hdata : (deduplicateRows wordsAndNumbers
      (mergeScalarData wordsAndNumbers ⟨id, fun _ => .refl _⟩ blankInName false) false).data =
      [[.inl "cart", .inl "eu west", .inr 5]] := by decide
  have hnames : (groupsOf ⟨id, fun _ => .refl _⟩ blankInName).map ColumnDescriptor.name = ["service", "zone"] := by
    decide
  have htable := h ⟨id, fun _ => .refl _⟩ blankInName false false
  rw [hdata, hnames] at htable
  have hin : (⟨"A", _, [.inl "cart eu", .inl "west", .inr 5]⟩ : InputRow (String ⊕ Int)) ∈ inputRows blankInName :=
    mem_cons_of_mem _ mem_cons_self
  obtain ⟨r, hr, heq⟩ := htable.present _ hin
  rw [mem_singleton.1 hr] at heq
  revert heq
  decide

end Querier
end DsApm
