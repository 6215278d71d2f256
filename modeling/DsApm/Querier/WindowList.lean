import DsApm.Lib.Base64
import DsApm.Lib.GoStd
import DsApm.Querier.ListRange
/-!
# WindowList — `executeWindowList`

A page of a raw list ordered by time.  The window is cut into the ranges of `makeBuckets`; each is queried for as many rows
as are still needed, the offset's included, until the page is full.  A full page comes with a cursor, the millisecond of
its last row, from which the next page's window is taken.

The rows that match the filter are given in the order that is asked for, and a query of a range gives those in it up to its
limit.  What the trace finder says of the trace ids in the filter is part of the query.
-/
namespace DsApm
namespace Querier

open List Option

/-- `qbtypes.RawRow`, with the nanosecond of its `Timestamp`. -/
structure RawRow (D : Type) where
  timestamp : Nat
  data : D
  deriving DecidableEq, Repr

variable {D : Type}

def RawRow.unixMilli (row : RawRow D) : Nat := row.timestamp / 10 ^ 6

structure ListQuery where
  -- the first order key is ascending
  isAsc : Bool
  cursor : String
  fromMS : Nat
  toMS : Nat
  limit : Nat
  offset : Nat
  -- `traceStart` and `traceEnd`, where the filter has trace ids that the finder knows
  traceRange : Option (Nat × Nat)

/-! ## Cursors -/

def uint64 (n : Int) : Nat := (n % 2 ^ 64).toNat

def encodeCursor (tsMilli : Nat) : String :=
  String.ofList (Base64.encode ((Nat.toDigits 10 tsMilli).map Char.toNat))

def decodeCursor (cur : String) : Option Int :=
  (Base64.decode cur.toList).bind (fun bytes => GoStd.atoi (bytes.map Char.ofNat))

/-- `[fromMS, toMS]`, adjusted if a cursor was supplied. -/
def ListQuery.window (q : ListQuery) : Nat × Nat :=
  let cur := GoStd.trimSpace q.cursor
  if cur = "" then (q.fromMS, q.toMS)
  else match decodeCursor cur with
  | none => (q.fromMS, q.toMS)
  | some ts =>
    if q.isAsc then (if q.fromMS ≤ uint64 ts then uint64 (ts + 1) else q.fromMS, q.toMS)
    else (q.fromMS, if uint64 ts ≤ q.toMS then uint64 (ts - 1) else q.toMS)

/-- The window clamped to the time range of the traces; nothing where they do not overlap. -/
def clampToTraces (traceRange : Option (Nat × Nat)) (fromMS toMS : Nat) : Option (Nat × Nat) :=
  match traceRange with
  | none => some (fromMS, toMS)
  | some (traceStart, traceEnd) =>
    let traceStartMS := traceStart / 10 ^ 6
    let traceEndMS := traceEnd / 10 ^ 6
    if 0 < traceStartMS ∧ 0 < traceEndMS then
      if toMS < traceStartMS ∨ traceEndMS < fromMS then none
      else some (if fromMS < traceStartMS then traceStartMS else fromMS, if traceEndMS < toMS then traceEndMS else toMS)
    else some (fromMS, toMS)

/-! ## Fetching -/

def rowsBetween (rows : List (RawRow D)) (lo hi : Nat) : List (RawRow D) :=
  Contiguous.between RawRow.timestamp lo hi rows

/-- `Build` and the query of its statement; without a limit the builder has one of its own. -/
def queryRange (rows : List (RawRow D)) (start end_ limit : Nat) : List (RawRow D) :=
  (rowsBetween rows (toNanoSecs start) (toNanoSecs end_)).take (if 0 < limit then limit else 100)

def fillPage (reqLimit : Nat) : Nat → List (RawRow D) → List (RawRow D) → Nat × List (RawRow D)
  | offsetLeft, rows, [] => (offsetLeft, rows)
  | offsetLeft, rows, rr :: rest =>
    if 0 < offsetLeft then fillPage reqLimit (offsetLeft - 1) rows rest
    else if reqLimit ≤ (rows ++ [rr]).length then (offsetLeft, rows ++ [rr])
    else fillPage reqLimit offsetLeft (rows ++ [rr]) rest

def fetch (all : List (RawRow D)) (reqLimit : Nat) : Nat → Nat → List (RawRow D) → List TsRange → List (RawRow D)
  | _, _, rows, [] => rows
  | need, offsetLeft, rows, r :: rest =>
    let rawRows := queryRange all (r.fromNS / 10 ^ 6) (r.toNS / 10 ^ 6) need
    let filled := fillPage reqLimit offsetLeft rows rawRows
    if reqLimit ≤ filled.2.length then filled.2
    else fetch all reqLimit (need - rawRows.length) filled.1 filled.2 rest

/-- `reqLimit`, with the default for a query without a limit. -/
def ListQuery.reqLimit (q : ListQuery) : Nat := if q.limit = 0 then 10000 else q.limit

structure Page (D : Type) where
  rows : List (RawRow D)
  nextCursor : String

def nextCursor (reqLimit : Nat) (rows : List (RawRow D)) : String :=
  if rows.length = reqLimit then (rows.getLast?.map (fun row => encodeCursor row.unixMilli)).getD "" else ""

/-- `executeWindowList`; nothing when `makeBuckets` does not return within the fuel. -/
def executeWindowList (fuel : Nat) (all : List (RawRow D)) (q : ListQuery) : Option (Page D) :=
  match clampToTraces q.traceRange q.window.1 q.window.2 with
  | none => some { rows := [], nextCursor := "" }
  | some (fromMS, toMS) => (makeBuckets fuel fromMS toMS).map (fun buckets =>
      let buckets := if q.isAsc then buckets.reverse else buckets
      let rows := fetch all q.reqLimit (q.reqLimit + q.offset) q.offset [] buckets
      { rows := rows, nextCursor := nextCursor q.reqLimit rows })

/-! ## One page -/

theorem fillPage_eq {reqLimit : Nat} : ∀ {offsetLeft : Nat} {rows : List (RawRow D)} (rawRows : List (RawRow D)),
    rows.length < reqLimit → rows.length + (rawRows.length - offsetLeft) ≤ reqLimit →
    fillPage reqLimit offsetLeft rows rawRows = (offsetLeft - rawRows.length, rows ++ rawRows.drop offsetLeft)
  | offsetLeft, rows, [], _, _ => by simp [fillPage]
  | 0, rows, rr :: rest, hlt, hle => by
    rw [fillPage, if_neg (Nat.lt_irrefl 0)]
    simp only [List.length_append, length_cons, length_nil] at hle ⊢
    split
    · -- the page is full, so nothing is left of the bucket
      have hrest : rest = [] := eq_nil_of_length_eq_zero (by omega)
      simp [hrest]
    · rw [fillPage_eq rest (by simp; omega) (by simp; omega)]
      simp
  | offsetLeft + 1, rows, rr :: rest, hlt, hle => by
    rw [fillPage, if_pos (Nat.succ_pos _), Nat.add_sub_cancel]
    rw [fillPage_eq rest hlt (by simp only [length_cons] at hle; omega)]
    simp

def bucketRows (all : List (RawRow D)) (r : TsRange) : List (RawRow D) :=
  rowsBetween all (toNanoSecs (r.fromNS / 10 ^ 6)) (toNanoSecs (r.toNS / 10 ^ 6))

/-- **What is fetched**, whatever the ranges: from the rows of one after another the offset is dropped and the limit
taken.  `need` is what is left of both. -/
theorem fetch_eq {all : List (RawRow D)} {reqLimit : Nat} : ∀ {need offsetLeft : Nat} {rows : List (RawRow D)}
    (buckets : List TsRange), rows.length < reqLimit → need = reqLimit - rows.length + offsetLeft →
    fetch all reqLimit need offsetLeft rows buckets =
      rows ++ ((buckets.flatMap (bucketRows all)).drop offsetLeft).take (reqLimit - rows.length)
  | need, offsetLeft, rows, [], _, _ => by simp [fetch]
  | need, offsetLeft, rows, r :: rest, hlt, hneed => by
    have hraw : queryRange all (r.fromNS / 10 ^ 6) (r.toNS / 10 ^ 6) need = (bucketRows all r).take need := by
      rw [queryRange, if_pos (by omega), bucketRows]
    have hcut : ((bucketRows all r).take need).drop offsetLeft =
        ((bucketRows all r).drop offsetLeft).take (reqLimit - rows.length) := by
      rw [drop_take]
      congr 1
      omega
    have hlen := length_take_le need (bucketRows all r)
    have hfill := @fillPage_eq D reqLimit offsetLeft rows ((bucketRows all r).take need) hlt (by omega)
    unfold fetch
    simp only [hraw, hfill, hcut]
    rw [flatMap_cons, drop_append, take_append]
    split
    · -- the page is full
      rename_i hfull
      rw [List.length_append, length_take] at hfull
      have hzero : reqLimit - rows.length - ((bucketRows all r).drop offsetLeft).length = 0 := by omega
      rw [hzero, take_zero, append_nil]
    · rename_i hmore
      rw [List.length_append, length_take, length_drop] at hmore
      have hall : ((bucketRows all r).take need).length = (bucketRows all r).length := by
        rw [length_take]
        omega
      have hwhole : ((bucketRows all r).drop offsetLeft).take (reqLimit - rows.length) = (bucketRows all r).drop offsetLeft :=
        take_of_length_le (by rw [length_drop]; omega)
      rw [hall, hwhole, fetch_eq rest (by rw [List.length_append, length_drop]; omega)
        (by rw [List.length_append, length_drop]; omega), List.append_assoc]
      simp only [List.length_append, length_drop]
      congr 3
      omega

/-! ## The window of a page -/

def Ordered (isAsc : Bool) (all : List (RawRow D)) : Prop :=
  all.Pairwise (fun a b => if isAsc then a.timestamp ≤ b.timestamp else b.timestamp ≤ a.timestamp)

def windowRows (all : List (RawRow D)) (fromMS toMS : Nat) : List (RawRow D) :=
  rowsBetween all (fromMS * 10 ^ 6) (toMS * 10 ^ 6)

def RawRow.inTraces (traceRange : Option (Nat × Nat)) (row : RawRow D) : Bool :=
  match traceRange with
  | none => true
  | some (traceStart, traceEnd) => decide (0 < traceStart / 10 ^ 6 ∧ 0 < traceEnd / 10 ^ 6 →
      traceStart / 10 ^ 6 * 10 ^ 6 ≤ row.timestamp ∧ row.timestamp < traceEnd / 10 ^ 6 * 10 ^ 6)

def traced (traceRange : Option (Nat × Nat)) (rows : List (RawRow D)) : List (RawRow D) :=
  rows.filter (RawRow.inTraces traceRange)

theorem windowRows_windowRows (all : List (RawRow D)) (f t f' t' : Nat) :
    windowRows (windowRows all f t) f' t' = windowRows all (if f < f' then f' else f) (if t' < t then t' else t) := by
  unfold windowRows rowsBetween Contiguous.between
  rw [List.filter_filter]
  refine filter_congr (fun row _ => ?_)
  rw [← Bool.decide_and, decide_eq_decide]
  split <;> split <;> omega

theorem traced_windowRows (all : List (RawRow D)) (traceRange : Option (Nat × Nat)) (fromMS toMS : Nat) :
    traced traceRange (windowRows all fromMS toMS) =
      ((clampToTraces traceRange fromMS toMS).map (fun w => windowRows all w.1 w.2)).getD [] := by
  unfold clampToTraces
  cases traceRange with
  | none =>
    rw [map_some, getD_some]
    exact filter_eq_self.2 (fun _ _ => rfl)
  | some r =>
    obtain ⟨traceStart, traceEnd⟩ := r
    dsimp only
    split
    · rename_i hdates
      have htraced : ∀ rows : List (RawRow D), traced (some (traceStart, traceEnd)) rows =
          windowRows rows (traceStart / 10 ^ 6) (traceEnd / 10 ^ 6) := fun rows =>
        filter_congr (fun row _ => decide_eq_decide.2 ⟨fun h => h hdates, fun h _ => h⟩)
      rw [htraced, windowRows_windowRows]
      by_cases hout : toMS < traceStart / 10 ^ 6 ∨ traceEnd / 10 ^ 6 < fromMS
      · rw [if_pos hout]
        refine Contiguous.between_eq_nil ?_
        split <;> split <;> omega
      · rw [if_neg hout, map_some, getD_some]
    · rename_i hdates
      rw [map_some, getD_some]
      exact filter_eq_self.2 (fun row _ => decide_eq_true (fun h => absurd h hdates))

/-- **The ranges of a window give its rows**, one after another. -/
theorem flatMap_bucketRows {isAsc : Bool} {all : List (RawRow D)} (hs : Ordered isAsc all) {fromMS toMS : Nat}
    (hcut : Cut fromMS toMS) {fuel : Nat} {buckets : List TsRange} (h : makeBuckets fuel fromMS toMS = some buckets) :
    (if isAsc then buckets.reverse else buckets).flatMap (bucketRows all) = windowRows all fromMS toMS := by
  rcases Nat.lt_or_ge fromMS toMS with hlt | hge
  · obtain ⟨hdown, hne, hms⟩ := hcut.ranges hlt h
    have hrows : ∀ r ∈ buckets, bucketRows all r = Contiguous.between RawRow.timestamp r.fromNS r.toNS all := by
      intro r hr
      rw [bucketRows, (hms r hr).1, (hms r hr).2]
      rfl
    cases isAsc with
    | false =>
      rw [if_neg Bool.false_ne_true, flatMap_congr hrows]
      exact hdown.flatMap_between (by simpa [Ordered] using hs) hne
    | true =>
      rw [if_pos rfl, flatMap_congr (fun r hr => hrows r (mem_reverse.1 hr))]
      exact hdown.flatMap_between_reverse (by simpa [Ordered] using hs) hne
  · have hnone : ∀ r ∈ buckets, bucketRows all r = [] := fun r hr =>
      Contiguous.between_eq_nil (hcut.empty hge h r hr)
    have hempty : windowRows all fromMS toMS = [] := Contiguous.between_eq_nil (Nat.mul_le_mul_right _ hge)
    rw [hempty, flatMap_eq_nil_iff]
    intro r hr
    refine hnone r ?_
    split at hr
    · exact mem_reverse.1 hr
    · exact hr

section Page

variable {all : List (RawRow D)} {q : ListQuery} (hs : Ordered q.isAsc all)
  (hcut : ∀ f t, clampToTraces q.traceRange q.window.1 q.window.2 = some (f, t) → Cut f t)

theorem reqLimit_pos (q : ListQuery) : 0 < q.reqLimit := by
  unfold ListQuery.reqLimit
  split <;> omega

include hcut in
theorem executeWindowList_returns : ∃ fuel page, executeWindowList fuel all q = some page := by
  unfold executeWindowList
  cases hclamp : clampToTraces q.traceRange q.window.1 q.window.2 with
  | none => exact ⟨0, _, rfl⟩
  | some w =>
    obtain ⟨fuel, out, hout⟩ := (hcut w.1 w.2 hclamp).returns
    exact ⟨fuel, _, congrArg (Option.map _) hout⟩

include hs hcut in
/-- **The rows of a page.** -/
theorem executeWindowList_rows {fuel : Nat} {page : Page D} (h : executeWindowList fuel all q = some page) :
    page.rows = ((traced q.traceRange (windowRows all q.window.1 q.window.2)).drop q.offset).take q.reqLimit ∧
      page.nextCursor = nextCursor q.reqLimit page.rows := by
  rw [traced_windowRows]
  unfold executeWindowList at h
  cases hclamp : clampToTraces q.traceRange q.window.1 q.window.2 with
  | none =>
    rw [hclamp] at h
    cases h
    have hpos := reqLimit_pos q
    simp [nextCursor, hpos.ne]
  | some w =>
    rw [hclamp] at h
    obtain ⟨buckets, hbuckets, rfl⟩ := map_eq_some_iff.1 h
    have hfetch := @fetch_eq D all q.reqLimit (q.reqLimit + q.offset) q.offset []
      (if q.isAsc then buckets.reverse else buckets) (reqLimit_pos q) (by simp)
    rw [flatMap_bucketRows hs (hcut w.1 w.2 hclamp) hbuckets] at hfetch
    exact ⟨by simpa using hfetch, rfl⟩

end Page

/-! ## Without a cursor -/

def plainRows (all : List (RawRow D)) (q : ListQuery) (limit : Nat) : List (RawRow D) :=
  ((windowRows all q.fromMS q.toMS).drop q.offset).take limit

def Covers (all : List (RawRow D)) (q : ListQuery) : Prop :=
  ∀ row ∈ windowRows all q.fromMS q.toMS, row.inTraces q.traceRange = true

theorem covers_iff {all : List (RawRow D)} {q : ListQuery} :
    Covers all q ↔ traced q.traceRange (windowRows all q.fromMS q.toMS) = windowRows all q.fromMS q.toMS :=
  filter_eq_self.symm

theorem window_of_blank {q : ListQuery} (h : GoStd.trimSpace q.cursor = "") : q.window = (q.fromMS, q.toMS) := by
  unfold ListQuery.window
  rw [if_pos h]

/-- **A page without a cursor has the rows of the plain query**, up to the default limit. -/
theorem executeWindowList_plain {all : List (RawRow D)} {q : ListQuery} (hs : Ordered q.isAsc all)
    (hcursor : GoStd.trimSpace q.cursor = "")
    (hcut : ∀ f t, clampToTraces q.traceRange q.fromMS q.toMS = some (f, t) → Cut f t) (hcover : Covers all q) :
    (∃ fuel page, executeWindowList fuel all q = some page) ∧
      ∀ fuel page, executeWindowList fuel all q = some page → page.rows = plainRows all q q.reqLimit := by
  have hwindow := window_of_blank hcursor
  have hcut' : ∀ f t, clampToTraces q.traceRange q.window.1 q.window.2 = some (f, t) → Cut f t := by
    rwa [hwindow]
  refine ⟨executeWindowList_returns hcut', fun fuel page hpage => ?_⟩
  rw [(executeWindowList_rows hs hcut' hpage).1, hwindow, covers_iff.1 hcover]
  rfl

/-- The second of two rows, of a window of two hours. -/
theorem twoHours_plain :
    (∃ fuel page, executeWindowList fuel [⟨1700007000000000001, "late"⟩, ⟨1700000100000000000, "early"⟩]
      ⟨false, "", 1700000000000, 1700007200000, 1, 1, none⟩ = some page) ∧
    ∀ fuel page, executeWindowList fuel [⟨1700007000000000001, "late"⟩, ⟨1700000100000000000, "early"⟩]
      ⟨false, "", 1700000000000, 1700007200000, 1, 1, none⟩ = some page →
      page.rows = plainRows [⟨1700007000000000001, "late"⟩, ⟨1700000100000000000, "early"⟩]
        ⟨false, "", 1700000000000, 1700007200000, 1, 1, none⟩ 1 := by
  refine executeWindowList_plain (by simp [Ordered]) (by decide) (fun f t h => ?_) (fun row hrow => rfl)
  cases h
  exact ⟨by decide, by decide, fun _ => BucketsFit.of_recent (by decide)⟩

theorem cut_second : Cut 1700000000000 1700000001000 := ⟨by decide, by decide, fun _ => BucketsFit.of_recent (by decide)⟩

/-- Without a limit there is one; from the epoch nothing is returned; and a row outside the time range of the traces that the
filter has is lost, also where the filter takes it for another reason. -/
theorem executeWindowList_not_plain :
    (¬ ∃ fuel page, executeWindowList fuel [⟨1700000000500000000, "row"⟩]
      ⟨false, "", 1700000000000, 1700000001000, 0, 0, none⟩ = some page ∧
        page.rows = plainRows [⟨1700000000500000000, "row"⟩] ⟨false, "", 1700000000000, 1700000001000, 0, 0, none⟩ 0) ∧
    (¬ ∃ fuel page, executeWindowList fuel [⟨1700000000500000000, "row"⟩]
      ⟨false, "", 0, 1700000000000, 10, 0, none⟩ = some page ∧
        page.rows = plainRows [⟨1700000000500000000, "row"⟩] ⟨false, "", 0, 1700000000000, 10, 0, none⟩ 10) ∧
    (¬ ∃ fuel page, executeWindowList fuel [⟨1700000000500000000, "row"⟩]
      ⟨false, "", 1700000000000, 1700000001000, 10, 0, some (1690000000000000000, 1700000000100000000)⟩ = some page ∧
        page.rows = plainRows [⟨1700000000500000000, "row"⟩]
          ⟨false, "", 1700000000000, 1700000001000, 10, 0, some (1690000000000000000, 1700000000100000000)⟩ 10) := by
  refine ⟨?_, ?_, ?_⟩
  · rintro ⟨fuel, page, h, hrows⟩
    have hcut : ∀ f t, clampToTraces none 1700000000000 1700000001000 = some (f, t) → Cut f t := by
      intro f t hft
      cases hft
      exact cut_second
    rw [(executeWindowList_rows (by simp [Ordered]) hcut h).1] at hrows
    revert hrows
    decide
  · rintro ⟨fuel, page, h, _⟩
    unfold executeWindowList at h
    obtain ⟨buckets, hbuckets, _⟩ := map_eq_some_iff.1 h
    have hnone := makeBuckets_epoch fuel
    cases hnone.symm.trans hbuckets
  · rintro ⟨fuel, page, h, hrows⟩
    have hcut : ∀ f t, clampToTraces (some (1690000000000000000, 1700000000100000000)) 1700000000000 1700000001000 =
        some (f, t) → Cut f t := by
      intro f t hft
      obtain ⟨rfl, rfl⟩ : f = 1700000000000 ∧ t = 1700000000100 := by
        have hclamp : clampToTraces (some (1690000000000000000, 1700000000100000000)) 1700000000000 1700000001000 =
            some (1700000000000, 1700000000100) := by decide
        rw [hclamp] at hft
        cases hft
        exact ⟨rfl, rfl⟩
      exact ⟨by decide, by decide, fun _ => BucketsFit.of_recent (by decide)⟩
    rw [(executeWindowList_rows (by simp [Ordered]) hcut h).1] at hrows
    revert hrows
    decide

end Querier
end DsApm
