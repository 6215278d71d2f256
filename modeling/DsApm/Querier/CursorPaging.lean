import DsApm.Lib.Paging
import DsApm.Querier.WindowList
/-!
# CursorPaging — from page to page of a raw list

The next page's window starts a millisecond after the last row's millisecond, or ends a millisecond before it, so a row lies
beyond the cursor only from there on.  Following the cursors walks the rows of the first window as `Paging.walk` does.
-/
namespace DsApm
namespace Querier

open List Option

variable {D : Type}

/-- The pages that are got by following `NextCursor` until there is none; nothing when a page does not return. -/
def follow (fuel : Nat) (all : List (RawRow D)) : Nat → ListQuery → Option (List (RawRow D))
  | 0, _ => none
  | pages + 1, q => (executeWindowList fuel all q).bind (fun page =>
      if page.nextCursor = "" then some page.rows
      else (follow fuel all pages { q with cursor := page.nextCursor }).map (page.rows ++ ·))

/-- The row is in the window of the page after one that ends with `last`. -/
def beyond (isAsc : Bool) (last row : RawRow D) : Bool :=
  if isAsc then decide (last.unixMilli < row.unixMilli) else decide (row.unixMilli + 1 < last.unixMilli)

/-! ## Cursors -/

theorem encodeCursor_plain (tsMilli : Nat) : ∀ c ∈ (encodeCursor tsMilli).toList, GoStd.isSpace c = false := by
  intro c hc
  have hall : Base64.alphabet.all (fun c => !GoStd.isSpace c) = true := rfl
  rw [encodeCursor, String.toList_ofList] at hc
  rcases Base64.mem_encode hc with hc | rfl
  · exact Bool.not_eq_true' _ ▸ List.all_eq_true.1 hall c hc
  · decide

theorem encodeCursor_ne (tsMilli : Nat) : encodeCursor tsMilli ≠ "" := by
  intro h
  have hnil := congrArg String.toList h
  rw [encodeCursor, String.toList_ofList] at hnil
  exact Nat.toDigits_ne_nil (map_eq_nil_iff.1 (Base64.encode_eq_nil.1 hnil))

/-- **A cursor says its millisecond.** -/
theorem decodeCursor_encodeCursor {tsMilli : Nat} (h : tsMilli < 2 ^ 63) :
    decodeCursor (encodeCursor tsMilli) = some (tsMilli : Int) := by
  have hbytes : ∀ b ∈ (Nat.toDigits 10 tsMilli).map Char.toNat, b < 256 := by
    intro b hb
    obtain ⟨c, hc, rfl⟩ := List.mem_map.1 hb
    have hdigit := Nat.isDigit_of_mem_toDigits (by decide) (by decide) hc
    rw [Char.isDigit, Bool.and_eq_true, decide_eq_true_eq, decide_eq_true_eq] at hdigit
    have hle : c.toNat ≤ 57 := hdigit.2
    omega
  have hback : ((Nat.toDigits 10 tsMilli).map Char.toNat).map Char.ofNat = Nat.toDigits 10 tsMilli := by
    rw [List.map_map]
    exact (map_congr_left (fun c _ => Char.ofNat_toNat c)).trans (List.map_id _)
  rw [decodeCursor, encodeCursor, String.toList_ofList, Base64.decode_encode hbytes, bind_some, hback,
    GoStd.atoi_toDigits h]

theorem window_of_cursor {q : ListQuery} {tsMilli : Nat} (hq : q.cursor = encodeCursor tsMilli) (hpos : 0 < tsMilli)
    (hlt : tsMilli < 2 ^ 62) (hfrom : q.fromMS ≤ tsMilli) (hto : tsMilli ≤ q.toMS) :
    q.window = if q.isAsc then (tsMilli + 1, q.toMS) else (q.fromMS, tsMilli - 1) := by
  have hcur : uint64 (tsMilli : Int) = tsMilli := by
    unfold uint64
    omega
  have hnext : uint64 ((tsMilli : Int) + 1) = tsMilli + 1 := by
    unfold uint64
    omega
  have hprev : uint64 ((tsMilli : Int) - 1) = tsMilli - 1 := by
    unfold uint64
    omega
  unfold ListQuery.window
  dsimp only
  rw [hq, GoStd.trimSpace_eq_self (encodeCursor_plain _), if_neg (encodeCursor_ne _),
    decodeCursor_encodeCursor (by omega)]
  dsimp only
  rw [hcur, hnext, hprev, if_pos hfrom, if_pos hto]

/-! ## Windows within the first -/

structure CutWithin (fromMS toMS : Nat) : Prop where
  le : fromMS ≤ toMS
  late : 10 ^ 12 < fromMS
  soon : toMS < 10 ^ 13
  fits : ∀ f t, fromMS ≤ f → f < t → t ≤ toMS → BucketsFit (f * 10 ^ 6) (t * 10 ^ 6 + hourNanos) hourNanos

theorem CutWithin.of_recent {fromMS toMS : Nat} (hle : fromMS ≤ toMS) (hlate : 10 ^ 12 < fromMS) (hsoon : toMS < 10 ^ 13)
    (h : toMS + 3600000 ≤ 2 * fromMS) : CutWithin fromMS toMS :=
  ⟨hle, hlate, hsoon, fun f t hf _ ht => BucketsFit.of_recent (by unfold hourNanos; omega)⟩

theorem CutWithin.cut {fromMS toMS : Nat} (h : CutWithin fromMS toMS) {f t : Nat} (hf : fromMS ≤ f) (hf' : f ≤ toMS)
    (ht : fromMS ≤ t + 1) (ht' : t ≤ toMS) : Cut f t := by
  obtain ⟨hle, hlate, hsoon, hfits⟩ := h
  exact ⟨⟨by omega, by omega⟩, ⟨by omega, by omega⟩, fun hlt => hfits f t hf hlt ht'⟩

theorem CutWithin.clamp {fromMS toMS : Nat} (h : CutWithin fromMS toMS) {f t : Nat} (hf : fromMS ≤ f) (hf' : f ≤ toMS)
    (ht : fromMS ≤ t + 1) (ht' : t ≤ toMS) {traceRange : Option (Nat × Nat)} {f' t' : Nat}
    (hclamp : clampToTraces traceRange f t = some (f', t')) : Cut f' t' := by
  unfold clampToTraces at hclamp
  dsimp only at hclamp
  split at hclamp
  · cases hclamp
    exact h.cut hf hf' ht ht'
  · split at hclamp
    · split at hclamp
      · cases hclamp
      · rename_i hover
        cases hclamp
        refine h.cut ?_ ?_ ?_ ?_ <;> split <;> omega
    · cases hclamp
      exact h.cut hf hf' ht ht'

/-! ## What is left -/

section Follow

variable {all : List (RawRow D)} {q : ListQuery}

def firstRows (all : List (RawRow D)) (q : ListQuery) : List (RawRow D) :=
  traced q.traceRange (windowRows all q.fromMS q.toMS)

structure Left (all : List (RawRow D)) (q : ListQuery) (rows : List (RawRow D)) : Prop where
  window : traced q.traceRange (windowRows all q.window.1 q.window.2) = rows
  suffix : rows <:+ firstRows all q
  cut : ∀ f t, clampToTraces q.traceRange q.window.1 q.window.2 = some (f, t) → Cut f t

theorem mem_firstRows {row : RawRow D} (h : row ∈ firstRows all q) : q.fromMS ≤ row.unixMilli ∧ row.unixMilli < q.toMS := by
  have hin := Contiguous.mem_between.1 (mem_filter.1 h).1
  unfold RawRow.unixMilli
  omega

theorem beyond_up (hs : Ordered q.isAsc all) : (firstRows all q).Pairwise (fun a b =>
    ∀ last, beyond q.isAsc last a = true → beyond q.isAsc last b = true) := by
  have hsub : (firstRows all q).Sublist all := filter_sublist.trans filter_sublist
  refine (hs.sublist hsub).imp (fun {a b} hab last ha => ?_)
  unfold beyond RawRow.unixMilli at *
  cases hasc : q.isAsc <;> simp only [hasc, if_true, if_false, Bool.false_eq_true, decide_eq_true_eq] at * <;> omega

theorem not_beyond (hs : Ordered q.isAsc all) {pre post : List (RawRow D)} {last : RawRow D}
    (h : firstRows all q = pre ++ last :: post) : ∀ a ∈ pre ++ [last], beyond q.isAsc last a = false := by
  have hself : beyond q.isAsc last last = false := by
    unfold beyond
    split <;> simp
  have hpair := beyond_up hs
  rw [h, pairwise_append] at hpair
  intro a ha
  rcases mem_append.1 ha with ha | ha
  · by_contra hc
    have hlast := hpair.2.2 a ha last mem_cons_self last (Bool.not_eq_false _ ▸ hc)
    rw [hself] at hlast
    cases hlast
  · rw [mem_singleton.1 ha, hself]

theorem windowRows_beyond (hin : CutWithin q.fromMS q.toMS) {last : RawRow D} (hlast : last ∈ firstRows all q) :
    traced q.traceRange (windowRows all ({ q with cursor := encodeCursor last.unixMilli } : ListQuery).window.1
        ({ q with cursor := encodeCursor last.unixMilli } : ListQuery).window.2) =
      (firstRows all q).filter (beyond q.isAsc last) := by
  obtain ⟨-, hlate, hsoon, -⟩ := hin
  obtain ⟨hfrom, hto⟩ := mem_firstRows hlast
  have hwindow := @window_of_cursor { q with cursor := encodeCursor last.unixMilli } last.unixMilli rfl (by omega)
    (by omega) hfrom hto.le
  have hrow : ∀ row : RawRow D,
      decide ((if q.isAsc then (last.unixMilli + 1, q.toMS) else (q.fromMS, last.unixMilli - 1)).1 * 10 ^ 6 ≤ row.timestamp ∧
        row.timestamp < (if q.isAsc then (last.unixMilli + 1, q.toMS) else (q.fromMS, last.unixMilli - 1)).2 * 10 ^ 6) =
      (beyond q.isAsc last row && decide (q.fromMS * 10 ^ 6 ≤ row.timestamp ∧ row.timestamp < q.toMS * 10 ^ 6)) := by
    intro row
    clear hwindow hlast hlate hsoon
    rw [Bool.eq_iff_iff, Bool.and_eq_true, decide_eq_true_eq, decide_eq_true_eq]
    unfold beyond
    cases q.isAsc with
    | false =>
      simp only [Bool.false_eq_true, if_false, decide_eq_true_eq]
      unfold RawRow.unixMilli at *
      omega
    | true =>
      simp only [if_true, decide_eq_true_eq]
      unfold RawRow.unixMilli at *
      omega
  rw [hwindow]
  unfold firstRows traced windowRows rowsBetween Contiguous.between
  rw [List.filter_filter, List.filter_filter, List.filter_filter]
  refine filter_congr (fun row _ => ?_)
  rw [hrow, Bool.and_left_comm, Bool.and_assoc]

theorem Left.next (hs : Ordered q.isAsc all) (hin : CutWithin q.fromMS q.toMS) {pre post : List (RawRow D)} {last : RawRow D}
    (h : Left all q (pre ++ last :: post)) :
    Left all { q with cursor := encodeCursor last.unixMilli } (post.filter (beyond q.isAsc last)) := by
  obtain ⟨before, hbefore⟩ := h.suffix
  have hfirst : firstRows all q = (before ++ pre) ++ last :: post := by rw [List.append_assoc, hbefore]
  have hlast : last ∈ firstRows all q := by rw [hfirst]; simp
  have hpost : post <:+ firstRows all q := ⟨(before ++ pre) ++ [last], by rw [hfirst, ← append_cons]⟩
  obtain ⟨hfrom, hto⟩ := mem_firstRows hlast
  refine ⟨?_, ?_, fun f t hclamp => ?_⟩
  · have hnone : ((before ++ pre) ++ [last]).filter (beyond q.isAsc last) = [] :=
      filter_eq_nil_iff.2 (fun a ha => by rw [not_beyond hs hfirst a ha]; exact Bool.false_ne_true)
    refine (windowRows_beyond hin hlast).trans ?_
    rw [hfirst, append_cons, filter_append, hnone, nil_append]
  · have hup := ((beyond_up hs).sublist hpost.sublist).imp (fun h => h last)
    exact (Paging.filter_suffix hup).trans hpost
  · have hwindow := @window_of_cursor { q with cursor := encodeCursor last.unixMilli } last.unixMilli rfl
      (by have := hin.late; omega) (by have := hin.soon; omega) hfrom hto.le
    rw [hwindow] at hclamp
    have hle := hin.le
    refine hin.clamp ?_ ?_ ?_ ?_ hclamp <;> dsimp only <;> split <;> dsimp only <;> omega

theorem nextCursor_short {limit : Nat} {rows : List (RawRow D)} (h : rows.length < limit) : nextCursor limit rows = "" :=
  if_neg (Nat.ne_of_lt h)

theorem nextCursor_full {limit : Nat} {page : List (RawRow D)} {last : RawRow D} (h : (page ++ [last]).length = limit) :
    nextCursor limit (page ++ [last]) = encodeCursor last.unixMilli := by
  rw [nextCursor, if_pos h, List.getLast?_concat]
  rfl

/-- **One page is one step of the walk.** -/
theorem Left.page (hs : Ordered q.isAsc all) {rows : List (RawRow D)} (h : Left all q rows) {fuel : Nat} {page : Page D}
    (hpage : executeWindowList fuel all q = some page) :
    (page.nextCursor = "" ∧ Paging.walk (beyond q.isAsc) q.reqLimit q.offset rows = page.rows) ∨
    ∃ pre last post, rows = pre ++ last :: post ∧ page.nextCursor = encodeCursor last.unixMilli ∧
      Paging.walk (beyond q.isAsc) q.reqLimit q.offset rows =
        page.rows ++ Paging.walk (beyond q.isAsc) q.reqLimit q.offset (post.filter (beyond q.isAsc last)) := by
  obtain ⟨hrows, hnext⟩ := executeWindowList_rows hs h.cut hpage
  rw [h.window] at hrows
  rcases Paging.page_cases (reqLimit_pos q) (rows.drop q.offset) with hlt | ⟨before, last, post, hsplit, hlen⟩
  · have hshort : ((rows.drop q.offset).take q.reqLimit).length < q.reqLimit := by
      rw [length_take]
      omega
    refine .inl ⟨?_, ?_⟩
    · rw [hnext, hrows, nextCursor_short hshort]
    · rw [Paging.walk_short hshort, hrows, take_of_length_le hlt.le]
  · have hfull : (rows.drop q.offset).take q.reqLimit = before ++ [last] := by
      rw [hsplit, ← hlen, append_cons before last post, take_left]
    refine .inr ⟨rows.take q.offset ++ before, last, post, ?_, ?_, ?_⟩
    · rw [List.append_assoc, ← hsplit, take_append_drop]
    · rw [hnext, hrows, hfull, nextCursor_full hlen]
    · rw [Paging.walk_full hsplit hlen, hrows, hfull]

/-- **The pages are those of the walk.** -/
theorem follow_eq_walk {fuel : Nat} : ∀ {pages : Nat} {q : ListQuery} {rows out : List (RawRow D)}, Ordered q.isAsc all →
    CutWithin q.fromMS q.toMS → Left all q rows → follow fuel all pages q = some out →
    out = Paging.walk (beyond q.isAsc) q.reqLimit q.offset rows
  | 0, _, _, _, _, _, _, hout => by cases hout
  | pages + 1, q, rows, out, hs, hin, h, hout => by
    rw [follow] at hout
    obtain ⟨page, hpage, hout⟩ := bind_eq_some_iff.1 hout
    rcases h.page hs hpage with ⟨hnext, hwalk⟩ | ⟨pre, last, post, rfl, hnext, hwalk⟩
    · rw [if_pos hnext] at hout
      rw [hwalk]
      exact (some_inj.1 hout).symm
    · rw [hnext, if_neg (encodeCursor_ne _)] at hout
      obtain ⟨rest, hrest, rfl⟩ := map_eq_some_iff.1 hout
      have hleft := h.next hs hin
      rw [hwalk, @follow_eq_walk _ pages { q with cursor := encodeCursor last.unixMilli } _ rest hs hin hleft hrest]
      rfl

/-! ## Fuel -/

theorem executeWindowList_mono {fuel fuel' : Nat} {page : Page D} (hle : fuel ≤ fuel')
    (h : executeWindowList fuel all q = some page) : executeWindowList fuel' all q = some page := by
  unfold executeWindowList at h ⊢
  split
  · rename_i hclamp
    rw [hclamp] at h
    exact h
  · rename_i fromMS toMS hclamp
    rw [hclamp] at h
    obtain ⟨buckets, hbuckets, rfl⟩ := map_eq_some_iff.1 h
    rw [makeBuckets_mono hle hbuckets]
    rfl

theorem follow_mono {fuel fuel' : Nat} (hle : fuel ≤ fuel') : ∀ {pages : Nat} {q : ListQuery} {out : List (RawRow D)},
    follow fuel all pages q = some out → follow fuel' all pages q = some out
  | 0, _, _, h => by cases h
  | pages + 1, q, out, h => by
    rw [follow] at h ⊢
    obtain ⟨page, hpage, hout⟩ := bind_eq_some_iff.1 h
    rw [executeWindowList_mono hle hpage, bind_some]
    split
    · rename_i hnext
      rwa [if_pos hnext] at hout
    · rename_i hnext
      rw [if_neg hnext] at hout
      obtain ⟨rest, hrest, rfl⟩ := map_eq_some_iff.1 hout
      rw [follow_mono hle hrest]
      rfl

/-- **The pages come to an end**: a full page leaves fewer rows. -/
theorem follow_returns : ∀ (n : Nat) {q : ListQuery} {rows : List (RawRow D)}, rows.length ≤ n → Ordered q.isAsc all →
    CutWithin q.fromMS q.toMS → Left all q rows → ∃ fuel out, follow fuel all (n + 1) q = some out := by
  intro n q rows hn hs hin h
  obtain ⟨fuel, page, hpage⟩ := executeWindowList_returns h.cut
  rcases h.page hs hpage with ⟨hnext, -⟩ | ⟨pre, last, post, rfl, hnext, -⟩
  · exact ⟨fuel, page.rows, by rw [follow, hpage, bind_some, if_pos hnext]⟩
  · rw [List.length_append, length_cons] at hn
    have hlen := length_filter_le (beyond q.isAsc last) post
    cases n with
    | zero => omega
    | succ n =>
      obtain ⟨fuel', rest, hrest⟩ := @follow_returns n { q with cursor := encodeCursor last.unixMilli } _ (by omega) hs hin
        (h.next hs hin)
      refine ⟨max fuel fuel', page.rows ++ rest, ?_⟩
      rw [follow, executeWindowList_mono (Nat.le_max_left _ _) hpage, bind_some, hnext, if_neg (encodeCursor_ne _),
        follow_mono (Nat.le_max_right _ _) hrest]
      rfl

end Follow

/-! ## Every row once -/

theorem left_first {all : List (RawRow D)} {q : ListQuery} (hcursor : GoStd.trimSpace q.cursor = "")
    (hin : CutWithin q.fromMS q.toMS) : Left all q (firstRows all q) := by
  refine ⟨?_, suffix_rfl, fun f t hclamp => ?_⟩
  · rw [window_of_blank hcursor]
    rfl
  · rw [window_of_blank hcursor] at hclamp
    have hle := hin.le
    exact hin.clamp le_rfl hle (by omega) le_rfl hclamp

/-- **Following the cursors gives every row of the window once, in order**, exactly where no row is outside the time range of
the traces, the query has no offset or the window no rows, and the last row of every full page and the next row are apart:
in ascending order by their milliseconds, in descending order by two. -/
theorem follow_iff {all : List (RawRow D)} {q : ListQuery} (hs : Ordered q.isAsc all)
    (hcursor : GoStd.trimSpace q.cursor = "") (hin : CutWithin q.fromMS q.toMS) :
    (∃ fuel pages, follow fuel all pages q = some (windowRows all q.fromMS q.toMS)) ↔
      Covers all q ∧ (windowRows all q.fromMS q.toMS = [] ∨ q.offset = 0) ∧
        Paging.Apart (beyond q.isAsc) q.reqLimit (windowRows all q.fromMS q.toMS) := by
  have hleft := @left_first D all q hcursor hin
  have hpos := reqLimit_pos q
  have hrun : (∃ fuel pages, follow fuel all pages q = some (windowRows all q.fromMS q.toMS)) ↔
      Paging.walk (beyond q.isAsc) q.reqLimit q.offset (firstRows all q) = windowRows all q.fromMS q.toMS := by
    constructor
    · rintro ⟨fuel, pages, hout⟩
      exact (follow_eq_walk hs hin hleft hout).symm
    · intro hwalk
      obtain ⟨fuel, out, hout⟩ := follow_returns _ le_rfl hs hin hleft
      exact ⟨fuel, _, by rw [hout, follow_eq_walk hs hin hleft hout, hwalk]⟩
  have hsub : (Paging.walk (beyond q.isAsc) q.reqLimit q.offset (firstRows all q)).Sublist ((firstRows all q).drop q.offset) :=
    Paging.walk_sublist hpos _
  have hfirst : (firstRows all q).Sublist (windowRows all q.fromMS q.toMS) := filter_sublist
  rw [hrun, covers_iff]
  constructor
  · intro hwalk
    have hlen := hsub.length_le
    rw [hwalk, length_drop] at hlen
    have hall : firstRows all q = windowRows all q.fromMS q.toMS :=
      hfirst.eq_of_length_le (by omega)
    have hoffset : windowRows all q.fromMS q.toMS = [] ∨ q.offset = 0 := by
      rw [hall] at hlen
      rw [← List.length_eq_zero_iff]
      omega
    refine ⟨hall, hoffset, ?_⟩
    rcases hoffset with hnil | hzero
    · rw [hnil]
      exact Paging.apart_short hpos
    · rw [hzero, hall] at hwalk
      exact (Paging.walk_eq_iff hpos (hall ▸ beyond_up hs)).1 hwalk
  · rintro ⟨hall, hoffset, hapart⟩
    have hall' : firstRows all q = windowRows all q.fromMS q.toMS := hall
    rw [hall'] at hsub ⊢
    rcases hoffset with hnil | hzero
    · rw [hnil] at hsub ⊢
      rw [drop_nil] at hsub
      exact eq_nil_of_sublist_nil hsub
    · rw [hzero]
      exact (Paging.walk_eq_iff hpos (hall' ▸ beyond_up hs)).2 hapart

/-- Three rows that are two milliseconds apart and more, in pages of one. -/
theorem apart_followed : ∃ fuel pages,
    follow fuel [⟨1700000000900000000, "c"⟩, ⟨1700000000500999999, "b"⟩, ⟨1700000000498999999, "a"⟩] pages
      ⟨false, "", 1700000000000, 1700000001000, 1, 0, none⟩ =
    some (windowRows [⟨1700000000900000000, "c"⟩, ⟨1700000000500999999, "b"⟩, ⟨1700000000498999999, "a"⟩]
      1700000000000 1700000001000) := by
  refine (follow_iff (by simp [Ordered]) (by decide)
    (CutWithin.of_recent (by decide) (by decide) (by decide) (by decide))).2 ⟨fun _ _ => rfl, .inr rfl, ?_⟩
  have hrows : windowRows [⟨1700000000900000000, "c"⟩, ⟨1700000000500999999, "b"⟩, ⟨1700000000498999999, "a"⟩]
      1700000000000 1700000001000 =
      [⟨1700000000900000000, "c"⟩, ⟨1700000000500999999, "b"⟩, ⟨1700000000498999999, "a"⟩] := by decide
  rw [hrows]
  intro k a b ha hb
  rcases k with _ | _ | k
  · cases ha; cases hb; decide
  · cases ha; cases hb; decide
  · cases hb

/-- Two rows of one millisecond in pages of one: the second is never seen. -/
theorem follow_tie : ¬ ∃ fuel pages,
    follow fuel [⟨1700000000500000001, "b"⟩, ⟨1700000000500000000, "a"⟩] pages
      ⟨false, "", 1700000000000, 1700000001000, 1, 0, none⟩ =
    some (windowRows [⟨1700000000500000001, "b"⟩, ⟨1700000000500000000, "a"⟩] 1700000000000 1700000001000) := by
  rintro ⟨fuel, pages, h⟩
  have hs : Ordered false [⟨1700000000500000001, "b"⟩, (⟨1700000000500000000, "a"⟩ : RawRow String)] := by simp [Ordered]
  have hin : CutWithin 1700000000000 1700000001000 :=
    CutWithin.of_recent (by decide) (by decide) (by decide) (by decide)
  have hwalk := @follow_eq_walk String _ fuel pages ⟨false, "", 1700000000000, 1700000001000, 1, 0, none⟩ _ _ hs hin
    (left_first (by decide) hin) h
  have hapart := (Paging.walk_eq_iff (by decide) (beyond_up hs)).1 hwalk.symm
  have hbeyond := hapart 0 ⟨1700000000500000001, "b"⟩ ⟨1700000000500000000, "a"⟩ (by decide) (by decide)
  revert hbeyond
  decide

end Querier
end DsApm
