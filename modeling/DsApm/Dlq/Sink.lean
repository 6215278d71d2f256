import DsApm.Dlq.Entry
import DsApm.Lib.Calendar
import DsApm.Lib.GoMap
import Mathlib.Data.String.Basic
/-!
# Sink — the files of the dead letters

An entry is appended to the active file; one that would grow past its size is renamed to the reading of the clock first.  The
reader takes the renamed files in the order of their names and then the active one, each through a scanner of a bounded
buffer.  It gives what was written where no line is too long for that buffer and each renaming has a later name than the one
before, and entries that differ from each other it gives only there (`readEntries_written`).  The path has no pattern
characters, and writes succeed.
-/
namespace DsApm
namespace Dlq

open List

open GoStd (Time)

/-! ## Writing -/

/-- The files: what was renamed, under its suffix, and the active one. -/
structure Sink where
  rotated : GoMap String (List Char)
  primary : List Char
  written : Nat

def newSink : Sink := ⟨∅, [], 0⟩

def pad (width : Nat) (n : Int) : List Char := (Nat.toDigits 10 n.toNat).leftpad width '0'

def stamp (now : Time) : String :=
  let month := Calendar.month 0 now
  String.ofList (pad 4 (Calendar.yearOf month) ++ pad 2 (Calendar.monthNo month) ++ pad 2 (Calendar.dayOfMonth 0 now) ++ ['T'] ++
    pad 2 (Calendar.hourOf 0 now) ++ pad 2 (Calendar.minuteOf 0 now) ++ pad 2 (Calendar.secondOf 0 now) ++ ['.'] ++
    pad 9 (Calendar.nanosecondOf 0 now) ++ ['Z'])

/-- `rotateLocked`: a file that has the name is replaced. -/
def Sink.rotateLocked (s : Sink) (now : Time) : Sink := ⟨s.rotated.insert (stamp now) s.primary, [], 0⟩

def Sink.write (rotateBytes : Nat) (s : Sink) (e : Entry) (now : Time) : Sink :=
  let line := e.marshal ++ ['\n']
  let s := if 0 < s.written ∧ rotateBytes < s.written + Lines.size line then s.rotateLocked now else s
  { s with primary := s.primary ++ line, written := s.written + Lines.size line }

def Sink.writes (rotateBytes : Nat) (s : Sink) (ws : List (Entry × Time)) : Sink :=
  ws.foldl (fun s w => s.write rotateBytes w.1 w.2) s

/-! ## Reading -/

def buffer : Nat := 8 * 1024 * 1024

def readLines : List (List Char) → Option (List Entry)
  | [] => some []
  | l :: ls =>
    if l = [] then readLines ls
    else match unmarshal l, readLines ls with
      | some e, some es => some (e :: es)
      | _, _ => none

def readEntriesFromFile (content : List Char) : Option (List Entry) :=
  match Lines.scan buffer content with
  | none => none
  | some ls => readLines ls

def readFiles : List (List Char) → Option (List Entry)
  | [] => some []
  | f :: fs =>
    match readEntriesFromFile f, readFiles fs with
    | some es, some rest => some (es ++ rest)
    | _, _ => none

def Sink.sorted (s : Sink) : List (Sigma fun _ : String => List Char) := s.rotated.entries.insertionSort fun a b => a.1 ≤ b.1

def Sink.readEntries (s : Sink) : Option (List Entry) := readFiles (s.sorted.map Sigma.snd ++ [s.primary])

/-! ## What is in the files -/

def file (es : List Entry) : List Char := Lines.join (es.map Entry.marshal)

def Entry.Fits (e : Entry) : Prop := Lines.size e.marshal < buffer

instance (e : Entry) : Decidable e.Fits := inferInstanceAs (Decidable (_ < _))

theorem readLines_marshal : ∀ es : List Entry, readLines (es.map Entry.marshal) = some es
  | [] => rfl
  | e :: es => by
    have hne : e.marshal ≠ [] := fun h => by simpa [h] using marshal_last e
    rw [map_cons, readLines, if_neg hne, unmarshal_marshal, readLines_marshal es]

theorem readEntriesFromFile_file (es : List Entry) : readEntriesFromFile (file es) = if ∀ e ∈ es, e.Fits then some es else none := by
  have hlines : ∀ l ∈ es.map Entry.marshal, '\n' ∉ l ∧ l.getLast? ≠ some '\r' := by
    rw [List.forall_mem_map]
    exact fun e _ => ⟨marshal_oneLine e, by rw [marshal_last]; decide⟩
  have hfits : (∀ l ∈ es.map Entry.marshal, Lines.size l < buffer) ↔ ∀ e ∈ es, e.Fits := List.forall_mem_map
  unfold readEntriesFromFile file
  rw [Lines.scan_join hlines]
  by_cases h : ∀ e ∈ es, e.Fits
  · rw [if_pos h, if_pos (hfits.2 h)]
    exact readLines_marshal es
  · rw [if_neg h, if_neg fun hl => h (hfits.1 hl)]

theorem readFiles_file : ∀ bs : List (List Entry),
    readFiles (bs.map file) = if ∀ b ∈ bs, ∀ e ∈ b, e.Fits then some bs.flatten else none
  | [] => rfl
  | b :: bs => by
    rw [map_cons, readFiles, readEntriesFromFile_file, readFiles_file bs, List.flatten_cons]
    by_cases hb : ∀ e ∈ b, e.Fits
    · by_cases hbs : ∀ b ∈ bs, ∀ e ∈ b, e.Fits
      · rw [if_pos hb, if_pos hbs, if_pos (forall_mem_cons.2 ⟨hb, hbs⟩)]
      · rw [if_pos hb, if_neg hbs, if_neg fun h => hbs (forall_mem_cons.1 h).2]
    · rw [if_neg hb, if_neg fun h => hb (forall_mem_cons.1 h).1]

/-! ## The layout of the entries -/

/-- What was renamed, under its suffix, one after the other, and what is in the active file. -/
structure Layout where
  blocks : List (String × List Entry)
  current : List Entry

def Layout.entries (l : Layout) : List Entry := l.blocks.flatMap Prod.snd ++ l.current

def Layout.write (rotateBytes : Nat) (l : Layout) (w : Entry × Time) : Layout :=
  if l.current ≠ [] ∧ rotateBytes < Lines.size (file l.current) + Lines.size (w.1.marshal ++ ['\n']) then
    ⟨l.blocks ++ [(stamp w.2, l.current)], [w.1]⟩
  else ⟨l.blocks, l.current ++ [w.1]⟩

def layout (rotateBytes : Nat) (ws : List (Entry × Time)) : Layout := ws.foldl (Layout.write rotateBytes) ⟨[], []⟩

/-- The files of a layout; of two blocks under one suffix the later is left. -/
def Layout.sink (l : Layout) : Sink :=
  ⟨l.blocks.foldl (fun m b => m.insert b.1 (file b.2)) ∅, file l.current, Lines.size (file l.current)⟩

theorem file_append (es : List Entry) (e : Entry) : file (es ++ [e]) = file es ++ (e.marshal ++ ['\n']) := by
  simp [file, Lines.join]

theorem size_file_pos {es : List Entry} : 0 < Lines.size (file es) ↔ es ≠ [] := by
  cases es with
  | nil => simp [file, Lines.join, Lines.size]
  | cons e es =>
    have : 0 < Lines.size (file (e :: es)) := by
      simp only [file, Lines.join, map_cons, flatMap_cons, Lines.size_append]
      have : 0 < Lines.size ['\n'] := by decide
      omega
    simpa using this

/-- **One write** is a write of the layout. -/
theorem sink_write (rotateBytes : Nat) (l : Layout) (w : Entry × Time) :
    l.sink.write rotateBytes w.1 w.2 = (l.write rotateBytes w).sink := by
  unfold Sink.write Layout.write
  dsimp only
  have hcond : (0 < l.sink.written ∧ rotateBytes < l.sink.written + Lines.size (w.1.marshal ++ ['\n'])) ↔
      (l.current ≠ [] ∧ rotateBytes < Lines.size (file l.current) + Lines.size (w.1.marshal ++ ['\n'])) :=
    and_congr_left' size_file_pos
  by_cases h : l.current ≠ [] ∧ rotateBytes < Lines.size (file l.current) + Lines.size (w.1.marshal ++ ['\n'])
  · rw [if_pos h, if_pos (hcond.2 h)]
    simp [Sink.rotateLocked, Layout.sink, file, Lines.join, Lines.size]
  · rw [if_neg h, if_neg fun hs => h (hcond.1 hs)]
    simp only [Layout.sink, file_append, Lines.size_append]

theorem sink_writes (rotateBytes : Nat) (ws : List (Entry × Time)) (l : Layout) :
    l.sink.writes rotateBytes ws = (ws.foldl (Layout.write rotateBytes) l).sink := by
  induction ws generalizing l with
  | nil => rfl
  | cons w ws ih =>
    have hcons : l.sink.writes rotateBytes (w :: ws) = (l.sink.write rotateBytes w.1 w.2).writes rotateBytes ws := rfl
    rw [hcons, sink_write, ih, foldl_cons]

theorem layout_entries (rotateBytes : Nat) : ∀ (ws : List (Entry × Time)) (l : Layout), (∀ b ∈ l.blocks, b.2 ≠ []) →
    (ws.foldl (Layout.write rotateBytes) l).entries = l.entries ++ ws.map Prod.fst ∧
      ∀ b ∈ (ws.foldl (Layout.write rotateBytes) l).blocks, b.2 ≠ []
  | [], l, h => ⟨by simp, h⟩
  | w :: ws, l, h => by
    have hstep : (l.write rotateBytes w).entries = l.entries ++ [w.1] ∧ ∀ b ∈ (l.write rotateBytes w).blocks, b.2 ≠ [] := by
      unfold Layout.write
      split_ifs with hc
      · refine ⟨by simp [Layout.entries], fun b hb => ?_⟩
        rcases mem_append.1 hb with hb | hb
        · exact h b hb
        · rw [mem_singleton.1 hb]; exact hc.1
      · exact ⟨by simp [Layout.entries], h⟩
    obtain ⟨hentries, hblocks⟩ := layout_entries rotateBytes ws (l.write rotateBytes w) hstep.2
    exact ⟨by rw [foldl_cons, hentries, hstep.1]; simp, hblocks⟩

/-! ## The order of the files -/

theorem mem_sorted {s : Sink} {k : String} {c : List Char} : ⟨k, c⟩ ∈ s.sorted ↔ s.rotated.lookup k = some c := by
  rw [Sink.sorted, mem_insertionSort]
  exact AList.mem_lookup_iff.symm

theorem sorted_pairwise (s : Sink) : s.sorted.Pairwise fun a b => a.1 < b.1 := by
  have htotal : Std.Total fun a b : Sigma fun _ : String => List Char => a.1 ≤ b.1 := ⟨fun a b => le_total a.1 b.1⟩
  have htrans : IsTrans (Sigma fun _ : String => List Char) fun a b => a.1 ≤ b.1 := ⟨fun a b c => le_trans⟩
  have hle : s.sorted.Pairwise fun a b => a.1 ≤ b.1 := pairwise_insertionSort _ _
  have hne : s.sorted.Pairwise fun a b => a.1 ≠ b.1 := by
    refine (List.Perm.pairwise_iff (fun hab => Ne.symm hab) (perm_insertionSort _ _)).2 ?_
    exact nodupKeys_iff_pairwise.1 s.rotated.nodupKeys
  exact (hle.and hne).imp fun h => lt_of_le_of_ne h.1 h.2

theorem lookup_blocks {k : String} {c : List Char} : ∀ (bs : List (String × List Entry)) (m : GoMap String (List Char)),
    (bs.foldl (fun m b => m.insert b.1 (file b.2)) m).lookup k = some c →
      (∃ b ∈ bs, b.1 = k ∧ file b.2 = c) ∨ m.lookup k = some c
  | [], m, h => Or.inr h
  | b :: bs, m, h => by
    rcases lookup_blocks bs (m.insert b.1 (file b.2)) h with ⟨b', hb', hk⟩ | h
    · exact Or.inl ⟨b', mem_cons_of_mem _ hb', hk⟩
    · rcases eq_or_ne k b.1 with rfl | hne
      · rw [AList.lookup_insert] at h
        exact Or.inl ⟨b, mem_cons_self, rfl, Option.some.inj h⟩
      · rw [AList.lookup_insert_ne hne] at h
        exact Or.inr h

def entryOf (b : String × List Entry) : Sigma fun _ : String => List Char := ⟨b.1, file b.2⟩

theorem exists_map {bs : List (String × List Entry)} : ∀ S : List (Sigma fun _ : String => List Char),
    (∀ x ∈ S, ∃ b ∈ bs, entryOf b = x) → ∃ L : List (String × List Entry), (∀ b ∈ L, b ∈ bs) ∧ S = L.map entryOf
  | [], _ => ⟨[], by simp, rfl⟩
  | x :: S, h => by
    rw [forall_mem_cons] at h
    obtain ⟨⟨b, hb, rfl⟩, hS⟩ := h
    obtain ⟨L, hL, rfl⟩ := exists_map S hS
    exact ⟨b :: L, forall_mem_cons.2 ⟨hb, hL⟩, rfl⟩

theorem sorted_blocks (l : Layout) :
    ∃ L : List (String × List Entry), (∀ b ∈ L, b ∈ l.blocks) ∧ l.sink.sorted = L.map entryOf := by
  refine exists_map _ fun x hx => ?_
  obtain ⟨k, c⟩ := x
  rcases lookup_blocks l.blocks ∅ (mem_sorted.1 hx) with ⟨b, hb, rfl, rfl⟩ | h
  · exact ⟨b, hb, rfl⟩
  · rw [AList.lookup_empty] at h; cases h

def Layout.Ordered (l : Layout) : Prop := (l.blocks.map Prod.fst).Pairwise (· < ·)

theorem sorted_ordered {l : Layout} (h : l.Ordered) : l.sink.sorted = l.blocks.map entryOf := by
  have hirrefl : Std.Irrefl fun a b : Sigma fun _ : String => List Char => a.1 < b.1 := ⟨fun a => lt_irrefl a.1⟩
  have hanti : Std.Antisymm fun a b : Sigma fun _ : String => List Char => a.1 < b.1 := ⟨fun a b hab hba => absurd hba (lt_asymm hab)⟩
  have hblocks : (l.blocks.map entryOf).Pairwise fun a b => a.1 < b.1 := by
    rw [pairwise_map]
    exact pairwise_map.1 h
  have hnd : (l.blocks.map Prod.fst).Nodup := h.imp fun hab => ne_of_lt hab
  refine (sorted_pairwise l.sink).eq_of_mem_iff hblocks fun x => ⟨fun hx => ?_, fun hx => ?_⟩
  · obtain ⟨L, hL, hsorted⟩ := sorted_blocks l
    rw [hsorted] at hx
    obtain ⟨b, hb, rfl⟩ := List.mem_map.1 hx
    exact List.mem_map_of_mem (hL b hb)
  · obtain ⟨b, hb, rfl⟩ := List.mem_map.1 hx
    exact mem_sorted.2 (GoMap.lookup_foldl_put_of_mem (fun es _ => file es) l.blocks ∅ hnd hb)

/-- **What the reader gives** of blocks that are the sorted files. -/
theorem readEntries_sorted {l : Layout} {L : List (String × List Entry)} (h : l.sink.sorted = L.map entryOf) :
    l.sink.readEntries =
      if ∀ b ∈ L.map Prod.snd ++ [l.current], ∀ e ∈ b, e.Fits then some (L.flatMap Prod.snd ++ l.current) else none := by
  have hfiles : l.sink.sorted.map Sigma.snd ++ [l.sink.primary] = (L.map Prod.snd ++ [l.current]).map file := by
    rw [h]
    simp [entryOf, Layout.sink]
  rw [Sink.readEntries, hfiles, readFiles_file]
  simp [flatMap_def]

theorem eq_of_flatMap : ∀ {L B : List (String × List Entry)}, (∀ b ∈ L, b ∈ B) → (∀ b ∈ B, b.2 ≠ []) →
    (B.flatMap Prod.snd).Nodup → L.flatMap Prod.snd = B.flatMap Prod.snd → L = B
  | [], [], _, _, _, _ => rfl
  | [], b :: B, _, hne, _, h => by
    rw [flatMap_nil, flatMap_cons] at h
    exact absurd (append_eq_nil_iff.1 h.symm).1 (hne b mem_cons_self)
  | x :: L, [], hsub, _, _, _ => by cases hsub x mem_cons_self
  | x :: L, b :: B, hsub, hne, hnd, h => by
    rw [forall_mem_cons] at hsub hne
    rw [flatMap_cons, nodup_append] at hnd
    have hx : x = b := by
      rcases mem_cons.1 hsub.1 with hx | hx
      · exact hx
      · -- the first entry of both would be in two blocks
        obtain ⟨e, t, hxe⟩ := exists_cons_of_ne_nil (hne.2 x hx)
        obtain ⟨e', t', hbe⟩ := exists_cons_of_ne_nil hne.1
        have hhead : e = e' := by
          rw [flatMap_cons, flatMap_cons, hxe, hbe] at h
          exact (List.cons.inj h).1
        have hb : e ∈ b.2 := by rw [hbe, hhead]; exact mem_cons_self
        have hB : e ∈ B.flatMap Prod.snd := mem_flatMap.2 ⟨x, hx, by rw [hxe]; exact mem_cons_self⟩
        exact absurd rfl (hnd.2.2 e hb e hB)
    subst hx
    have hrest : L.flatMap Prod.snd = B.flatMap Prod.snd := by simpa using h
    rw [eq_of_flatMap (fun y hy => ?_) hne.2 hnd.2.1 hrest]
    rcases mem_cons.1 (hsub.2 y hy) with rfl | hy'
    · obtain ⟨e, he⟩ := exists_mem_of_ne_nil _ hne.1
      have hin : e ∈ B.flatMap Prod.snd := hrest ▸ mem_flatMap.2 ⟨y, hy, he⟩
      exact absurd rfl (hnd.2.2 e he e hin)
    · exact hy'

/-! ## The round trip -/

theorem entries_layout (rotateBytes : Nat) (ws : List (Entry × Time)) : (layout rotateBytes ws).entries = ws.map Prod.fst :=
  (layout_entries rotateBytes ws ⟨[], []⟩ (by simp)).1

theorem writes_eq (rotateBytes : Nat) (ws : List (Entry × Time)) : newSink.writes rotateBytes ws = (layout rotateBytes ws).sink :=
  sink_writes rotateBytes ws ⟨[], []⟩

theorem mem_of_readEntries {rotateBytes : Nat} {ws : List (Entry × Time)} {es : List Entry}
    (h : (newSink.writes rotateBytes ws).readEntries = some es) : ∀ e ∈ es, e ∈ ws.map Prod.fst := by
  rw [writes_eq] at h
  obtain ⟨L, hL, hsorted⟩ := sorted_blocks (layout rotateBytes ws)
  rw [readEntries_sorted hsorted] at h
  split_ifs at h
  cases h
  rw [← entries_layout rotateBytes ws]
  intro e he
  rcases mem_append.1 he with he | he
  · obtain ⟨b, hb, heb⟩ := mem_flatMap.1 he
    exact mem_append_left _ (mem_flatMap.2 ⟨b, hL b hb, heb⟩)
  · exact mem_append_right _ he

/-- **DLQ write/read round trip.** -/
theorem readEntries_written (rotateBytes : Nat) (ws : List (Entry × Time)) :
    ((∀ w ∈ ws, w.1.Fits) ∧ (layout rotateBytes ws).Ordered →
      (newSink.writes rotateBytes ws).readEntries = some (ws.map Prod.fst)) ∧
    ((ws.map Prod.fst).Nodup → ((newSink.writes rotateBytes ws).readEntries = some (ws.map Prod.fst) ↔
      (∀ w ∈ ws, w.1.Fits) ∧ (layout rotateBytes ws).Ordered)) := by
  rw [writes_eq, ← entries_layout rotateBytes ws]
  have hfits : (∀ w ∈ ws, w.1.Fits) ↔ ∀ e ∈ (layout rotateBytes ws).entries, e.Fits := by
    rw [entries_layout, List.forall_mem_map]
  have hblocks : ∀ b ∈ (layout rotateBytes ws).blocks, b.2 ≠ [] := (layout_entries rotateBytes ws ⟨[], []⟩ (by simp)).2
  rw [hfits]
  generalize layout rotateBytes ws = l at *
  have hall : ∀ L : List (String × List Entry), (∀ b ∈ L.map Prod.snd ++ [l.current], ∀ e ∈ b, e.Fits) ↔
      ∀ e ∈ L.flatMap Prod.snd ++ l.current, e.Fits := fun L => by
    simp only [forall_mem_append, List.forall_mem_map, forall_mem_singleton, forall_mem_flatMap]
  have hgives : (∀ e ∈ l.entries, e.Fits) ∧ l.Ordered → l.sink.readEntries = some l.entries := by
    rintro ⟨hfit, hordered⟩
    rw [readEntries_sorted (sorted_ordered hordered), if_pos ((hall l.blocks).2 hfit)]
    rfl
  refine ⟨hgives, fun hnd => ⟨fun hread => ?_, hgives⟩⟩
  obtain ⟨L, hL, hsorted⟩ := sorted_blocks l
  rw [readEntries_sorted hsorted] at hread
  split_ifs at hread with hfit
  have hentries : L.flatMap Prod.snd = l.blocks.flatMap Prod.snd := append_cancel_right (Option.some.inj hread)
  have hLB : L = l.blocks := eq_of_flatMap hL hblocks (nodup_append.1 hnd).1 hentries
  subst hLB
  refine ⟨(hall l.blocks).1 hfit, ?_⟩
  have hpair := sorted_pairwise l.sink
  rw [hsorted, pairwise_map] at hpair
  exact pairwise_map.2 hpair

def letter (eventID : String) : Entry := ⟨eventID, "slack", none, "2026-05-12T00:00:00Z", ""⟩

/-- Two letters in two files, renamed once. -/
theorem readEntries_two : (newSink.writes 1 [(letter "a", 0), (letter "b", 7)]).readEntries = some [letter "a", letter "b"] := by
  refine (readEntries_written 1 [(letter "a", 0), (letter "b", 7)]).1 ⟨by decide, ?_⟩
  unfold Layout.Ordered
  decide

/-- Two renamings at one reading of the clock: the first letter is lost. -/
theorem renamed_over :
    (newSink.writes 1 [(letter "a", 7), (letter "b", 7), (letter "c", 7)]).readEntries ≠ some [letter "a", letter "b", letter "c"] := by
  decide

end Dlq
end DsApm
