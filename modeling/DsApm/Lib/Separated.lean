import Mathlib.Data.List.Basic
import Mathlib.Algebra.GroupWithZero.Nat
/-!
# Separated — lists of parts written with a separator

A part that holds the separator is read back as several.  Which lists are written alike is said by their pieces: what is left
when every part is split.
-/
open List

namespace Separated

variable {α : Type*} [DecidableEq α] {sep : α}

theorem not_mem_of_mem_splitOn : ∀ {xs p : List α}, p ∈ xs.splitOn sep → sep ∉ p
  | [], p, h => by
    rw [splitOn_nil, mem_singleton] at h
    simp [h]
  | x :: xs, p, h => by
    rw [splitOn_cons_eq_if_modifyHead] at h
    split at h
    · rcases mem_cons.1 h with rfl | h
      · exact not_mem_nil
      · exact not_mem_of_mem_splitOn h
    · rename_i hx
      cases hs : xs.splitOn sep with
      | nil => exact absurd hs (splitOn_ne_nil _ _)
      | cons q qs =>
        have hparts : ∀ p ∈ q :: qs, sep ∉ p := fun p hp => not_mem_of_mem_splitOn (hs ▸ hp)
        rw [hs, modifyHead_cons, mem_cons] at h
        rcases h with rfl | h
        · rw [mem_cons]
          rintro (rfl | hq)
          · exact hx (beq_self_eq_true _)
          · exact hparts q mem_cons_self hq
        · exact hparts p (mem_cons_of_mem _ h)

/-- **The pieces of what is written** are the pieces of the parts. -/
theorem splitOn_intercalate_flatMap : ∀ {xs : List (List α)}, xs ≠ [] →
    ([sep].intercalate xs).splitOn sep = xs.flatMap (List.splitOn sep)
  | [x], _ => by simp
  | x :: y :: xs, _ => by
    rw [flatMap_cons, List.intercalate_cons_cons, List.append_assoc, singleton_append, splitOn_append_cons_self,
      splitOn_intercalate_flatMap (cons_ne_nil y xs)]

/-- **Parts are read back as they are** exactly when none holds the separator. -/
theorem splitOn_intercalate_iff {xs : List (List α)} (hx : xs ≠ []) :
    ([sep].intercalate xs).splitOn sep = xs ↔ ∀ x ∈ xs, sep ∉ x := by
  constructor
  · intro h x hmem
    rw [← h] at hmem
    exact not_mem_of_mem_splitOn hmem
  · intro h
    exact splitOn_intercalate sep h hx

omit [DecidableEq α] in
theorem cons_intercalate (sep : α) : ∀ {ls : List (List α)}, ls ≠ [] → sep :: [sep].intercalate ls = ls.flatMap (sep :: ·)
  | [l], _ => by simp
  | l :: l' :: ls, _ => by
    rw [List.intercalate_cons_cons, List.append_assoc, singleton_append, cons_intercalate sep (cons_ne_nil l' ls)]
    rfl

omit [DecidableEq α] in
/-- **Two texts with a separator are equal** when they are equal on both sides of it, or what is before it in one is what is before
it in the other, a separator, and more. -/
theorem append_cons_eq_iff {a b s t : List α} : a ++ sep :: s = b ++ sep :: t ↔
    (a = b ∧ s = t) ∨ (∃ more, b = a ++ sep :: more ∧ s = more ++ sep :: t) ∨ ∃ more, a = b ++ sep :: more ∧ t = more ++ sep :: s := by
  constructor
  · intro h
    rcases append_eq_append_iff.1 h with ⟨more, rfl, hs⟩ | ⟨more, rfl, ht⟩
    · cases more with
      | nil => exact .inl ⟨(append_nil a).symm, (List.cons.inj hs).2⟩
      | cons c more =>
        obtain ⟨rfl, hrest⟩ := List.cons.inj hs
        exact .inr (.inl ⟨more, rfl, hrest⟩)
    · cases more with
      | nil => exact .inl ⟨append_nil b, (List.cons.inj ht).2.symm⟩
      | cons c more =>
        obtain ⟨rfl, hrest⟩ := List.cons.inj ht
        exact .inr (.inr ⟨more, rfl, hrest⟩)
  · rintro (⟨rfl, rfl⟩ | ⟨more, rfl, rfl⟩ | ⟨more, rfl, rfl⟩) <;> simp

omit [DecidableEq α] in
theorem append_cons_inj {a b s t : List α} (ha : sep ∉ a) (hb : sep ∉ b) (h : a ++ sep :: s = b ++ sep :: t) : a = b ∧ s = t := by
  rcases append_cons_eq_iff.1 h with h | ⟨more, rfl, -⟩ | ⟨more, rfl, -⟩
  · exact h
  · exact absurd (mem_append_right a mem_cons_self) hb
  · exact absurd (mem_append_right b mem_cons_self) ha

omit [DecidableEq α] in
/-- What holds of the separator holds throughout exactly when it does in every part. -/
theorem all_intercalate {q : α → Bool} (hsep : q sep = true) : ∀ ls : List (List α),
    ([sep].intercalate ls).all q = ls.all (·.all q)
  | [] => rfl
  | [l] => by simp
  | l :: l' :: ls => by
    rw [List.intercalate_cons_cons, all_append, all_append, all_intercalate hsep (l' :: ls), all_cons (a := l)]
    simp [hsep]

/-! ## Texts -/

def join (sep : Char) (parts : List String) : String := String.ofList ([sep].intercalate (parts.map String.toList))

def split (sep : Char) (s : String) : List String := (s.toList.splitOn sep).map String.ofList

theorem split_join (sep : Char) {parts : List String} (h : parts ≠ []) : split sep (join sep parts) = parts.flatMap (split sep) := by
  have hne : parts.map String.toList ≠ [] := by simpa using h
  unfold split join
  rw [String.toList_ofList, splitOn_intercalate_flatMap hne, flatMap_map, map_flatMap]

theorem split_join_iff {sep : Char} {parts : List String} (h : parts ≠ []) :
    split sep (join sep parts) = parts ↔ ∀ p ∈ parts, sep ∉ p.toList := by
  have hne : parts.map String.toList ≠ [] := by simpa using h
  unfold split join
  rw [String.toList_ofList, ← List.forall_mem_map (P := (sep ∉ ·)), ← splitOn_intercalate_iff hne]
  constructor
  · intro hparts
    conv => rhs; rw [← hparts]
    rw [List.map_map]
    simp
  · intro hparts
    rw [hparts, List.map_map]
    simp

theorem split_inj {sep : Char} {s t : String} (h : split sep s = split sep t) : s = t := by
  have hparts : s.toList.splitOn sep = t.toList.splitOn sep :=
    (map_injective_iff.2 (fun a b hab => by simpa using congrArg String.toList hab)) h
  have hjoin : List.intercalate [sep] (s.toList.splitOn sep) = s.toList := intercalate_splitOn sep
  rw [← String.toList_inj, ← hjoin, hparts, intercalate_splitOn]

theorem split_ne_nil (sep : Char) (s : String) : split sep s ≠ [] := by
  unfold split
  simp

theorem split_append (sep : Char) (s t : String) :
    split sep (s ++ String.singleton sep ++ t) = split sep s ++ split sep t := by
  unfold split
  rw [String.toList_append, String.toList_append, String.toList_singleton, List.append_assoc, singleton_append,
    splitOn_append_cons_self, map_append]

theorem split_eq_append_iff {sep : Char} {s t : String} :
    (∃ p parts, split sep t = split sep s ++ p :: parts) ↔ ∃ rest, t = s ++ String.singleton sep ++ rest := by
  constructor
  · rintro ⟨p, parts, h⟩
    have hfree : ∀ x ∈ p :: parts, sep ∉ x.toList := by
      intro x hx
      have hin : x ∈ split sep t := by
        rw [h]
        exact mem_append_right _ hx
      obtain ⟨y, hy, rfl⟩ := List.mem_map.1 hin
      rw [String.toList_ofList]
      exact not_mem_of_mem_splitOn hy
    have hsplit : split sep t = split sep (s ++ String.singleton sep ++ join sep (p :: parts)) := by
      rw [h, split_append, (split_join_iff (cons_ne_nil _ _)).2 hfree]
    exact ⟨join sep (p :: parts), split_inj hsplit⟩
  · rintro ⟨rest, rfl⟩
    obtain ⟨p, parts, h⟩ := exists_cons_of_ne_nil (split_ne_nil sep rest)
    exact ⟨p, parts, by rw [split_append, h]⟩

end Separated

/-!
## Lines — the lines of a file, as a scanner of a bounded buffer gives them

`bufio.Scanner` with `ScanLines`: a line that the buffer cannot hold together with what ends it is an error.  Texts without
line breaks, each put on a line, are the lines that are scanned exactly when each fits (`scan_join`).
-/
namespace Lines

def size (s : List Char) : Nat := (s.map Char.utf8Size).sum

def split : List Char → List (List Char)
  | [] => []
  | c :: s =>
    if c = '\n' then [] :: split s
    else match split s with
      | [] => [[c]]
      | l :: ls => (c :: l) :: ls

def dropCR (l : List Char) : List Char := if l.getLast? = some '\r' then l.dropLast else l

def scan (buffer : Nat) (s : List Char) : Option (List (List Char)) :=
  if (split s).all fun l => decide (size l < buffer) then some ((split s).map dropCR) else none

def join (ls : List (List Char)) : List Char := ls.flatMap fun l => l ++ ['\n']

theorem split_line (s : List Char) : ∀ l : List Char, '\n' ∉ l → split (l ++ '\n' :: s) = l :: split s
  | [], _ => by simp [split]
  | c :: l, h => by
    rw [mem_cons, not_or] at h
    rw [cons_append, split, if_neg (Ne.symm h.1), split_line s l h.2]

theorem split_join : ∀ ls : List (List Char), (∀ l ∈ ls, '\n' ∉ l) → split (join ls) = ls
  | [], _ => rfl
  | l :: ls, h => by
    rw [forall_mem_cons] at h
    have hjoin : join (l :: ls) = l ++ '\n' :: join ls := by simp [join]
    rw [hjoin, split_line _ l h.1, split_join ls h.2]

theorem map_dropCR {ls : List (List Char)} (h : ∀ l ∈ ls, l.getLast? ≠ some '\r') : ls.map dropCR = ls := by
  have hid : ∀ l ∈ ls, dropCR l = id l := fun l hl => if_neg (h l hl)
  rw [map_congr_left hid, List.map_id]

/-- **Texts on lines are scanned exactly when the buffer holds each.** -/
theorem scan_join {ls : List (List Char)} (h : ∀ l ∈ ls, '\n' ∉ l ∧ l.getLast? ≠ some '\r') (buffer : Nat) :
    scan buffer (join ls) = if ∀ l ∈ ls, size l < buffer then some ls else none := by
  unfold scan
  rw [split_join ls fun l hl => (h l hl).1, map_dropCR fun l hl => (h l hl).2]
  simp

theorem size_append (s t : List Char) : size (s ++ t) = size s + size t := by simp [size]

end Lines
