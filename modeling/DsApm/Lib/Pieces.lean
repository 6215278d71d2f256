import Mathlib.Data.List.Basic
/-!
# Pieces — a text cut at its quotes

A text is cut into characters and quoted pieces; within a piece its quote is written twice.  Well-formed pieces are what their own
text is cut into (`scan_flatten`), so that a rewriting of the pieces can be followed by another scan.
-/
namespace Pieces

open List

/-- A piece of a text; the body is as it is written, a quote in it twice. -/
inductive Piece
  | char (c : Char)
  | quoted (quote : Char) (body : List Char) (closed : Bool)
  deriving DecidableEq, Repr

namespace Piece

def text : Piece → List Char
  | .char c => [c]
  | .quoted quote body true => quote :: body ++ [quote]
  | .quoted quote body false => quote :: body

def isClosed : Piece → Bool
  | .char _ => true
  | .quoted _ _ closed => closed

def opensWith (q : Char) : Piece → Bool
  | .char _ => false
  | .quoted quote _ _ => quote == q

end Piece

def flatten (ps : List Piece) : List Char := ps.flatMap Piece.text

def isQuote (c : Char) : Bool := c == '\'' || c == '"'

/-- The scan of a text, from outside quotes or from within a piece of which the body so far is known. -/
def scan : Option (Char × List Char) → List Char → List Piece
  | none, [] => []
  | none, c :: s => if isQuote c then scan (some (c, [])) s else .char c :: scan none s
  | some (quote, body), [] => [.quoted quote body false]
  | some (quote, body), [c] => if c = quote then [.quoted quote body true] else [.quoted quote (body ++ [c]) false]
  | some (quote, body), c :: d :: s =>
    if c = quote then
      if d = quote then scan (some (quote, body ++ [quote, quote])) s else .quoted quote body true :: scan none (d :: s)
    else scan (some (quote, body ++ [c])) (d :: s)

def begun : Option (Char × List Char) → List Char
  | none => []
  | some (quote, body) => quote :: body

@[simp] theorem flatten_nil : flatten [] = [] := rfl

@[simp] theorem flatten_cons (p : Piece) (ps : List Piece) : flatten (p :: ps) = p.text ++ flatten ps := flatMap_cons

@[simp] theorem flatten_append (ps qs : List Piece) : flatten (ps ++ qs) = flatten ps ++ flatten qs := flatMap_append

@[simp] theorem flatten_map_char (s : List Char) : flatten (s.map .char) = s := by
  induction s with
  | nil => rfl
  | cons c s ih => rw [map_cons, flatten_cons, ih]; rfl

theorem flatten_scan (state : Option (Char × List Char)) (s : List Char) : flatten (scan state s) = begun state ++ s := by
  fun_induction scan state s with
  | case1 => rfl
  | case2 c s _ ih => rw [ih]; rfl
  | case3 c s _ ih => rw [flatten_cons, ih]; rfl
  | case4 quote body => simp [Piece.text, begun]
  | case5 quote body => simp [Piece.text, begun]
  | case6 quote body c _ => simp [Piece.text, begun]
  | case7 body quote s ih => rw [ih]; simp [begun]
  | case8 quote body d s _ ih => rw [flatten_cons, ih]; simp [Piece.text, begun]
  | case9 quote body c d s _ ih => rw [ih]; simp [begun]

theorem flatten_scan_none (s : List Char) : flatten (scan none s) = s := flatten_scan none s

theorem text_ne_nil (p : Piece) : p.text ≠ [] := by
  unfold Piece.text
  split <;> simp

variable {ps : List Piece}

theorem flatten_eq_nil : flatten ps = [] ↔ ps = [] := by
  cases ps with
  | nil => simp
  | cons p ps => simp [text_ne_nil]

/-! ## Well-formed pieces -/

inductive Doubled (quote : Char) : List Char → Prop
  | nil : Doubled quote []
  | pair {body : List Char} (h : Doubled quote body) : Doubled quote (quote :: quote :: body)
  | cons {c : Char} {body : List Char} (hc : c ≠ quote) (h : Doubled quote body) : Doubled quote (c :: body)

variable {quote : Char}

theorem Doubled.append {body body' : List Char} (h : Doubled quote body) (h' : Doubled quote body') :
    Doubled quote (body ++ body') := by
  induction h with
  | nil => exact h'
  | pair _ ih => exact .pair ih
  | cons hc _ ih => exact .cons hc ih

inductive WellFormed : List Piece → Prop
  | nil : WellFormed []
  | char {c : Char} {ps : List Piece} (hc : isQuote c = false) (h : WellFormed ps) : WellFormed (.char c :: ps)
  | closed {quote : Char} {body : List Char} {ps : List Piece} (hq : isQuote quote = true) (hbody : Doubled quote body)
      (hnext : ∀ p ∈ ps.head?, p.opensWith quote = false) (h : WellFormed ps) : WellFormed (.quoted quote body true :: ps)
  | unclosed {quote : Char} {body : List Char} (hq : isQuote quote = true) (hbody : Doubled quote body) :
      WellFormed [.quoted quote body false]

def Begins : Option (Char × List Char) → Prop
  | none => True
  | some (quote, body) => isQuote quote = true ∧ Doubled quote body

theorem begins_none : Begins none := trivial

variable {s : List Char}

theorem head?_scan_none {c : Char} {p : Piece} (h : p ∈ (scan none (c :: s)).head?) {q : Char} (hq : c ≠ q) :
    p.opensWith q = false := by
  have htext : flatten (scan none (c :: s)) = c :: s := flatten_scan none (c :: s)
  cases hscan : scan none (c :: s) with
  | nil => rw [hscan] at h; cases h
  | cons p' ps =>
    rw [hscan] at h htext
    cases h
    rw [flatten_cons] at htext
    cases p with
    | char d => rfl
    | quoted quote body closed =>
      cases closed <;> · cases htext; exact beq_false_of_ne hq

variable {state : Option (Char × List Char)}

theorem wellFormed_scan (h : Begins state) : WellFormed (scan state s) := by
  fun_induction scan state s with
  | case1 => exact .nil
  | case2 c s hc ih => exact ih ⟨hc, .nil⟩
  | case3 c s hc ih => exact .char (Bool.not_eq_true _ ▸ hc) (ih trivial)
  | case4 quote body => exact .unclosed h.1 h.2
  | case5 quote body => exact .closed h.1 h.2 (fun _ hp => nomatch hp) .nil
  | case6 quote body c hc => exact .unclosed h.1 (h.2.append (.cons hc .nil))
  | case7 body quote s ih => exact ih ⟨h.1, h.2.append (.pair .nil)⟩
  | case8 quote body d s hd ih => exact .closed h.1 h.2 (fun p hp => head?_scan_none hp hd) (ih trivial)
  | case9 quote body c d s hc ih => exact ih ⟨h.1, h.2.append (.cons hc .nil)⟩

theorem scan_other {c : Char} (hc : c ≠ quote) (read s : List Char) :
    scan (some (quote, read)) (c :: s) = scan (some (quote, read ++ [c])) s := by
  cases s with
  | nil => rw [scan, scan, if_neg hc]
  | cons d s => rw [scan, if_neg hc]

theorem scan_pair (quote : Char) (read s : List Char) :
    scan (some (quote, read)) (quote :: quote :: s) = scan (some (quote, read ++ [quote, quote])) s := by
  rw [scan, if_pos rfl, if_pos rfl]

theorem scan_body_append {body : List Char} (h : Doubled quote body) (read s : List Char) :
    scan (some (quote, read)) (body ++ s) = scan (some (quote, read ++ body)) s := by
  induction h generalizing read with
  | nil => rw [nil_append, append_nil]
  | @pair body _ ih =>
    rw [cons_append, cons_append, scan_pair, ih, List.append_assoc]
    rfl
  | @cons c body hc _ ih =>
    rw [cons_append, scan_other hc, ih, List.append_assoc]
    rfl

theorem scan_end (body : List Char) (hs : ∀ c ∈ s.head?, c ≠ quote) :
    scan (some (quote, body)) (quote :: s) = .quoted quote body true :: scan none s := by
  cases s with
  | nil => simp [scan]
  | cons d s => simp [scan, hs d rfl]

theorem scan_quote (hq : isQuote quote = true) (s : List Char) :
    scan none (quote :: s) = scan (some (quote, [])) s := by
  rw [scan, if_pos hq]

theorem scan_char {c : Char} (hc : isQuote c = false) (s : List Char) : scan none (c :: s) = .char c :: scan none s := by
  rw [scan, if_neg (Bool.eq_false_iff.1 hc)]

theorem head?_flatten (h : WellFormed ps) {q : Char} (hq : isQuote q = true)
    (hnext : ∀ p ∈ ps.head?, p.opensWith q = false) : ∀ c ∈ (flatten ps).head?, c ≠ q := by
  intro c hc
  cases h with
  | nil => cases hc
  | char hc' _ =>
    cases hc
    rintro rfl
    exact absurd hq (Bool.eq_false_iff.1 hc')
  | closed _ _ _ _ =>
    cases hc
    exact ne_of_beq_false (hnext _ rfl)
  | unclosed _ _ =>
    cases hc
    exact ne_of_beq_false (hnext _ rfl)

theorem scan_flatten (h : WellFormed ps) : scan none (flatten ps) = ps := by
  induction h with
  | nil => rfl
  | char hc _ ih => rw [flatten_cons, Piece.text, singleton_append, scan_char hc, ih]
  | @closed quote body ps hq hbody hnext hps ih =>
    rw [flatten_cons, Piece.text, cons_append, cons_append, List.append_assoc, scan_quote hq, scan_body_append hbody,
      nil_append, singleton_append, scan_end _ (head?_flatten hps hq hnext), ih]
  | @unclosed quote body hq hbody =>
    have hbody' : scan (some (quote, [])) (body ++ []) = scan (some (quote, body)) [] := scan_body_append hbody [] []
    rw [flatten_cons, Piece.text, flatten_nil, cons_append, scan_quote hq, hbody', scan]

theorem WellFormed.of_append {qs : List Piece} (h : WellFormed (ps ++ qs)) : WellFormed ps := by
  generalize hrs : ps ++ qs = rs at h
  induction h generalizing ps with
  | nil =>
    obtain ⟨rfl, -⟩ := append_eq_nil_iff.1 hrs
    exact .nil
  | char hc _ ih =>
    rcases append_eq_cons_iff.1 hrs with ⟨rfl, -⟩ | ⟨ps, rfl, rfl⟩
    · exact .nil
    · exact .char hc (ih rfl)
  | closed hq hbody hnext _ ih =>
    rcases append_eq_cons_iff.1 hrs with ⟨rfl, -⟩ | ⟨ps, rfl, rfl⟩
    · exact .nil
    · refine .closed hq hbody (fun p hp => hnext p ?_) (ih rfl)
      rw [List.head?_append, Option.mem_def.1 hp]
      rfl
  | unclosed hq hbody =>
    rcases append_eq_cons_iff.1 hrs with ⟨rfl, -⟩ | ⟨ps, rfl, hnil⟩
    · exact .nil
    · obtain ⟨rfl, -⟩ := append_eq_nil_iff.1 hnil.symm
      exact .unclosed hq hbody

/-! ## Texts put together -/

def AllClosed (ps : List Piece) : Prop := ∀ p ∈ ps, p.isClosed = true

instance (ps : List Piece) : Decidable (AllClosed ps) := inferInstanceAs (Decidable (∀ p ∈ ps, p.isClosed = true))

theorem allClosed_nil : AllClosed [] := fun _ hp => nomatch hp

theorem allClosed_cons {p : Piece} : AllClosed (p :: ps) ↔ p.isClosed = true ∧ AllClosed ps := forall_mem_cons

theorem allClosed_append {qs : List Piece} : AllClosed (ps ++ qs) ↔ AllClosed ps ∧ AllClosed qs := forall_mem_append

variable {r : List Char}

theorem scan_chars (hr : ∀ c ∈ r, isQuote c = false) : scan none r = r.map .char := by
  induction r with
  | nil => rfl
  | cons c r ih => rw [scan_char (hr c mem_cons_self), ih fun d hd => hr d (mem_cons_of_mem _ hd), map_cons]

theorem scan_append (hr : ∀ c ∈ r.head?, isQuote c = false)
    (hstate : Begins state) (h : AllClosed (scan state s)) : scan state (s ++ r) = scan state s ++ scan none r := by
  have hne : ∀ {quote : Char}, isQuote quote = true → ∀ c ∈ r.head?, c ≠ quote := by
    rintro quote hq c hc rfl
    exact absurd hq (Bool.eq_false_iff.1 (hr c hc))
  fun_induction scan state s with
  | case1 => rfl
  | case2 c s hc ih => rw [cons_append, scan_quote hc, ih ⟨hc, .nil⟩ h]
  | case3 c s hc ih =>
    rw [cons_append, scan_char (Bool.not_eq_true _ ▸ hc), ih trivial (allClosed_cons.1 h).2, cons_append]
  | case4 quote body => exact absurd (allClosed_cons.1 h).1 (by simp [Piece.isClosed])
  | case5 quote body => rw [singleton_append, scan_end _ (hne hstate.1), singleton_append]
  | case6 quote body c hc => exact absurd (allClosed_cons.1 h).1 (by simp [Piece.isClosed])
  | case7 body quote s ih =>
    rw [cons_append, cons_append, scan_pair, ih ⟨hstate.1, hstate.2.append (.pair .nil)⟩ h]
  | case8 quote body d s hd ih =>
    rw [cons_append, scan_end _ (fun c hc => by cases hc; exact hd), ih trivial (allClosed_cons.1 h).2, cons_append]
  | case9 quote body c d s hc ih =>
    rw [cons_append, scan_other hc, ih ⟨hstate.1, hstate.2.append (.cons hc .nil)⟩ h]

theorem scan_append_open (hr : ∀ c ∈ r, isQuote c = false)
    (hstate : Begins state) (h : ¬AllClosed (scan state s)) : ¬AllClosed (scan state (s ++ r)) := by
  have hopen : ∀ {quote : Char} (body : List Char), isQuote quote = true → ¬AllClosed (scan (some (quote, body)) r) := by
    intro quote body hq
    have hbody : Doubled quote r := by
      clear h
      induction r with
      | nil => exact .nil
      | cons c r ih =>
        refine .cons ?_ (ih fun d hd => hr d (mem_cons_of_mem _ hd))
        rintro rfl
        exact absurd hq (Bool.eq_false_iff.1 (hr c mem_cons_self))
    have hscan : scan (some (quote, body)) (r ++ []) = scan (some (quote, body ++ r)) [] := scan_body_append hbody body []
    rw [append_nil] at hscan
    rw [hscan, scan, allClosed_cons]
    simp [Piece.isClosed]
  fun_induction scan state s with
  | case1 => exact absurd allClosed_nil h
  | case2 c s hc ih =>
    rw [cons_append, scan_quote hc]
    exact ih ⟨hc, .nil⟩ h
  | case3 c s hc ih =>
    rw [cons_append, scan_char (Bool.not_eq_true _ ▸ hc), allClosed_cons]
    exact fun hall => ih trivial (fun hps => h (allClosed_cons.2 ⟨rfl, hps⟩)) hall.2
  | case4 quote body => exact hopen body hstate.1
  | case5 quote body => exact absurd (allClosed_cons.2 ⟨rfl, allClosed_nil⟩) h
  | case6 quote body c hc =>
    rw [singleton_append, scan_other hc]
    exact hopen _ hstate.1
  | case7 body quote s ih =>
    rw [cons_append, cons_append, scan_pair]
    exact ih ⟨hstate.1, hstate.2.append (.pair .nil)⟩ h
  | case8 quote body d s hd ih =>
    rw [cons_append, scan_end _ (fun c hc => by cases hc; exact hd), allClosed_cons]
    exact fun hall => ih trivial (fun hps => h (allClosed_cons.2 ⟨rfl, hps⟩)) hall.2
  | case9 quote body c d s hc ih =>
    rw [cons_append, scan_other hc]
    exact ih ⟨hstate.1, hstate.2.append (.cons hc .nil)⟩ h

theorem scan_append_chars (hr : ∀ c ∈ r, isQuote c = false) (h : AllClosed (scan none (s ++ r))) :
    scan none (s ++ r) = scan none s ++ r.map .char := by
  have hs : AllClosed (scan none s) := Decidable.byContradiction fun hs => scan_append_open hr begins_none hs h
  rw [scan_append (fun c hc => hr c (mem_of_mem_head? hc)) begins_none hs, scan_chars hr]

end Pieces
