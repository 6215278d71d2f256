import DsApm.Lib.Pieces
import DsApm.SqlSchema.Indexes
/-!
# Predicates — the normal form of a partial index's predicate

`normalizer.go`.  The two scans of a predicate, the one that puts it out and the one that counts its parentheses, see the same
pieces: what is put out is the pieces with the blanks between them made one and the simple identifiers bare (`render`), and it has
the parentheses of what was read.  So a second turn finds nothing to do, and the tokens are what they were.
-/
namespace DsApm
namespace SqlSchema
namespace Predicate

open Pieces GoStd

def isBlankChar (c : Char) : Bool := c == ' ' || c == '\t' || c == '\n' || c == '\r'

/-- What is put out for a piece: a token that is a simple identifier loses its quotes. -/
def bare : Piece → List Piece
  | .char c => [.char c]
  | .quoted quote body closed =>
    if quote = '"' ∧ closed = true ∧ isSimpleUnquotedIdentifier body = true then body.map .char else [.quoted quote body closed]

def render : Bool → List Piece → List Piece
  | _, [] => []
  | skip, .char c :: ps =>
    if isBlankChar c then if skip then render true ps else .char ' ' :: render true ps else .char c :: render false ps
  | _, .quoted quote body closed :: ps => bare (.quoted quote body closed) ++ render false ps

def skips (output : List Char) : Bool :=
  match output.getLast? with
  | none => true
  | some c => c == ' '

def Names (ident body : List Char) : Prop := ident = body ∨ '"' ∈ ident ∧ '"' ∈ body

inductive Stands (out : List Char) : Quoting → List Char → Option (Char × List Char) → Prop
  | outside : Stands out .outside out none
  | literal (body : List Char) : Stands out .literal (out ++ '\'' :: body) (some ('\'', body))
  | token (body ident : List Char) (h : Names ident body) : Stands out (.token ('"' :: body) ident) out (some ('"', body))

/-! ## Simple identifiers -/

def isWordChar (c : Char) : Bool := c.isLower || c == '_' || c.isDigit

variable {body : List Char}

theorem word_of_simple (h : isSimpleUnquotedIdentifier body = true) : body ≠ [] ∧ ∀ c ∈ body, isWordChar c = true := by
  cases body with
  | nil => exact nomatch h
  | cons c s =>
    rw [isSimpleUnquotedIdentifier, Bool.and_eq_true, List.all_eq_true] at h
    refine ⟨List.cons_ne_nil _ _, List.forall_mem_cons.2 ⟨?_, h.2⟩⟩
    rw [isWordChar, h.1, Bool.true_or]

variable {c : Char}

theorem plain_of_word (h : isWordChar c = true) :
    isQuote c = false ∧ isBlankChar c = false ∧ isSpace c = false ∧ c ≠ '(' ∧ c ≠ ')' := by
  have hlt : c.toNat < 128 := by
    unfold isWordChar at h
    delta Char.isLower Char.isDigit at h
    simp only [Bool.or_eq_true, Bool.and_eq_true, decide_eq_true_eq, beq_iff_eq] at h
    rcases h with (⟨-, hle⟩ | rfl) | ⟨-, hle⟩
    · have : c.toNat ≤ 122 := hle
      omega
    · decide
    · have : c.toNat ≤ 57 := hle
      omega
  have hall : ∀ n : Fin 128, isWordChar (Char.ofNat n.val) = true → isQuote (Char.ofNat n.val) = false ∧
      isBlankChar (Char.ofNat n.val) = false ∧ isSpace (Char.ofNat n.val) = false ∧ Char.ofNat n.val ≠ '(' ∧ Char.ofNat n.val ≠ ')' := by
    decide
  have hc := hall ⟨c.toNat, hlt⟩
  rw [Char.ofNat_toNat] at hc
  exact hc h

theorem Names.simple {ident : List Char} (h : Names ident body) :
    (if isSimpleUnquotedIdentifier ident = true then ident else '"' :: body ++ ['"']) =
      flatten (bare (.quoted '"' body true)) := by
  have hquote : ∀ {s : List Char}, '"' ∈ s → ¬isSimpleUnquotedIdentifier s = true := by
    intro s hs hsimple
    exact absurd (plain_of_word ((word_of_simple hsimple).2 _ hs)).1 (by decide)
  rcases h with rfl | ⟨hident, hbody⟩
  · by_cases hsimple : isSimpleUnquotedIdentifier ident = true
    · simp [bare, hsimple]
    · simp [bare, hsimple, Piece.text]
  · simp [bare, hquote hident, hquote hbody, Piece.text]

theorem Names.append {ident : List Char} (h : Names ident body) (c : Char) : Names (ident ++ [c]) (body ++ [c]) := by
  rcases h with rfl | ⟨hident, hbody⟩
  · exact .inl rfl
  · exact .inr ⟨List.mem_append_left _ hident, List.mem_append_left _ hbody⟩

/-! ## What is put out -/

theorem blank_eq (output : List Char) : normalizeLoop.blank output = if skips output then output else output ++ [' '] := by
  unfold normalizeLoop.blank skips
  cases output.getLast? with
  | none => rfl
  | some c => by_cases hc : c = ' ' <;> simp [hc]

variable {s : List Char}

theorem skips_append (output : List Char) (hs : s ≠ []) : skips (output ++ s) = skips s := by
  unfold skips
  rw [List.getLast?_append_of_ne_nil _ hs]

theorem skips_blank (output : List Char) : skips (normalizeLoop.blank output) = true := by
  rw [blank_eq]
  split
  · assumption
  · rw [skips_append _ (List.cons_ne_nil _ _)]
    rfl

theorem render_blank (hc : isBlankChar c = true) (output : List Char) (ps : List Piece) :
    output ++ flatten (render (skips output) (.char c :: ps)) =
      normalizeLoop.blank output ++ flatten (render (skips (normalizeLoop.blank output)) ps) := by
  rw [skips_blank, render, if_pos hc, blank_eq]
  split
  · rfl
  · rw [flatten_cons, List.append_assoc]
    rfl

theorem skips_bare (q : Char) (body : List Char) (hq : q ≠ ' ') : skips (flatten (bare (.quoted q body true))) = false := by
  rw [bare]
  split_ifs with h
  · rw [flatten_map_char]
    obtain ⟨hne, hword⟩ := word_of_simple h.2.2
    obtain ⟨l, c, rfl⟩ := List.eq_nil_or_concat' body |>.resolve_left hne
    rw [skips_append _ (List.cons_ne_nil _ _)]
    have hc : c ≠ ' ' := by
      rintro rfl
      exact absurd (hword ' ' (by simp)) (by decide)
    exact beq_false_of_ne hc
  · rw [flatten_cons, flatten_nil, List.append_nil, Piece.text, ← List.singleton_append, List.append_assoc]
    rw [← List.append_assoc, skips_append _ (List.cons_ne_nil _ _)]
    exact beq_false_of_ne hq

theorem normalizeLoop_eq {out : List Char} {mode : Quoting} {output : List Char} {state : Option (Char × List Char)}
    (h : Stands out mode output state) :
    normalizeLoop mode output s = out ++ flatten (render (skips out) (scan state s)) := by
  fun_induction normalizeLoop mode output s generalizing out state with
  | case1 output s ih =>
    cases h
    rw [ih .outside, scan_char rfl, render_blank rfl]
  | case2 output s ih =>
    cases h
    rw [ih .outside, scan_char rfl, render_blank rfl]
  | case3 output s ih =>
    cases h
    rw [ih .outside, scan_char rfl, render_blank rfl]
  | case4 output s ih =>
    cases h
    rw [ih .outside, scan_char rfl, render_blank rfl]
  | case5 output s ih =>
    cases h
    rw [ih (.literal []), scan_quote rfl]
  | case6 output s ih =>
    cases h
    rw [ih (.token [] [] (.inl rfl)), scan_quote rfl]
  | case7 output c s hsp htab hnl hcr hlit htok ih =>
    cases h
    have hquote : isQuote c = false := by simp [isQuote, beq_false_of_ne hlit, beq_false_of_ne htok]
    have hblank : isBlankChar c = false := by
      simp [isBlankChar, beq_false_of_ne hsp, beq_false_of_ne htab, beq_false_of_ne hnl, beq_false_of_ne hcr]
    rw [ih .outside, scan_char hquote, render, hblank, skips_append _ (List.cons_ne_nil _ _)]
    have hskip : skips [c] = false := beq_false_of_ne hsp
    rw [hskip, if_neg Bool.false_ne_true, flatten_cons, List.append_assoc]
    rfl
  | case8 output s ih =>
    cases h with
    | literal body =>
      have hout : out ++ '\'' :: body ++ ['\'', '\''] = out ++ '\'' :: (body ++ ['\'', '\'']) := List.append_assoc _ _ _
      rw [hout] at ih ⊢
      rw [ih (.literal _), scan_pair]
  | case9 output s hs ih =>
    cases h with
    | literal body =>
      have hnext : ∀ c ∈ s.head?, c ≠ '\'' := by
        rintro c hc rfl
        obtain ⟨s', rfl⟩ := List.head?_eq_some_iff.1 hc
        exact hs s' rfl
      have hskip := skips_bare '\'' body (by decide)
      have hbare : out ++ '\'' :: body ++ ['\''] = out ++ flatten (bare (.quoted '\'' body true)) := by simp [bare, Piece.text]
      rw [ih .outside, scan_end _ hnext, render, hbare, skips_append, hskip, flatten_append, List.append_assoc]
      simp [bare, Piece.text]
  | case10 output c s _ hc ih =>
    cases h with
    | literal body =>
      have hout : out ++ '\'' :: body ++ [c] = out ++ '\'' :: (body ++ [c]) := List.append_assoc _ _ _
      rw [hout] at ih ⊢
      rw [ih (.literal _), scan_other hc]
  | case11 text ident output s ih =>
    cases h with
    | token body _ h =>
      have htext : '"' :: body ++ ['"', '"'] = '"' :: (body ++ ['"', '"']) := rfl
      rw [htext] at ih ⊢
      rw [ih (.token _ _ (.inr ⟨by simp, by simp⟩)), scan_pair]
  | case12 text ident output s hs ih =>
    cases h with
    | token body _ h =>
      have hnext : ∀ c ∈ s.head?, c ≠ '"' := by
        rintro c hc rfl
        obtain ⟨s', rfl⟩ := List.head?_eq_some_iff.1 hc
        exact hs s' rfl
      have hskip := skips_bare '"' body (by decide)
      have hne : flatten (bare (.quoted '"' body true)) ≠ [] := by
        intro hnil
        rw [hnil] at hskip
        cases hskip
      rw [ih .outside, scan_end _ hnext, render, h.simple, skips_append _ hne, hskip, flatten_append, List.append_assoc]
  | case13 text ident output c s _ hc ih =>
    cases h with
    | token body _ h =>
      have htext : '"' :: body ++ [c] = '"' :: (body ++ [c]) := rfl
      rw [htext] at ih ⊢
      rw [ih (.token _ _ (h.append c)), scan_other hc]
  | case14 text ident output =>
    cases h with
    | token body _ h => simp [scan, render, bare, Piece.text]
  | case15 mode output hmode =>
    cases h with
    | outside => simp [scan, render]
    | literal body => simp [scan, render, bare, Piece.text]
    | token body ident h => exact absurd rfl (hmode _ _)

/-! ## The parentheses -/

/-- Whether the parenthesis at the start is closed at the end, over the pieces. -/
def wraps : (depth : Int) → List Piece → Bool
  | depth, [] => depth = 0
  | depth, .char c :: ps =>
    if c = '(' then wraps (depth + 1) ps
    else if c = ')' then if depth - 1 = 0 ∧ ps ≠ [] then false else wraps (depth - 1) ps
    else wraps depth ps
  | depth, .quoted _ _ _ :: ps => wraps depth ps

inductive Flags : Bool → Bool → Option (Char × List Char) → Prop
  | outside : Flags false false none
  | literal (body : List Char) : Flags true false (some ('\'', body))
  | token (body : List Char) : Flags false true (some ('"', body))

theorem scan_eq_nil : scan none s = [] ↔ s = [] := by
  rw [← flatten_eq_nil, flatten_scan_none]

theorem hasWrappingParentheses_eq {lit tok : Bool} {depth : Int} {state : Option (Char × List Char)}
    (h : Flags lit tok state) : hasWrappingParentheses lit tok depth s = wraps depth (scan state s) := by
  fun_induction hasWrappingParentheses lit tok depth s generalizing state with
  | case1 depth s ih =>
    cases h with
    | literal body => rw [scan_pair, ih (.literal _)]
  | case2 depth s ih =>
    cases h with
    | token body => rw [scan_pair, ih (.token _)]
  | case3 lit tok depth s hpair _ ih =>
    cases h with
    | outside => rw [scan_quote rfl, ih (.literal _)]
    | literal body =>
      have hnext : ∀ c ∈ s.head?, c ≠ '\'' := by
        rintro c hc rfl
        obtain ⟨s', rfl⟩ := List.head?_eq_some_iff.1 hc
        exact hpair s' rfl rfl rfl rfl
      rw [scan_end _ hnext, wraps, ih .outside]
    | token body => rw [scan_other (by decide), ih (.token _)]
  | case4 lit tok depth s _ hpair _ ih =>
    cases h with
    | outside => rw [scan_quote rfl, ih (.token _)]
    | literal body => rw [scan_other (by decide), ih (.literal _)]
    | token body =>
      have hnext : ∀ c ∈ s.head?, c ≠ '"' := by
        rintro c hc rfl
        obtain ⟨s', rfl⟩ := List.head?_eq_some_iff.1 hc
        exact hpair s' rfl rfl rfl rfl
      rw [scan_end _ hnext, wraps, ih .outside]
  | case5 lit tok depth c s _ _ _ _ hopen ih =>
    obtain ⟨rfl, hlit, htok⟩ := hopen
    cases h with
    | outside => rw [scan_char rfl, wraps, if_pos rfl, ih .outside]
    | literal _ => cases hlit
    | token _ => cases htok
  | case6 lit tok depth c s _ _ _ _ _ hclose hdepth =>
    obtain ⟨rfl, hlit, htok⟩ := hclose
    cases h with
    | outside => rw [scan_char rfl, wraps, if_neg (by decide), if_pos rfl, if_pos ⟨hdepth.1, mt scan_eq_nil.1 hdepth.2⟩]
    | literal _ => cases hlit
    | token _ => cases htok
  | case7 lit tok depth c s _ _ _ _ _ hclose hdepth ih =>
    obtain ⟨rfl, hlit, htok⟩ := hclose
    cases h with
    | outside =>
      have hdepth' : ¬(depth - 1 = 0 ∧ scan none s ≠ []) := fun hd => hdepth ⟨hd.1, mt scan_eq_nil.2 hd.2⟩
      rw [scan_char rfl, wraps, if_neg (by decide), if_pos rfl, if_neg hdepth', ih .outside]
    | literal _ => cases hlit
    | token _ => cases htok
  | case8 lit tok depth c s _ _ hclit hctok hopen hclose ih =>
    cases h with
    | outside =>
      have hquote : isQuote c = false := by simp [isQuote, hclit, hctok]
      have hno : c ≠ '(' := fun hc => hopen ⟨hc, rfl, rfl⟩
      have hnc : c ≠ ')' := fun hc => hclose ⟨hc, rfl, rfl⟩
      rw [scan_char hquote, wraps, if_neg hno, if_neg hnc, ih .outside]
    | literal body => rw [scan_other hclit, ih (.literal _)]
    | token body => rw [scan_other hctok, ih (.token _)]
  | case9 lit tok depth =>
    cases h <;> rfl

/-! ### What is put out has the parentheses of what was read -/

theorem wraps_chars (hs : ∀ c ∈ s, c ≠ '(' ∧ c ≠ ')') (depth : Int) (ps : List Piece) :
    wraps depth (s.map .char ++ ps) = wraps depth ps := by
  induction s with
  | nil => rfl
  | cons c s ih =>
    obtain ⟨⟨hopen, hclose⟩, hs⟩ := List.forall_mem_cons.1 hs
    rw [List.map_cons, List.cons_append, wraps, if_neg hopen, if_neg hclose, ih hs]

theorem wraps_bare (quote : Char) (body : List Char) (closed : Bool) (depth : Int) (ps : List Piece) :
    wraps depth (bare (.quoted quote body closed) ++ ps) = wraps depth ps := by
  rw [bare]
  split_ifs with h
  · exact wraps_chars (fun c hc => (plain_of_word ((word_of_simple h.2.2).2 c hc)).2.2.2) depth ps
  · rfl

theorem bare_ne_nil (p : Piece) : bare p ≠ [] := by
  unfold bare
  split
  · exact List.cons_ne_nil _ _
  · split_ifs with h
    · exact mt List.map_eq_nil_iff.1 (word_of_simple h.2.2).1
    · exact List.cons_ne_nil _ _

variable {ps : List Piece}

theorem render_eq_nil : render false ps = [] ↔ ps = [] := by
  cases ps with
  | nil => exact iff_of_true rfl rfl
  | cons p ps =>
    refine iff_of_false ?_ (List.cons_ne_nil _ _)
    cases p with
    | char c =>
      by_cases hc : isBlankChar c = true <;> simp [render, hc]
    | quoted quote body closed => exact fun h => bare_ne_nil _ (List.append_eq_nil_iff.1 h).1

theorem blank_plain (h : isBlankChar c = true) : isQuote c = false ∧ isSpace c = true ∧ c ≠ '(' ∧ c ≠ ')' := by
  simp only [isBlankChar, Bool.or_eq_true, beq_iff_eq] at h
  rcases h with ((rfl | rfl) | rfl) | rfl <;> decide

theorem wraps_render (skip : Bool) (depth : Int) (ps : List Piece) : wraps depth (render skip ps) = wraps depth ps := by
  fun_induction render skip ps generalizing depth with
  | case1 => rfl
  | case2 c ps hc ih =>
    obtain ⟨-, -, hopen, hclose⟩ := blank_plain hc
    rw [ih, wraps, if_neg hopen, if_neg hclose]
  | case3 skip c ps hc _ ih =>
    obtain ⟨-, -, hopen, hclose⟩ := blank_plain hc
    rw [wraps, if_neg (by decide), if_neg (by decide), ih, wraps, if_neg hopen, if_neg hclose]
  | case4 skip c ps _ ih => simp only [wraps, ih, ne_eq, render_eq_nil]
  | case5 skip quote body closed ps ih => rw [wraps_bare, ih, wraps]

/-! ## A second turn -/

theorem render_word (hne : s ≠ []) (hs : ∀ c ∈ s, isBlankChar c = false) (skip : Bool) (ps : List Piece) :
    render skip (s.map .char ++ ps) = s.map .char ++ render false ps := by
  induction s generalizing skip with
  | nil => exact absurd rfl hne
  | cons c s ih =>
    obtain ⟨hc, hs⟩ := List.forall_mem_cons.1 hs
    rw [List.map_cons, List.cons_append, render, if_neg (Bool.eq_false_iff.1 hc), List.cons_append]
    cases s with
    | nil => rfl
    | cons d s => rw [ih (List.cons_ne_nil _ _) hs]

theorem render_bare (p : Piece) (hp : ∀ c, p = .char c → isBlankChar c = false) (skip : Bool) (ps : List Piece) :
    render skip (bare p ++ ps) = bare p ++ render false ps := by
  cases p with
  | char c =>
    have hc : ¬isBlankChar c = true := Bool.eq_false_iff.1 (hp c rfl)
    rw [bare, List.singleton_append, render, if_neg hc, List.singleton_append]
  | quoted quote body closed =>
    by_cases h : quote = '"' ∧ closed = true ∧ isSimpleUnquotedIdentifier body = true
    · obtain ⟨hne, hword⟩ := word_of_simple h.2.2
      rw [bare, if_pos h, render_word hne fun c hc => (plain_of_word (hword c hc)).2.1]
    · have hbare : bare (.quoted quote body closed) = [.quoted quote body closed] := if_neg h
      rw [hbare, List.singleton_append, render, hbare]

theorem render_render (skip : Bool) (ps : List Piece) : render skip (render skip ps) = render skip ps := by
  fun_induction render skip ps with
  | case1 => rfl
  | case2 c ps hc ih => exact ih
  | case3 skip c ps hc hskip ih => simp only [render, ih, if_neg hskip, if_pos (show isBlankChar ' ' = true from rfl)]
  | case4 skip c ps hc ih => rw [render, if_neg hc, ih]
  | case5 skip quote body closed ps ih => rw [render_bare _ (fun c h => by cases h), ih]

theorem wellFormed_word (hs : ∀ c ∈ s, isQuote c = false) (h : WellFormed ps) :
    WellFormed (s.map .char ++ ps) := by
  induction s with
  | nil => exact h
  | cons c s ih =>
    obtain ⟨hc, hs⟩ := List.forall_mem_cons.1 hs
    exact .char hc (ih hs)

variable {p : Piece}

theorem head?_bare {p' : Piece} {q : Char} (h : p' ∈ (bare p ++ ps).head?) (hp : p.opensWith q = false) :
    p'.opensWith q = false := by
  cases p with
  | char c =>
    cases h
    rfl
  | quoted quote body closed =>
    rw [bare] at h
    split_ifs at h with hsimple
    · obtain ⟨c, s, rfl⟩ := List.exists_cons_of_ne_nil (word_of_simple hsimple.2.2).1
      cases h
      rfl
    · cases h
      exact hp

theorem head?_render {q : Char} (h : ∀ p ∈ ps.head?, p.opensWith q = false) :
    ∀ p ∈ (render false ps).head?, p.opensWith q = false := by
  intro p' hp'
  cases ps with
  | nil => cases hp'
  | cons p ps =>
    cases p with
    | char c =>
      rw [render] at hp'
      by_cases hc : isBlankChar c = true
      · rw [if_pos hc] at hp'
        cases hp'
        rfl
      · rw [if_neg hc] at hp'
        cases hp'
        rfl
    | quoted quote body closed => exact head?_bare hp' (h _ rfl)

theorem wellFormed_render {skip : Bool} (h : WellFormed ps) : WellFormed (render skip ps) := by
  induction h generalizing skip with
  | nil => exact .nil
  | @char c ps hc _ ih =>
    rw [render]
    split_ifs
    · exact ih
    · exact .char rfl ih
    · exact .char hc ih
  | @closed quote body ps hq hbody hnext _ ih =>
    rw [render, bare]
    split_ifs with hsimple
    · exact wellFormed_word (fun c hc => (plain_of_word ((word_of_simple hsimple.2.2).2 c hc)).1) ih
    · exact .closed hq hbody (head?_render hnext) ih
  | @unclosed quote body hq hbody =>
    have hbare : bare (.quoted quote body false) = [.quoted quote body false] := if_neg fun h => nomatch h.2.1
    rw [render, hbare]
    exact .unclosed hq hbody

/-! ## Trimmed texts -/

structure Firm (s : List Char) : Prop where
  head : ∀ c ∈ s.head?, isSpace c = false
  last : ∀ c ∈ s.getLast?, isSpace c = false

theorem dropWhile_of_head (h : ∀ c ∈ s.head?, isSpace c = false) : s.dropWhile isSpace = s := by
  cases s with
  | nil => rfl
  | cons c s => rw [List.dropWhile_cons_of_neg (Bool.eq_false_iff.1 (h c rfl))]

theorem trimSpace_of_firm (h : Firm s) : trimSpace (String.ofList s) = String.ofList s := by
  have hlast : ∀ c ∈ s.reverse.head?, isSpace c = false := by
    rw [List.head?_reverse]
    exact h.last
  rw [trimSpace, String.toList_ofList, dropWhile_of_head h.head, dropWhile_of_head hlast, List.reverse_reverse]

theorem head?_dropWhile_space (s : List Char) : ∀ c ∈ (s.dropWhile isSpace).head?, isSpace c = false := by
  intro c hc
  have hne := List.head?_dropWhile_not isSpace s
  rw [Option.mem_def.1 hc] at hne
  exact hne

theorem exists_trimSpace (s : String) : ∃ l r, (∀ c ∈ l, isSpace c = true) ∧ (∀ c ∈ r, isSpace c = true) ∧
    s.toList = l ++ ((trimSpace s).toList ++ r) ∧ Firm (trimSpace s).toList := by
  obtain ⟨l, hl, hs⟩ : ∃ l, (∀ c ∈ l, isSpace c = true) ∧ s.toList = l ++ s.toList.dropWhile isSpace :=
    ⟨s.toList.takeWhile isSpace, fun c hc => List.mem_takeWhile_imp hc, List.takeWhile_append_dropWhile.symm⟩
  obtain ⟨r, hr, ht⟩ : ∃ r : List Char, (∀ c ∈ r, isSpace c = true) ∧
      (s.toList.dropWhile isSpace).reverse = r.reverse ++ (s.toList.dropWhile isSpace).reverse.dropWhile isSpace := by
    refine ⟨((s.toList.dropWhile isSpace).reverse.takeWhile isSpace).reverse, fun c hc => ?_, ?_⟩
    · exact List.mem_takeWhile_imp (List.mem_reverse.1 hc)
    · rw [List.reverse_reverse, List.takeWhile_append_dropWhile]
  have hcore : s.toList.dropWhile isSpace = (trimSpace s).toList ++ r := by
    rw [trimSpace, String.toList_ofList, ← List.reverse_inj, List.reverse_append, List.reverse_reverse]
    exact ht
  refine ⟨l, r, hl, hr, by rw [← hcore, ← hs], fun c hc => ?_, fun c hc => ?_⟩
  · refine head?_dropWhile_space s.toList c ?_
    rw [hcore, List.head?_append, Option.mem_def.1 hc]
    rfl
  · rw [trimSpace, String.toList_ofList, List.getLast?_reverse] at hc
    exact head?_dropWhile_space _ c hc

theorem render_cons (hp : ∀ c, p = .char c → isBlankChar c = false) (skip : Bool) (ps : List Piece) :
    render skip (p :: ps) = bare p ++ render false ps := by
  cases p with
  | char c => rw [render, if_neg (Bool.eq_false_iff.1 (hp c rfl)), bare, List.singleton_append]
  | quoted quote body closed => rw [render]

theorem render_concat (hp : ∀ c, p = .char c → isBlankChar c = false) (skip : Bool) (ps : List Piece) :
    ∃ qs, render skip (ps ++ [p]) = qs ++ bare p := by
  fun_induction render skip ps with
  | case1 skip => exact ⟨[], by rw [List.nil_append, render_cons hp, render, List.append_nil, List.nil_append]⟩
  | case2 c ps hc ih =>
    obtain ⟨qs, hqs⟩ := ih
    exact ⟨qs, by rw [List.cons_append, render, if_pos hc, if_pos rfl, hqs]⟩
  | case3 skip c ps hc hskip ih =>
    obtain ⟨qs, hqs⟩ := ih
    exact ⟨.char ' ' :: qs, by rw [List.cons_append, render, if_pos hc, if_neg hskip, hqs, List.cons_append]⟩
  | case4 skip c ps hc ih =>
    obtain ⟨qs, hqs⟩ := ih
    exact ⟨.char c :: qs, by rw [List.cons_append, render, if_neg hc, hqs, List.cons_append]⟩
  | case5 skip quote body closed ps ih =>
    obtain ⟨qs, hqs⟩ := ih
    exact ⟨bare (.quoted quote body closed) ++ qs, by rw [List.cons_append, render, hqs, List.append_assoc]⟩

theorem bare_cases (p : Piece) : bare p = [p] ∨ ∃ body : List Char, bare p = body.map .char ∧ ∀ c ∈ body, isWordChar c = true := by
  cases p with
  | char c => exact .inl rfl
  | quoted quote body closed =>
    rw [bare]
    split_ifs with h
    · exact .inr ⟨body, rfl, (word_of_simple h.2.2).2⟩
    · exact .inl rfl

theorem bare_end {f : List Char → Option Char} (hf : ∀ s, ∀ c ∈ f s, c ∈ s) (hp : ∀ c ∈ f p.text, isSpace c = false) :
    ∀ c ∈ f (flatten (bare p)), isSpace c = false := by
  intro c hc
  rcases bare_cases p with h | ⟨body, h, hword⟩
  · rw [h, flatten_cons, flatten_nil, List.append_nil] at hc
    exact hp c hc
  · rw [h, flatten_map_char] at hc
    exact (plain_of_word (hword c (hf body c hc))).2.2.1

theorem flatten_bare_ne_nil (p : Piece) : flatten (bare p) ≠ [] := mt flatten_eq_nil.1 (bare_ne_nil p)

theorem not_blank (h : isSpace c = false) : isBlankChar c = false := by
  by_contra hblank
  rw [Bool.not_eq_false] at hblank
  rw [(blank_plain hblank).2.1] at h
  exact nomatch h

theorem head_text (h : Firm (flatten (p :: ps))) : ∀ c ∈ p.text.head?, isSpace c = false := by
  have := h.head
  rwa [flatten_cons, List.head?_append_of_ne_nil _ (text_ne_nil p)] at this

theorem render_firm (h : Firm (flatten (p :: ps))) (skip : Bool) :
    render skip (p :: ps) = bare p ++ render false ps :=
  render_cons (fun c hc => not_blank (head_text h c (by rw [hc]; rfl))) skip ps

theorem firm_render (h : Firm (flatten ps)) : Firm (flatten (render true ps)) := by
  constructor
  · cases ps with
    | nil => exact fun _ hc => nomatch hc
    | cons p ps =>
      rw [render_firm h, flatten_append, List.head?_append_of_ne_nil _ (flatten_bare_ne_nil p)]
      exact bare_end (fun _ _ hc => List.mem_of_mem_head? hc) (head_text h)
  · rcases List.eq_nil_or_concat' ps with rfl | ⟨ps, p, rfl⟩
    · exact fun _ hc => nomatch hc
    · have hp : ∀ c ∈ p.text.getLast?, isSpace c = false := by
        have := h.last
        rwa [flatten_append, flatten_cons, flatten_nil, List.append_nil, List.getLast?_append_of_ne_nil _ (text_ne_nil p)] at this
      obtain ⟨qs, hqs⟩ := render_concat (p := p) (fun c hc => not_blank (hp c (by rw [hc]; rfl))) true ps
      rw [hqs, flatten_append, List.getLast?_append_of_ne_nil _ (flatten_bare_ne_nil p)]
      exact bare_end (fun _ _ hc => List.mem_of_mem_getLast? hc) hp

/-! ## The parentheses taken off -/

def closes : (depth : Nat) → List Piece → Bool
  | depth, [] => depth = 0
  | depth, .char c :: ps =>
    if c = '(' then closes (depth + 1) ps
    else if c = ')' then match depth with
      | 0 => false
      | depth + 1 => closes depth ps
    else closes depth ps
  | depth, .quoted _ _ _ :: ps => closes depth ps

theorem wraps_closes (depth : Nat) (ps : List Piece) : wraps (depth + 1) (ps ++ [.char ')']) = closes depth ps := by
  fun_induction closes depth ps with
  | case1 depth => simp [wraps]
  | case2 depth ps ih =>
    rw [List.cons_append, wraps, if_pos rfl, ← ih]
    rfl
  | case3 ps hc => simp [wraps]
  | case4 ps depth hc ih =>
    rw [List.cons_append, wraps, if_neg hc, if_pos rfl, ← ih]
    have hdepth : ((depth + 1 : Nat) : Int) + 1 - 1 = depth + 1 := by omega
    rw [hdepth, if_neg fun h => by omega]
  | case5 depth c ps hopen hclose ih => rw [List.cons_append, wraps, if_neg hopen, if_neg hclose, ih]
  | case6 depth quote body closed ps ih => rw [List.cons_append, wraps, ih]

theorem wraps_last {depth : Int} (hdepth : 0 < depth) (h : wraps depth ps = true) : ps.getLast? = some (.char ')') := by
  have hcons : ∀ (p : Piece) {ps : List Piece}, ps.getLast? = some (.char ')') → (p :: ps).getLast? = some (.char ')') := by
    intro p ps hps
    rw [List.getLast?_cons, hps]
    rfl
  fun_induction wraps depth ps with
  | case1 depth => exact absurd (of_decide_eq_true h) (by omega)
  | case2 depth ps ih => exact hcons _ (ih (by omega) h)
  | case3 depth ps _ _ => exact nomatch h
  | case4 depth ps hend _ ih =>
    by_cases hps : ps = []
    · rw [hps]
      rfl
    · have : depth - 1 ≠ 0 := fun hd => hend ⟨hd, hps⟩
      exact hcons _ (ih (by omega) h)
  | case5 depth c ps _ _ ih => exact hcons _ (ih hdepth h)
  | case6 depth quote body closed ps ih => exact hcons _ (ih hdepth h)

def Wrapped (s : List Char) : Prop :=
  s.head? = some '(' ∧ s.getLast? = some ')' ∧ hasWrappingParentheses false false 0 s = true

def isSpacePiece : Piece → Bool
  | .char c => isSpace c
  | .quoted _ _ _ => false

/-- The pieces without the spaces and the pairs of parentheses around the whole. -/
inductive Strips : List Piece → List Piece → Prop
  | done {l core r : List Piece} (hl : ∀ p ∈ l, isSpacePiece p = true) (hr : ∀ p ∈ r, isSpacePiece p = true) :
      Strips (l ++ core ++ r) core
  | peel {l inner r core : List Piece} (hl : ∀ p ∈ l, isSpacePiece p = true) (hr : ∀ p ∈ r, isSpacePiece p = true)
      (hinner : closes 0 inner = true) (h : Strips inner core) : Strips (l ++ (.char '(' :: inner ++ [.char ')']) ++ r) core

theorem Wrapped.scan (h : Wrapped s) :
    ∃ inner, scan none s = .char '(' :: inner ++ [.char ')'] ∧ closes 0 inner = true ∧ s.dropLast.tail = flatten inner ∧
      WellFormed inner := by
  obtain ⟨hhead, -, hwraps⟩ := h
  obtain ⟨s', rfl⟩ := List.head?_eq_some_iff.1 hhead
  rw [hasWrappingParentheses_eq .outside, scan_char rfl, wraps, if_pos rfl] at hwraps
  have hlast := wraps_last (by decide) hwraps
  obtain ⟨inner, hinner⟩ := List.getLast?_eq_some_iff.1 hlast
  have htext : flatten inner ++ [')'] = s' := by
    have := flatten_scan_none s'
    rwa [hinner, flatten_append] at this
  refine ⟨inner, by rw [scan_char rfl, hinner, List.cons_append], ?_, ?_, ?_⟩
  · rw [hinner] at hwraps
    rw [← wraps_closes]
    exact hwraps
  · rw [← htext, ← List.cons_append, List.dropLast_concat, List.tail_cons]
  · have hwf : WellFormed (Pieces.scan none s') := wellFormed_scan begins_none
    rw [hinner] at hwf
    exact hwf.of_append

theorem Wrapped.two_le (h : Wrapped s) : 2 ≤ s.length := by
  obtain ⟨hhead, hlast, -⟩ := h
  obtain ⟨s', rfl⟩ := List.head?_eq_some_iff.1 hhead
  cases s' with
  | nil => exact absurd hlast (by decide)
  | cons c s' => simp

theorem strip_of_wrapped {fuel : Nat} {s : String} (h : Wrapped (trimSpace s).toList) :
    stripOuterParentheses (fuel + 1) s = stripOuterParentheses fuel (String.ofList (trimSpace s).toList.dropLast.tail) := by
  have hlen : ¬(trimSpace s).length < 2 := by
    rw [← String.length_toList]
    exact not_lt.2 h.two_le
  rw [stripOuterParentheses]
  simp [hlen, h.1, h.2.1, h.2.2]

theorem strip_of_not_wrapped {s : String} (h : ¬Wrapped (trimSpace s).toList) (fuel : Nat) :
    stripOuterParentheses fuel s = trimSpace s := by
  cases fuel with
  | zero => rfl
  | succ fuel =>
    rw [stripOuterParentheses]
    refine if_pos ?_
    by_contra hcode
    simp only [not_or, not_not, Bool.not_eq_false] at hcode
    exact h ⟨hcode.2.1, hcode.2.2.1, hcode.2.2.2⟩

theorem space_not_quote (h : isSpace c = true) : isQuote c = false := by
  by_contra hquote
  rw [Bool.not_eq_false, isQuote, Bool.or_eq_true, beq_iff_eq, beq_iff_eq] at hquote
  rcases hquote with rfl | rfl <;> exact absurd h (by decide)

theorem isSpacePiece_map (h : ∀ c ∈ s, isSpace c = true) : ∀ p ∈ s.map Piece.char, isSpacePiece p = true :=
  List.forall_mem_map.2 h

theorem scan_trimSpace {s : String} (h : AllClosed (scan none s.toList)) : ∃ l r, (∀ p ∈ l, isSpacePiece p = true) ∧
    (∀ p ∈ r, isSpacePiece p = true) ∧ scan none s.toList = l ++ scan none (trimSpace s).toList ++ r := by
  obtain ⟨l, r, hl, hr, hs, -⟩ := exists_trimSpace s
  have hleft : ∀ t : List Char, scan none (l ++ t) = l.map .char ++ scan none t := by
    intro t
    clear hs
    induction l with
    | nil => rfl
    | cons c l ih =>
      obtain ⟨hc, hl⟩ := List.forall_mem_cons.1 hl
      rw [List.cons_append, scan_char (space_not_quote hc), ih hl, List.map_cons, List.cons_append]
  rw [hs, hleft] at h
  have hright := scan_append_chars (fun c hc => space_not_quote (hr c hc)) (allClosed_append.1 h).2
  exact ⟨_, _, isSpacePiece_map hl, isSpacePiece_map hr, by rw [hs, hleft, hright, List.append_assoc]⟩

theorem length_trimSpace (s : String) : (trimSpace s).toList.length ≤ s.toList.length := by
  obtain ⟨l, r, -, -, hs, -⟩ := exists_trimSpace s
  rw [hs]
  simp
  omega

theorem strip_done {s : String} (h : ¬Wrapped (trimSpace s).toList) :
    Firm (trimSpace s).toList ∧ ¬Wrapped (trimSpace s).toList ∧
      (AllClosed (scan none s.toList) → Strips (scan none s.toList) (scan none (trimSpace s).toList)) := by
  obtain ⟨_, _, -, -, -, hfirm⟩ := exists_trimSpace s
  refine ⟨hfirm, h, fun hclosed => ?_⟩
  obtain ⟨l, r, hl, hr, hpieces⟩ := scan_trimSpace hclosed
  rw [hpieces]
  exact .done hl hr

theorem strip_spec {fuel : Nat} {s : String} (hfuel : (trimSpace s).toList.length ≤ fuel) :
    Firm (stripOuterParentheses fuel s).toList ∧ ¬Wrapped (stripOuterParentheses fuel s).toList ∧
      (AllClosed (scan none s.toList) → Strips (scan none s.toList) (scan none (stripOuterParentheses fuel s).toList)) := by
  induction fuel generalizing s with
  | zero =>
    refine strip_done fun h => ?_
    have := h.two_le
    omega
  | succ fuel ih =>
    by_cases h : Wrapped (trimSpace s).toList
    · obtain ⟨inner, hscan, hcloses, htext, hwf⟩ := h.scan
      rw [strip_of_wrapped h]
      have hfuel' : (trimSpace (String.ofList (trimSpace s).toList.dropLast.tail)).toList.length ≤ fuel := by
        refine le_trans (length_trimSpace _) ?_
        rw [String.toList_ofList, List.length_tail, List.length_dropLast]
        omega
      obtain ⟨hfirm, hnot, hstrips⟩ := ih hfuel'
      refine ⟨hfirm, hnot, fun hclosed => ?_⟩
      obtain ⟨l, r, hl, hr, hpieces⟩ := scan_trimSpace hclosed
      rw [String.toList_ofList, htext, scan_flatten hwf] at hstrips
      rw [hpieces, hscan] at hclosed ⊢
      have hinner : AllClosed inner := fun p hp => hclosed p (by simp [hp])
      exact .peel hl hr hcloses (htext ▸ hstrips hinner)
    · rw [strip_of_not_wrapped h]
      exact strip_done h

/-! ## Tokens -/

def squeeze : (due : Bool) → List Piece → List Piece
  | _, [] => []
  | due, p :: ps =>
    if isSpacePiece p then squeeze true ps else if due then .char ' ' :: p :: squeeze false ps else p :: squeeze false ps

/-- The tokens of a text: its quoted pieces, its other characters, and one separator for a run of spaces between them. -/
def tokens (ps : List Piece) : List Piece := squeeze false (ps.dropWhile isSpacePiece)

def unquote (ps : List Piece) : List Piece := ps.flatMap bare

def literals (ps : List Piece) : List Piece := ps.filter fun p => p.opensWith '\''

theorem squeeze_congr {qs qs' : List Piece} (h : ∀ due, squeeze due qs = squeeze due qs') (ps : List Piece) (due : Bool) :
    squeeze due (ps ++ qs) = squeeze due (ps ++ qs') := by
  induction ps generalizing due with
  | nil => exact h due
  | cons p ps ih => simp only [List.cons_append, squeeze, ih]

theorem squeeze_render {skip due : Bool} (h : skip = true → due = true) (ps : List Piece) :
    squeeze due (render skip ps) = squeeze due (unquote ps) := by
  have hspace : ∀ {c : Char}, isBlankChar c = true → isSpacePiece (.char c) = true := fun hc => (blank_plain hc).2.1
  fun_induction render skip ps generalizing due with
  | case1 => rfl
  | case2 c ps hc ih =>
    obtain rfl := h rfl
    have hunquote : unquote (.char c :: ps) = .char c :: unquote ps := rfl
    rw [ih fun _ => rfl, hunquote, squeeze, if_pos (hspace hc)]
  | case3 skip c ps hc _ ih =>
    have hunquote : unquote (.char c :: ps) = .char c :: unquote ps := rfl
    rw [hunquote, squeeze, if_pos (hspace rfl), squeeze, if_pos (hspace hc), ih fun _ => rfl]
  | case4 skip c ps _ ih => exact squeeze_congr (fun due => ih fun hfalse => nomatch hfalse) [.char c] due
  | case5 skip quote body closed ps ih => exact squeeze_congr (fun due => ih fun hfalse => nomatch hfalse) (bare _) due

theorem bare_not_space (hp : isSpacePiece p = false) : ∀ p' ∈ bare p, isSpacePiece p' = false := by
  rcases bare_cases p with h | ⟨body, h, hword⟩
  · rw [h]
    exact List.forall_mem_singleton.2 hp
  · rw [h]
    exact List.forall_mem_map.2 fun c hc => (plain_of_word (hword c hc)).2.2.1

theorem tokens_bare (hp : isSpacePiece p = false) (ps : List Piece) : tokens (bare p ++ ps) = squeeze false (bare p ++ ps) := by
  obtain ⟨p', qs, h⟩ := List.exists_cons_of_ne_nil (bare_ne_nil p)
  have hp' := bare_not_space hp p' (h ▸ List.mem_cons_self)
  rw [tokens, h, List.cons_append, List.dropWhile_cons_of_neg (Bool.eq_false_iff.1 hp')]

theorem tokens_render (h : Firm (flatten ps)) : tokens (render true ps) = tokens (unquote ps) := by
  cases ps with
  | nil => rfl
  | cons p ps =>
    have hp : isSpacePiece p = false := by
      cases p with
      | char c => exact head_text h c rfl
      | quoted quote body closed => rfl
    have hunquote : unquote (p :: ps) = bare p ++ unquote ps := List.flatMap_cons
    rw [render_firm h, hunquote, tokens_bare hp, tokens_bare hp]
    exact squeeze_congr (fun due => squeeze_render Bool.noConfusion ps) (bare p) false

theorem literals_bare (p : Piece) : literals (bare p) = literals [p] := by
  cases p with
  | char c => rfl
  | quoted quote body closed =>
    rw [bare]
    split_ifs with h
    · obtain ⟨rfl, -, -⟩ := h
      rw [literals, List.filter_eq_nil_iff.2 (List.forall_mem_map.2 fun c _ => Bool.false_ne_true)]
      rfl
    · rfl

theorem literals_append (ps qs : List Piece) : literals (ps ++ qs) = literals ps ++ literals qs := List.filter_append ..

theorem literals_render (skip : Bool) (ps : List Piece) : literals (render skip ps) = literals ps := by
  fun_induction render skip ps with
  | case1 => rfl
  | case2 c ps _ ih => exact ih
  | case3 skip c ps _ _ ih => exact ih
  | case4 skip c ps _ ih => exact ih
  | case5 skip quote body closed ps ih =>
    rw [literals_append, literals_bare, ih, ← literals_append]
    rfl

theorem literals_spaces (h : ∀ p ∈ ps, isSpacePiece p = true) : literals ps = [] := by
  refine List.filter_eq_nil_iff.2 fun p hp => ?_
  cases p with
  | char c => exact Bool.false_ne_true
  | quoted quote body closed => exact nomatch h _ hp

theorem Strips.literals {core : List Piece} (h : Strips ps core) : literals ps = literals core := by
  induction h with
  | done hl hr => rw [literals_append, literals_append, literals_spaces hl, literals_spaces hr, List.nil_append, List.append_nil]
  | peel hl hr _ _ ih =>
    rw [literals_append, literals_append, literals_append, literals_spaces hl, literals_spaces hr, List.nil_append, List.append_nil,
      ← ih]
    exact List.append_nil _

/-! ## The normal form -/

def core (input : String) : String := stripOuterParentheses (trimSpace input).length (trimSpace input)

theorem trimSpace_trimSpace (s : String) : trimSpace (trimSpace s) = trimSpace s := by
  obtain ⟨_, _, -, -, -, hfirm⟩ := exists_trimSpace s
  have h := trimSpace_of_firm hfirm
  rwa [String.ofList_toList] at h

theorem strip_trimSpace (fuel : Nat) (s : String) : stripOuterParentheses fuel (trimSpace s) = stripOuterParentheses fuel s := by
  cases fuel with
  | zero => exact trimSpace_trimSpace s
  | succ fuel => rw [stripOuterParentheses, stripOuterParentheses, trimSpace_trimSpace]

theorem core_spec (input : String) : Firm (core input).toList ∧ ¬Wrapped (core input).toList ∧
    (AllClosed (scan none input.toList) → Strips (scan none input.toList) (scan none (core input).toList)) := by
  rw [core, strip_trimSpace]
  exact strip_spec String.length_toList.le

theorem firm_core (input : String) : Firm (flatten (scan none (core input).toList)) := by
  rw [flatten_scan_none]
  exact (core_spec input).1

theorem normalize_eq (input : String) : normalize input = String.ofList (flatten (render true (scan none (core input).toList))) := by
  have hloop : normalizeLoop .outside [] (core input).toList = flatten (render true (scan none (core input).toList)) := by
    have hskip : skips [] = true := rfl
    rw [normalizeLoop_eq .outside, hskip, List.nil_append]
  have hunfold : normalize input = trimSpace (String.ofList (normalizeLoop .outside [] (core input).toList)) := rfl
  rw [hunfold, hloop, trimSpace_of_firm (firm_render (firm_core input))]

theorem scan_normalize (input : String) : scan none (normalize input).toList = render true (scan none (core input).toList) := by
  rw [normalize_eq, String.toList_ofList, scan_flatten (wellFormed_render (wellFormed_scan begins_none))]

theorem not_wrapped_normalize (input : String) : ¬Wrapped (normalize input).toList := by
  rintro ⟨hhead, -, hwraps⟩
  rw [hasWrappingParentheses_eq .outside, scan_normalize, wraps_render] at hwraps
  rw [normalize_eq, String.toList_ofList] at hhead
  obtain ⟨-, hnot, -⟩ := core_spec input
  have hfirm := firm_core input
  have htext := flatten_scan_none (core input).toList
  have hcode : hasWrappingParentheses false false 0 (core input).toList = wraps 0 (scan none (core input).toList) :=
    hasWrappingParentheses_eq .outside
  have hwf : WellFormed (scan none (core input).toList) := wellFormed_scan begins_none
  generalize scan none (core input).toList = ps at hwraps hhead hfirm htext hcode hwf
  cases ps with
  | nil => exact nomatch hhead
  | cons p ps =>
    obtain rfl : p = .char '(' := by
      rw [render_firm hfirm, flatten_append, List.head?_append_of_ne_nil _ (flatten_bare_ne_nil p)] at hhead
      rcases bare_cases p with h | ⟨body, h, hword⟩
      · rw [h, flatten_cons, flatten_nil, List.append_nil] at hhead
        cases p with
        | char c =>
          cases hhead
          rfl
        | quoted quote body closed =>
          have hquote : isQuote quote = true := by
            cases hwf with
            | closed hq _ _ _ => exact hq
            | unclosed hq _ => exact hq
          have hhead' : quote = '(' := by
            cases closed <;> exact Option.some.inj hhead
          rw [hhead'] at hquote
          exact absurd hquote (by decide)
      · rw [h, flatten_map_char] at hhead
        exact absurd (hword '(' (List.mem_of_mem_head? hhead)) (by decide)
    have hlast : ps.getLast? = some (.char ')') := by
      rw [wraps, if_pos rfl] at hwraps
      exact wraps_last (by decide) hwraps
    obtain ⟨inner, rfl⟩ := List.getLast?_eq_some_iff.1 hlast
    refine hnot ⟨?_, ?_, hcode.trans hwraps⟩
    · rw [← htext]
      rfl
    · rw [← htext, ← List.cons_append, flatten_append]
      exact List.getLast?_concat

theorem core_normalize (input : String) : core (normalize input) = normalize input := by
  have htrim : trimSpace (normalize input) = normalize input := by
    rw [normalize_eq, trimSpace_of_firm (firm_render (firm_core input))]
  have hnot : ¬Wrapped (trimSpace (trimSpace (normalize input))).toList := by
    rw [htrim, htrim]
    exact not_wrapped_normalize input
  rw [core, strip_of_not_wrapped hnot, htrim, htrim]

/-- The normal form of a normal form is itself; and where no quote is left open its tokens are those of the predicate within its
parentheses, the simple identifiers bare, with every literal as it was. -/
theorem normalize_spec : (∀ input, normalize (normalize input) = normalize input) ∧
    ∀ input, AllClosed (scan none input.toList) →
      (∃ core, Strips (scan none input.toList) core ∧ tokens (scan none (normalize input).toList) = tokens (unquote core)) ∧
      literals (scan none (normalize input).toList) = literals (scan none input.toList) := by
  refine ⟨fun input => ?_, fun input h => ?_⟩
  · have hagain := normalize_eq (normalize input)
    rw [core_normalize, scan_normalize, render_render, ← normalize_eq] at hagain
    exact hagain
  · obtain ⟨hfirm, -, hstrips⟩ := core_spec input
    rw [scan_normalize]
    refine ⟨⟨_, hstrips h, ?_⟩, ?_⟩
    · exact tokens_render (firm_core input)
    · rw [literals_render, (hstrips h).literals]

theorem normalize_spec_wrapped :
    normalize (normalize "((\"a\"  = 'x'))") = normalize "((\"a\"  = 'x'))" ∧
      literals (scan none (normalize "((\"a\"  = 'x'))").toList) = literals (scan none "((\"a\"  = 'x'))".toList) :=
  ⟨normalize_spec.1 _, (normalize_spec.2 _ (by decide)).2⟩

end Predicate
end SqlSchema
end DsApm
