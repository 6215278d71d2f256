import DsApm.Lib.Munch
/-!
# FilterLexer — the lexer rules of `grammar/FilterQuery.g4`

The rules in their order: the words of fixed spelling, in which case does not matter, and an automaton for each other rule.
A text is of the first kind whose rule it meets.  The parser looks at the text of a few kinds only, so the others lose it
(`Token.of`).  `lexed_word`: a word is read as itself before a space, a parenthesis, a comma, a closing bracket and at the end.
-/
namespace DsApm
namespace Variables

open List

abbrev Text := List Char

inductive Kind where
  | lparen | rparen | lbrack | rbrack | comma
  | equals | notEquals | neq | lt | le | gt | ge
  | like | ilike | between | exists' | regexp | contains | in'
  | not' | and' | or'
  | hasToken | has | hasAny | hasAll
  | bool | number | quotedText | key | ws | freeText
  deriving DecidableEq, Repr

def spellings : List (Kind × List Text) :=
  [(.lparen, [['(']]), (.rparen, [[')']]), (.lbrack, [['[']]), (.rbrack, [[']']]), (.comma, [[',']]),
   (.equals, [['='], ['=', '=']]), (.notEquals, [['!', '=']]), (.neq, [['<', '>']]),
   (.lt, [['<']]), (.le, [['<', '=']]), (.gt, [['>']]), (.ge, [['>', '=']]),
   (.like, [['l', 'i', 'k', 'e']]), (.ilike, [['i', 'l', 'i', 'k', 'e']]),
   (.between, [['b', 'e', 't', 'w', 'e', 'e', 'n']]),
   (.exists', [['e', 'x', 'i', 's', 't'], ['e', 'x', 'i', 's', 't', 's']]),
   (.regexp, [['r', 'e', 'g', 'e', 'x', 'p']]),
   (.contains, [['c', 'o', 'n', 't', 'a', 'i', 'n'], ['c', 'o', 'n', 't', 'a', 'i', 'n', 's']]),
   (.in', [['i', 'n']]), (.not', [['n', 'o', 't']]), (.and', [['a', 'n', 'd']]), (.or', [['o', 'r']]),
   (.hasToken, [['h', 'a', 's', 't', 'o', 'k', 'e', 'n']]), (.has, [['h', 'a', 's']]),
   (.hasAny, [['h', 'a', 's', 'a', 'n', 'y']]), (.hasAll, [['h', 'a', 's', 'a', 'l', 'l']]),
   (.bool, [['t', 'r', 'u', 'e'], ['f', 'a', 'l', 's', 'e']])]

def isSpace (c : Char) : Bool := c == ' ' || c == '\t' || c == '\r' || c == '\n'

/-! ## The automata -/

inductive NumberState where
  | start | signed | digits | point | fraction | exponent | exponentSigned | exponentDigits
  deriving DecidableEq

def isSign (c : Char) : Bool := c == '+' || c == '-'

/-- `SIGN? DIGIT+ ('.' DIGIT*)? ([eE] SIGN? DIGIT+)? | SIGN? '.' DIGIT+ ([eE] SIGN? DIGIT+)?` -/
def numberStep : NumberState → Char → Option NumberState
  | .start, c =>
    if isSign c then some .signed else if c.isDigit then some .digits else if c == '.' then some .point else none
  | .signed, c => if c.isDigit then some .digits else if c == '.' then some .point else none
  | .digits, c =>
    if c.isDigit then some .digits else if c == '.' then some .fraction
    else if c == 'e' || c == 'E' then some .exponent else none
  | .point, c => if c.isDigit then some .fraction else none
  | .fraction, c => if c.isDigit then some .fraction else if c == 'e' || c == 'E' then some .exponent else none
  | .exponent, c => if isSign c then some .exponentSigned else if c.isDigit then some .exponentDigits else none
  | .exponentSigned, c => if c.isDigit then some .exponentDigits else none
  | .exponentDigits, c => if c.isDigit then some .exponentDigits else none

def isNumber (s : Text) : Bool :=
  (Munch.run numberStep (some .start) s).any (fun q => q == .digits || q == .fraction || q == .exponentDigits)

inductive QuotedState where
  | start | inside (quote : Char) | escaped (quote : Char) | closed
  deriving DecidableEq

/-- `'"' ( ~["\\] | '\\' . )* '"' | '\'' ( ~['\\] | '\\' . )* '\''` -/
def quotedStep : QuotedState → Char → Option QuotedState
  | .start, c => if c == '"' || c == '\'' then some (.inside c) else none
  | .inside quote, c => if c == '\\' then some (.escaped quote) else if c == quote then some .closed else some (.inside quote)
  | .escaped quote, _ => some (.inside quote)
  | .closed, _ => none

def isQuoted (s : Text) : Bool := Munch.run quotedStep (some .start) s == some .closed

inductive KeyState where
  | start | segment | dot | digits | opened | starred | closed
  deriving DecidableEq

def startsSegment (c : Char) : Bool := c.isAlpha || ['$', '_', '@', '{', '#'].contains c

def inSegment (c : Char) : Bool := c.isAlphanum || ['$', '_', '@', '#', '{', '}', ':', '-', '/'].contains c

/-- `SEGMENT ( '.' SEGMENT | '[]' | '[*]' | '.' DIGIT+ )*` -/
def keyStep : KeyState → Char → Option KeyState
  | .start, c => if startsSegment c then some .segment else none
  | .segment, c => if inSegment c then some .segment else if c == '.' then some .dot else if c == '[' then some .opened else none
  | .dot, c => if startsSegment c then some .segment else if c.isDigit then some .digits else none
  | .digits, c => if c.isDigit then some .digits else if c == '.' then some .dot else if c == '[' then some .opened else none
  | .opened, c => if c == ']' then some .closed else if c == '*' then some .starred else none
  | .starred, c => if c == ']' then some .closed else none
  | .closed, c => if c == '.' then some .dot else if c == '[' then some .opened else none

def isKey (s : Text) : Bool :=
  (Munch.run keyStep (some .start) s).any (fun q => q == .segment || q == .digits || q == .closed)

def isWhitespace (s : Text) : Bool := !s.isEmpty && s.all isSpace

/-- `(~[ \t\r\n=()'"<>!,[\]])+` -/
def isFree (c : Char) : Bool := !isSpace c && !(['=', '(', ')', '\'', '"', '<', '>', '!', ',', '[', ']'].contains c)

def isFreeText (s : Text) : Bool := !s.isEmpty && s.all isFree

/-! ## Kinds -/

def patterns : List (Kind × (Text → Bool)) :=
  [(.number, isNumber), (.quotedText, isQuoted), (.key, isKey), (.ws, isWhitespace), (.freeText, isFreeText)]

def spelled (texts : List Text) (s : Text) : Bool := texts.contains (s.map Char.toLower)

def rules : List (Kind × (Text → Bool)) := spellings.map (fun r => (r.1, spelled r.2)) ++ patterns

def kindOf (s : Text) : Option Kind := (rules.find? (fun r => r.2 s)).map Prod.fst

/-- A token as the parser looks at it: the text of a keyword or a punctuation mark does not matter. -/
structure Token where
  kind : Kind
  text : Text
  deriving DecidableEq, Repr

def Kind.hasText : Kind → Bool
  | .bool | .number | .quotedText | .key | .freeText => true
  | _ => false

def Token.of (word : Kind × Text) : Token := ⟨word.1, if word.1.hasText then word.2 else []⟩

def lexed (s : Text) : Option (List Token) := (Munch.lex kindOf (· == .ws) s).map (List.map Token.of)

structure Word (k : Kind) where
  text : Text
  is : kindOf text = some k

/-! ## What follows a word -/

def spellingChar (c : Char) : Bool := c.isAlpha || ['=', '!', '<', '>'].contains c

theorem spelling_chars : ∀ r ∈ spellings, ∀ t ∈ r.2, t ≠ [] ∧ (t.all spellingChar = true ∨
    t = ['('] ∨ t = [')'] ∨ t = ['['] ∨ t = [']'] ∨ t = [',']) := by decide

theorem rule_of_kindOf {s : Text} {k : Kind} (h : kindOf s = some k) :
    (∃ r ∈ spellings, r.1 = k ∧ s.map Char.toLower ∈ r.2) ∨ (k = .number ∧ isNumber s = true) ∨
      (k = .quotedText ∧ isQuoted s = true) ∨ (k = .key ∧ isKey s = true) ∨ (k = .ws ∧ isWhitespace s = true) ∨
      (k = .freeText ∧ isFreeText s = true) := by
  rw [kindOf, Option.map_eq_some_iff] at h
  obtain ⟨r, hr, rfl⟩ := h
  have hmatch := List.find?_some hr
  have hmem := mem_of_find?_eq_some hr
  rw [rules, mem_append, List.mem_map] at hmem
  rcases hmem with ⟨r', hr', rfl⟩ | hmem
  · exact Or.inl ⟨r', hr', rfl, by simpa [spelled] using hmatch⟩
  · simp only [patterns, mem_cons, not_mem_nil, or_false] at hmem
    rcases hmem with rfl | rfl | rfl | rfl | rfl
    · exact Or.inr (Or.inl ⟨rfl, hmatch⟩)
    · exact Or.inr (Or.inr (Or.inl ⟨rfl, hmatch⟩))
    · exact Or.inr (Or.inr (Or.inr (Or.inl ⟨rfl, hmatch⟩)))
    · exact Or.inr (Or.inr (Or.inr (Or.inr (Or.inl ⟨rfl, hmatch⟩))))
    · exact Or.inr (Or.inr (Or.inr (Or.inr (Or.inr ⟨rfl, hmatch⟩))))

theorem kindOf_eq_none {s : Text} (hs : ∀ r ∈ spellings, s.map Char.toLower ∉ r.2) (hn : isNumber s = false)
    (hq : isQuoted s = false) (hk : isKey s = false) (hw : isWhitespace s = false) (hf : isFreeText s = false) :
    kindOf s = none := by
  cases h : kindOf s with
  | none => rfl
  | some k =>
    rcases rule_of_kindOf h with ⟨r, hr, -, ht⟩ | ⟨-, h⟩ | ⟨-, h⟩ | ⟨-, h⟩ | ⟨-, h⟩ | ⟨-, h⟩
    · exact absurd ht (hs r hr)
    all_goals simp_all

/-- The characters that stand between words: none of them is in a word, but for text in quotes and the closing bracket
of a key. -/
def delimits (c : Char) : Bool := [' ', '(', ')', ',', ']'].contains c

theorem delimits_cases {c : Char} (h : delimits c = true) : c = ' ' ∨ c = '(' ∨ c = ')' ∨ c = ',' ∨ c = ']' := by
  simpa [delimits] using h

theorem spelled_delimiter {s t : Text} {c : Char} (hc : delimits c = true) (hs : s ≠ []) :
    ∀ r ∈ spellings, (s ++ c :: t).map Char.toLower ∉ r.2 := by
  intro r hr ht
  have hlow : c.toLower = c := by rcases delimits_cases hc with rfl | rfl | rfl | rfl | rfl <;> rfl
  have hnot : spellingChar c = false := by rcases delimits_cases hc with rfl | rfl | rfl | rfl | rfl <;> rfl
  rw [map_append, map_cons, hlow] at ht
  rcases (spelling_chars r hr _ ht).2 with hall | hone
  · rw [all_append, all_cons, hnot] at hall
    simp at hall
  · have hlen : (s.map Char.toLower ++ c :: t.map Char.toLower).length = 1 := by
      rcases hone with h | h | h | h | h <;> rw [h] <;> rfl
    rw [List.length_append, List.length_map, length_cons] at hlen
    have := length_pos_iff.2 hs
    omega

theorem numberStep_delimiter {c : Char} (hc : delimits c = true) (q : NumberState) : numberStep q c = none := by
  rcases delimits_cases hc with rfl | rfl | rfl | rfl | rfl <;> cases q <;> rfl

theorem isFree_delimiter {c : Char} (hc : delimits c = true) : isFree c = false := by
  rcases delimits_cases hc with rfl | rfl | rfl | rfl | rfl <;> rfl

theorem keyStep_delimiter {c : Char} (hc : delimits c = true) {q : KeyState} (hq : q ≠ .opened ∧ q ≠ .starred) :
    keyStep q c = none := by
  rcases delimits_cases hc with rfl | rfl | rfl | rfl | rfl <;> cases q <;> simp_all <;> rfl

/-- A character that starts no word of a fixed spelling, no number, no key and no free text. -/
def startsNone (c : Char) : Bool := isSpace c || c == '"' || c == '\''

theorem startsNone_cases {c : Char} (h : startsNone c = true) :
    c = ' ' ∨ c = '\t' ∨ c = '\r' ∨ c = '\n' ∨ c = '"' ∨ c = '\'' := by
  simpa [startsNone, isSpace, or_assoc] using h

theorem kind_of_startsNone {c : Char} {s : Text} {k : Kind} (h : kindOf (c :: s) = some k) (hc : startsNone c = true) :
    (k = .ws ∧ isWhitespace (c :: s) = true) ∨ k = .quotedText ∧ isQuoted (c :: s) = true := by
  have hcases := startsNone_cases hc
  rcases rule_of_kindOf h with ⟨r, hr, -, ht⟩ | ⟨-, h⟩ | h | ⟨-, h⟩ | h | ⟨-, h⟩
  · have hlow : c.toLower = c := by rcases hcases with rfl | rfl | rfl | rfl | rfl | rfl <;> rfl
    have hnot : spellingChar c = false := by rcases hcases with rfl | rfl | rfl | rfl | rfl | rfl <;> rfl
    rw [map_cons, hlow] at ht
    rcases (spelling_chars r hr _ ht).2 with hall | hone
    · rw [all_cons, hnot] at hall
      cases hall
    · rcases hcases with rfl | rfl | rfl | rfl | rfl | rfl <;> simp at hone
  · have hnone : Munch.run numberStep (some .start) (c :: s) = none := by
      rcases hcases with rfl | rfl | rfl | rfl | rfl | rfl <;> exact Munch.run_none _ s
    rw [isNumber, hnone] at h
    cases h
  · exact Or.inr h
  · have hnone : Munch.run keyStep (some .start) (c :: s) = none := by
      rcases hcases with rfl | rfl | rfl | rfl | rfl | rfl <;> exact Munch.run_none _ s
    rw [isKey, hnone] at h
    cases h
  · exact Or.inl h
  · have hnot : isFree c = false := by rcases hcases with rfl | rfl | rfl | rfl | rfl | rfl <;> rfl
    rw [isFreeText, all_cons, hnot] at h
    simp at h

theorem kind_of_dollar {s : Text} {k : Kind} (h : kindOf ('$' :: s) = some k) : k = .key ∨ k = .freeText := by
  rcases rule_of_kindOf h with ⟨r, hr, -, ht⟩ | ⟨-, h⟩ | ⟨-, h⟩ | ⟨hk, -⟩ | ⟨-, h⟩ | ⟨hk, -⟩
  · have hlow : '$'.toLower = '$' := rfl
    rw [map_cons, hlow] at ht
    rcases (spelling_chars r hr _ ht).2 with hall | hone
    · cases hall
    · simp at hone
  · rw [isNumber, show Munch.run numberStep (some .start) ('$' :: s) = none from Munch.run_none _ s] at h
    cases h
  · rw [isQuoted, show Munch.run quotedStep (some .start) ('$' :: s) = none from Munch.run_none _ s] at h
    cases h
  · exact Or.inl hk
  · cases h
  · exact Or.inr hk

theorem kindOf_quoted {s : Text} (h : isQuoted s = true) : kindOf s = some .quotedText := by
  have hsome : (kindOf s).isSome := by
    rw [kindOf, Option.isSome_map, List.find?_isSome]
    exact ⟨(.quotedText, isQuoted), by simp [rules, patterns], h⟩
  obtain ⟨k, hk⟩ := Option.isSome_iff_exists.1 hsome
  cases s with
  | nil => cases h
  | cons c s' =>
    have hc : c = '"' ∨ c = '\'' := by
      by_contra hc
      have hstep : quotedStep .start c = none := by simpa [quotedStep] using hc
      rw [isQuoted, Munch.run_cons, Option.bind_some, hstep, Munch.run_none] at h
      cases h
    rcases kind_of_startsNone hk (by rcases hc with rfl | rfl <;> rfl) with ⟨-, hw⟩ | ⟨rfl, -⟩
    · rcases hc with rfl | rfl <;> cases hw
    · exact hk

theorem ne_nil_of_word {s : Text} {k : Kind} (h : kindOf s = some k) : s ≠ [] := by
  rintro rfl
  rw [show kindOf [] = none by decide] at h
  cases h

theorem head_of_word {s : Text} {k : Kind} (h : kindOf s = some k) (hk : k ≠ .ws) :
    ∃ c s', s = c :: s' ∧ isSpace c = false := by
  cases s with
  | nil => exact absurd rfl (ne_nil_of_word h)
  | cons c s' =>
    refine ⟨c, s', rfl, ?_⟩
    by_contra hc
    have hsp : isSpace c = true := by simpa using hc
    rcases kind_of_startsNone h (by simp [startsNone, hsp]) with hw | ⟨-, hq⟩
    · exact hk hw.1
    · have hnone : Munch.run quotedStep (some .start) (c :: s') = none := by
        have hcs : c = ' ' ∨ c = '\t' ∨ c = '\r' ∨ c = '\n' := by simpa [isSpace, or_assoc] using hsp
        rcases hcs with rfl | rfl | rfl | rfl <;> exact Munch.run_none _ s'
      rw [isQuoted, hnone] at hq
      cases hq

theorem keyState_of_no_bracket : ∀ (s : Text) {p q : KeyState}, p ≠ .opened ∧ p ≠ .starred → '[' ∉ s →
    Munch.run keyStep (some p) s = some q → q ≠ .opened ∧ q ≠ .starred
  | [], p, q, hp, _, h => by
    rw [Munch.run_nil, Option.some.injEq] at h
    exact h ▸ hp
  | c :: s, p, q, hp, hs, h => by
    rw [mem_cons, not_or] at hs
    rw [Munch.run_cons, Option.bind_some] at h
    cases hstep : keyStep p c with
    | none => rw [hstep, Munch.run_none] at h; cases h
    | some p' =>
      rw [hstep] at h
      refine keyState_of_no_bracket s ?_ hs.2 h
      have hc : (c == '[') = false := by simpa using Ne.symm hs.1
      cases p <;> simp only [keyStep, hc] at hstep <;> split_ifs at hstep <;> first | (cases hstep; decide) | simp_all

theorem keyState_of_word {s : Text} {k : Kind} (h : kindOf s = some k) {q : KeyState}
    (hq : Munch.run keyStep (some .start) s = some q) : q ≠ .opened ∧ q ≠ .starred := by
  by_cases hb : '[' ∈ s
  · rcases rule_of_kindOf h with ⟨r, hr, -, ht⟩ | ⟨-, h⟩ | ⟨-, h⟩ | ⟨-, h⟩ | ⟨-, h⟩ | ⟨-, h⟩
    · have hbt : '[' ∈ s.map Char.toLower := List.mem_map.2 ⟨'[', hb, rfl⟩
      have hlen : s.length = 1 := by
        rw [← List.length_map (f := Char.toLower)]
        rcases (spelling_chars r hr _ ht).2 with hall | h | h | h | h | h
        · exact absurd (List.all_eq_true.1 hall _ hbt) (by decide)
        all_goals rw [h]; rfl
      obtain ⟨c, rfl⟩ := length_eq_one_iff.1 hlen
      rw [mem_singleton] at hb
      subst hb
      cases hq
    · rw [isNumber, Munch.run_of_mem _ (fun p => by cases p <;> rfl) hb] at h
      cases h
    · cases s with
      | nil => cases hb
      | cons c s' =>
        by_cases hc : c = '"' ∨ c = '\''
        · have hnone : Munch.run keyStep (some .start) (c :: s') = none := by
            rcases hc with rfl | rfl <;> exact Munch.run_none _ s'
          rw [hnone] at hq
          cases hq
        · have hstep : quotedStep .start c = none := by simpa [quotedStep] using hc
          rw [isQuoted, Munch.run_cons, Option.bind_some, hstep, Munch.run_none] at h
          cases h
    · rw [isKey, hq] at h
      constructor <;> rintro rfl <;> cases h
    · rw [isWhitespace, Bool.and_eq_true, List.all_eq_true] at h
      exact absurd (h.2 _ hb) (by decide)
    · rw [isFreeText, Bool.and_eq_true, List.all_eq_true] at h
      exact absurd (h.2 _ hb) (by decide)
  · exact keyState_of_no_bracket s (by decide) hb hq

/-- **No longer word of a word and a delimiter.** -/
theorem kindOf_delimiter {s : Text} {k : Kind} (h : kindOf s = some k) (hk : k ≠ .ws) {c : Char} (hc : delimits c = true)
    (t : Text) : kindOf (s ++ c :: t) = none := by
  obtain ⟨d, s', hs, hd⟩ := head_of_word h hk
  refine kindOf_eq_none (spelled_delimiter hc (by rw [hs]; simp)) ?_ ?_ ?_ ?_ ?_
  · rw [isNumber, Munch.run_stuck _ (fun q _ => numberStep_delimiter hc q)]
    rfl
  · rw [isQuoted]
    cases hq : isQuoted s with
    | true =>
      rw [isQuoted, beq_iff_eq] at hq
      rw [Munch.run_stuck _ (fun q hrun => by rw [hq] at hrun; cases hrun; rfl)]
      rfl
    | false =>
      have hquote : startsNone d = false := by
        by_contra hn
        rcases kind_of_startsNone (hs ▸ h) (by simpa using hn) with hw | ⟨-, hq'⟩
        · exact hk hw.1
        · rw [hs, hq'] at hq
          cases hq
      have hstep : quotedStep .start d = none := by
        simp only [startsNone, Bool.or_eq_false_iff] at hquote
        simp [quotedStep, hquote.1.2, hquote.2]
      rw [hs, cons_append, Munch.run_cons, Option.bind_some, hstep, Munch.run_none]
      rfl
  · rw [isKey, Munch.run_stuck _ (fun q hq => keyStep_delimiter hc (keyState_of_word h hq))]
    rfl
  · rw [isWhitespace, hs, cons_append, all_cons, hd]
    rfl
  · rw [isFreeText, all_append, all_cons, isFree_delimiter hc]
    simp

/-! ## Reading a text -/

def Follows : Text → Prop
  | [] => True
  | c :: _ => delimits c = true

theorem lexed_append {s rest : Text} {k : Kind} (h : kindOf s = some k)
    (hstop : ∀ v, v ≠ [] → v <+: rest → kindOf (s ++ v) = none) :
    lexed (s ++ rest) = (lexed rest).map (fun ts => if k = .ws then ts else Token.of (k, s) :: ts) := by
  unfold lexed
  rw [Munch.lex_append h (ne_nil_of_word h) hstop]
  cases Munch.lex kindOf (· == .ws) rest with
  | none => rfl
  | some _ => by_cases hk : k = .ws <;> simp [hk]

/-- **A word is read as itself before whatever may follow it.** -/
theorem lexed_word {s rest : Text} {k : Kind} (h : kindOf s = some k) (hk : k ≠ .ws) (hr : Follows rest) :
    lexed (s ++ rest) = (lexed rest).map (Token.of (k, s) :: ·) := by
  rw [lexed_append h]
  · simp only [if_neg hk]
  · intro v hv hpre
    cases v with
    | nil => exact absurd rfl hv
    | cons c t =>
      obtain ⟨_, rfl⟩ := hpre
      exact kindOf_delimiter h hk hr t

theorem kindOf_mark {c : Char} (hc : c ∈ [' ', '(', ')', '[', ']', ',']) {v : Text} (hv : v ≠ [])
    (hw : isWhitespace (c :: v) = false) : kindOf (c :: v) = none := by
  have hcases : c = ' ' ∨ c = '(' ∨ c = ')' ∨ c = '[' ∨ c = ']' ∨ c = ',' := by simpa using hc
  refine kindOf_eq_none ?_ ?_ ?_ ?_ hw ?_
  · intro r hr ht
    have hlow : c.toLower = c := by rcases hcases with rfl | rfl | rfl | rfl | rfl | rfl <;> rfl
    have hnot : spellingChar c = false := by rcases hcases with rfl | rfl | rfl | rfl | rfl | rfl <;> rfl
    rw [map_cons, hlow] at ht
    rcases (spelling_chars r hr _ ht).2 with hall | hone
    · rw [all_cons, hnot] at hall
      cases hall
    · have hnil : v.map Char.toLower = [] := by rcases hone with h | h | h | h | h <;> exact (List.cons.inj h).2
      exact hv (map_eq_nil_iff.1 hnil)
  · have hnone : Munch.run numberStep (some .start) (c :: v) = none := by
      rcases hcases with rfl | rfl | rfl | rfl | rfl | rfl <;> exact Munch.run_none _ v
    rw [isNumber, hnone]; rfl
  · have hnone : Munch.run quotedStep (some .start) (c :: v) = none := by
      rcases hcases with rfl | rfl | rfl | rfl | rfl | rfl <;> exact Munch.run_none _ v
    rw [isQuoted, hnone]; rfl
  · have hnone : Munch.run keyStep (some .start) (c :: v) = none := by
      rcases hcases with rfl | rfl | rfl | rfl | rfl | rfl <;> exact Munch.run_none _ v
    rw [isKey, hnone]; rfl
  · have hnot : isFree c = false := by rcases hcases with rfl | rfl | rfl | rfl | rfl | rfl <;> rfl
    rw [isFreeText, all_cons, hnot]
    simp

theorem lexed_mark {c : Char} {k : Kind} (hc : c ∈ ['(', ')', '[', ']', ',']) (h : kindOf [c] = some k) (hk : k ≠ .ws)
    (rest : Text) : lexed (c :: rest) = (lexed rest).map (Token.of (k, [c]) :: ·) := by
  have hsp : isSpace c = false := by
    have hcases : c = '(' ∨ c = ')' ∨ c = '[' ∨ c = ']' ∨ c = ',' := by simpa using hc
    rcases hcases with rfl | rfl | rfl | rfl | rfl <;> rfl
  have hlex := @lexed_append _ rest _ h (fun v hv _ =>
    kindOf_mark (mem_cons_of_mem _ hc) hv (by rw [isWhitespace, all_cons, hsp]; simp))
  simp only [if_neg hk] at hlex
  exact hlex

theorem lexed_space {c : Char} (hc : isSpace c = false) (rest : Text) : lexed (' ' :: c :: rest) = lexed (c :: rest) := by
  have hlex := @lexed_append [' '] (c :: rest) .ws (by decide) (fun v hv hpre => by
    cases v with
    | nil => exact absurd rfl hv
    | cons d t =>
      obtain rfl : d = c := head_eq_of_cons_eq hpre.choose_spec
      exact kindOf_mark (by simp) (by simp) (by simp [isWhitespace, hc]))
  simpa using hlex

structure Reads (s : Text) (ts : List Token) : Prop where
  head : ∃ c s', s = c :: s' ∧ isSpace c = false
  reads : ∀ rest, Follows rest → lexed (s ++ rest) = (lexed rest).map (ts ++ ·)

namespace Reads

theorem lexed_eq {s : Text} {ts : List Token} (h : Reads s ts) : lexed s = some ts := by
  have h' := h.reads [] trivial
  rw [append_nil, show lexed [] = some [] from rfl] at h'
  simpa using h'

theorem word {s : Text} {k : Kind} (h : kindOf s = some k) (hk : k ≠ .ws) : Reads s [Token.of (k, s)] :=
  ⟨head_of_word h hk, fun _ hr => lexed_word h hk hr⟩

variable {s t : Text} {ts us : List Token}

theorem head_append (hs : Reads s ts) (t : Text) : ∃ c s', s ++ t = c :: s' ∧ isSpace c = false := by
  obtain ⟨c, s', rfl, hc⟩ := hs.head
  exact ⟨c, s' ++ t, rfl, hc⟩

theorem append (hs : Reads s ts) (ht : Reads t us) (hf : Follows t) : Reads (s ++ t) (ts ++ us) := by
  refine ⟨hs.head_append t, fun rest hr => ?_⟩
  have hft : Follows (t ++ rest) := by
    obtain ⟨d, t', rfl, -⟩ := ht.head
    exact hf
  rw [List.append_assoc, hs.reads _ hft, ht.reads _ hr, Option.map_map]
  simp [Function.comp_def]

theorem after_space (ht : Reads t us) {rest : Text} (hr : Follows rest) :
    lexed (' ' :: (t ++ rest)) = (lexed rest).map (us ++ ·) := by
  rw [← ht.reads rest hr]
  obtain ⟨d, t', rfl, hd⟩ := ht.head
  exact lexed_space hd (t' ++ rest)

theorem space (hs : Reads s ts) (ht : Reads t us) : Reads (s ++ ' ' :: t) (ts ++ us) := by
  refine ⟨hs.head_append _, fun rest hr => ?_⟩
  rw [List.append_assoc, cons_append, hs.reads _ (by rfl), ht.after_space hr, Option.map_map]
  simp [Function.comp_def]

theorem comma (hs : Reads s ts) (ht : Reads t us) : Reads (s ++ ',' :: ' ' :: t) (ts ++ ⟨.comma, []⟩ :: us) := by
  refine ⟨hs.head_append _, fun rest hr => ?_⟩
  rw [List.append_assoc, cons_append, cons_append, hs.reads _ (by rfl),
    lexed_mark (k := .comma) (by simp) (by decide) (by decide), ht.after_space hr, Option.map_map, Option.map_map]
  simp [Function.comp_def, Token.of, Kind.hasText]

theorem enclosed (k k' : Kind) {o c : Char} (ho : o ∈ ['(', ')', '[', ']', ',']) (hk : kindOf [o] = some k) (hkw : k ≠ .ws)
    (hc : c ∈ ['(', ')', '[', ']', ',']) (hk' : kindOf [c] = some k') (hkw' : k' ≠ .ws) (hf : delimits c = true)
    (hs : Reads s ts) : Reads (o :: (s ++ [c])) (Token.of (k, [o]) :: (ts ++ [Token.of (k', [c])])) := by
  refine ⟨⟨o, s ++ [c], rfl, ?_⟩, fun rest _ => ?_⟩
  · have hcases : o = '(' ∨ o = ')' ∨ o = '[' ∨ o = ']' ∨ o = ',' := by simpa using ho
    rcases hcases with rfl | rfl | rfl | rfl | rfl <;> rfl
  · have hfr : Follows (c :: rest) := hf
    rw [cons_append, lexed_mark ho hk hkw, List.append_assoc, singleton_append, hs.reads _ hfr,
      lexed_mark hc hk' hkw', Option.map_map, Option.map_map]
    simp [Function.comp_def]

theorem parens (hs : Reads s ts) : Reads ('(' :: (s ++ [')'])) (⟨.lparen, []⟩ :: (ts ++ [⟨.rparen, []⟩])) :=
  enclosed .lparen .rparen (by simp) (by decide) (by decide) (by simp) (by decide) (by decide) (by decide) hs

theorem brackets (hs : Reads s ts) : Reads ('[' :: (s ++ [']'])) (⟨.lbrack, []⟩ :: (ts ++ [⟨.rbrack, []⟩])) :=
  enclosed .lbrack .rbrack (by simp) (by decide) (by decide) (by simp) (by decide) (by decide) (by decide) hs

theorem keyword {k : Kind} (h : kindOf s = some k) (hw : k ≠ .ws) (ht : k.hasText = false) : Reads s [⟨k, []⟩] := by
  have hword := word h hw
  rw [Token.of, ht] at hword
  exact hword

theorem list {α β : Type} {R : α → β → Prop} {f : α → Text} {g : β → List Token} : ∀ (a : α) (as : List α),
    (∀ x ∈ a :: as, ∃ y, R x y ∧ Reads (f x) (g y)) →
    ∃ b bs, List.Forall₂ R (a :: as) (b :: bs) ∧
      Reads ([',', ' '].intercalate ((a :: as).map f)) (g b ++ bs.flatMap (fun y => ⟨.comma, []⟩ :: g y))
  | a, [], h => by
    obtain ⟨b, hb, hr⟩ := h a mem_cons_self
    refine ⟨b, [], List.Forall₂.cons hb List.Forall₂.nil, ?_⟩
    rw [flatMap_nil, append_nil]
    simpa using hr
  | a, a' :: as, h => by
    obtain ⟨b, hb, hr⟩ := h a mem_cons_self
    obtain ⟨b', bs, hbs, hrs⟩ := list a' as (fun x hx => h x (mem_cons_of_mem _ hx))
    exact ⟨b, b' :: bs, List.Forall₂.cons hb hbs, hr.comma hrs⟩

end Reads

end Variables
end DsApm
