import DsApm.Lib.Regex
import DsApm.LogPipelines.Builder
import Mathlib.Algebra.Order.BigOperators.Group.List
import Mathlib.Algebra.Order.Group.Nat
/-!
# TimeGuard — the condition before a time parser

`RegexForStrptimeLayout` and the guard that `getOperators` writes with it.  The guard is an expression with the regular expression in
a quoted text; the layout is read as pieces, and each piece says what the guard asks for and what an instant is formatted as.
-/
namespace DsApm
namespace TimeLayout

open List Option Bool

open Regex (Re Item Reads)
open LogPipelines (PipelineOperator Checks replaceAll processOperator)

/-- `ctimeRegex`, by the character behind the `%`. -/
def ctimeRegex : Char → Option String
  | 'Y' => some "[0-9]{4}"
  | 'y' => some "[0-9]{2}"
  | 'm' => some "[0-9]{2}"
  | 'o' => some "_[0-9]"
  | 'q' => some "[0-9]"
  | 'b' => some "[a-zA-Z]*?"
  | 'h' => some "[a-zA-Z]*?"
  | 'B' => some "[a-zA-Z]*?"
  | 'd' => some "[0-9]{2}"
  | 'e' => some "_[0-9]"
  | 'g' => some "[0-9]"
  | 'a' => some "[a-zA-Z]*?"
  | 'A' => some "[a-zA-Z]*?"
  | 'H' => some "[0-9]{2}"
  | 'l' => some "[0-9]{1-2}"
  | 'I' => some "[0-9]{2}"
  | 'p' => some "(AM|PM)"
  | 'P' => some "(am|pm)"
  | 'M' => some "[0-9]{2}"
  | 'S' => some "[0-9]{2}"
  | 'L' => some "[0-9]*?"
  | 'f' => some "[0-9]*?"
  | 's' => some "[0-9]*?"
  | 'Z' => some "[a-zA-Z]*?"
  | 'z' => some "[-+][0-9]*?"
  | 'w' => some "[-+][0-9]*?"
  | 'i' => some "[-+][0-9]*?"
  | 'j' => some "[-+][0-9]{2}:[0-9]{2}"
  | 'k' => some "[-+][0-9]{2}:[0-9]{2}:[0-9]{2}"
  | 'D' => some "[0-9]{2}/[0-9]{2}/[0-9]{4}"
  | 'x' => some "[0-9]{2}/[0-9]{2}/[0-9]{4}"
  | 'F' => some "[0-9]{4}-[0-9]{2}-[0-9]{2}"
  | 'T' => some "[0-9]{2}:[0-9]{2}:[0-9]{2}"
  | 'X' => some "[0-9]{2}:[0-9]{2}:[0-9]{2}"
  | 'r' => some "[0-9]{2}:[0-9]{2}:[0-9]{2} (am|pm)"
  | 'R' => some "[0-9]{2}:[0-9]{2}"
  | 'n' => some "\n"
  | 't' => some "\t"
  | '%' => some "%"
  | 'c' => some "[a-zA-Z]{3} [a-zA-Z]{3} [0-9]{2} [0-9]{2}:[0-9]{2}:[0-9]{2} [0-9]{4}"
  | _ => none

/-- The characters that are escaped, in the order in which they are. -/
def regexSpecialChars : List Char := ['.', '+', '*', '?', '^', '$', '(', ')', '[', ']', '{', '}', '|', '\\']

def escaped (layout : String) : String := regexSpecialChars.foldl (fun s c => replaceAll c ['\\', c] s) layout

/-- `ReplaceAllStringFunc` of `%.`, with the errors; the point of the pattern is no line end. -/
def substitute : List Char → List Char × List String
  | '%' :: d :: s =>
    if d = '\n' then
      let (regex, errs) := substitute (d :: s)
      ('%' :: regex, errs)
    else
      let (regex, errs) := substitute s
      match ctimeRegex d with
      | some r => (r.toList ++ regex, errs)
      | none => (regex, ("unsupported ctimefmt directive: " ++ String.ofList ['%', d]) :: errs)
  | c :: s =>
    let (regex, errs) := substitute s
    (c :: regex, errs)
  | [] => ([], [])

def regexForStrptimeLayout (layout : String) : Except String String :=
  let (regex, errs) := substitute (escaped layout).toList
  if errs ≠ [] then .error ("couldn't generate regex for ctime format: [" ++ " ".intercalate errs ++ "]")
  else .ok (String.ofList regex)

/-! ## The pieces of a layout -/

inductive Piece
  | char (c : Char)
  | directive (d : Char)
  deriving DecidableEq

def pieces : List Char → List Piece
  | '%' :: d :: s => if d = '\n' then .char '%' :: pieces (d :: s) else .directive d :: pieces s
  | c :: s => .char c :: pieces s
  | [] => []

def Piece.pattern : Piece → List Char
  | .char c => if c ∈ regexSpecialChars.dropLast then ['\\', c] else [c]
  | .directive d => ((ctimeRegex d).getD "").toList

def quote (p : List Char) : List Char := p.flatMap fun c => if c = '\\' then ['\\', '\\'] else [c]

def escape (c : Char) : List Char := quote (Piece.char c).pattern

theorem flatMap_replaceAll : ∀ (cs : List Char) (s : String), cs.Nodup → '\\' ∉ cs →
    (cs.foldl (fun s c => replaceAll c ['\\', c] s) s).toList = s.toList.flatMap fun d => if d ∈ cs then ['\\', d] else [d]
  | [], s, _, _ => by simp
  | c :: cs, s, hnodup, hback => by
    obtain ⟨hmem, hrest⟩ := nodup_cons.1 hnodup
    have hcs : '\\' ∉ cs := fun h => hback (mem_cons_of_mem _ h)
    rw [foldl_cons, flatMap_replaceAll cs _ hrest hcs, replaceAll, String.toList_ofList, flatMap_assoc]
    congr 1
    funext d
    by_cases hd : d = c
    · subst hd
      simp [hmem, hcs]
    · by_cases hdcs : d ∈ cs
      · simp [hd, hdcs]
      · simp [hd, hdcs]

theorem escaped_toList (layout : String) : (escaped layout).toList = layout.toList.flatMap escape := by
  have hsplit : escaped layout = replaceAll '\\' ['\\', '\\']
      (regexSpecialChars.dropLast.foldl (fun s c => replaceAll c ['\\', c] s) layout) := by
    rw [escaped, show regexSpecialChars = regexSpecialChars.dropLast ++ ['\\'] from rfl, foldl_append]
    rfl
  rw [hsplit, replaceAll, String.toList_ofList, flatMap_replaceAll _ _ (by decide) (by decide), flatMap_assoc]
  rfl

variable {d : Char}

/-- A supported directive's regular expression has no backslash, no quote, and a line end only for `%n`. -/
theorem ctimeRegex_chars {r : String} (h : ctimeRegex d = some r) :
    '\\' ∉ r.toList ∧ '"' ∉ r.toList ∧ ('\n' ∈ r.toList → d = 'n') := by
  unfold ctimeRegex at h
  split at h
  all_goals cases h
  all_goals decide

theorem substitute_append {u : List Char} (hu : '%' ∉ u) (t : List Char) :
    substitute (u ++ t) = (u ++ (substitute t).1, (substitute t).2) := by
  induction u with
  | nil => rfl
  | cons c u ih =>
    obtain ⟨hc, hu⟩ := not_or.1 (mem_cons.not.1 hu)
    rw [cons_append, substitute, ih hu]
    · rfl
    · exact fun _ _ h => absurd h.symm hc

variable {c : Char}

theorem not_mem_escape (hc : c ≠ '%') : '%' ∉ escape c := by
  intro h
  obtain ⟨e, he, h⟩ := mem_flatMap.1 h
  have he : e = '\\' ∨ e = c := by
    rw [Piece.pattern] at he
    split_ifs at he <;> simp at he <;> tauto
  have hpercent : e ≠ '%' := by
    rcases he with rfl | rfl
    · decide
    · exact hc
  split_ifs at h
  · simp at h
  · exact hpercent (mem_singleton.1 h).symm

theorem escape_eq : (∃ u, escape d = '\\' :: u) ∨ escape d = [d] := by
  rw [escape, Piece.pattern, quote]
  split_ifs with h
  · exact .inl ⟨_, rfl⟩
  · simp only [flatMap_cons, flatMap_nil, append_nil]
    split_ifs with hd
    · exact .inl ⟨_, rfl⟩
    · exact .inr rfl

theorem quote_append (p p' : List Char) : quote (p ++ p') = quote p ++ quote p' := flatMap_append

theorem quote_of_not_mem {p : List Char} (hp : '\\' ∉ p) : quote p = p := by
  induction p with
  | nil => rfl
  | cons c p ih =>
    obtain ⟨hc, hp⟩ := not_or.1 (mem_cons.not.1 hp)
    have ih : p.flatMap (fun c => if c = '\\' then ['\\', '\\'] else [c]) = p := ih hp
    rw [quote, flatMap_cons, if_neg (Ne.symm hc), ih]
    rfl

theorem substitute_lineEnd (t : List Char) :
    substitute ('%' :: '\n' :: t) = ('%' :: (substitute ('\n' :: t)).1, (substitute ('\n' :: t)).2) := rfl

theorem substitute_directive (hd : d ≠ '\n') (t : List Char) : substitute ('%' :: d :: t) =
    match ctimeRegex d with
    | some r => (r.toList ++ (substitute t).1, (substitute t).2)
    | none => ((substitute t).1, ("unsupported ctimefmt directive: " ++ String.ofList ['%', d]) :: (substitute t).2) := by
  rw [substitute, if_neg hd]

theorem substitute_spec (s : List Char) : ∀ regex, substitute (s.flatMap escape) = (regex, []) →
    (∀ d, .directive d ∈ pieces s → (ctimeRegex d).isSome = true) ∧ regex = quote ((pieces s).flatMap Piece.pattern) := by
  have hchar : ∀ {c : Char} {ps : List Piece} {t regex : List Char},
      ((∀ d, .directive d ∈ ps → (ctimeRegex d).isSome = true) ∧ t = quote (ps.flatMap Piece.pattern)) → escape c ++ t = regex →
      (∀ d, .directive d ∈ .char c :: ps → (ctimeRegex d).isSome = true) ∧
        regex = quote ((Piece.char c :: ps).flatMap Piece.pattern) := by
    rintro c ps t regex ⟨hps, rfl⟩ rfl
    refine ⟨fun d hd => hps d ((mem_cons.1 hd).resolve_left fun h => nomatch h), ?_⟩
    rw [flatMap_cons, quote_append]
    rfl
  fun_induction pieces s with
  | case1 s ih =>
    intro regex h
    rw [flatMap_cons, flatMap_cons, show escape '%' = ['%'] from rfl, show escape '\n' = ['\n'] from rfl] at h
    rw [singleton_append, singleton_append, substitute_lineEnd] at h
    obtain ⟨rfl, herrs⟩ := Prod.mk.inj h
    exact hchar (ih _ (Prod.ext rfl herrs)) rfl
  | case2 d s hd ih =>
    intro regex h
    rw [flatMap_cons, flatMap_cons, show escape '%' = ['%'] from rfl, singleton_append] at h
    rcases escape_eq with ⟨u, hu⟩ | he
    · rw [hu, cons_append, substitute_directive (by decide)] at h
      cases h
    · rw [he, singleton_append, substitute_directive hd] at h
      cases hr : ctimeRegex d with
      | none =>
        rw [hr] at h
        cases h
      | some r =>
        rw [hr] at h
        obtain ⟨rfl, herrs⟩ := Prod.mk.inj h
        obtain ⟨hps, heq⟩ := ih _ (Prod.ext rfl herrs)
        constructor
        · intro d' hd'
          rcases mem_cons.1 hd' with hd' | hd'
          · cases hd'
            rw [hr]
            rfl
          · exact hps d' hd'
        · rw [flatMap_cons, quote_append, Piece.pattern, hr, getD_some, quote_of_not_mem (ctimeRegex_chars hr).1, ← heq]
  | case3 c s hc ih =>
    intro regex h
    rw [flatMap_cons] at h
    by_cases hpercent : c = '%'
    · subst hpercent
      cases s with
      | nil =>
        obtain ⟨rfl, -⟩ := Prod.mk.inj h
        exact ⟨fun d hd => by simp [pieces] at hd, rfl⟩
      | cons d s => exact (hc d s rfl rfl).elim
    · rw [substitute_append (not_mem_escape hpercent)] at h
      obtain ⟨rfl, herrs⟩ := Prod.mk.inj h
      exact hchar (ih _ (Prod.ext rfl herrs)) rfl
  | case4 =>
    intro regex h
    cases h
    exact ⟨fun _ h => (not_mem_nil h).elim, rfl⟩

/-! ## What a guard asks for, and what an instant is formatted as -/

inductive Block
  | char (c : Char)
  | digit
  | two
  | four
  | someDigits
  | letters
  | threeLetters
  | sign
  | half (upper : Bool)
  /-- A count that is none: the text `{1-2}`. -/
  | braces
  deriving DecidableEq

def isDigit : Char → Bool := Regex.inRanges [('0', '9')]

def isLetter : Char → Bool := Regex.inRanges [('a', 'z'), ('A', 'Z')]

def isSign : Char → Bool := Regex.inRanges [('-', '-'), ('+', '+')]

def Block.Is : Block → List Char → Prop
  | .char c, m => m = [c]
  | .digit, m => m.length = 1 ∧ ∀ c ∈ m, isDigit c = true
  | .two, m => m.length = 2 ∧ ∀ c ∈ m, isDigit c = true
  | .four, m => m.length = 4 ∧ ∀ c ∈ m, isDigit c = true
  | .someDigits, m => ∀ c ∈ m, isDigit c = true
  | .letters, m => ∀ c ∈ m, isLetter c = true
  | .threeLetters, m => m.length = 3 ∧ ∀ c ∈ m, isLetter c = true
  | .sign, m => m.length = 1 ∧ ∀ c ∈ m, isSign c = true
  | .half true, m => m = ['A', 'M'] ∨ m = ['P', 'M']
  | .half false, m => m = ['a', 'm'] ∨ m = ['p', 'm']
  | .braces, m => m = ['{', '1', '-', '2', '}']

def Are (bs : List Block) (m : List Char) : Prop := ∃ ms : List (List Char), m = ms.flatten ∧ List.Forall₂ Block.Is bs ms

def asked : Char → List Block
  | 'Y' => [.four]
  | 'y' | 'm' | 'd' | 'H' | 'I' | 'M' | 'S' => [.two]
  | 'o' | 'e' => [.char '_', .digit]
  | 'q' | 'g' => [.digit]
  | 'l' => [.digit, .braces]
  | 'b' | 'h' | 'B' | 'a' | 'A' | 'Z' => [.letters]
  | 'p' => [.half true]
  | 'P' => [.half false]
  | 'L' | 'f' | 's' => [.someDigits]
  | 'z' | 'w' | 'i' => [.sign, .someDigits]
  | 'j' => [.sign, .two, .char ':', .two]
  | 'k' => [.sign, .two, .char ':', .two, .char ':', .two]
  | 'D' | 'x' => [.two, .char '/', .two, .char '/', .four]
  | 'F' => [.four, .char '-', .two, .char '-', .two]
  | 'T' | 'X' => [.two, .char ':', .two, .char ':', .two]
  | 'r' => [.two, .char ':', .two, .char ':', .two, .char ' ', .half false]
  | 'R' => [.two, .char ':', .two]
  | 'n' => [.char '\n']
  | 't' => [.char '\t']
  | '%' => [.char '%']
  | 'c' => [.threeLetters, .char ' ', .threeLetters, .char ' ', .two, .char ' ', .two, .char ':', .two,
      .char ':', .two, .char ' ', .four]
  | _ => []

/-- What the directives are documented to be formatted as: a month or day of its own padding, an hour of one or two digits, an
offset or nothing, a weekday's number or an offset, a date of a short or a long year; the others as the guard has them. -/
def documented (d : Char) : List (List Block) :=
  if d = 'o' ∨ d = 'e' then [[.char ' ', .digit], [.two]]
  else if d = 'q' ∨ d = 'g' ∨ d = 'l' then [[.digit], [.two]]
  else if d = 'z' then [[.sign, .someDigits], [.sign, .someDigits, .char '.', .someDigits], [.letters]]
  else if d = 'w' then [[.digit], [.sign, .someDigits]]
  else if d = 'D' ∨ d = 'x' then [[.two, .char '/', .two, .char '/', .two], [.two, .char '/', .two, .char '/', .four]]
  else [asked d]

structure Instant where
  text : Char → List Char
  documented : ∀ d, (ctimeRegex d).isSome = true → ∃ bs ∈ documented d, Are bs (text d)

def Piece.text (i : Instant) : Piece → List Char
  | .char c => [c]
  | .directive d => i.text d

def Instant.format (i : Instant) (layout : String) : List Char := (pieces layout.toList).flatMap (Piece.text i)

/-! ### The regular expression of a block -/

def Block.pattern : Block → List Char
  | .char c => [c]
  | .digit => "[0-9]".toList
  | .two => "[0-9]{2}".toList
  | .four => "[0-9]{4}".toList
  | .someDigits => "[0-9]*?".toList
  | .letters => "[a-zA-Z]*?".toList
  | .threeLetters => "[a-zA-Z]{3}".toList
  | .sign => "[-+]".toList
  | .half true => "(AM|PM)".toList
  | .half false => "(am|pm)".toList
  | .braces => "{1-2}".toList

def one (c : Char) : Re := .cls (· == c)

def Block.items : Block → List Item
  | .char c => [(one c, false)]
  | .digit => [(.cls isDigit, false)]
  | .two => [(Regex.rep 2 (.cls isDigit), true)]
  | .four => [(Regex.rep 4 (.cls isDigit), true)]
  | .someDigits => [(.star (.cls isDigit), true)]
  | .letters => [(.star (.cls isLetter), true)]
  | .threeLetters => [(Regex.rep 3 (.cls isLetter), true)]
  | .sign => [(.cls isSign, false)]
  | .half true => [(.alt (.seq (one 'A') (one 'M')) (.seq (one 'P') (one 'M')), false)]
  | .half false => [(.alt (.seq (one 'a') (one 'm')) (.seq (one 'p') (one 'm')), false)]
  | .braces => [(one '{', false), (one '1', false), (one '-', false), (one '2', false), (one '}', false)]

theorem ctimeRegex_eq {r : String} (h : ctimeRegex d = some r) : r.toList = (asked d).flatMap Block.pattern := by
  unfold ctimeRegex at h
  split at h
  all_goals cases h
  all_goals decide

def Block.plain : Block → Bool
  | .char c => Regex.isPlainChar c
  | _ => true

theorem plain_asked (d : Char) : ∀ b ∈ asked d, b.plain = true := by
  unfold asked
  split
  all_goals decide

variable {b : Block}

theorem Block.reads (hb : b.plain = true) : Reads b.pattern b.items := by
  have hdigit : Reads "[0-9]".toList [(.cls isDigit, false)] :=
    ⟨[.one isDigit], fun s => by simp [Regex.tokens, Regex.classRanges, isDigit], fun _ _ _ _ => rfl⟩
  have hletter : Reads "[a-zA-Z]".toList [(.cls isLetter, false)] :=
    ⟨[.one isLetter], fun s => by simp [Regex.tokens, Regex.classRanges, isLetter], fun _ _ _ _ => rfl⟩
  cases b with
  | char c => exact Regex.reads_char hb
  | digit => exact hdigit
  | two => exact hdigit.times (n := 2) (by decide)
  | four => exact hdigit.times (n := 4) (by decide)
  | someDigits => exact hdigit.lazyStar
  | letters => exact hletter.lazyStar
  | threeLetters => exact hletter.times (n := 3) (by decide)
  | sign =>
    have hsign : Reads "[-+]".toList [(.cls isSign, false)] :=
      ⟨[.one isSign], fun s => by simp [Regex.tokens, Regex.classRanges, isSign], fun _ _ _ _ => rfl⟩
    exact hsign
  | half upper =>
    have hupper : Reads "(AM|PM)".toList (Block.half true).items :=
      ⟨[.opening, .one (· == 'A'), .one (· == 'M'), .bar, .one (· == 'P'), .one (· == 'M'), .closing],
        fun s => by simp [Regex.tokens, Function.comp_def], fun _ _ _ _ => rfl⟩
    have hlower : Reads "(am|pm)".toList (Block.half false).items :=
      ⟨[.opening, .one (· == 'a'), .one (· == 'm'), .bar, .one (· == 'p'), .one (· == 'm'), .closing],
        fun s => by simp [Regex.tokens, Function.comp_def], fun _ _ _ _ => rfl⟩
    cases upper with
    | true => exact hupper
    | false => exact hlower
  | braces =>
    have hbraces : Reads "{1-2}".toList Block.braces.items :=
      ⟨[.one (· == '{'), .one (· == '1'), .one (· == '-'), .one (· == '2'), .one (· == '}')],
        fun s => by simp [Regex.tokens, Regex.braceToken, Function.comp_def], fun _ _ _ _ => rfl⟩
    exact hbraces

variable {m : List Char}

theorem accepts_one : (one c).Accepts m ↔ m = [c] := by
  constructor
  · rintro ⟨d, rfl, hd⟩
    rw [beq_iff_eq.1 hd]
  · rintro rfl
    exact ⟨c, rfl, beq_self_eq_true c⟩

theorem accepts_text : ∀ (cs : List Char) {m : List Char}, (Regex.seqs (cs.map one)).Accepts m ↔ m = cs
  | [], _ => Iff.rfl
  | c :: cs, _ => by
    rw [map_cons, Regex.accepts_seqs_cons]
    constructor
    · rintro ⟨u, v, rfl, hu, hv⟩
      rw [accepts_one.1 hu, (accepts_text cs).1 hv]
      rfl
    · rintro rfl
      exact ⟨[c], cs, rfl, accepts_one.2 rfl, (accepts_text cs).2 rfl⟩

theorem Block.accepts_iff : (Regex.seqs (b.items.map Prod.fst)).Accepts m ↔ b.Is m := by
  cases b with
  | char c => exact accepts_one
  | digit => exact Regex.accepts_cls
  | two => exact Regex.accepts_rep_cls
  | four => exact Regex.accepts_rep_cls
  | someDigits => exact Regex.accepts_star_cls
  | letters => exact Regex.accepts_star_cls
  | threeLetters => exact Regex.accepts_rep_cls
  | sign => exact Regex.accepts_cls
  | half upper =>
    cases upper with
    | true => exact or_congr (accepts_text ['A', 'M']) (accepts_text ['P', 'M'])
    | false => exact or_congr (accepts_text ['a', 'm']) (accepts_text ['p', 'm'])
  | braces => exact accepts_text ['{', '1', '-', '2', '}']

theorem Block.plain_items (b : Block) : ∀ r ∈ b.items.map Prod.fst, r.plain = true := by
  cases b with
  | half upper => cases upper <;> exact forall_mem_singleton.2 rfl
  | braces => simp [Block.items, one, Re.plain, Re.anchored, Re.looks]
  | _ => exact forall_mem_singleton.2 rfl

/-! ### The regular expression of a layout -/

def Piece.blocks : Piece → List Block
  | .char c => [.char c]
  | .directive d => asked d

def Piece.items (p : Piece) : List Item := p.blocks.flatMap Block.items

def layoutRe (ps : List Piece) : Re := Regex.seqs ((ps.flatMap Piece.items).map Prod.fst)

theorem Piece.reads {p : Piece} (hchar : p ≠ .char '\\') (hd : ∀ d, p = .directive d → (ctimeRegex d).isSome = true) :
    Reads p.pattern p.items := by
  cases p with
  | char c =>
    have hitems : (Piece.char c).items = [(one c, false)] := rfl
    rw [hitems, Piece.pattern]
    have hback : c ≠ '\\' := fun h => hchar (h ▸ rfl)
    split_ifs with hc
    · have hpunct : ∀ c ∈ regexSpecialChars.dropLast, Regex.isPunct c = true := Listed.forall_mem (by decide)
      exact Regex.reads_escaped (hpunct c hc)
    · have hmeta : ∀ c ∈ Regex.metaChars, c ∈ regexSpecialChars.dropLast ∨ c = '\\' := Listed.forall_mem (by decide)
      exact Regex.reads_char (decide_eq_true fun h => (hmeta c h).elim hc hback)
  | directive d =>
    obtain ⟨r, hr⟩ := isSome_iff_exists.1 (hd d rfl)
    rw [Piece.pattern, hr, getD_some, ctimeRegex_eq hr]
    exact Reads.flatMap fun b hb => b.reads (plain_asked d b hb)

variable {ps : List Piece}

theorem accepts_layoutRe : (layoutRe ps).Accepts m ↔
    ∃ ms : List (List Char), m = ms.flatten ∧ List.Forall₂ (fun p u => Are p.blocks u) ps ms := by
  have hblocks : ∀ (p : Piece) (u : List Char), (Regex.seqs (p.items.map Prod.fst)).Accepts u ↔ Are p.blocks u := by
    intro p u
    rw [Piece.items, map_flatMap, Regex.accepts_seqs_flatMap]
    simp only [Block.accepts_iff, Are]
  rw [layoutRe, map_flatMap, Regex.accepts_seqs_flatMap]
  simp only [hblocks]

theorem plain_layoutRe (ps : List Piece) : (layoutRe ps).plain = true := by
  refine Regex.plain_seqs fun r hr => ?_
  rw [map_flatMap] at hr
  obtain ⟨p, -, hr⟩ := mem_flatMap.1 hr
  rw [Piece.items, map_flatMap] at hr
  obtain ⟨b, -, hr⟩ := mem_flatMap.1 hr
  exact b.plain_items r hr

theorem mem_of_mem_pieces (s : List Char) : .char c ∈ pieces s → c ∈ s := by
  fun_induction pieces s with
  | case1 s ih =>
    intro h
    rcases mem_cons.1 h with h | h
    · cases h
      exact mem_cons_self
    · exact mem_cons_of_mem _ (ih h)
  | case2 d s hd ih =>
    intro h
    rcases mem_cons.1 h with h | h
    · cases h
    · exact mem_cons_of_mem _ (mem_cons_of_mem _ (ih h))
  | case3 c' s hc ih =>
    intro h
    rcases mem_cons.1 h with h | h
    · cases h
      exact mem_cons_self
    · exact mem_cons_of_mem _ (ih h)
  | case4 => exact fun h => (not_mem_nil h).elim

theorem lineEnd_mem_pieces (s : List Char) : '\n' ∈ s → .char '\n' ∈ pieces s := by
  fun_induction pieces s with
  | case1 s ih => exact fun _ => mem_cons_of_mem _ (ih mem_cons_self)
  | case2 d s hd ih =>
    intro h
    rcases mem_cons.1 h with h | h
    · cases h
    · exact mem_cons_of_mem _ (ih ((mem_cons.1 h).resolve_left fun h => hd h.symm))
  | case3 c s hc ih =>
    intro h
    rcases mem_cons.1 h with rfl | h
    · exact mem_cons_self
    · exact mem_cons_of_mem _ (ih h)
  | case4 => exact fun h => (not_mem_nil h).elim

variable {s : List Char}

theorem parse_pattern (hback : '\\' ∉ s) (hd : ∀ d, .directive d ∈ pieces s → (ctimeRegex d).isSome = true) :
    Regex.compile ((pieces s).flatMap Piece.pattern) = some (layoutRe (pieces s)) :=
  (Reads.flatMap fun _ hp => Piece.reads (fun h => hback (mem_of_mem_pieces s (h ▸ hp))) fun d h => hd d (h ▸ hp)).compile

/-! ### Counting -/

def Mark (S : Char → Bool) : Prop := (∀ c, isDigit c = true → S c = false) ∧ (∀ c, isLetter c = true → S c = false)

/-- How many characters of a kind a text of the block has: all signs are of the kind, or none is. -/
def Block.count (S : Char → Bool) : Block → Nat
  | .char c => [c].countP S
  | .sign => ['-'].countP S
  | .braces => ['{', '1', '-', '2', '}'].countP S
  | _ => 0

variable {S : Char → Bool}

theorem Block.countP_eq (hS : Mark S) (hsign : S '+' = S '-') (h : b.Is m) :
    m.countP S = b.count S := by
  have hnone : ∀ {f : Char → Bool}, (∀ c, f c = true → S c = false) → (∀ c ∈ m, f c = true) → m.countP S = 0 := by
    intro f hf hm
    refine countP_eq_zero.2 fun c hc => ?_
    rw [hf c (hm c hc)]
    exact Bool.false_ne_true
  cases b with
  | char c => rw [show m = [c] from h]; rfl
  | digit => exact hnone hS.1 h.2
  | two => exact hnone hS.1 h.2
  | four => exact hnone hS.1 h.2
  | someDigits => exact hnone hS.1 h
  | letters => exact hnone hS.2 h
  | threeLetters => exact hnone hS.2 h.2
  | sign =>
    obtain ⟨hlen, hm⟩ := h
    obtain ⟨c, rfl⟩ := length_eq_one_iff.1 hlen
    have hc : c = '-' ∨ c = '+' := by
      have hc := hm c mem_cons_self
      simp only [isSign, Regex.inRanges, any_cons, any_nil, Bool.or_false, or_eq_true, and_eq_true,
        decide_eq_true_eq] at hc
      exact hc.imp (fun h => Char.le_antisymm h.2 h.1) fun h => Char.le_antisymm h.2 h.1
    rcases hc with rfl | rfl
    · rfl
    · have hcount : ∀ c, List.countP S [c] = if S c = true then 1 else 0 := fun c => countP_singleton
      exact (hcount '+').trans (hsign ▸ (hcount '-').symm)
  | half upper =>
    cases upper with
    | true => rcases h with rfl | rfl <;> exact hnone hS.2 (Listed.forall_mem (by decide))
    | false => rcases h with rfl | rfl <;> exact hnone hS.2 (Listed.forall_mem (by decide))
  | braces => rw [show m = _ from h]; rfl

/-- The kinds that the guards of some directives ask for more of than there are. -/
structure Counted (S : Char → Bool) : Prop where
  mark : Mark S
  sign : S '+' = S '-'

variable {bs : List Block}

theorem countP_are (hS : Counted S) (h : Are bs m) :
    m.countP S = (bs.map (Block.count S)).sum := by
  obtain ⟨ms, rfl, hms⟩ := h
  induction hms with
  | nil => rfl
  | cons hb _ ih =>
    rw [List.flatten_cons, countP_append, Block.countP_eq hS.mark hS.sign hb, ih]
    rfl

theorem not_accepts_of_count (hS : Counted S) {i : Instant}
    (hle : ∀ d, .directive d ∈ ps → (i.text d).countP S ≤ ((asked d).map (Block.count S)).sum) (hd : .directive d ∈ ps)
    (hlt : (i.text d).countP S < ((asked d).map (Block.count S)).sum) (hm : m <:+: ps.flatMap (Piece.text i)) :
    ¬(layoutRe ps).Accepts m := by
  intro h
  obtain ⟨ms, rfl, hms⟩ := accepts_layoutRe.1 h
  have hneed : ms.flatten.countP S = (ps.map fun p => (p.blocks.map (Block.count S)).sum).sum := by
    clear hle hd hm h
    induction hms with
    | nil => rfl
    | cons hp _ ih => rw [List.flatten_cons, countP_append, countP_are hS hp, ih, map_cons, sum_cons]
  have htext : (ps.flatMap (Piece.text i)).countP S = (ps.map fun p => (p.text i).countP S).sum := by
    rw [countP_flatMap]
    rfl
  have hsum : (ps.map fun p => (p.text i).countP S).sum < (ps.map fun p => (p.blocks.map (Block.count S)).sum).sum := by
    refine sum_lt_sum _ _ (fun p hp => ?_) ⟨_, hd, hlt⟩
    cases p with
    | char c => exact Nat.le_of_eq rfl
    | directive d => exact hle d hp
  have hle := hm.sublist.countP_le (p := S)
  rw [hneed, htext] at hle
  exact absurd hsum (Nat.not_lt.2 hle)

/-! ## When the guard lets an instant through -/

/-- A directive's text is as the guard asks for it: never for a padded month or day, a twelve-hour number or a line end; a month or
day without padding is of one digit, an offset has its sign, and a short date its whole year. -/
def fits (d : Char) (m : List Char) : Bool :=
  if d ∈ ['n', 'o', 'e', 'l'] then false
  else if d ∈ ['q', 'g'] then m.length == 1
  else if d ∈ ['z', 'w'] then m.head?.any isSign && !m.contains '.'
  else if d ∈ ['D', 'x'] then m.length == 10
  else true

/-- A directive's text never passes the guard: what is asked for has a character that no text has. -/
def lost (d : Char) (m : List Char) : Bool := d ∈ ['n', 'o', 'e', 'l'] || d ∈ ['z', 'w'] && !m.any isSign

def Instant.Fits (i : Instant) (layout : String) : Prop :=
  (∀ c ∈ ['"', '\\', '\n'], c ∉ layout.toList) ∧ ∀ d, .directive d ∈ pieces layout.toList → fits d (i.text d) = true

def Instant.Lost (i : Instant) (layout : String) : Prop :=
  '\n' ∈ layout.toList ∨ ∃ d, .directive d ∈ pieces layout.toList ∧ lost d (i.text d) = true

@[simp] theorem are_nil : Are [] m ↔ m = [] := by
  constructor
  · rintro ⟨_, rfl, ⟨⟩⟩
    rfl
  · rintro rfl
    exact ⟨[], rfl, .nil⟩

theorem are_cons : Are (b :: bs) m ↔ ∃ u v, m = u ++ v ∧ b.Is u ∧ Are bs v := by
  constructor
  · rintro ⟨_, rfl, ⟨⟩⟩
    rename_i u ms hu hms
    exact ⟨u, ms.flatten, rfl, hu, ms, rfl, hms⟩
  · rintro ⟨u, v, rfl, hu, ms, rfl, hms⟩
    exact ⟨u :: ms, rfl, .cons hu hms⟩

theorem sign_cases (h : isSign c = true) : c = '-' ∨ c = '+' := by
  simp only [isSign, Regex.inRanges, any_cons, any_nil, Bool.or_false, or_eq_true, and_eq_true,
    decide_eq_true_eq] at h
  exact h.imp (fun h => Char.le_antisymm h.2 h.1) fun h => Char.le_antisymm h.2 h.1

theorem head_not_sign {f : Char → Bool} (hf : f '-' = false ∧ f '+' = false) (hm : ∀ c ∈ m, f c = true) :
    m.head?.any isSign = false := by
  cases m with
  | nil => rfl
  | cons c m =>
    rw [List.head?_cons, any_some, ← not_eq_true]
    intro hc
    have hfc := hm c mem_cons_self
    rcases sign_cases hc with rfl | rfl
    · rw [hf.1] at hfc
      cases hfc
    · rw [hf.2] at hfc
      cases hfc

theorem are_one : Are [b] m ↔ b.Is m := by
  rw [are_cons]
  constructor
  · rintro ⟨u, v, rfl, hu, hv⟩
    rw [are_nil.1 hv, append_nil]
    exact hu
  · intro h
    exact ⟨m, [], (append_nil m).symm, h, are_nil.2 rfl⟩

theorem are_asked (hbs : bs ∈ documented d) (hm : Are bs m) (hfits : fits d m = true) :
    Are (asked d) m := by
  have hnumber : bs = [.digit] ∨ bs = [.two] → (m.length == 1) = true → Are [.digit] m := by
    rintro (rfl | rfl) hlen
    · exact hm
    · rw [(are_one.1 hm).1] at hlen
      cases hlen
  have hdigits : isDigit '-' = false ∧ isDigit '+' = false := by decide
  rw [documented] at hbs
  split_ifs at hbs with h₁ h₂ h₃ h₄ h₅
  · rcases h₁ with rfl | rfl <;> cases hfits
  · have hbs : bs = [.digit] ∨ bs = [.two] := by simpa using hbs
    rcases h₂ with rfl | rfl | rfl
    · exact hnumber hbs hfits
    · exact hnumber hbs hfits
    · cases hfits
  · subst h₃
    have hfits : (m.head?.any isSign && !m.contains '.') = true := hfits
    rw [and_eq_true, not_eq_true', contains_eq_mem, decide_eq_false_iff_not] at hfits
    have hbs : bs = [.sign, .someDigits] ∨ bs = [.sign, .someDigits, .char '.', .someDigits] ∨ bs = [.letters] := by simpa using hbs
    rcases hbs with rfl | rfl | rfl
    · exact hm
    · obtain ⟨_, _, rfl, -, hm⟩ := are_cons.1 hm
      obtain ⟨_, _, rfl, -, hm⟩ := are_cons.1 hm
      obtain ⟨_, _, rfl, hpoint, -⟩ := are_cons.1 hm
      cases (show _ = ['.'] from hpoint)
      exact absurd (by simp) hfits.2
    · rw [head_not_sign (f := isLetter) (by decide) (are_one.1 hm)] at hfits
      cases hfits.1
  · subst h₄
    have hfits : (m.head?.any isSign && !m.contains '.') = true := hfits
    rw [and_eq_true] at hfits
    have hbs : bs = [.digit] ∨ bs = [.sign, .someDigits] := by simpa using hbs
    rcases hbs with rfl | rfl
    · rw [head_not_sign hdigits (are_one.1 hm).2] at hfits
      cases hfits.1
    · exact hm
  · have hlen : (m.length == 10) = true := by
      rcases h₅ with rfl | rfl <;> exact hfits
    have hbs : bs = [.two, .char '/', .two, .char '/', .two] ∨ bs = [.two, .char '/', .two, .char '/', .four] := by simpa using hbs
    rcases hbs with rfl | rfl
    · obtain ⟨_, _, rfl, h₁, hm⟩ := are_cons.1 hm
      obtain ⟨_, _, rfl, h₂, hm⟩ := are_cons.1 hm
      obtain ⟨_, _, rfl, h₃, hm⟩ := are_cons.1 hm
      obtain ⟨_, _, rfl, h₄, hyear⟩ := are_cons.1 hm
      have hyear := (are_one.1 hyear).1
      cases (show _ = ['/'] from h₂)
      cases (show _ = ['/'] from h₄)
      simp [h₁.1, h₃.1, hyear] at hlen
    · rcases h₅ with rfl | rfl <;> exact hm
  · rwa [← mem_singleton.1 hbs]

/-! ### What is counted -/

def counted : List (Char → Bool) := [(· == '_'), (· == '{'), isSign]

theorem counted_mark : ∀ S ∈ counted, Counted S := by
  have hmark : ∀ S : Char → Bool, (∀ c, S c = true → c ∈ ['_', '{', '-', '+']) → Mark S := by
    intro S hS
    have hnot : ∀ c ∈ ['_', '{', '-', '+'], isDigit c = false ∧ isLetter c = false := Listed.forall_mem (by decide)
    refine ⟨fun c hc => ?_, fun c hc => ?_⟩
    · by_contra h
      rw [(hnot c (hS c (not_eq_false _ ▸ h))).1] at hc
      cases hc
    · by_contra h
      rw [(hnot c (hS c (not_eq_false _ ▸ h))).2] at hc
      cases hc
  intro S hS
  have hS : S = (· == '_') ∨ S = (· == '{') ∨ S = isSign := by simpa [counted] using hS
  rcases hS with rfl | rfl | rfl
  · exact ⟨hmark _ fun c hc => by simp [beq_iff_eq.1 hc], rfl⟩
  · exact ⟨hmark _ fun c hc => by simp [beq_iff_eq.1 hc], rfl⟩
  · refine ⟨hmark _ fun c hc => ?_, rfl⟩
    rcases sign_cases hc with rfl | rfl <;> simp

theorem count_documented_le : ∀ S ∈ counted, ∀ d, ∀ bs ∈ documented d,
    (bs.map (Block.count S)).sum ≤ ((asked d).map (Block.count S)).sum := by
  intro S hS d bs hbs
  rw [documented] at hbs
  split_ifs at hbs with h₁ h₂ h₃ h₄ h₅
  · rcases h₁ with rfl | rfl <;> revert S bs <;> decide
  · rcases h₂ with rfl | rfl | rfl <;> revert S bs <;> decide
  · subst h₃
    revert S bs
    decide
  · subst h₄
    revert S bs
    decide
  · rcases h₅ with rfl | rfl <;> revert S bs <;> decide
  · rw [mem_singleton.1 hbs]

theorem count_lost (hbs : bs ∈ documented d) (hm : Are bs m) (hlost : lost d m = true)
    (hd : d ≠ 'n') : ∃ S ∈ counted, m.countP S < ((asked d).map (Block.count S)).sum := by
  have hpadded : ∀ d ∈ ['o', 'e'], ∀ bs ∈ documented d, (bs.map (Block.count (· == '_'))).sum < ((asked d).map (Block.count (· == '_'))).sum :=
    Listed.forall_mem (by decide)
  have hhour : ∀ bs ∈ documented 'l', (bs.map (Block.count (· == '{'))).sum < ((asked 'l').map (Block.count (· == '{'))).sum := by
    decide
  have hsigned : ∀ d ∈ ['z', 'w'], ((asked d).map (Block.count isSign)).sum = 1 := Listed.forall_mem (by decide)
  rw [lost, or_eq_true, and_eq_true, decide_eq_true_eq, decide_eq_true_eq] at hlost
  rcases hlost with hmem | ⟨hmem, hnone⟩
  · have hmem : d = 'n' ∨ d = 'o' ∨ d = 'e' ∨ d = 'l' := by simpa using hmem
    rcases hmem with rfl | hmem | hmem | rfl
    · exact absurd rfl hd
    · refine ⟨_, mem_cons_self, ?_⟩
      rw [countP_are (counted_mark _ mem_cons_self) hm]
      exact hpadded d (by simp [hmem]) bs hbs
    · refine ⟨_, mem_cons_self, ?_⟩
      rw [countP_are (counted_mark _ mem_cons_self) hm]
      exact hpadded d (by simp [hmem]) bs hbs
    · have hS : (fun c : Char => c == '{') ∈ counted := mem_cons_of_mem _ mem_cons_self
      refine ⟨_, hS, ?_⟩
      rw [countP_are (counted_mark _ hS) hm]
      exact hhour bs hbs
  · have hS : isSign ∈ counted := mem_cons_of_mem _ (mem_cons_of_mem _ mem_cons_self)
    refine ⟨isSign, hS, ?_⟩
    rw [hsigned d hmem, Nat.lt_one_iff, countP_eq_zero]
    intro c hc hsign
    rw [not_eq_true', List.any_eq_false] at hnone
    exact hnone c hc hsign

theorem not_match_of_lost {i : Instant} (hsupported : ∀ d, .directive d ∈ ps → (ctimeRegex d).isSome = true) (hd : .directive d ∈ ps) (hlost : lost d (i.text d) = true) (hn : d ≠ 'n') :
    Regex.matchFrom (layoutRe ps) none (ps.flatMap (Piece.text i)) = false := by
  obtain ⟨bs, hbs, hm⟩ := i.documented d (hsupported d hd)
  obtain ⟨S, hS, hlt⟩ := count_lost hbs hm hlost hn
  rw [← not_eq_true, Regex.matchFrom_iff (plain_layoutRe ps)]
  rintro ⟨m, hinfix, hacc⟩
  refine not_accepts_of_count (counted_mark S hS) (fun d hd => ?_) hd hlt hinfix hacc
  obtain ⟨bs, hbs, hm⟩ := i.documented d (hsupported d hd)
  rw [countP_are (counted_mark S hS) hm]
  exact count_documented_le S hS d bs hbs

theorem match_of_fits {i : Instant} (hsupported : ∀ d, .directive d ∈ ps → (ctimeRegex d).isSome = true)
    (hfits : ∀ d, .directive d ∈ ps → fits d (i.text d) = true) :
    Regex.matchFrom (layoutRe ps) none (ps.flatMap (Piece.text i)) = true := by
  refine (Regex.matchFrom_iff (plain_layoutRe ps) _ _).2 ⟨_, infix_refl _, accepts_layoutRe.2 ⟨ps.map (Piece.text i), ?_, ?_⟩⟩
  · exact flatMap_def
  · rw [List.forall₂_map_right_iff, List.forall₂_same]
    intro p hp
    cases p with
    | char c => exact are_one.2 rfl
    | directive d =>
      obtain ⟨bs, hbs, hm⟩ := i.documented d (hsupported d hp)
      exact are_asked hbs hm (hfits d hp)

/-! ### The guard as an expression -/

/-- The language of the expressions, of another repository: what compiles, what is true of a record without an error, and the text
that an expression has. -/
structure ExprLang where
  Record : Type
  Compiles : String → Prop
  Holds : String → Record → Prop
  text : String → Record → Option String

def guardText (check parseFrom : String) (p : List Char) : String :=
  check ++ " && " ++ parseFrom ++ " matches \"" ++ String.ofList (quote p) ++ "\""

/-- What the language says of `check && parseFrom matches "…"`, of a check and a path that it takes: with a regular expression in the
quotes it compiles, and is true where the check is and the expression matches; a text in quotes does not go over a line end. -/
structure ExprLang.Matches (E : ExprLang) (check parseFrom : String) : Prop where
  compiles : ∀ p r, '"' ∉ p → '\n' ∉ p → Regex.compile p = some r → E.Compiles (guardText check parseFrom p)
  holds : ∀ p r, '"' ∉ p → '\n' ∉ p → Regex.compile p = some r → ∀ record s, E.Holds check record → E.text parseFrom record = some s →
    (E.Holds (guardText check parseFrom p) record ↔ Regex.matchString r s = true)
  lineEnd : ∀ p, '"' ∉ p → '\n' ∈ p → ¬E.Compiles (guardText check parseFrom p)

def ExprLang.Admits (E : ExprLang) (op : PipelineOperator) (record : E.Record) : Prop :=
  E.Compiles op.ifExpr ∧ E.Holds op.ifExpr record

theorem guard_of_ok {layout regex : String} (h : regexForStrptimeLayout layout = .ok regex) :
    (∀ d, .directive d ∈ pieces layout.toList → (ctimeRegex d).isSome = true) ∧
      regex = String.ofList (quote ((pieces layout.toList).flatMap Piece.pattern)) := by
  unfold regexForStrptimeLayout at h
  rw [escaped_toList] at h
  dsimp only at h
  split_ifs at h with herrs
  obtain ⟨hsupported, hregex⟩ := substitute_spec layout.toList _ (Prod.ext rfl (not_not.1 herrs))
  exact ⟨hsupported, by rw [← hregex, Except.ok.inj h]⟩

theorem mem_of_mem_pattern (hsupported : ∀ d, .directive d ∈ pieces s → (ctimeRegex d).isSome = true)
    (hc : c ∈ ['"', '\n']) (h : c ∈ (pieces s).flatMap Piece.pattern) : c ∈ s ∨ c = '\n' ∧ .directive 'n' ∈ pieces s := by
  obtain ⟨p, hp, h⟩ := mem_flatMap.1 h
  cases p with
  | char e =>
    have hback : c ≠ '\\' := by
      rintro rfl
      exact absurd hc (by decide)
    have he : c = e := by
      rw [Piece.pattern] at h
      split_ifs at h
      · exact mem_singleton.1 ((mem_cons.1 h).resolve_left hback)
      · exact mem_singleton.1 h
    exact .inl (he ▸ mem_of_mem_pieces s hp)
  | directive d =>
    obtain ⟨r, hr⟩ := isSome_iff_exists.1 (hsupported d hp)
    rw [Piece.pattern, hr, getD_some] at h
    obtain ⟨-, hquote, hline⟩ := ctimeRegex_chars hr
    rcases mem_cons.1 hc with rfl | hc
    · exact absurd h hquote
    · rw [mem_singleton.1 hc] at h ⊢
      cases hline h
      exact .inr ⟨rfl, hp⟩

theorem lineEnd_mem_pattern (h : '\n' ∈ s ∨ .directive 'n' ∈ pieces s) : '\n' ∈ (pieces s).flatMap Piece.pattern := by
  rcases h with h | h
  · exact mem_flatMap.2 ⟨_, lineEnd_mem_pieces s h, by decide⟩
  · exact mem_flatMap.2 ⟨_, h, by decide⟩

section
variable {φ : Type} (K : Checks φ)

theorem processOperator_strptime {op : PipelineOperator} (htype : op.type = "time_parser") (hlayout : op.layoutType = "strptime") {n n' : Nat}
    {op' : PipelineOperator} (h : processOperator K op n = some ([op'], n')) : ∃ check regex, K.fieldNotNilCheck op.parseFrom = some check ∧
      K.regexForStrptimeLayout op.layout = some regex ∧
      op'.ifExpr = check ++ " && " ++ op.parseFrom ++ " matches \"" ++ regex ++ "\"" := by
  have hnone : ∀ type ∈ ["regex_parser", "grok_parser", "json_parser", "add", "move", "copy", "remove", "trace_parser"],
      op.type ≠ type := by
    rw [htype]
    decide
  simp only [forall_mem_cons] at hnone
  obtain ⟨h₁, h₂, h₃, h₄, h₅, h₆, h₇, h₈, -⟩ := hnone
  rw [processOperator, if_neg h₁, if_neg h₂, if_neg h₃, if_neg h₄, if_neg (not_or.2 ⟨h₅, h₆⟩), if_neg h₇, if_neg h₈, if_pos htype] at h
  obtain ⟨out, hout, heq⟩ := map_eq_some_iff.1 h
  obtain ⟨check, hcheck, hout⟩ := bind_eq_some_iff.1 hout
  rw [if_pos hlayout] at hout
  obtain ⟨regex, hregex, rfl⟩ := map_eq_some_iff.1 hout
  cases heq
  exact ⟨check, regex, hcheck, hregex, rfl⟩

end

/-! ### A parser of `attributes.ts` -/

instance (b : Block) (m : List Char) : Decidable (b.Is m) := by
  cases b
  case half upper => cases upper <;> exact inferInstanceAs (Decidable (_ ∨ _))
  case char | braces => exact inferInstanceAs (Decidable (_ = _))
  case someDigits | letters => exact decidable_of_iff (m.all _ = true) List.all_eq_true
  all_goals exact decidable_of_iff (_ ∧ m.all _ = true) (and_congr_right fun _ => List.all_eq_true)

def secondOfJanuary : Char → List String
  | 'Y' => ["2024"]
  | 'y' => ["24"]
  | 'm' => ["01"]
  | 'o' => [" ", "1"]
  | 'q' => ["1"]
  | 'b' | 'h' => ["Jan"]
  | 'B' => ["January"]
  | 'd' => ["02"]
  | 'e' => [" ", "2"]
  | 'g' => ["2"]
  | 'a' => ["Tue"]
  | 'A' => ["Tuesday"]
  | 'H' | 'I' => ["03"]
  | 'l' => ["3"]
  | 'p' => ["AM"]
  | 'P' => ["am"]
  | 'M' => ["04"]
  | 'S' => ["05"]
  | 'L' => ["006"]
  | 'f' => ["006000"]
  | 's' => ["006000000"]
  | 'Z' => ["IST"]
  | 'z' => ["+", "0530"]
  | 'w' => ["+", "053000"]
  | 'i' => ["+", "05"]
  | 'j' => ["+", "05", ":", "30"]
  | 'k' => ["+", "05", ":", "30", ":", "00"]
  | 'D' | 'x' => ["01", "/", "02", "/", "2024"]
  | 'F' => ["2024", "-", "01", "-", "02"]
  | 'T' | 'X' => ["03", ":", "04", ":", "05"]
  | 'r' => ["03", ":", "04", ":", "05", " ", "am"]
  | 'R' => ["03", ":", "04"]
  | 'n' => ["\n"]
  | 't' => ["\t"]
  | '%' => ["%"]
  | 'c' => ["Tue", " ", "Jan", " ", "02", " ", "03", ":", "04", ":", "05", " ", "2024"]
  | _ => []

def january : Instant where
  text d := ((secondOfJanuary d).map String.toList).flatten
  documented := by
    intro d hd
    have hparts : ∃ bs ∈ documented d, List.Forall₂ Block.Is bs ((secondOfJanuary d).map String.toList) := by
      unfold ctimeRegex at hd
      split at hd
      case h_41 => cases hd
      all_goals decide
    obtain ⟨bs, hbs, hparts⟩ := hparts
    exact ⟨bs, hbs, _, rfl, hparts⟩

theorem quote_inj : ∀ {p p' : List Char}, quote p = quote p' → p = p'
  | [], [], _ => rfl
  | [], c :: p', h => by
    rw [quote, quote, flatMap_nil, flatMap_cons] at h
    split_ifs at h <;> cases h
  | c :: p, [], h => by
    rw [quote, quote, flatMap_nil, flatMap_cons] at h
    split_ifs at h <;> cases h
  | c :: p, c' :: p', h => by
    rw [quote, quote, flatMap_cons, flatMap_cons] at h
    split_ifs at h with hc hc' hc'
    · have h : ['\\', '\\'] ++ quote p = ['\\', '\\'] ++ quote p' := h
      rw [hc, hc', quote_inj (append_cancel_left h)]
    · simp at h
      exact absurd h.1.symm hc'
    · simp at h
      exact absurd h.1 hc
    · obtain ⟨rfl, hrest⟩ := List.cons.inj (show c :: quote p = c' :: quote p' from h)
      rw [quote_inj hrest]

theorem guardText_inj {check parseFrom : String} {p p' : List Char} (h : guardText check parseFrom p = guardText check parseFrom p') :
    p = p' := by
  have h := congrArg String.toList h
  simp only [guardText, String.toList_append, String.toList_ofList, List.append_assoc, append_cancel_left_eq] at h
  exact quote_inj (append_cancel_right h)

def attributeLang : ExprLang where
  Record := String
  Compiles s := ∃ p r, s = guardText "attributes?.ts != nil" "attributes.ts" p ∧ '"' ∉ p ∧ '\n' ∉ p ∧ Regex.compile p = some r
  Holds s record := s = "attributes?.ts != nil" ∨
    ∃ p r, s = guardText "attributes?.ts != nil" "attributes.ts" p ∧ Regex.compile p = some r ∧ Regex.matchString r record = true
  text _ record := some record

theorem attributeLang_matches : attributeLang.Matches "attributes?.ts != nil" "attributes.ts" where
  compiles p r hquote hline hparse := ⟨p, r, rfl, hquote, hline, hparse⟩
  holds p r _ _ hparse record s _ hs := by
    cases hs
    constructor
    · rintro (h | ⟨p', r', h, hparse', hmatch⟩)
      · have h := congrArg String.length h
        have hlong : "attributes?.ts != nil && attributes.ts matches \"".length = 48 := by decide
        have hshort : "attributes?.ts != nil".length = 21 := by decide
        simp [guardText, hlong, hshort] at h
        omega
      · cases guardText_inj h
        cases hparse.symm.trans hparse'
        exact hmatch
    · exact fun hmatch => .inr ⟨p, r, rfl, hparse, hmatch⟩
  lineEnd p _ hline := by
    rintro ⟨p', r, h, -, hline', -⟩
    cases guardText_inj h
    exact hline' hline

def attributeChecks : Checks Unit where
  fieldNotNilCheck path := if path = "attributes.ts" then some "attributes?.ts != nil" else none
  fieldsReferencedInExprNotNilCheck _ := none
  regexForStrptimeLayout layout := (regexForStrptimeLayout layout).toOption
  parse _ := none
  sendOnErrorQuiet := "send_quiet"
  newString _ := ""

theorem attributeChecks_regex (layout : String) :
    attributeChecks.regexForStrptimeLayout layout = (regexForStrptimeLayout layout).toOption := by
  rw [attributeChecks]

def parserOf (layout : String) : PipelineOperator :=
  { type := "time_parser", layoutType := "strptime", layout, parseFrom := "attributes.ts" }

def guarded (layout regex : String) : PipelineOperator :=
  { parserOf layout with ifExpr := "attributes?.ts != nil && attributes.ts matches \"" ++ regex ++ "\"" }

end TimeLayout
end DsApm
