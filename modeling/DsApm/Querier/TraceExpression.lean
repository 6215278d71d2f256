import DsApm.Valuer.Texts
/-!
# TraceExpression — the expressions of a trace operator

`trace_operator.go`.  `parseTraceExpression` cuts a text at the last operator outside parentheses, the loosest first, but
a leading `NOT` takes all that follows it, and `->` is looked for before `=>`.  So it is right of the unmixed expressions
(`Unmixed`).  Texts are lists of characters.
-/
namespace DsApm
namespace TraceOperator

open List GoStd
open Valuer (trim trim_trim)

/-- The binary operators; `TraceOperatorNot` is that of `TraceOperand.not`. -/
inductive TraceOperatorType
  | directDescendant
  | indirectDescendant
  | and
  | or
  | exclude
deriving DecidableEq

namespace TraceOperatorType

def text : TraceOperatorType → List Char
  | directDescendant => ['=', '>']
  | indirectDescendant => ['-', '>']
  | and => ['&', '&']
  | or => ['|', '|']
  | exclude => [' ', 'N', 'O', 'T', ' ']

end TraceOperatorType

open TraceOperatorType

/-- `^[A-Za-z][A-Za-z0-9_]*$` -/
def isQueryReference : List Char → Bool
  | [] => false
  | c :: cs => c.isAlpha && cs.all (fun c => c.isAlphanum || c == '_')

inductive TraceOperand
  | queryRef (name : List Char) (h : isQueryReference name = true)
  | not (left : TraceOperand)
  | binary (operator : TraceOperatorType) (left right : TraceOperand)
deriving DecidableEq

/-- The loop of `isBalancedParentheses`, at a depth. -/
def isBalanced : Nat → List Char → Bool
  | depth, [] => depth == 0
  | depth, char :: expr =>
    if char = '(' then isBalanced (depth + 1) expr
    else if char = ')' then depth != 0 && isBalanced (depth - 1) expr
    else isBalanced depth expr

def isBalancedParentheses (expr : List Char) : Bool := isBalanced 0 expr

def turn (char : Char) : Int := if char = ')' then 1 else if char = '(' then -1 else 0

/-- The loop of `findOperatorPosition`, over the positions below `i`. -/
def findBelow (expr : List Char) (op : TraceOperatorType) : Nat → Int → Option Nat
  | 0, _ => none
  | i + 1, depth =>
    let depth := depth + (expr[i]?.map turn).getD 0
    if depth = 0 ∧ op.text.isPrefixOf (expr.drop i) = true ∧ (op = exclude → 0 < i ∧ i + op.text.length < expr.length) then
      some i
    else findBelow expr op i depth

def findOperatorPosition (expr : List Char) (op : TraceOperatorType) : Option Nat := findBelow expr op expr.length 0

def operators : List TraceOperatorType := [indirectDescendant, directDescendant, and, or, exclude]

def notPrefix : List Char := ['N', 'O', 'T', ' ']

/-- The parts that the branches of `parseTraceExpression` cut a trimmed text into. -/
inductive Cut
  | group (inner : List Char)
  | not (operand : List Char)
  | binary (op : TraceOperatorType) (left right : List Char)
  | reference
deriving DecidableEq

def cut (expr : List Char) : Cut :=
  if expr.head? = some '(' ∧ expr.getLast? = some ')' ∧ isBalancedParentheses expr.tail.dropLast = true then
    .group expr.tail.dropLast
  else if notPrefix.isPrefixOf expr = true then .not (expr.drop 4)
  else
    match operators.findSome? (fun op => (findOperatorPosition expr op).map (fun pos => (op, pos))) with
    | some (op, pos) => .binary op (expr.take pos) (expr.drop (pos + op.text.length))
    | none => .reference

theorem length_trim (expr : List Char) : (trim expr).length ≤ expr.length :=
  ( rdropWhile_prefix _ _).length_le.trans (dropWhile_suffix _).length_le

theorem exists_trim (expr : List Char) : ∃ a b, expr = a ++ trim expr ++ b ∧
    (∀ c ∈ a, isSpace c = true) ∧ ∀ c ∈ b, isSpace c = true :=
  ⟨expr.takeWhile isSpace, (expr.dropWhile isSpace).rtakeWhile isSpace, by
    rw [trim, append_assoc, rdropWhile_append_rtakeWhile, takeWhile_append_dropWhile],
    fun _ hc => mem_takeWhile_imp hc, fun _ hc => mem_rtakeWhile_imp hc⟩

/-! ## Parentheses -/

def closing (expr : List Char) : Int := expr.foldr (fun char depth => turn char + depth) 0

@[simp] theorem closing_nil : closing [] = 0 := rfl

@[simp] theorem closing_cons (c : Char) (expr : List Char) : closing (c :: expr) = turn c + closing expr := rfl

@[simp] theorem closing_append (l r : List Char) : closing (l ++ r) = closing l + closing r := by
  induction l with
  | nil => exact (Int.zero_add _).symm
  | cons c l ih => rw [cons_append, closing_cons, closing_cons, ih, Int.add_assoc]

@[simp] theorem closing_text (op : TraceOperatorType) : closing op.text = 0 := by cases op <;> rfl

variable {expr inner operand left right s x y : List Char} {op op' : TraceOperatorType}

def Neutral (s : List Char) : Prop := ∀ depth rest, isBalanced depth (s ++ rest) = isBalanced depth rest

theorem Neutral.append (hx : Neutral x) (hy : Neutral y) : Neutral (x ++ y) := fun depth rest => by
  rw [append_assoc, hx, hy]

theorem Neutral.group (h : Neutral s) : Neutral ('(' :: s ++ [')']) := fun depth rest => by
  rw [cons_append, cons_append, append_assoc, isBalanced, if_pos rfl, h]
  rfl

theorem neutral_of_plain (h : ∀ c ∈ s, c ≠ '(' ∧ c ≠ ')') : Neutral s := fun depth rest => by
  induction s with
  | nil => rfl
  | cons c s ih =>
    obtain ⟨hc, hs⟩ := forall_mem_cons.1 h
    rw [cons_append, isBalanced, if_neg hc.1, if_neg hc.2, ih hs]

theorem neutral_of_blank (h : ∀ c ∈ s, isSpace c = true) : Neutral s := neutral_of_plain fun c hc =>
  ⟨by rintro rfl; exact absurd (h _ hc) (by decide), by rintro rfl; exact absurd (h _ hc) (by decide)⟩

theorem neutral_text (op : TraceOperatorType) : Neutral op.text := neutral_of_plain (by cases op <;> simp [text])

theorem neutral_notPrefix : Neutral notPrefix := neutral_of_plain (by simp [notPrefix])

theorem Neutral.of_trim (h : Neutral (trim expr)) : Neutral expr := by
  obtain ⟨a, b, he, ha, hb⟩ := exists_trim expr
  rw [he]
  exact ((neutral_of_blank ha).append h).append (neutral_of_blank hb)

theorem Neutral.balanced (h : Neutral expr) : isBalancedParentheses expr = true := by
  rw [isBalancedParentheses, ← append_nil expr, h]
  rfl

theorem closing_of_balanced {depth : Nat} (h : isBalanced depth (x ++ y) = true) :
    closing x ≤ depth ∧ (y = [] → closing x = depth) := by
  induction x generalizing depth with
  | nil =>
    refine ⟨Int.natCast_nonneg depth, ?_⟩
    rintro rfl
    rw [nil_append, isBalanced, beq_iff_eq] at h
    rw [h]
    rfl
  | cons c x ih =>
    rw [cons_append, isBalanced] at h
    rw [closing_cons, turn]
    by_cases hopen : c = '('
    · rw [if_pos hopen] at h
      obtain ⟨hle, heq⟩ := ih h
      rw [if_neg (by rw [hopen]; decide), if_pos hopen]
      exact ⟨by omega, fun hy => by rw [heq hy]; omega⟩
    by_cases hclose : c = ')'
    · rw [if_neg hopen, if_pos hclose, Bool.and_eq_true, bne_iff_ne] at h
      obtain ⟨hle, heq⟩ := ih h.2
      rw [if_pos hclose]
      exact ⟨by omega, fun hy => by rw [heq hy]; omega⟩
    · rw [if_neg hopen, if_neg hclose] at h
      rw [if_neg hclose, if_neg hopen, Int.zero_add]
      exact ih h

theorem Neutral.closing (h : Neutral expr) : closing expr = 0 := by
  have hbal : isBalanced 0 (expr ++ []) = true := (append_nil expr).symm ▸ h.balanced
  exact (closing_of_balanced hbal).2 rfl

/-- **Around matched parentheses there is no shorter text that is matched.** -/
theorem not_neutral_of_group (hin : isBalancedParentheses inner = true) (he : '(' :: inner ++ [')'] = x ++ y)
    (hx : x ≠ []) (hy : y ≠ []) : ¬ Neutral x := fun h => by
  obtain ⟨c, x, rfl⟩ := exists_cons_of_ne_nil hx
  obtain ⟨y, d, rfl⟩ := (eq_nil_or_concat y).resolve_left hy
  rw [concat_eq_append] at he
  obtain ⟨rfl, he⟩ := cons.inj he
  obtain ⟨he, -⟩ := append_inj' (he.trans (append_assoc _ _ _).symm) rfl
  obtain rfl : inner = x ++ y := (cons.inj he).2
  have hle := (closing_of_balanced hin).1
  have hzero := h.closing
  rw [closing_cons, show turn '(' = -1 from rfl] at hzero
  omega

/-! ## What is cut -/

/-- The test of `findOperatorPosition` at a position. -/
def Occurs (expr : List Char) (op : TraceOperatorType) (i : Nat) : Prop :=
  closing (expr.drop i) = 0 ∧ op.text.isPrefixOf (expr.drop i) = true ∧
    (op = exclude → 0 < i ∧ i + op.text.length < expr.length)

/-- An operator stands between two texts, outside parentheses. -/
structure Stands (op : TraceOperatorType) (expr left right : List Char) : Prop where
  eq : expr = left ++ op.text ++ right
  outside : closing right = 0
  padded : op = exclude → left ≠ [] ∧ right ≠ []

theorem Stands.occurs (h : Stands op expr left right) : Occurs expr op left.length := by
  obtain ⟨rfl, hout, hpad⟩ := h
  refine ⟨by simp [hout], by simp [ isPrefixOf_iff_prefix], fun he => ?_⟩
  have hl := length_pos_iff.2 (hpad he).1
  have hr := length_pos_iff.2 (hpad he).2
  simp only [length_append]
  omega

theorem Occurs.stands {i : Nat} (h : Occurs expr op i) :
    Stands op expr (expr.take i) (expr.drop (i + op.text.length)) := by
  obtain ⟨hout, hpre, hpad⟩ := h
  obtain ⟨t, ht⟩ := isPrefixOf_iff_prefix.1 hpre
  have hdrop : expr.drop (i + op.text.length) = t := by rw [← drop_drop, ← ht, drop_left]
  refine ⟨?_, ?_, fun he => ?_⟩
  · rw [hdrop, append_assoc, ht, take_append_drop]
  · rw [← ht] at hout
    simpa [hdrop] using hout
  · have hlt := hpad he
    constructor
    · exact ne_nil_of_length_pos (by rw [length_take]; omega)
    · exact ne_nil_of_length_pos (by rw [length_drop]; omega)

theorem Stands.length_lt (h : Stands op expr left right) : left.length < expr.length := by
  rw [h.eq]
  cases op <;> simp [text]

theorem Stands.append (h : Stands op expr left right) (hy : closing y = 0) :
    Stands op (x ++ expr ++ y) (x ++ left) (right ++ y) := by
  obtain ⟨rfl, hout, hpad⟩ := h
  exact ⟨by simp, by simp [hout, hy], fun he => by simp [hpad he]⟩

theorem Stands.of_trim (h : Stands op (trim expr) left right) (hy : closing y = 0) :
    ∃ a b, Stands op (x ++ expr ++ y) (x ++ a) b := by
  obtain ⟨a, b, he, -, hb⟩ := exists_trim expr
  have hst := h.append (x := x ++ a) (y := b ++ y) (by simp [(neutral_of_blank hb).closing, hy])
  have hexpr : x ++ expr ++ y = x ++ a ++ trim expr ++ (b ++ y) := by
    simpa using congrArg (fun s => x ++ s ++ y) he
  rw [append_assoc x a left, ← hexpr] at hst
  exact ⟨_, _, hst⟩

theorem findBelow_succ {i : Nat} (hi : i < expr.length) :
    findBelow expr op (i + 1) (closing (expr.drop (i + 1))) =
      if closing (expr.drop i) = 0 ∧ op.text.isPrefixOf (expr.drop i) = true ∧
        (op = exclude → 0 < i ∧ i + op.text.length < expr.length) then some i
      else findBelow expr op i (closing (expr.drop i)) := by
  have hturn : closing (expr.drop (i + 1)) + turn expr[i] = closing (expr.drop i) := by
    rw [drop_eq_getElem_cons hi, closing_cons, Int.add_comm]
  simp only [findBelow, getElem?_eq_getElem hi, Option.map_some, Option.getD_some, hturn]

theorem findBelow_spec : ∀ {i : Nat}, i ≤ expr.length →
    (∀ pos, findBelow expr op i (closing (expr.drop i)) = some pos → Occurs expr op pos) ∧
    ∀ j < i, Occurs expr op j → ∃ pos, findBelow expr op i (closing (expr.drop i)) = some pos ∧ j ≤ pos
  | 0, _ => ⟨fun _ h => (by cases h), fun j hj => absurd hj (Nat.not_lt_zero j)⟩
  | i + 1, hi => by
    rw [findBelow_succ hi]
    split_ifs with hat
    · refine ⟨fun pos h => ?_, fun j hj _ => ⟨i, rfl, Nat.le_of_lt_succ hj⟩⟩
      cases h
      exact hat
    · obtain ⟨hocc, hfind⟩ := findBelow_spec (Nat.le_of_lt hi)
      refine ⟨hocc, fun j hj h => hfind j (Nat.lt_of_le_of_ne (Nat.le_of_lt_succ hj) ?_) h⟩
      rintro rfl
      exact hat h

/-- **What is found is the last place where the operator stands.** -/
theorem findOperatorPosition_spec :
    (∀ pos, findOperatorPosition expr op = some pos → Stands op expr (expr.take pos) (expr.drop (pos + op.text.length))) ∧
    ∀ l r, Stands op expr l r → ∃ pos, findOperatorPosition expr op = some pos ∧ l.length ≤ pos := by
  have hend : closing (expr.drop expr.length) = 0 := by simp
  rw [findOperatorPosition, ← hend]
  obtain ⟨hocc, hfind⟩ := @findBelow_spec expr op _ le_rfl
  exact ⟨fun pos h => (hocc pos h).stands, fun l r h => hfind _ h.length_lt h.occurs⟩

theorem not_stands_of_none (h : findOperatorPosition expr op = none) : ¬ Stands op expr left right := fun hst => by
  obtain ⟨pos, hpos, -⟩ := findOperatorPosition_spec.2 _ _ hst
  rw [h] at hpos
  cases hpos

theorem cut_group (h : cut expr = .group inner) : expr = '(' :: inner ++ [')'] ∧ isBalancedParentheses inner = true := by
  unfold cut at h
  split_ifs at h with hp
  · cases h
    refine ⟨?_, hp.2.2⟩
    obtain ⟨hc, hl, -⟩ := hp
    obtain ⟨cs, rfl⟩ := head?_eq_some_iff.1 hc
    cases cs using reverseRecOn with
    | nil => simp at hl
    | append_singleton cs d =>
      rw [← cons_append, getLast?_concat] at hl
      cases hl
      simp
  · split at h <;> cases h

theorem cut_of_group (h : isBalancedParentheses inner = true) : cut ('(' :: inner ++ [')']) = .group inner := by
  have hinner : ('(' :: inner ++ [')']).tail.dropLast = inner := by simp
  rw [cut, hinner, if_pos ⟨rfl, getLast?_concat, h⟩]

theorem cut_not (h : cut expr = .not operand) : expr = notPrefix ++ operand := by
  unfold cut at h
  split_ifs at h with _ hn
  · obtain ⟨t, rfl⟩ := isPrefixOf_iff_prefix.1 hn
    cases h
    rfl
  · split at h <;> cases h

theorem cut_of_not (operand : List Char) : cut (notPrefix ++ operand) = .not operand := by
  rw [cut, if_neg (fun h => absurd h.1 (by simp [notPrefix])), if_pos ( isPrefixOf_iff_prefix.2 (prefix_append _ _))]
  rfl

def order (op : TraceOperatorType) : Nat := operators.idxOf op

theorem find_operators {pos : Nat}
    (h : operators.findSome? (fun op => (findOperatorPosition expr op).map (fun pos => (op, pos))) = some (op, pos)) :
    findOperatorPosition expr op = some pos ∧ ∀ op', order op' < order op → findOperatorPosition expr op' = none := by
  obtain ⟨before, a, after, hops, ha, hnone⟩ := findSome?_eq_some_iff.1 h
  obtain ⟨p, hpos, he⟩ := Option.map_eq_some_iff.1 ha
  cases he
  refine ⟨hpos, fun op' hlt => ?_⟩
  have hmem : op' ∈ before := by
    by_contra hout
    have hop : op ∉ before := fun hin => by simpa [hpos] using hnone op hin
    rw [order, order, hops, idxOf_append_of_notMem hout, idxOf_append_of_notMem hop, idxOf_cons_self] at hlt
    omega
  simpa using hnone op' hmem

theorem cut_binary (h : cut expr = .binary op left right) :
    Stands op expr left right ∧ (∀ l r, Stands op expr l r → l.length ≤ left.length) ∧
      ∀ op', order op' < order op → ∀ l r, ¬ Stands op' expr l r := by
  unfold cut at h
  split_ifs at h
  split at h
  · rename_i op' pos heq
    cases h
    obtain ⟨hpos, hnone⟩ := find_operators heq
    have hst := findOperatorPosition_spec.1 pos hpos
    refine ⟨hst, fun l r h => ?_, fun op' hlt _ _ => not_stands_of_none (hnone op' hlt)⟩
    obtain ⟨pos', hpos', hle⟩ := findOperatorPosition_spec.2 l r h
    rw [hpos] at hpos'
    cases hpos'
    have hlt := hst.length_lt
    rw [length_take] at hlt ⊢
    omega
  · cases h

theorem cut_reference (h : cut expr = .reference) : ¬ Stands op expr left right := by
  unfold cut at h
  split_ifs at h
  split at h
  · cases h
  · rename_i heq
    have hnone := findSome?_eq_none_iff.1 heq op (by cases op <;> decide)
    exact not_stands_of_none (by simpa using hnone)

/-! ## The parser -/

theorem length_of_cut : (cut (trim expr) = .group inner → inner.length < expr.length) ∧
    (cut (trim expr) = .not inner → inner.length < expr.length) := by
  have hle := length_trim expr
  refine ⟨fun h => ?_, fun h => ?_⟩
  · rw [(cut_group h).1] at hle
    simp at hle
    omega
  · rw [cut_not h, notPrefix] at hle
    simp at hle
    omega

theorem length_of_binary (h : cut (trim expr) = .binary op left right) :
    left.length < expr.length ∧ right.length < expr.length := by
  have hle := length_trim expr
  rw [(cut_binary h).1.eq] at hle
  cases op <;> simp [text] at hle <;> omega

def parseTraceExpression (expr : List Char) : Except String (TraceOperand × Nat) :=
  match h : cut (trim expr) with
  | .group inner =>
    have := length_of_cut.1 h
    parseTraceExpression inner
  | .not operand => do
    have := length_of_cut.2 h
    let (operand, count) ← parseTraceExpression operand
    return (.not operand, count + 1)
  | .binary op leftExpr rightExpr => do
    have := length_of_binary h
    have := length_trim leftExpr
    have := length_trim rightExpr
    let (left, leftCount) ← parseTraceExpression (trim leftExpr)
    let (right, rightCount) ← parseTraceExpression (trim rightExpr)
    return (.binary op left right, leftCount + rightCount + 1)
  | .reference =>
    if hname : isQueryReference (trim expr) = true then return (.queryRef (trim expr) hname, 0)
    else throw ("invalid query reference '" ++ String.ofList (trim expr) ++ "'")
termination_by expr.length
decreasing_by all_goals omega

/-- What `parseTraceExpression` returns, a rule for each of its branches. -/
inductive Parsed : List Char → TraceOperand → Nat → Prop
  | group {expr inner : List Char} {t n} (hcut : cut (trim expr) = .group inner) (h : Parsed inner t n) : Parsed expr t n
  | not {expr operand : List Char} {t n} (hcut : cut (trim expr) = .not operand) (h : Parsed operand t n) :
    Parsed expr (.not t) (n + 1)
  | binary {expr left right : List Char} {op t u m n} (hcut : cut (trim expr) = .binary op left right)
    (hl : Parsed (trim left) t m) (hr : Parsed (trim right) u n) : Parsed expr (.binary op t u) (m + n + 1)
  | reference {expr : List Char} (hcut : cut (trim expr) = .reference) (hname : isQueryReference (trim expr) = true) :
    Parsed expr (.queryRef (trim expr) hname) 0

theorem bind_eq_ok {α β : Type} {a : Except String α} {f : α → Except String β} {b : β} :
    a >>= f = .ok b ↔ ∃ a', a = .ok a' ∧ f a' = .ok b := by
  cases a <;> simp [bind, Except.bind]

variable {t u : TraceOperand} {k n : Nat}

theorem parsed_of_parse (expr : List Char) : ∀ {t : TraceOperand} {n : Nat},
    parseTraceExpression expr = .ok (t, n) → Parsed expr t n := by
  fun_induction parseTraceExpression expr with
  | case1 expr inner hcut _ ih => exact fun h => .group hcut (ih h)
  | case2 expr operand hcut _ ih =>
    intro t n h
    obtain ⟨p, hp, he⟩ := bind_eq_ok.1 h
    cases he
    exact .not hcut (ih hp)
  | case3 expr op left right hcut _ _ _ ihl ihr =>
    intro t n h
    obtain ⟨p, hp, h⟩ := bind_eq_ok.1 h
    obtain ⟨q, hq, he⟩ := bind_eq_ok.1 h
    cases he
    exact .binary hcut (ihl hp) (ihr hq)
  | case4 expr hcut hname =>
    intro t n h
    cases h
    exact .reference hcut hname
  | case5 =>
    intro t n h
    cases h

theorem parse_of_parsed (h : Parsed expr t n) : parseTraceExpression expr = .ok (t, n) := by
  induction h with
  | _ => rw [parseTraceExpression]; split <;> simp_all [bind, Except.bind, pure, Except.pure]

theorem Parsed.of_not (h : Parsed expr t n) (hcut : cut (trim expr) = .not operand) :
    ∃ u m, t = .not u ∧ Parsed operand u m := by
  cases h with
  | not hcut' h =>
    rw [hcut] at hcut'
    cases hcut'
    exact ⟨_, _, rfl, h⟩
  | _ => simp_all

theorem Parsed.of_binary (h : Parsed expr t n) (hcut : cut (trim expr) = .binary op left right) :
    ∃ u v m m', t = .binary op u v ∧ Parsed (trim left) u m ∧ Parsed (trim right) v m' := by
  cases h with
  | binary hcut' hl hr =>
    rw [hcut] at hcut'
    cases hcut'
    exact ⟨_, _, _, _, rfl, hl, hr⟩
  | _ => simp_all

def TraceOperand.operators : TraceOperand → Nat
  | queryRef _ _ => 0
  | not left => left.operators + 1
  | binary _ left right => left.operators + right.operators + 1

theorem Parsed.count (h : Parsed expr t n) : n = t.operators := by
  induction h with
  | group _ _ ih => exact ih
  | not _ _ ih => rw [ih, TraceOperand.operators]
  | binary _ _ _ ihl ihr => rw [ihl, ihr, TraceOperand.operators]
  | reference => rfl

/-! ## The grammar -/

def TraceOperatorType.level : TraceOperatorType → Nat
  | indirectDescendant | directDescendant => 0
  | and => 1
  | or => 2
  | exclude => 3

/-- **The documented grammar**: the texts of a tree where no operator below a level stands outside parentheses.  Blanks
around an operand do not count, and the operators of a level associate to the left. -/
inductive Reads : Nat → List Char → TraceOperand → Prop
  | name {level s} (h : isQueryReference s = true) : Reads level s (.queryRef s h)
  | group {level s t} (h : Reads 0 (trim s) t) : Reads level ('(' :: s ++ [')']) t
  | not {level s t} (hlevel : level ≤ 4) (h : Reads 4 (trim s) t) : Reads level (notPrefix ++ s) (.not t)
  | binary {level op l r t u} (hlevel : level ≤ op.level) (hl : Reads op.level (trim l) t)
    (hr : Reads (op.level + 1) (trim r) u) : Reads level (l ++ op.text ++ r) (.binary op t u)

def Cut.level : Cut → Nat
  | .binary op _ _ => op.level
  | _ => 4

/-- **Unmixed expressions**: behind a leading `NOT` no operator but another `NOT` stands outside parentheses, and right of
a `->` no `=>`; the same within the parts. -/
inductive Unmixed : List Char → Prop
  | group {expr inner : List Char} (hcut : cut (trim expr) = .group inner) (h : Unmixed inner) : Unmixed expr
  | not {expr operand : List Char} (hcut : cut (trim expr) = .not operand) (hlevel : (cut (trim operand)).level = 4)
    (h : Unmixed operand) : Unmixed expr
  | binary {expr left right : List Char} {op} (hcut : cut (trim expr) = .binary op left right)
    (hright : ∀ l r, op = indirectDescendant → cut (trim right) ≠ .binary directDescendant l r)
    (hl : Unmixed (trim left)) (hr : Unmixed (trim right)) : Unmixed expr
  | reference {expr : List Char} (hcut : cut (trim expr) = .reference) : Unmixed expr

theorem level_le_three (op : TraceOperatorType) : op.level ≤ 3 := by cases op <;> decide

theorem Cut.level_le_four (c : Cut) : c.level ≤ 4 := by
  cases c with
  | binary op => exact (level_le_three op).trans (Nat.le_succ 3)
  | _ => exact le_rfl

theorem level_le_of_order (h : order op ≤ order op') : op.level ≤ op'.level := by
  revert h
  cases op <;> cases op' <;> decide

theorem level_left (h : cut expr = .binary op left right) : op.level ≤ (cut (trim left)).level := by
  obtain ⟨hst, -, hnone⟩ := cut_binary h
  cases hl : cut (trim left) with
  | binary op' l r =>
    obtain ⟨a, b, hin⟩ := (cut_binary hl).1.of_trim (x := []) (y := op.text ++ right) (by simp [hst.outside])
    refine level_le_of_order (Nat.le_of_not_lt fun hlt => hnone op' hlt a b ?_)
    rwa [nil_append, nil_append, ← append_assoc, ← hst.eq] at hin
  | _ => exact (level_le_three op).trans (Nat.le_succ 3)

theorem level_right (h : cut expr = .binary op left right)
    (hright : ∀ l r, op = indirectDescendant → cut (trim right) ≠ .binary directDescendant l r) :
    op.level + 1 ≤ (cut (trim right)).level := by
  obtain ⟨hst, hlast, hnone⟩ := cut_binary h
  cases hr : cut (trim right) with
  | binary op' l r =>
    obtain ⟨a, b, hin⟩ := (cut_binary hr).1.of_trim (x := left ++ op.text) (y := []) rfl
    rw [append_nil, ← hst.eq] at hin
    have hge : ¬ order op' < order op := fun hlt => hnone op' hlt _ _ hin
    -- `op` itself does not stand further right.
    have hne : op ≠ op' := by
      rintro rfl
      have := hlast _ _ hin
      revert this
      cases op <;> simp [text]
    have := hright l r
    rw [hr] at this
    revert hge hne this
    cases op <;> cases op' <;> simp +decide [Cut.level]
  | _ => exact Nat.succ_le_succ (level_le_three op)

/-- **An unmixed expression is parsed as the grammar reads it.** -/
theorem reads_of_unmixed (hp : Parsed expr t n) : Unmixed expr → ∀ {k : Nat}, k ≤ (cut (trim expr)).level → Reads k (trim expr) t := by
  induction hp with
  | group hcut _ ih =>
    intro hu k _
    rw [(cut_group hcut).1]
    cases hu with
    | group hcut' hu =>
      rw [hcut] at hcut'
      cases hcut'
      exact .group (ih hu (Nat.zero_le _))
    | _ => simp_all
  | not hcut _ ih =>
    intro hu k hk
    rw [hcut] at hk
    rw [cut_not hcut]
    cases hu with
    | not hcut' hlevel hu =>
      rw [hcut] at hcut'
      cases hcut'
      exact .not hk (ih hu hlevel.ge)
    | _ => simp_all
  | binary hcut _ _ ihl ihr =>
    intro hu k hk
    rw [hcut] at hk
    rw [(cut_binary hcut).1.eq]
    cases hu with
    | binary hcut' hright hl hr =>
      rw [hcut] at hcut'
      cases hcut'
      rw [trim_trim] at ihl ihr
      exact .binary hk (ihl hl (level_left hcut)) (ihr hr (level_right hcut hright))
    | _ => simp_all
  | reference hcut hname => exact fun _ _ _ => .name hname

/-! ## What a reading weighs -/

def visible (c : Char) : Bool := !isSpace c && c != '(' && c != ')'

theorem visible_iff {c : Char} : visible c = true ↔ isSpace c = false ∧ c ≠ '(' ∧ c ≠ ')' := by
  simp [visible, and_assoc]

theorem word_of_name (h : isQueryReference s = true) : s ≠ [] ∧ ∀ c ∈ s, (c.isAlphanum || c == '_') = true := by
  cases s with
  | nil => cases h
  | cons c cs =>
    rw [isQueryReference, Bool.and_eq_true, all_eq_true] at h
    exact ⟨cons_ne_nil _ _, forall_mem_cons.2 ⟨by simp [Char.isAlphanum, h.1], h.2⟩⟩

theorem visible_of_name (h : isQueryReference s = true) : ∀ c ∈ s, visible c = true := fun c hc => by
  have hword := (word_of_name h).2 c hc
  rw [Bool.or_eq_true, beq_iff_eq] at hword
  rcases hword with hword | rfl
  · refine visible_iff.2 ⟨isSpace_of_isAlphanum hword, ?_, ?_⟩
    · rintro rfl; exact absurd hword (by decide)
    · rintro rfl; exact absurd hword (by decide)
  · rfl

def TraceOperand.weight : TraceOperand → Nat
  | queryRef name _ => name.length
  | not left => left.weight + 3
  | binary operator left right => left.weight + operator.text.countP visible + right.weight

theorem weight_pos (t : TraceOperand) : 0 < t.weight := by
  induction t with
  | queryRef name h => exact length_pos_iff.2 (word_of_name h).1
  | not left ih => exact Nat.add_pos_left ih 3
  | binary op left right ihl ihr => exact Nat.add_pos_right _ ihr

theorem countP_trim (expr : List Char) : (trim expr).countP visible = expr.countP visible := by
  obtain ⟨a, b, he, ha, hb⟩ := exists_trim expr
  have hnone {l : List Char} (h : ∀ c ∈ l, isSpace c = true) : l.countP visible = 0 :=
    countP_eq_zero.2 fun c hc => by simp [visible, h c hc]
  calc (trim expr).countP visible = (a ++ trim expr ++ b).countP visible := by simp [hnone ha, hnone hb]
    _ = expr.countP visible := by rw [← he]

theorem countP_name (h : isQueryReference s = true) : s.countP visible = s.length := countP_eq_length.2 (visible_of_name h)

theorem countP_group (s : List Char) : ('(' :: s ++ [')']).countP visible = s.countP visible := by simp [visible]

theorem countP_not (s : List Char) : (notPrefix ++ s).countP visible = s.countP visible + 3 := by
  rw [countP_append, Nat.add_comm]
  rfl

theorem Parsed.countP (h : Parsed expr t n) : expr.countP visible = t.weight := by
  induction h with
  | group hcut _ ih => rw [← countP_trim, (cut_group hcut).1, countP_group, ih]
  | not hcut _ ih => rw [← countP_trim, cut_not hcut, countP_not, ih, TraceOperand.weight]
  | binary hcut _ _ ihl ihr =>
    rw [countP_trim] at ihl ihr
    rw [← countP_trim, (cut_binary hcut).1.eq, countP_append, countP_append, ihl, ihr, TraceOperand.weight]
  | reference _ hname => rw [← countP_trim, countP_name hname, TraceOperand.weight]

theorem Reads.countP (h : Reads k expr t) : expr.countP visible = t.weight := by
  induction h with
  | name h => exact countP_name h
  | group _ ih => rw [countP_group, ← countP_trim, ih]
  | not _ _ ih => rw [countP_not, ← countP_trim, ih, TraceOperand.weight]
  | binary _ _ _ ihl ihr =>
    rw [countP_trim] at ihl ihr
    rw [countP_append, countP_append, ihl, ihr, TraceOperand.weight]

theorem Reads.neutral (h : Reads k expr t) : Neutral expr := by
  induction h with
  | name h => exact neutral_of_plain fun c hc => (visible_iff.1 (visible_of_name h c hc)).2
  | group _ ih => exact ih.of_trim.group
  | not _ _ ih => exact neutral_notPrefix.append ih.of_trim
  | binary _ _ _ ihl ihr => exact (ihl.of_trim.append (neutral_text _)).append ihr.of_trim

theorem ne_nil_of_reads (h : Reads k (trim expr) t) : expr ≠ [] := by
  rintro rfl
  exact absurd h.countP (Nat.ne_of_lt (weight_pos t))

theorem Reads.stands (hl : Reads op.level (trim left) t) (hr : Reads k (trim right) u) :
    Stands op (left ++ op.text ++ right) left right :=
  ⟨rfl, hr.neutral.of_trim.closing, fun _ => ⟨ne_nil_of_reads hl, ne_nil_of_reads hr⟩⟩

theorem Reads.cut_group (h : Reads 0 (trim s) t) (he : trim expr = '(' :: s ++ [')']) : cut (trim expr) = .group s := by
  rw [he]
  exact cut_of_group h.neutral.of_trim.balanced

/-- **A cut and a reading are at the same place** where the texts to the left weigh the same. -/
theorem split_unique {l r : List Char} (hst : Stands op expr left right) (he : expr = l ++ op.text ++ r)
    (hle : l.length ≤ left.length) (hcount : left.countP visible = l.countP visible) : left = l ∧ right = r := by
  obtain ⟨m, rfl⟩ : ∃ m, left = l ++ m := by
    have hpre : l <+: expr := he ▸ append_assoc l _ _ ▸ prefix_append l _
    have hpre' : left <+: expr := hst.eq ▸ append_assoc left _ _ ▸ prefix_append left _
    obtain ⟨m, hm⟩ := prefix_of_prefix_length_le hpre hpre' hle
    exact ⟨m, hm.symm⟩
  rw [countP_append] at hcount
  have hhidden := countP_eq_zero.1 (show m.countP visible = 0 by omega)
  rw [hst.eq, append_assoc, append_assoc, append_assoc, append_cancel_left_eq] at he
  -- A longer left part would show a character of the operator.
  have hm : m = [] := by
    rcases m with _ | ⟨c, m⟩
    · rfl
    have hc := hhidden c mem_cons_self
    cases op with
    | exclude =>
      obtain ⟨-, he⟩ := cons.inj he
      rcases m with _ | ⟨d, m⟩
      · cases he
      · cases (cons.inj he).1
        exact absurd (by decide) (hhidden 'N' (mem_cons_of_mem _ mem_cons_self))
    | _ =>
      cases (cons.inj he).1
      exact absurd (by decide) hc
  subst hm
  exact ⟨append_nil l, append_cancel_left he⟩

theorem level_of_reads (hp : Parsed expr t n) (hr : Reads k (trim expr) t) (hk : k ≤ 4) : k ≤ (cut (trim expr)).level := by
  cases hp with
  | binary hcut _ _ =>
    generalize he : trim expr = s at hr
    cases hr with
    | group h =>
      rw [h.cut_group he] at hcut
      cases hcut
    | binary hlevel => rwa [← he, hcut]
  | group hcut | not hcut | reference hcut => rwa [hcut]

/-- **What is parsed as the grammar reads it is unmixed.** -/
theorem unmixed_of_reads (hp : Parsed expr t n) : ∀ {k : Nat}, Reads k (trim expr) t → Unmixed expr := by
  induction hp with
  | @group expr _ _ _ hcut _ ih =>
    intro k hr
    generalize he : trim expr = s at hr
    have hgroup := he.symm.trans (TraceOperator.cut_group hcut).1
    cases hr with
    | name h =>
      rw [hgroup] at h
      simp [isQueryReference] at h
    | group h =>
      rw [h.cut_group he] at hcut
      cases hcut
      exact .group (h.cut_group he) (ih h)
    | not => cases hgroup
    | binary _ hl hv =>
      rw [append_assoc] at hgroup
      exact absurd hl.neutral.of_trim (not_neutral_of_group (TraceOperator.cut_group hcut).2 hgroup.symm (ne_nil_of_reads hl)
        (by simp [ne_nil_of_reads hv]))
  | @not expr _ _ _ hcut hp ih =>
    intro k hr
    generalize he : trim expr = s at hr
    cases hr with
    | group h =>
      rw [h.cut_group he] at hcut
      cases hcut
    | not _ h =>
      rw [cut_not hcut, append_cancel_left_eq] at he
      cases he
      exact .not hcut (Nat.le_antisymm (Cut.level_le_four _) (level_of_reads hp h le_rfl)) (ih h)
  | @binary expr _ _ _ _ _ _ _ hcut hpl hpr ihl ihr =>
    intro k hr
    generalize he : trim expr = s at hr
    cases hr with
    | group h =>
      rw [h.cut_group he] at hcut
      cases hcut
    | binary _ hl hv =>
      obtain ⟨hst, hlast, -⟩ := cut_binary hcut
      obtain ⟨rfl, rfl⟩ := split_unique hst he (hlast _ _ (he ▸ hl.stands hv))
        (by rw [← countP_trim, hpl.countP, ← countP_trim, hl.countP])
      rw [← trim_trim] at hl hv
      refine .binary hcut (fun l r hop heq => ?_) (ihl hl) (ihr hv)
      have := level_of_reads hpr hv (Nat.succ_le_succ (level_le_three _))
      rw [trim_trim, heq] at this
      exact Nat.not_succ_le_zero _ this
  | reference hcut => exact fun _ => .reference hcut

theorem reads_iff (h : parseTraceExpression expr = .ok (t, n)) :
    Reads 0 (trim expr) t ∧ n = t.operators ↔ Unmixed expr := by
  have hp := parsed_of_parse expr h
  exact ⟨fun hr => unmixed_of_reads hp hr.1, fun hu => ⟨reads_of_unmixed hp hu (Nat.zero_le _), hp.count⟩⟩

/-! ## The fully parenthesised text -/

def TraceOperatorType.pad (op : TraceOperatorType) : List Char := if op = exclude then [] else [' ']

def written (op : TraceOperatorType) : List Char := op.pad ++ op.text ++ op.pad

/-- **The fully parenthesised text of a tree.** -/
def TraceOperand.text : TraceOperand → List Char
  | queryRef name _ => name
  | not left => '(' :: (notPrefix ++ left.text) ++ [')']
  | binary op left right => '(' :: (left.text ++ (written op ++ right.text)) ++ [')']

/-- No query with the name `NOT` is the left operand of a binary operator. -/
def TraceOperand.Writable : TraceOperand → Prop
  | queryRef _ _ => True
  | not left => left.Writable
  | binary _ left right => left.text ≠ ['N', 'O', 'T'] ∧ left.Writable ∧ right.Writable

inductive Atom : List Char → Prop
  | name {s : List Char} (h : isQueryReference s = true) : Atom s
  | group {s : List Char} (h : Neutral s) : Atom ('(' :: s ++ [')'])

def Ends (s : List Char) : Prop := s ≠ [] ∧ (∀ c ∈ s.head?, isSpace c = false) ∧ ∀ c ∈ s.getLast?, isSpace c = false

variable {a b : List Char}

theorem Ends.around (ha : Ends a) (hb : Ends b) (s : List Char) : Ends (a ++ (s ++ b)) := by
  refine ⟨by simp [ha.1], fun c hc => ha.2.1 c ?_, fun c hc => hb.2.2 c ?_⟩
  · rwa [head?_append_of_ne_nil _ ha.1] at hc
  · rwa [← append_assoc, getLast?_append_of_ne_nil _ hb.1] at hc

theorem Ends.trim_padded (h : Ends s) (hx : ∀ c ∈ x, isSpace c = true) (hy : ∀ c ∈ y, isSpace c = true) :
    trim (x ++ (s ++ y)) = s := by
  obtain ⟨hne, hhead, hlast⟩ := h
  obtain ⟨c, s, rfl⟩ := exists_cons_of_ne_nil hne
  have hend : (c :: s).rdropWhile isSpace = c :: s :=
    rdropWhile_eq_self_iff.2 fun hne => by simp [hlast _ (getLast?_eq_some_getLast hne)]
  rw [trim, dropWhile_append_of_pos hx, cons_append, dropWhile_cons_of_neg (by simp [hhead c rfl]), rdropWhile, ← cons_append,
    reverse_append, dropWhile_append_of_pos (fun d hd => hy d (mem_reverse.1 hd))]
  exact hend

theorem Ends.trim_eq (h : Ends s) : trim s = s := by
  simpa using h.trim_padded (forall_mem_nil _) (forall_mem_nil _)

theorem Atom.ends (h : Atom a) : Ends a := by
  cases h with
  | name h =>
    have hall : ∀ c ∈ a, isSpace c = false := fun c hc => (visible_iff.1 (visible_of_name h c hc)).1
    exact ⟨(word_of_name h).1, fun c hc => hall c (mem_of_mem_head? hc), fun c hc => hall c (mem_of_getLast? hc)⟩
  | group h =>
    refine ⟨by simp, fun c hc => ?_, fun c hc => ?_⟩
    · cases hc; rfl
    · rw [getLast?_concat] at hc
      cases hc; rfl

theorem Atom.neutral (h : Atom a) : Neutral a := by
  cases h with
  | name h => exact (Reads.name h : Reads 0 a _).neutral
  | group h => exact h.group

theorem Atom.ne_not (h : Atom a) (s : List Char) : a ≠ notPrefix ++ s := fun he => by
  cases h with
  | name h =>
    subst he
    exact absurd ((word_of_name h).2 ' ' (by simp [notPrefix])) (by decide)
  | group _ => cases (cons.inj he).1

/-- **No operator outside parentheses starts within an atom.** -/
theorem Atom.skip {l r : List Char} (h : Atom a) (hy : closing y = 0) (hr : closing r = 0) (he : a ++ y = l ++ op.text ++ r) :
    ∃ l', l = a ++ l' ∧ y = l' ++ op.text ++ r := by
  rw [append_assoc] at he
  obtain ⟨l', hl, hy'⟩ | ⟨c, ha, hc⟩ := append_eq_append_iff.1 he
  · exact ⟨l', hl, by rw [hy', append_assoc]⟩
  rcases c with _ | ⟨c, cs⟩
  · exact ⟨[], by rw [ha, append_nil, append_nil], by rw [append_assoc]; exact hc.symm⟩
  exfalso
  have hhead : c ≠ '(' ∧ ¬ (c.isAlphanum || c == '_') = true := by
    cases op <;> rw [← (cons.inj hc).1] <;> decide
  cases h with
  | name h => exact hhead.2 ((word_of_name h).2 c (ha ▸ mem_append_right _ mem_cons_self))
  | @group m h =>
    rcases l with _ | ⟨d, l⟩
    · exact hhead.1 (cons.inj ha).1.symm
    obtain ⟨cs', e, hcs⟩ := (eq_nil_or_concat (c :: cs)).resolve_left (cons_ne_nil _ _)
    rw [concat_eq_append] at hcs
    rw [hcs, ← append_assoc] at ha
    obtain ⟨hm, he'⟩ := append_inj' ha rfl
    obtain rfl : m = l ++ cs' := (cons.inj hm).2
    obtain rfl : ')' = e := (cons.inj he').1
    have hout := congrArg closing hc
    have hin := h.closing
    have hle := (closing_of_balanced h.balanced).1
    simp only [hcs, closing_append, closing_text, closing_cons, closing_nil, show turn ')' = 1 from rfl] at hout hin
    omega

theorem Atom.no_operator (h : Atom a) (hy : closing y = 0) (he : a = x ++ op.text ++ y) : False := by
  obtain ⟨m, -, hm⟩ := h.skip (y := []) rfl hy (by rw [append_nil, he])
  cases op <;> cases m <;> cases hm

/-- Where an operator may start within the text of an operator. -/
theorem written_drop (op op' : TraceOperatorType) : ∀ i ≤ (written op).length,
    (op'.text <+: (written op).drop i → op' = op ∧ i = op.pad.length) ∧
    ((written op).drop i <+: op'.text →
      op' = op ∧ i = op.pad.length ∨ op' = exclude ∧ (written op).drop i = [' '] ∨ (written op).drop i = []) := by
  cases op <;> cases op' <;> decide

theorem written_unique (hb : Atom b) (hy : closing y = 0) (he : written op ++ b = x ++ op'.text ++ y) : op' = op ∧ x = op.pad := by
  rw [append_assoc x] at he
  obtain ⟨x', hx, hb'⟩ | ⟨c, hw, hc⟩ := append_eq_append_iff.1 he
  · exact (hb.no_operator (x := x') hy (by rw [hb', append_assoc])).elim
  have hdrop : (written op).drop x.length = c := by rw [hw, drop_left]
  obtain ⟨hop, hpre⟩ := written_drop op op' x.length (by simp [hw])
  have hpad (h : op' = op ∧ x.length = op.pad.length) : op' = op ∧ x = op.pad := by
    rw [written, append_assoc] at hw
    exact ⟨h.1, (append_inj hw h.2.symm).1.symm⟩
  rw [hdrop] at hop hpre
  rcases prefix_or_prefix_of_prefix (prefix_append op'.text y) (hc ▸ prefix_append c b) with h | h
  · exact hpad (hop h)
  · rcases hpre h with h | ⟨rfl, rfl⟩ | rfl
    · exact hpad h
    · exact (hb.ne_not y (cons.inj hc).2.symm).elim
    · exact (hb.no_operator (x := []) hy hc.symm).elim

theorem written_head (op : TraceOperatorType) : ∃ w, written op = ' ' :: w := by cases op <;> exact ⟨_, rfl⟩

theorem Atom.eq_not (h : Atom a) (he : a ++ ' ' :: y = notPrefix ++ s) : a = ['N', 'O', 'T'] := by
  rcases a with _ | ⟨c₁, _ | ⟨c₂, _ | ⟨c₃, _ | ⟨c₄, a⟩⟩⟩⟩
  · cases (cons.inj he).1
  · cases (cons.inj (cons.inj he).2).1
  · cases (cons.inj (cons.inj (cons.inj he).2).2).1
  · simp_all [notPrefix]
  · refine absurd ?_ (h.ne_not a)
    simp_all [notPrefix]

theorem neutral_written (op : TraceOperatorType) : Neutral (written op) :=
  neutral_of_plain (by cases op <;> simp [written, pad, TraceOperatorType.text])

theorem atom_text (t : TraceOperand) : Atom t.text := by
  induction t with
  | queryRef name h => exact .name h
  | not left ih => exact .group (neutral_notPrefix.append ih.neutral)
  | binary op left right ihl ihr => exact .group (ihl.neutral.append ((neutral_written op).append ihr.neutral))

theorem cut_name (h : isQueryReference a = true) : cut a = .reference := by
  cases hcut : cut a with
  | group s =>
    rw [(cut_group hcut).1] at h
    simp [isQueryReference] at h
  | not s => exact ((Atom.name h).ne_not s (cut_not hcut)).elim
  | binary op l r => exact ((Atom.name h).no_operator (cut_binary hcut).1.outside (cut_binary hcut).1.eq).elim
  | reference => rfl

theorem cut_text_not (left : TraceOperand) : cut (trim (notPrefix ++ left.text)) = .not left.text := by
  have hends : Ends (['N'] ++ (['O', 'T', ' '] ++ left.text)) :=
    Ends.around ⟨cons_ne_nil _ _, by simp [isSpace], by simp [isSpace]⟩ (atom_text left).ends _
  rw [show notPrefix ++ left.text = ['N'] ++ (['O', 'T', ' '] ++ left.text) from rfl, hends.trim_eq]
  exact cut_of_not _

theorem cut_text_binary (op : TraceOperatorType) {left right : TraceOperand} (h : left.text ≠ ['N', 'O', 'T']) :
    cut (trim (left.text ++ (written op ++ right.text))) = .binary op (left.text ++ op.pad) (op.pad ++ right.text) := by
  have hl := atom_text left
  have hr := atom_text right
  have hpad : closing op.pad = 0 := by cases op <;> rfl
  have hst : Stands op (left.text ++ (written op ++ right.text)) (left.text ++ op.pad) (op.pad ++ right.text) :=
    ⟨by simp [written], by simp [hpad, hr.neutral.closing], fun _ => by simp [hl.ends.1, hr.ends.1]⟩
  rw [(hl.ends.around hr.ends _).trim_eq]
  cases hcut : cut (left.text ++ (written op ++ right.text)) with
  | group s =>
    obtain ⟨he, hin⟩ := cut_group hcut
    exact (not_neutral_of_group hin he.symm hl.ends.1 (by simp [hr.ends.1]) hl.neutral).elim
  | not s =>
    obtain ⟨w, hw⟩ := written_head op
    have he := cut_not hcut
    rw [hw] at he
    exact (h (hl.eq_not he)).elim
  | binary op' l r =>
    obtain ⟨hst', -⟩ := cut_binary hcut
    obtain ⟨l', rfl, hl'⟩ := hl.skip (by simp [(neutral_written op).closing, hr.neutral.closing]) hst'.outside hst'.eq
    obtain ⟨rfl, rfl⟩ := written_unique hr hst'.outside hl'
    rw [append_cancel_left (hst.eq.symm.trans hst'.eq)]
  | reference => exact (cut_reference hcut hst).elim

theorem parsed_group (hs : Neutral s) : Parsed ('(' :: s ++ [')']) t n ↔ Parsed s t n := by
  have hcut : cut (trim ('(' :: s ++ [')'])) = .group s := by
    rw [(Atom.group hs).ends.trim_eq]
    exact cut_of_group hs.balanced
  constructor
  · intro hp
    cases hp <;> simp_all
  · exact .group hcut

/-- **A tree is read back from its text exactly where the text may be written.** -/
theorem parsed_text_iff (t : TraceOperand) : (∃ n, Parsed t.text t n) ↔ t.Writable := by
  induction t with
  | queryRef name h =>
    have htrim := (Atom.name h).ends.trim_eq
    have hp := @Parsed.reference name (by rw [htrim, cut_name h]) (by rwa [htrim])
    simp only [htrim] at hp
    exact ⟨fun _ => trivial, fun _ => ⟨0, hp⟩⟩
  | not left ih =>
    rw [TraceOperand.Writable, ← ih]
    simp only [TraceOperand.text, parsed_group (neutral_notPrefix.append (atom_text left).neutral)]
    constructor
    · rintro ⟨n, hp⟩
      obtain ⟨u, m, he, hu⟩ := hp.of_not (cut_text_not left)
      cases he
      exact ⟨m, hu⟩
    · rintro ⟨n, hp⟩
      exact ⟨_, .not (cut_text_not left) hp⟩
  | binary op left right ihl ihr =>
    have hl := atom_text left
    have hr := atom_text right
    have hblank : ∀ c ∈ op.pad, isSpace c = true := by cases op <;> simp [pad, isSpace]
    have htl : trim (left.text ++ op.pad) = left.text := hl.ends.trim_padded (x := []) (forall_mem_nil _) hblank
    have htr : trim (op.pad ++ right.text) = right.text := by
      simpa using hr.ends.trim_padded (y := []) hblank (forall_mem_nil _)
    rw [TraceOperand.Writable, ← ihl, ← ihr]
    simp only [TraceOperand.text, parsed_group (hl.neutral.append ((neutral_written op).append hr.neutral))]
    constructor
    · rintro ⟨n, hp⟩
      have hne : left.text ≠ ['N', 'O', 'T'] := fun h => by
        obtain ⟨w, hw⟩ := written_head op
        have hcut := cut_of_not (w ++ right.text)
        obtain ⟨u, m, he, -⟩ := hp.of_not (by rw [(hl.ends.around hr.ends _).trim_eq, h, hw]; exact hcut)
        cases he
      obtain ⟨u, v, m, m', he, hu, hv⟩ := hp.of_binary (cut_text_binary op hne)
      cases he
      exact ⟨hne, ⟨m, htl ▸ hu⟩, ⟨m', htr ▸ hv⟩⟩
    · rintro ⟨hne, ⟨m, hu⟩, ⟨m', hv⟩⟩
      exact ⟨_, .binary (cut_text_binary op hne) (htl.symm ▸ hu) (htr.symm ▸ hv)⟩

/-- **An expression is parsed as the grammar reads it exactly where it is unmixed**, with the number of its operators, and
a tree is read back from its text exactly where no query named `NOT` stands to the left of an operator. -/
theorem parseTraceExpression_iff (expr : List Char) (t : TraceOperand) (n : Nat) (tree : TraceOperand) :
    (parseTraceExpression expr = .ok (t, n) → (Reads 0 (trim expr) t ∧ n = t.operators ↔ Unmixed expr)) ∧
    (parseTraceExpression tree.text = .ok (tree, tree.operators) ↔ tree.Writable) := by
  refine ⟨reads_iff, ?_⟩
  rw [← parsed_text_iff]
  constructor
  · exact fun h => ⟨_, parsed_of_parse _ h⟩
  · rintro ⟨n, hp⟩
    rw [← hp.count]
    exact parse_of_parsed hp

def query (c : Char) (h : c.isAlpha = true) : TraceOperand := .queryRef [c] (by rw [isQueryReference, h]; rfl)

def both : TraceOperand := .binary .and (query 'A' rfl) (query 'B' rfl)

theorem cut_both : cut (trim "A && B".toList) = .binary .and ['A', ' '] [' ', 'B'] := by decide

theorem parsed_both : Parsed "A && B".toList both 1 :=
  .binary cut_both (.reference (by decide) rfl) (.reference (by decide) rfl)

/-- `A && B` is read as it stands. -/
theorem both_reads : Reads 0 (trim "A && B".toList) both ∧ 1 = both.operators := by
  refine ((parseTraceExpression_iff _ _ _ both).1 (parse_of_parsed parsed_both)).2 ?_
  exact .binary cut_both (fun _ _ h => absurd h (by decide)) (.reference (by decide)) (.reference (by decide))

/-- `NOT A && B` is read as `NOT (A && B)`, and `(NOT && A)` not at all. -/
theorem parseTraceExpression_mixed :
    (¬ ∀ expr t n, parseTraceExpression expr = .ok (t, n) → Reads 0 (trim expr) t ∧ n = t.operators) ∧
    ¬ ∀ t, parseTraceExpression t.text = .ok (t, t.operators) := by
  constructor
  · intro hall
    have hcut : cut (trim "NOT A && B".toList) = .not "A && B".toList := by decide
    have hparse := parse_of_parsed (.not hcut parsed_both)
    cases (reads_iff hparse).1 (hall _ _ _ hparse) with
    | not hcut' hlevel =>
      rw [hcut] at hcut'
      cases hcut'
      exact absurd hlevel (by decide)
    | _ => simp_all
  · intro hall
    have hnot := (parsed_text_iff (.binary .and (.queryRef ['N', 'O', 'T'] rfl) (query 'A' rfl))).1
      ⟨_, parsed_of_parse _ (hall _)⟩
    exact hnot.1 rfl

/-! ## Nothing is lost -/

theorem filter_trim (expr : List Char) : (trim expr).filter visible = expr.filter visible := by
  obtain ⟨a, b, he, ha, hb⟩ := exists_trim expr
  have hnone {l : List Char} (h : ∀ c ∈ l, isSpace c = true) : l.filter visible = [] :=
    filter_eq_nil_iff.2 fun c hc => by simp [visible, h c hc]
  calc (trim expr).filter visible = (a ++ trim expr ++ b).filter visible := by simp [hnone ha, hnone hb]
    _ = expr.filter visible := by rw [← he]

theorem filter_group (s : List Char) : ('(' :: s ++ [')']).filter visible = s.filter visible := by simp [visible]

theorem filter_written (op : TraceOperatorType) : (written op).filter visible = op.text.filter visible := by cases op <;> rfl

theorem Parsed.letters (h : Parsed expr t n) : expr.filter visible = t.text.filter visible := by
  induction h with
  | group hcut _ ih => rw [← filter_trim, (cut_group hcut).1, filter_group, ih]
  | not hcut _ ih => rw [← filter_trim, cut_not hcut, TraceOperand.text, filter_group, filter_append, filter_append, ih]
  | binary hcut _ _ ihl ihr =>
    rw [filter_trim] at ihl ihr
    rw [← filter_trim, (cut_binary hcut).1.eq, TraceOperand.text, filter_group]
    simp only [filter_append, filter_written, ihl, ihr, append_assoc]
  | reference _ _ => exact (filter_trim _).symm

/-- **A tree has the names and the operators of its expression, in their order**, however they are bracketed. -/
theorem parsed_letters (h : parseTraceExpression expr = .ok (t, n)) :
    expr.filter visible = t.text.filter visible ∧ n = t.operators :=
  ⟨(parsed_of_parse expr h).letters, (parsed_of_parse expr h).count⟩

theorem both_letters : "A && B".toList.filter visible = both.text.filter visible ∧ 1 = both.operators :=
  parsed_letters (parse_of_parsed parsed_both)

end TraceOperator
end DsApm
