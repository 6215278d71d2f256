import DsApm.Lib.Lists
import Mathlib.Data.List.Flatten
/-!
# Regex — the regular expressions of RE2 without captures

`MatchString` asks whether an expression matches somewhere in a text.  A position is the character before it and the
text after it, which is what `^`, `$` and `\b` look at; `ends` lists the positions at which a match that starts here
may end.  A repetition takes only rounds that consume something, so the length of the text bounds them.

An expression without anchors matches in a text exactly if it accepts some part of it (`matchFrom_iff`).  `compile` reads the syntax of
RE2 as far as literals, escaped punctuation, classes, groups, `|`, `*` and a count of one digit; it gives nothing for what is outside.
-/
namespace Regex

open List

inductive Re where
  | eps
  | cls (f : Char → Bool)
  | seq (a b : Re)
  | alt (a b : Re)
  | star (a : Re)
  | bot
  | eot
  | wordBoundary

structure Pos where
  before : Option Char
  rest : List Char

def isWord (c : Char) : Bool := c.isAlphanum || c == '_'

def rounds (f : Pos → List Pos) : Nat → Pos → List Pos
  | 0, p => [p]
  | n + 1, p => p :: ((f p).filter (fun q => decide (q.rest.length < p.rest.length))).flatMap (rounds f n)

def ends : Re → Pos → List Pos
  | .eps, p => [p]
  | .cls f, p => match p.rest with
    | [] => []
    | c :: cs => if f c then [⟨some c, cs⟩] else []
  | .seq a b, p => (ends a p).flatMap (ends b)
  | .alt a b, p => ends a p ++ ends b p
  | .star a, p => rounds (ends a) p.rest.length p
  | .bot, p => if p.before.isNone then [p] else []
  | .eot, p => if p.rest.isEmpty then [p] else []
  | .wordBoundary, p => if p.before.any isWord != p.rest.head?.any isWord then [p] else []

def matchFrom (r : Re) (before : Option Char) : List Char → Bool
  | [] => !(ends r ⟨before, []⟩).isEmpty
  | c :: cs => !(ends r ⟨before, c :: cs⟩).isEmpty || matchFrom r (some c) cs

def matchString (r : Re) (s : String) : Bool := matchFrom r none s.toList

/-! ## Building expressions -/

def plus (a : Re) : Re := .seq a (.star a)
def opt (a : Re) : Re := .alt a .eps
def rep : Nat → Re → Re
  | 0, _ => .eps
  | n + 1, a => .seq a (rep n a)
def atLeast (n : Nat) (a : Re) : Re := .seq (rep n a) (.star a)
def oneOf (cs : List Char) : Re := .cls (fun c => cs.contains c)
def noneOf (cs : List Char) : Re := .cls (fun c => !cs.contains c)
def seqs : List Re → Re
  | [] => .eps
  | [a] => a
  | a :: as => .seq a (seqs as)
def alts : List Re → Re
  | [] => .cls (fun _ => false)
  | [a] => a
  | a :: as => .alt a (alts as)
def lit (s : String) : Re := seqs (s.toList.map (fun c => .cls (· == c)))
def space : Re := oneOf ['\t', '\n', '\x0c', '\r', ' ']

/-- The characters that fold to a letter: its two cases, and the Kelvin sign and the long s. -/
def foldsTo (letter c : Char) : Bool :=
  c.toLower == letter.toLower || (letter.toLower == 'k' && c == '\u212a') || (letter.toLower == 's' && c == '\u017f')
/-- A literal text under `(?i)`. -/
def litFold (s : String) : Re := seqs (s.toList.map (fun l => .cls (foldsTo l)))
def letterFold : Re := .cls (fun c => c.isAlpha || c == '\u212a' || c == '\u017f')

/-! ## What is accepted -/

def Re.Accepts : Re → List Char → Prop
  | .eps, m => m = []
  | .cls f, m => ∃ c, m = [c] ∧ f c = true
  | .seq a b, m => ∃ u v, m = u ++ v ∧ a.Accepts u ∧ b.Accepts v
  | .alt a b, m => a.Accepts m ∨ b.Accepts m
  | .star a, m => ∃ ms : List (List Char), m = ms.flatten ∧ ∀ u ∈ ms, a.Accepts u
  | .bot, m => m = []
  | .eot, m => m = []
  | .wordBoundary, m => m = []

def Re.anchored : Re → Bool
  | .bot | .eot => true
  | .seq a b => a.anchored || b.anchored
  | .alt a b => a.anchored || b.anchored
  | .star a => a.anchored
  | _ => false

def Re.looks : Re → Bool
  | .wordBoundary => true
  | .seq a b => a.looks || b.looks
  | .alt a b => a.looks || b.looks
  | .star a => a.looks
  | _ => false

def Re.plain (r : Re) : Bool := !r.anchored && !r.looks

variable {a : Re}

theorem accepts_of_rounds (ha : ∀ p q, q ∈ ends a p → ∃ m, p.rest = m ++ q.rest ∧ a.Accepts m) :
    ∀ (n : Nat) (p q : Pos), q ∈ rounds (ends a) n p → ∃ m, p.rest = m ++ q.rest ∧ (Re.star a).Accepts m
  | 0, p, q, h => by
    rw [rounds, mem_singleton] at h
    exact ⟨[], by rw [h]; rfl, [], rfl, fun _ hu => nomatch hu⟩
  | n + 1, p, q, h => by
    rw [rounds, mem_cons, mem_flatMap] at h
    rcases h with rfl | ⟨p', hp', h⟩
    · exact ⟨[], rfl, [], rfl, fun _ hu => nomatch hu⟩
    · obtain ⟨m, hm, hacc⟩ := ha p p' (mem_filter.1 hp').1
      obtain ⟨m', hm', ms, rfl, hms⟩ := accepts_of_rounds ha n p' q h
      exact ⟨m ++ ms.flatten, by rw [hm, hm', List.append_assoc], m :: ms, rfl, forall_mem_cons.2 ⟨hacc, hms⟩⟩

theorem accepts_of_ends : ∀ (r : Re) (p q : Pos), q ∈ ends r p → ∃ m, p.rest = m ++ q.rest ∧ r.Accepts m
  | .eps, p, q, h => by
    rw [ends, mem_singleton] at h
    exact ⟨[], by rw [h]; rfl, rfl⟩
  | .cls f, p, q, h => by
    obtain ⟨before, rest⟩ := p
    cases rest with
    | nil => cases h
    | cons c cs =>
      rw [ends] at h
      dsimp only at h
      split_ifs at h with hf
      · rw [mem_singleton] at h
        subst h
        exact ⟨[c], rfl, c, rfl, hf⟩
      · cases h
  | .seq a b, p, q, h => by
    obtain ⟨p', hp', h⟩ := mem_flatMap.1 h
    obtain ⟨u, hu, ha⟩ := accepts_of_ends a p p' hp'
    obtain ⟨v, hv, hb⟩ := accepts_of_ends b p' q h
    exact ⟨u ++ v, by rw [hu, hv, List.append_assoc], u, v, rfl, ha, hb⟩
  | .alt a b, p, q, h => by
    rcases mem_append.1 h with h | h
    · obtain ⟨m, hm, ha⟩ := accepts_of_ends a p q h
      exact ⟨m, hm, .inl ha⟩
    · obtain ⟨m, hm, hb⟩ := accepts_of_ends b p q h
      exact ⟨m, hm, .inr hb⟩
  | .star a, p, q, h => accepts_of_rounds (accepts_of_ends a) p.rest.length p q h
  | .bot, p, q, h => by
    rw [ends] at h
    split_ifs at h
    · rw [mem_singleton] at h
      exact ⟨[], by rw [h]; rfl, rfl⟩
    · cases h
  | .eot, p, q, h => by
    rw [ends] at h
    split_ifs at h
    · rw [mem_singleton] at h
      exact ⟨[], by rw [h]; rfl, rfl⟩
    · cases h
  | .wordBoundary, p, q, h => by
    rw [ends] at h
    split_ifs at h
    · rw [mem_singleton] at h
      exact ⟨[], by rw [h]; rfl, rfl⟩
    · cases h

theorem rounds_of_accepts (ha : ∀ m b rest, a.Accepts m → ∃ b', (⟨b', rest⟩ : Pos) ∈ ends a ⟨b, m ++ rest⟩) :
    ∀ (ms : List (List Char)) (n : Nat) (b : Option Char) (rest : List Char), (∀ u ∈ ms, a.Accepts u) → ms.flatten.length ≤ n →
      ∃ b', (⟨b', rest⟩ : Pos) ∈ rounds (ends a) n ⟨b, ms.flatten ++ rest⟩
  | [], n, b, rest, _, _ => by
    refine ⟨b, ?_⟩
    cases n with
    | zero => exact mem_singleton.2 rfl
    | succ n => exact mem_cons_self
  | [] :: ms, n, b, rest, hms, hn => rounds_of_accepts ha ms n b rest (forall_mem_cons.1 hms).2 hn
  | (c :: u) :: ms, n, b, rest, hms, hn => by
    obtain ⟨hu, hms⟩ := forall_mem_cons.1 hms
    rw [List.flatten_cons, List.length_append, length_cons] at hn
    cases n with
    | zero => omega
    | succ n =>
      obtain ⟨b₁, hb₁⟩ := ha (c :: u) b (ms.flatten ++ rest) hu
      obtain ⟨b₂, hb₂⟩ := rounds_of_accepts ha ms n b₁ rest hms (by omega)
      refine ⟨b₂, ?_⟩
      rw [List.flatten_cons, List.append_assoc, rounds]
      refine mem_cons_of_mem _ (mem_flatMap.2 ⟨_, mem_filter.2 ⟨hb₁, ?_⟩, hb₂⟩)
      simp only [List.length_append, length_cons, decide_eq_true_eq]
      omega

theorem ends_of_accepts : ∀ (r : Re), r.plain = true → ∀ (m : List Char) (b : Option Char) (rest : List Char), r.Accepts m →
    ∃ b', (⟨b', rest⟩ : Pos) ∈ ends r ⟨b, m ++ rest⟩
  | .eps, _, m, b, rest, h => by
    cases h
    exact ⟨b, mem_singleton.2 rfl⟩
  | .cls f, _, m, b, rest, h => by
    obtain ⟨c, rfl, hc⟩ := h
    refine ⟨some c, ?_⟩
    rw [singleton_append, ends]
    simp [hc]
  | .seq r₁ r₂, hplain, m, b, rest, h => by
    have hplain : r₁.plain = true ∧ r₂.plain = true := by
      simp only [Re.plain, Re.anchored, Re.looks, Bool.not_or, Bool.and_eq_true] at hplain ⊢
      exact ⟨⟨hplain.1.1, hplain.2.1⟩, hplain.1.2, hplain.2.2⟩
    obtain ⟨u, v, rfl, hu, hv⟩ := h
    obtain ⟨b₁, h₁⟩ := ends_of_accepts r₁ hplain.1 u b (v ++ rest) hu
    obtain ⟨b₂, h₂⟩ := ends_of_accepts r₂ hplain.2 v b₁ rest hv
    refine ⟨b₂, ?_⟩
    rw [List.append_assoc]
    exact mem_flatMap.2 ⟨_, h₁, h₂⟩
  | .alt r₁ r₂, hplain, m, b, rest, h => by
    have hplain : r₁.plain = true ∧ r₂.plain = true := by
      simp only [Re.plain, Re.anchored, Re.looks, Bool.not_or, Bool.and_eq_true] at hplain ⊢
      exact ⟨⟨hplain.1.1, hplain.2.1⟩, hplain.1.2, hplain.2.2⟩
    rcases h with h | h
    · obtain ⟨b', h⟩ := ends_of_accepts r₁ hplain.1 m b rest h
      exact ⟨b', mem_append.2 (.inl h)⟩
    · obtain ⟨b', h⟩ := ends_of_accepts r₂ hplain.2 m b rest h
      exact ⟨b', mem_append.2 (.inr h)⟩
  | .star a, hplain, m, b, rest, h => by
    obtain ⟨ms, rfl, hms⟩ := h
    refine rounds_of_accepts (fun m b rest hm => ends_of_accepts a hplain m b rest hm) ms _ b rest hms ?_
    rw [List.length_append]
    exact Nat.le_add_right _ _
  | .bot, hplain, _, _, _, _ => nomatch hplain
  | .eot, hplain, _, _, _, _ => nomatch hplain
  | .wordBoundary, hplain, _, _, _, _ => nomatch hplain

theorem matchFrom_iff {r : Re} (hr : r.plain = true) : ∀ (b : Option Char) (s : List Char),
    matchFrom r b s = true ↔ ∃ m, m <:+: s ∧ r.Accepts m
  | b, [] => by
    rw [matchFrom, Bool.not_eq_true', isEmpty_eq_false_iff_exists_mem]
    constructor
    · rintro ⟨q, hq⟩
      obtain ⟨m, hm, hacc⟩ := accepts_of_ends r _ q hq
      exact ⟨m, ⟨[], q.rest, hm.symm⟩, hacc⟩
    · rintro ⟨m, hm, hacc⟩
      rw [infix_nil] at hm
      subst hm
      obtain ⟨b', h⟩ := ends_of_accepts r hr [] b [] hacc
      exact ⟨_, h⟩
  | b, c :: cs => by
    rw [matchFrom, Bool.or_eq_true, Bool.not_eq_true', isEmpty_eq_false_iff_exists_mem, matchFrom_iff hr (some c) cs]
    constructor
    · rintro (⟨q, hq⟩ | ⟨m, hm, hacc⟩)
      · obtain ⟨m, hm, hacc⟩ := accepts_of_ends r _ q hq
        exact ⟨m, ⟨[], q.rest, hm.symm⟩, hacc⟩
      · exact ⟨m, hm.trans (suffix_cons c cs).isInfix, hacc⟩
    · rintro ⟨m, hm, hacc⟩
      rcases infix_cons_iff.1 hm with ⟨rest, hrest⟩ | hm
      · obtain ⟨b', h⟩ := ends_of_accepts r hr m b rest hacc
        rw [hrest] at h
        exact .inl ⟨_, h⟩
      · exact .inr ⟨m, hm, hacc⟩

theorem accepts_seqs : ∀ {rs : List Re} {m : List Char},
    (seqs rs).Accepts m ↔ ∃ ms : List (List Char), m = ms.flatten ∧ List.Forall₂ Re.Accepts rs ms
  | [], m => by
    constructor
    · intro h
      exact ⟨[], h, .nil⟩
    · rintro ⟨_, rfl, ⟨⟩⟩
      rfl
  | [a], m => by
    constructor
    · intro h
      exact ⟨[m], by simp, .cons h .nil⟩
    · rintro ⟨_, rfl, ⟨⟩⟩
      rename_i h hnil
      cases hnil
      simpa [seqs] using h
  | a :: b :: rs, m => by
    rw [seqs]
    · constructor
      · rintro ⟨u, v, rfl, hu, hv⟩
        obtain ⟨ms, rfl, hms⟩ := accepts_seqs.1 hv
        exact ⟨u :: ms, rfl, .cons hu hms⟩
      · rintro ⟨_, rfl, ⟨⟩⟩
        rename_i u ms hu hms
        exact ⟨u, ms.flatten, rfl, hu, accepts_seqs.2 ⟨ms, rfl, hms⟩⟩
    · exact fun h => nomatch h

theorem plain_seqs : ∀ {rs : List Re}, (∀ r ∈ rs, r.plain = true) → (seqs rs).plain = true
  | [], _ => rfl
  | [a], h => h a mem_cons_self
  | a :: b :: rs, h => by
    obtain ⟨ha, h⟩ := forall_mem_cons.1 h
    have hrs : (seqs (b :: rs)).plain = true := plain_seqs h
    rw [seqs]
    · simp only [Re.plain, Re.anchored, Re.looks, Bool.not_or, Bool.and_eq_true] at ha hrs ⊢
      exact ⟨⟨ha.1, hrs.1⟩, ha.2, hrs.2⟩
    · exact fun h => nomatch h

theorem accepts_rep : ∀ {n : Nat} {m : List Char},
    (rep n a).Accepts m ↔ ∃ ms : List (List Char), ms.length = n ∧ m = ms.flatten ∧ ∀ u ∈ ms, a.Accepts u
  | 0, m => by
    constructor
    · intro h
      exact ⟨[], rfl, h, fun _ hu => nomatch hu⟩
    · rintro ⟨ms, hlen, rfl, -⟩
      rw [List.length_eq_zero_iff.1 hlen]
      rfl
  | n + 1, m => by
    constructor
    · rintro ⟨u, v, rfl, hu, hv⟩
      obtain ⟨ms, rfl, rfl, hms⟩ := accepts_rep.1 hv
      exact ⟨u :: ms, rfl, rfl, forall_mem_cons.2 ⟨hu, hms⟩⟩
    · rintro ⟨ms, hlen, rfl, hms⟩
      cases ms with
      | nil => cases hlen
      | cons u ms =>
        obtain ⟨hu, hms⟩ := forall_mem_cons.1 hms
        exact ⟨u, ms.flatten, rfl, hu, accepts_rep.2 ⟨ms, Nat.succ.inj hlen, rfl, hms⟩⟩

variable {f : Char → Bool} {m : List Char}

theorem accepts_cls : (Re.cls f).Accepts m ↔ m.length = 1 ∧ ∀ c ∈ m, f c = true := by
  constructor
  · rintro ⟨c, rfl, hc⟩
    exact ⟨rfl, forall_mem_singleton.2 hc⟩
  · rintro ⟨hlen, h⟩
    obtain ⟨c, rfl⟩ := length_eq_one_iff.1 hlen
    exact ⟨c, rfl, h c mem_cons_self⟩

theorem flatten_singletons (m : List Char) : (m.map fun c => [c]).flatten = m := by
  rw [← flatMap_def, flatMap_singleton']

theorem mem_flatten_cls {ms : List (List Char)} (h : ∀ u ∈ ms, (Re.cls f).Accepts u) {c : Char} (hc : c ∈ ms.flatten) :
    f c = true := by
  obtain ⟨u, hu, hc⟩ := mem_flatten.1 hc
  exact (accepts_cls.1 (h u hu)).2 c hc

theorem accepts_rep_cls {n : Nat} :
    (rep n (.cls f)).Accepts m ↔ m.length = n ∧ ∀ c ∈ m, f c = true := by
  rw [accepts_rep]
  constructor
  · rintro ⟨ms, rfl, rfl, hms⟩
    refine ⟨?_, fun c hc => mem_flatten_cls hms hc⟩
    rw [List.length_flatten, map_congr_left fun u hu => (accepts_cls.1 (hms u hu)).1]
    simp
  · rintro ⟨rfl, h⟩
    exact ⟨_, List.length_map .., (flatten_singletons m).symm, List.forall_mem_map.2 fun c hc => ⟨c, rfl, h c hc⟩⟩

theorem accepts_star_cls : (Re.star (.cls f)).Accepts m ↔ ∀ c ∈ m, f c = true := by
  constructor
  · rintro ⟨ms, rfl, hms⟩ c hc
    exact mem_flatten_cls hms hc
  · intro h
    exact ⟨_, (flatten_singletons m).symm, List.forall_mem_map.2 fun c hc => ⟨c, rfl, h c hc⟩⟩

theorem accepts_seqs_cons {rs : List Re} :
    (seqs (a :: rs)).Accepts m ↔ ∃ u v, m = u ++ v ∧ a.Accepts u ∧ (seqs rs).Accepts v := by
  rw [accepts_seqs]
  constructor
  · rintro ⟨_, rfl, ⟨⟩⟩
    rename_i u ms hu hms
    exact ⟨u, ms.flatten, rfl, hu, accepts_seqs.2 ⟨ms, rfl, hms⟩⟩
  · rintro ⟨u, v, rfl, hu, hv⟩
    obtain ⟨ms, rfl, hms⟩ := accepts_seqs.1 hv
    exact ⟨u :: ms, rfl, .cons hu hms⟩

theorem accepts_seqs_append {rs rs' : List Re} :
    (seqs (rs ++ rs')).Accepts m ↔ ∃ u v, m = u ++ v ∧ (seqs rs).Accepts u ∧ (seqs rs').Accepts v := by
  induction rs generalizing m with
  | nil =>
    constructor
    · intro h
      exact ⟨[], m, rfl, rfl, h⟩
    · rintro ⟨u, v, rfl, hu, hv⟩
      cases hu
      exact hv
  | cons a rs ih =>
    rw [cons_append, accepts_seqs_cons]
    constructor
    · rintro ⟨u, v, rfl, hu, hv⟩
      obtain ⟨v, v', rfl, hv, hv'⟩ := ih.1 hv
      exact ⟨u ++ v, v', (List.append_assoc ..).symm, accepts_seqs_cons.2 ⟨u, v, rfl, hu, hv⟩, hv'⟩
    · rintro ⟨u, v', rfl, hu, hv'⟩
      obtain ⟨u, v, rfl, hu, hv⟩ := accepts_seqs_cons.1 hu
      exact ⟨u, v ++ v', List.append_assoc .., hu, ih.2 ⟨v, v', rfl, hv, hv'⟩⟩

theorem accepts_seqs_flatMap {α : Type} {f : α → List Re} {as : List α} :
    (seqs (as.flatMap f)).Accepts m ↔ ∃ ms : List (List Char), m = ms.flatten ∧ List.Forall₂ (fun a u => (seqs (f a)).Accepts u) as ms := by
  induction as generalizing m with
  | nil =>
    constructor
    · intro h
      exact ⟨[], h, .nil⟩
    · rintro ⟨_, rfl, ⟨⟩⟩
      rfl
  | cons a as ih =>
    rw [flatMap_cons, accepts_seqs_append]
    constructor
    · rintro ⟨u, v, rfl, hu, hv⟩
      obtain ⟨ms, rfl, hms⟩ := ih.1 hv
      exact ⟨u :: ms, rfl, .cons hu hms⟩
    · rintro ⟨_, rfl, ⟨⟩⟩
      rename_i u ms hu hms
      exact ⟨u, ms.flatten, rfl, hu, ih.2 ⟨ms, rfl, hms⟩⟩

/-! ## The syntax -/

inductive Token
  | one (f : Char → Bool)
  | star
  | times (n : Nat)
  | opening
  | bar
  | closing

/-- What is left of a class behind its `[`, with how long it is; nothing for a named class or an escape. -/
def classRanges : List Char → Option (List (Char × Char) × Nat)
  | [] => none
  | ']' :: _ => some ([], 1)
  | lo :: '-' :: hi :: s =>
    if lo ∈ ['\\', '['] ∨ hi ∈ ['\\', '[', ']'] ∨ hi < lo then none
    else (classRanges s).map fun (rs, n) => ((lo, hi) :: rs, n + 3)
  | c :: s =>
    if c ∈ ['\\', '['] then none
    else (classRanges s).map fun (rs, n) => ((c, c) :: rs, n + 1)

def inRanges (rs : List (Char × Char)) (c : Char) : Bool := rs.any fun r => decide (r.1 ≤ c) && decide (c ≤ r.2)

def isPunct (c : Char) : Bool := decide ('!' ≤ c) && decide (c ≤ '~') && !c.isAlphanum

/-- A count is of one digit; a brace that begins no count stands for itself, and a longer count is outside. -/
def braceToken : List Char → Option (Token × Nat)
  | d :: s =>
    if d.isDigit then
      match s with
      | '}' :: _ => some (.times (d.toNat - '0'.toNat), 2)
      | e :: _ => if e.isDigit || e == ',' then none else some (.one (· == '{'), 0)
      | [] => some (.one (· == '{'), 0)
    else some (.one (· == '{'), 0)
  | [] => some (.one (· == '{'), 0)

/-- The tokens of a text, behind as many characters that belong to the token before. -/
def tokens : Nat → List Char → Option (List Token)
  | _, [] => some []
  | k + 1, _ :: s => tokens k s
  | 0, c :: s =>
    if c = '\\' then
      match s with
      | e :: _ => if isPunct e then (tokens 1 s).map (.one (· == e) :: ·) else none
      | [] => none
    else if c = '[' then
      if s.head? = some '^' ∨ s.head? = some ']' then none
      else match classRanges s with
        | some (rs, n) => (tokens n s).map (.one (inRanges rs) :: ·)
        | none => none
    else if c = '{' then
      match braceToken s with
      | some (t, n) => (tokens n s).map (t :: ·)
      | none => none
    else if c = '*' then (tokens (if s.head? = some '?' then 1 else 0) s).map (.star :: ·)
    else if c = '(' then if s.head? = some '?' then none else (tokens 0 s).map (.opening :: ·)
    else if c = '|' then (tokens 0 s).map (.bar :: ·)
    else if c = ')' then (tokens 0 s).map (.closing :: ·)
    else if c ∈ ['.', '+', '?', '^', '$'] then none
    else (tokens 0 s).map (.one (· == c) :: ·)

/-- An expression of a sequence, and whether it is repeated: what is repeated may not be so again. -/
abbrev Item := Re × Bool

def close (items : List Item) (branches : List Re) : Re := alts (seqs (items.reverse.map Prod.fst) :: branches).reverse

/-- The tokens in their order, with the items of the branch, the branches of the group and what is around the group. -/
def assemble : List Token → List Item → List Re → List (List Item × List Re) → Option Re
  | [], items, branches, [] => some (close items branches)
  | .one f :: ts, items, branches, around => assemble ts ((.cls f, false) :: items) branches around
  | .star :: ts, (a, false) :: items, branches, around => assemble ts ((.star a, true) :: items) branches around
  | .times n :: ts, (a, false) :: items, branches, around => assemble ts ((rep n a, true) :: items) branches around
  | .opening :: ts, items, branches, around => assemble ts [] [] ((items, branches) :: around)
  | .bar :: ts, items, branches, around => assemble ts [] (seqs (items.reverse.map Prod.fst) :: branches) around
  | .closing :: ts, items, branches, (items', branches') :: around =>
    assemble ts ((close items branches, false) :: items') branches' around
  | _, _, _, _ => none

def compile (s : List Char) : Option Re := (tokens 0 s).bind fun ts => assemble ts [] [] []

/-- A part of a text that is read by itself, as these items, whatever stands around it. -/
def Reads (p : List Char) (items : List Item) : Prop :=
  ∃ ts, (∀ s, tokens 0 (p ++ s) = (tokens 0 s).map (ts ++ ·)) ∧ ∀ ts' items' branches around,
    assemble (ts ++ ts') items' branches around = assemble ts' (items.reverse ++ items') branches around

theorem Reads.nil : Reads [] [] := ⟨[], fun s => by simp, fun _ _ _ _ => rfl⟩

variable {p : List Char}

theorem Reads.append {p' : List Char} {items items' : List Item} (h : Reads p items) (h' : Reads p' items') :
    Reads (p ++ p') (items ++ items') := by
  obtain ⟨ts, htokens, hitems⟩ := h
  obtain ⟨ts', htokens', hitems'⟩ := h'
  refine ⟨ts ++ ts', fun s => ?_, fun us is branches around => ?_⟩
  · rw [List.append_assoc, htokens, htokens', Option.map_map]
    simp only [Function.comp_def, List.append_assoc]
  · rw [List.append_assoc, hitems, hitems', reverse_append, List.append_assoc]

theorem Reads.flatMap {α : Type} {p : α → List Char} {items : α → List Item} : ∀ {as : List α},
    (∀ a ∈ as, Reads (p a) (items a)) → Reads (as.flatMap p) (as.flatMap items)
  | [], _ => .nil
  | a :: as, h => by
    obtain ⟨ha, h⟩ := forall_mem_cons.1 h
    rw [flatMap_cons, flatMap_cons]
    exact ha.append (Reads.flatMap h)

theorem Reads.compile {items : List Item} (h : Reads p items) : compile p = some (seqs (items.map Prod.fst)) := by
  obtain ⟨ts, htokens, hitems⟩ := h
  have htokens := htokens []
  rw [append_nil, tokens, Option.map_some, append_nil] at htokens
  have hitems := hitems [] [] [] []
  rw [append_nil, append_nil] at hitems
  rw [Regex.compile, htokens, Option.bind_some, hitems, assemble, close, reverse_reverse]
  rfl

theorem Reads.times (h : Reads p [(a, false)]) {n : Nat} (hn : n ≤ 9) :
    Reads (p ++ ['{', Nat.digitChar n, '}']) [(rep n a, true)] := by
  obtain ⟨ts, htokens, hitems⟩ := h
  refine ⟨ts ++ [.times n], fun s => ?_, fun ts' items branches around => ?_⟩
  · have hdigit : ∀ n ≤ 9, (Nat.digitChar n).isDigit = true ∧ (Nat.digitChar n).toNat - '0'.toNat = n := by decide
    obtain ⟨hdigit, hvalue⟩ := hdigit n hn
    have hbrace : braceToken (Nat.digitChar n :: '}' :: s) = some (.times n, 2) := by
      rw [braceToken, if_pos hdigit, hvalue]
    have hcount : tokens 0 ('{' :: Nat.digitChar n :: '}' :: s) = (tokens 0 s).map (.times n :: ·) := by
      rw [tokens, if_neg (by decide), if_neg (by decide), if_pos rfl, hbrace]
      rfl
    rw [List.append_assoc, htokens]
    show (tokens 0 ('{' :: Nat.digitChar n :: '}' :: s)).map _ = _
    rw [hcount, Option.map_map]
    simp only [Function.comp_def, List.append_assoc, singleton_append]
  · rw [List.append_assoc, hitems]
    rfl

theorem Reads.lazyStar (h : Reads p [(a, false)]) : Reads (p ++ ['*', '?']) [(.star a, true)] := by
  obtain ⟨ts, htokens, hitems⟩ := h
  refine ⟨ts ++ [.star], fun s => ?_, fun ts' items branches around => ?_⟩
  · rw [List.append_assoc, htokens]
    show ((tokens 0 s).map _).map _ = _
    rw [Option.map_map]
    simp only [Function.comp_def, List.append_assoc, singleton_append]
  · rw [List.append_assoc, hitems]
    rfl

/-! ### What is read by itself -/

def metaChars : List Char := ['\\', '[', '{', '*', '(', '|', ')', '.', '+', '?', '^', '$']

def isPlainChar (c : Char) : Bool := decide (c ∉ metaChars)

theorem reads_char {c : Char} (hc : isPlainChar c = true) : Reads [c] [(.cls (· == c), false)] := by
  refine ⟨[.one (· == c)], fun s => ?_, fun _ _ _ _ => rfl⟩
  simp only [isPlainChar, metaChars, decide_eq_true_eq, mem_cons, not_or, not_mem_nil, not_false_eq_true, and_true] at hc
  simp [tokens, hc]

theorem reads_escaped {c : Char} (hc : isPunct c = true) : Reads ['\\', c] [(.cls (· == c), false)] := by
  refine ⟨[.one (· == c)], fun s => ?_, fun _ _ _ _ => rfl⟩
  simp [tokens, hc]

end Regex
