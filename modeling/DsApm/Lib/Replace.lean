import DsApm.Lib.Regex
import DsApm.Lib.Separated
/-!
# Replace — `Regexp.ReplaceAllString` for expressions that never match the empty text

`tries` lists the ends of a match in the order in which they are preferred: the first alternative, the longer repetition.  A text
is read from the left; what lies between the matches are its gaps, and replacing puts one text between every two of them.

A character that no expression consumes and that is no part of a word is a fence: matches and replacements on its two sides have
nothing to do with each other (`replaceAll_fence`, `matchFrom_fence`).
-/
namespace Regex

open List Option

def greedyRounds (f : Pos → List Pos) : Nat → Pos → List Pos
  | 0, p => [p]
  | n + 1, p => ((f p).filter (fun q => decide (q.rest.length < p.rest.length))).flatMap (greedyRounds f n) ++ [p]

/-- The ends of a match that starts here, the preferred one first. -/
def tries : Re → Pos → List Pos
  | .eps, p => [p]
  | .cls f, p => match p.rest with
    | [] => []
    | c :: cs => if f c then [⟨some c, cs⟩] else []
  | .seq a b, p => (tries a p).flatMap (tries b)
  | .alt a b, p => tries a p ++ tries b p
  | .star a, p => greedyRounds (tries a) p.rest.length p
  | .bot, p => if p.before.isNone then [p] else []
  | .eot, p => if p.rest.isEmpty then [p] else []
  | .wordBoundary, p => if p.before.any isWord != p.rest.head?.any isWord then [p] else []

def matchLen (r : Re) (p : Pos) : Option Nat := (tries r p).head?.map fun q => p.rest.length - q.rest.length

/-- The text between the matches, after the rest of a match of which `k` characters are left. -/
def gaps (r : Re) : Nat → Option Char → List Char → List (List Char)
  | _, _, [] => [[]]
  | k + 1, _, c :: cs => gaps r k (some c) cs
  | 0, b, c :: cs =>
    match matchLen r ⟨b, c :: cs⟩ with
    | some (n + 1) => [] :: gaps r n (some c) cs
    | _ => (gaps r 0 (some c) cs).modifyHead (c :: ·)

def replaceAll (r : Re) (repl s : List Char) : List Char := repl.intercalate (gaps r 0 none s)

/-! ## The same ends -/

variable {f : Pos → List Pos}

theorem mem_greedyRounds {g : Pos → List Pos} (hfg : ∀ p q, q ∈ f p ↔ q ∈ g p) :
    ∀ (n : Nat) (p q : Pos), q ∈ greedyRounds f n p ↔ q ∈ rounds g n p
  | 0, _, _ => Iff.rfl
  | n + 1, p, q => by
    simp only [greedyRounds, rounds, mem_append, mem_cons, mem_flatMap, mem_filter, hfg,
      mem_greedyRounds hfg n, not_mem_nil, or_false]
    exact or_comm

theorem mem_tries : ∀ (r : Re) (p q : Pos), q ∈ tries r p ↔ q ∈ ends r p
  | .eps, _, _ | .cls _, _, _ | .bot, _, _ | .eot, _, _ | .wordBoundary, _, _ => Iff.rfl
  | .seq a b, p, q => by simp only [tries, ends, mem_flatMap, mem_tries a, mem_tries b]
  | .alt a b, p, q => by simp only [tries, ends, mem_append, mem_tries a, mem_tries b]
  | .star a, p, q => mem_greedyRounds (mem_tries a) p.rest.length p q

theorem ends_isEmpty (r : Re) (p : Pos) : (ends r p).isEmpty = (tries r p).isEmpty := by
  rw [Bool.eq_iff_iff, List.isEmpty_iff, List.isEmpty_iff, eq_nil_iff_forall_not_mem, eq_nil_iff_forall_not_mem]
  exact forall_congr' fun q => not_congr (mem_tries r p q).symm

/-! ## What an expression looks at -/

def Re.consumes : Re → Char → Bool
  | .cls f, c => f c
  | .seq a b, c => a.consumes c || b.consumes c
  | .alt a b, c => a.consumes c || b.consumes c
  | .star a, c => a.consumes c
  | _, _ => false

def Re.minLen : Re → Nat
  | .cls _ => 1
  | .seq a b => a.minLen + b.minLen
  | .alt a b => min a.minLen b.minLen
  | _ => 0

def Re.opens : Re → Bool
  | .wordBoundary => true
  | .seq a _ => a.opens
  | _ => false

def Re.closes : Re → Bool
  | .wordBoundary => true
  | .seq _ b => b.closes
  | _ => false

def Re.bounded (r : Re) : Bool := r.opens && r.closes

def atBoundary (p : Pos) : Bool := p.before.any isWord != p.rest.head?.any isWord

theorem atBoundary_of_opens : ∀ {r : Re} {p q : Pos}, r.opens = true → q ∈ tries r p → atBoundary p = true
  | .wordBoundary, p, q, _, hq => by
    rw [tries] at hq
    split at hq
    · assumption
    · cases hq
  | .seq a b, p, q, ho, hq => by
    obtain ⟨m, hm, _⟩ := mem_flatMap.1 hq
    exact atBoundary_of_opens (r := a) ho hm

theorem atBoundary_of_closes : ∀ {r : Re} {p q : Pos}, r.closes = true → q ∈ tries r p → atBoundary q = true
  | .wordBoundary, p, q, _, hq => by
    rw [tries] at hq
    split at hq
    · cases mem_singleton.1 hq
      assumption
    · cases hq
  | .seq a b, p, q, hc, hq => by
    obtain ⟨m, _, hm⟩ := mem_flatMap.1 hq
    exact atBoundary_of_closes (r := b) hc hm

/-! ## Positions further on -/

namespace Pos

def skip : Nat → Pos → Pos
  | 0, p => p
  | _ + 1, ⟨b, []⟩ => ⟨b, []⟩
  | n + 1, ⟨_, c :: cs⟩ => skip n ⟨some c, cs⟩

@[simp] theorem skip_zero (p : Pos) : p.skip 0 = p := by cases p; rfl
@[simp] theorem skip_nil (n : Nat) (b : Option Char) : skip n ⟨b, []⟩ = ⟨b, []⟩ := by cases n <;> rfl
@[simp] theorem skip_cons (n : Nat) (b : Option Char) (c : Char) (cs : List Char) : skip (n + 1) ⟨b, c :: cs⟩ = skip n ⟨some c, cs⟩ := rfl

theorem skip_skip : ∀ (m n : Nat) (p : Pos), (p.skip m).skip n = p.skip (m + n)
  | 0, n, p => by simp
  | m + 1, n, ⟨b, []⟩ => by simp
  | m + 1, n, ⟨b, c :: cs⟩ => by rw [Nat.add_right_comm, skip_cons, skip_cons, skip_skip m n]

theorem rest_skip : ∀ (n : Nat) (p : Pos), (p.skip n).rest = p.rest.drop n
  | 0, p => by simp
  | n + 1, ⟨b, []⟩ => by simp
  | n + 1, ⟨b, c :: cs⟩ => by rw [skip_cons, rest_skip n]; rfl

theorem skip_append : ∀ (u : List Char) (b : Option Char) (t : List Char), skip u.length ⟨b, u ++ t⟩ = ⟨u.getLast?.or b, t⟩
  | [], b, t => by simp
  | c :: u, b, t => by
    rw [length_cons, cons_append, skip_cons, skip_append u, List.getLast?_cons]
    cases u.getLast? <;> rfl

end Pos

theorem length_skip {n : Nat} {p : Pos} (hn : n ≤ p.rest.length) : (p.skip n).rest.length + n = p.rest.length := by
  rw [Pos.rest_skip, length_drop, Nat.sub_add_cancel hn]

theorem greedyRounds_skip (hf : ∀ p q, q ∈ f p → ∃ n, n ≤ p.rest.length ∧ q = p.skip n) :
    ∀ (k : Nat) (p q : Pos), q ∈ greedyRounds f k p → ∃ n, n ≤ p.rest.length ∧ q = p.skip n
  | 0, p, q, h => ⟨0, Nat.zero_le _, by rw [mem_singleton.1 h, Pos.skip_zero]⟩
  | k + 1, p, q, h => by
    rw [greedyRounds, mem_append, mem_flatMap, mem_singleton] at h
    rcases h with ⟨m, hm, hq⟩ | rfl
    · obtain ⟨i, hi, rfl⟩ := hf p m (mem_filter.1 hm).1
      obtain ⟨j, hj, rfl⟩ := greedyRounds_skip hf k _ q hq
      have hlen := length_skip hi
      exact ⟨i + j, by omega, Pos.skip_skip i j p⟩
    · exact ⟨0, Nat.zero_le _, (Pos.skip_zero q).symm⟩

theorem tries_skip : ∀ (r : Re) (p q : Pos), q ∈ tries r p → ∃ n, n ≤ p.rest.length ∧ r.minLen ≤ n ∧ q = p.skip n
  | .eps, p, q, h => ⟨0, Nat.zero_le _, Nat.le_refl _, by rw [mem_singleton.1 h, Pos.skip_zero]⟩
  | .cls f, ⟨b, []⟩, q, h => by cases h
  | .cls f, ⟨b, c :: cs⟩, q, h => by
    simp only [tries] at h
    split at h
    · exact ⟨1, by simp, Nat.le_refl _, by rw [mem_singleton.1 h, Pos.skip_cons, Pos.skip_zero]⟩
    · cases h
  | .seq a b, p, q, h => by
    obtain ⟨m, hm, hq⟩ := mem_flatMap.1 h
    obtain ⟨i, hi, hai, rfl⟩ := tries_skip a p m hm
    obtain ⟨j, hj, hbj, rfl⟩ := tries_skip b _ q hq
    have hlen := length_skip hi
    exact ⟨i + j, by omega, Nat.add_le_add hai hbj, Pos.skip_skip i j p⟩
  | .alt a b, p, q, h => by
    rcases mem_append.1 h with h | h
    · obtain ⟨n, hn, hmin, hq⟩ := tries_skip a p q h
      exact ⟨n, hn, Nat.le_trans (Nat.min_le_left _ _) hmin, hq⟩
    · obtain ⟨n, hn, hmin, hq⟩ := tries_skip b p q h
      exact ⟨n, hn, Nat.le_trans (Nat.min_le_right _ _) hmin, hq⟩
  | .star a, p, q, h => by
    have hstep : ∀ p q, q ∈ tries a p → ∃ n, n ≤ p.rest.length ∧ q = p.skip n := fun p q hq =>
      let ⟨n, hn, _, he⟩ := tries_skip a p q hq
      ⟨n, hn, he⟩
    obtain ⟨n, hn, hq⟩ := greedyRounds_skip hstep _ p q h
    exact ⟨n, hn, Nat.zero_le _, hq⟩
  | .bot, p, q, h | .eot, p, q, h | .wordBoundary, p, q, h => by
    rw [tries] at h
    split at h
    · exact ⟨0, Nat.zero_le _, Nat.le_refl _, by rw [mem_singleton.1 h, Pos.skip_zero]⟩
    · cases h

theorem matchLen_eq_some {r : Re} {p : Pos} {n : Nat} (h : matchLen r p = some n) : n ≤ p.rest.length ∧ p.skip n ∈ tries r p := by
  obtain ⟨q, hq, rfl⟩ := map_eq_some_iff.1 h
  have hmem : q ∈ tries r p := mem_of_mem_head? hq
  obtain ⟨n, hn, _, rfl⟩ := tries_skip r p q hmem
  have hlen := length_skip hn
  have hsub : p.rest.length - (p.skip n).rest.length = n := by omega
  rw [hsub]
  exact ⟨hn, hmem⟩

theorem exists_matchLen {r : Re} {p q : Pos} (h : q ∈ tries r p) : ∃ n, matchLen r p = some n ∧ r.minLen ≤ n := by
  obtain ⟨q', hq'⟩ : ∃ q', (tries r p).head? = some q' := by
    cases hs : tries r p with
    | nil => rw [hs] at h; cases h
    | cons q' _ => exact ⟨q', rfl⟩
  obtain ⟨n, hn, hmin, rfl⟩ := tries_skip r p q' (mem_of_mem_head? hq')
  have hlen := length_skip hn
  refine ⟨n, ?_, hmin⟩
  rw [matchLen, hq', map_some, some_inj]
  omega

/-! ## Two texts that go on alike

The text of `p'` goes on, after that of `p`, with `t`, which is empty or starts with a fence. -/

/-- No match takes the character, and it is no part of a word. -/
def Re.fence (r : Re) (c : Char) : Bool := !isWord c && !r.consumes c

structure Agree (t : List Char) (p p' : Pos) : Prop where
  rest : p'.rest = p.rest ++ t
  before : p'.before.any isWord = p.before.any isWord

theorem Agree.length_lt {t : List Char} {p p' q q' : Pos} (hp : Agree t p p') (hq : Agree t q q') :
    q.rest.length < p.rest.length ↔ q'.rest.length < p'.rest.length := by
  rw [hp.rest, hq.rest, List.length_append, List.length_append]
  omega

theorem greedyRounds_of_le : ∀ {n : Nat} {p : Pos}, p.rest.length ≤ n → greedyRounds f n p =
    ((f p).filter (fun q => decide (q.rest.length < p.rest.length))).flatMap (greedyRounds f (n - 1)) ++ [p]
  | 0, p, h => by
    have hnone : (f p).filter (fun q => decide (q.rest.length < p.rest.length)) = [] := by
      apply filter_eq_nil_iff.2
      intro q _
      rw [decide_eq_true_iff]
      omega
    rw [hnone]
    rfl
  | n + 1, p, _ => rfl

theorem agree_greedyRounds {t : List Char}
    (hf : ∀ p p', Agree t p p' → List.Forall₂ (Agree t) (f p) (f p')) :
    ∀ (k : Nat) {n n' : Nat} {p p' : Pos}, p.rest.length ≤ k → p.rest.length ≤ n → p'.rest.length ≤ n' → Agree t p p' →
      List.Forall₂ (Agree t) (greedyRounds f n p) (greedyRounds f n' p')
  | k, n, n', p, p', hk, hn, hn', h => by
    rw [greedyRounds_of_le hn, greedyRounds_of_le hn']
    apply rel_append _ (List.Forall₂.cons h List.Forall₂.nil)
    have hfilter : List.Forall₂ (Agree t) ((f p).filter (fun q => decide (q.rest.length < p.rest.length)))
        ((f p').filter (fun q => decide (q.rest.length < p'.rest.length))) := by
      apply rel_filter _ (hf p p' h)
      intro q q' hq
      simpa using h.length_lt hq
    have hless : ∀ q ∈ (f p).filter (fun q => decide (q.rest.length < p.rest.length)), q.rest.length < p.rest.length :=
      fun q hq => of_decide_eq_true (mem_filter.1 hq).2
    apply rel_flatMap ((List.forall₂_and_left _ _).2 ⟨hless, hfilter⟩)
    rintro q q' ⟨hlt, hq⟩
    have hlt' := (h.length_lt hq).1 hlt
    cases k with
    | zero => omega
    | succ k => exact agree_greedyRounds hf k (by omega) (by omega) (by omega) hq

theorem fence_or {a b : Re} {c : Char} (h : (!isWord c && !(a.consumes c || b.consumes c)) = true) :
    a.fence c = true ∧ b.fence c = true := by
  simp only [Re.fence, Bool.not_or, Bool.and_eq_true] at h ⊢
  exact ⟨⟨h.1, h.2.1⟩, h.1, h.2.2⟩

/-- **Matches end alike** in the two texts. -/
theorem tries_agree {t : List Char} : ∀ (r : Re), r.anchored = false → (∀ c ∈ t.head?, r.fence c = true) → ∀ (p p' : Pos),
    Agree t p p' → List.Forall₂ (Agree t) (tries r p) (tries r p')
  | .eps, _, _, p, p', h => List.Forall₂.cons h List.Forall₂.nil
  | .cls f, _, ht, ⟨b, []⟩, ⟨b', s'⟩, h => by
    obtain rfl : s' = t := h.rest
    cases s' with
    | nil => exact List.Forall₂.nil
    | cons c cs =>
      have hc := ht c rfl
      have hf : f c = false := by simpa [Re.fence, Re.consumes] using (Bool.and_eq_true_iff.1 hc).2
      simp only [tries, hf, Bool.false_eq_true, if_false]
      exact List.Forall₂.nil
  | .cls f, _, _, ⟨b, c :: cs⟩, ⟨b', s'⟩, h => by
    obtain rfl : s' = c :: (cs ++ t) := h.rest
    simp only [tries]
    split
    · exact List.Forall₂.cons ⟨rfl, rfl⟩ List.Forall₂.nil
    · exact List.Forall₂.nil
  | .seq a b, hr, ht, p, p', h => by
    rw [Re.anchored, Bool.or_eq_false_iff] at hr
    exact rel_flatMap (tries_agree a hr.1 (fun c hc => (fence_or (ht c hc)).1) p p' h)
      (fun q q' hq => tries_agree b hr.2 (fun c hc => (fence_or (ht c hc)).2) q q' hq)
  | .alt a b, hr, ht, p, p', h => by
    rw [Re.anchored, Bool.or_eq_false_iff] at hr
    exact rel_append (tries_agree a hr.1 (fun c hc => (fence_or (ht c hc)).1) p p' h)
      (tries_agree b hr.2 (fun c hc => (fence_or (ht c hc)).2) p p' h)
  | .star a, hr, ht, p, p', h =>
    agree_greedyRounds (tries_agree a hr ht) p.rest.length (Nat.le_refl _) (Nat.le_refl _) (Nat.le_refl _) h
  | .bot, hr, _, _, _, _ | .eot, hr, _, _, _, _ => nomatch hr
  | .wordBoundary, _, ht, p, p', h => by
    have hhead : p'.rest.head?.any isWord = p.rest.head?.any isWord := by
      rw [h.rest]
      cases p.rest with
      | cons c cs => rfl
      | nil =>
        cases t with
        | nil => rfl
        | cons c cs => simpa using (Bool.and_eq_true_iff.1 (ht c rfl)).1
    rw [tries, tries, hhead, h.before]
    split
    · exact List.Forall₂.cons h List.Forall₂.nil
    · exact List.Forall₂.nil

section Agreeing
variable {r : Re} {t : List Char} {p p' : Pos}

theorem matchLen_agree (hr : r.anchored = false) (ht : ∀ c ∈ t.head?, r.fence c = true) (h : Agree t p p') :
    matchLen r p' = matchLen r p := by
  have hall := tries_agree r hr ht p p' h
  rw [matchLen, matchLen]
  cases hs : tries r p with
  | nil =>
    rw [hs, List.forall₂_nil_left_iff] at hall
    rw [hall]
    rfl
  | cons q qs =>
    rw [hs] at hall
    obtain ⟨q', qs', hq, _, heq⟩ := List.forall₂_cons_left_iff.1 hall
    rw [heq, List.head?_cons, List.head?_cons, map_some, map_some, h.rest, hq.rest, List.length_append,
      List.length_append, Nat.add_sub_add_right]

theorem ends_isEmpty_agree (hr : r.anchored = false) (ht : ∀ c ∈ t.head?, r.fence c = true) (h : Agree t p p') :
    (ends r p').isEmpty = (ends r p).isEmpty := by
  have hlen := (tries_agree r hr ht p p' h).length_eq
  rw [ends_isEmpty, ends_isEmpty, Bool.eq_iff_iff, isEmpty_iff_length_eq_zero, isEmpty_iff_length_eq_zero, hlen]

end Agreeing

/-! ## Fences -/

section Fences
variable {r : Re}

variable {b b' : Option Char}

theorem agree_before (h : b.any isWord = b'.any isWord) (s : List Char) : Agree [] ⟨b', s⟩ ⟨b, s⟩ :=
  ⟨(append_nil s).symm, h⟩

theorem no_head (r : Re) : ∀ c ∈ ([] : List Char).head?, r.fence c = true := fun _ h => nomatch h

theorem matchFrom_before (hr : r.anchored = false) (h : b.any isWord = b'.any isWord) :
    ∀ s : List Char, matchFrom r b s = matchFrom r b' s
  | [] => by rw [matchFrom, matchFrom, ends_isEmpty_agree hr (no_head r) (agree_before h [])]
  | c :: cs => by rw [matchFrom, matchFrom, ends_isEmpty_agree hr (no_head r) (agree_before h (c :: cs))]

variable {c : Char}

theorem fence_head (hc : r.fence c = true) (t : List Char) : ∀ x ∈ (c :: t).head?, r.fence x = true := by
  intro x hx
  cases hx
  exact hc

theorem before_fence (hc : r.fence c = true) : (some c).any isWord = (none : Option Char).any isWord := by
  simpa using (Bool.and_eq_true_iff.1 hc).1

/-- **A match lies on one side of a fence.** -/
theorem matchFrom_fence (hr : r.anchored = false) (hc : r.fence c = true) (t : List Char) : ∀ (a : List Char) (b : Option Char),
    matchFrom r b (a ++ c :: t) = (matchFrom r b a || matchFrom r none t)
  | [], b => by
    rw [nil_append, matchFrom, matchFrom, matchFrom_before hr (before_fence hc) t,
      ends_isEmpty_agree hr (fence_head hc t) (⟨rfl, rfl⟩ : Agree (c :: t) ⟨b, []⟩ ⟨b, c :: t⟩)]
  | x :: a, b => by
    rw [cons_append, matchFrom, matchFrom, matchFrom_fence hr hc t a (some x), Bool.or_assoc,
      ends_isEmpty_agree hr (fence_head hc t) (⟨rfl, rfl⟩ : Agree (c :: t) ⟨b, x :: a⟩ ⟨b, x :: (a ++ c :: t)⟩)]

/-- What is written for a text, after the rest of a match of which `k` characters are left. -/
def replaceFrom (r : Re) (repl : List Char) : Nat → Option Char → List Char → List Char
  | _, _, [] => []
  | k + 1, _, c :: cs => replaceFrom r repl k (some c) cs
  | 0, b, c :: cs =>
    match matchLen r ⟨b, c :: cs⟩ with
    | some (n + 1) => repl ++ replaceFrom r repl n (some c) cs
    | _ => c :: replaceFrom r repl 0 (some c) cs

theorem gaps_ne_nil : ∀ (s : List Char) (k : Nat) (b : Option Char), gaps r k b s ≠ []
  | [], k, b => by cases k <;> exact cons_ne_nil _ _
  | c :: cs, k + 1, b => gaps_ne_nil cs k (some c)
  | c :: cs, 0, b => by
    rw [gaps]
    split
    · exact cons_ne_nil _ _
    · obtain ⟨g, gs, hg⟩ := exists_cons_of_ne_nil (gaps_ne_nil cs 0 (some c))
      rw [hg]
      exact cons_ne_nil _ _

theorem intercalate_gaps (repl : List Char) : ∀ (s : List Char) (k : Nat) (b : Option Char),
    repl.intercalate (gaps r k b s) = replaceFrom r repl k b s
  | [], k, b => by cases k <;> rfl
  | c :: cs, k + 1, b => intercalate_gaps repl cs k (some c)
  | c :: cs, 0, b => by
    rw [gaps, replaceFrom]
    split
    · rename_i n _
      rw [← intercalate_gaps repl cs n (some c)]
      obtain ⟨g, gs, hg⟩ := exists_cons_of_ne_nil (gaps_ne_nil (r := r) cs n (some c))
      rw [hg, List.intercalate_cons_cons, nil_append]
    · rw [← intercalate_gaps repl cs 0 (some c)]
      obtain ⟨g, gs, hg⟩ := exists_cons_of_ne_nil (gaps_ne_nil (r := r) cs 0 (some c))
      rw [hg, modifyHead_cons]
      cases gs with
      | nil => simp
      | cons g' gs => simp

theorem replaceAll_eq (repl s : List Char) : replaceAll r repl s = replaceFrom r repl 0 none s := intercalate_gaps repl s 0 none

theorem replaceFrom_before (hr : r.anchored = false) (repl : List Char) (h : b.any isWord = b'.any isWord) :
    ∀ (s : List Char) (k : Nat), replaceFrom r repl k b s = replaceFrom r repl k b' s
  | [], k => by cases k <;> rfl
  | c :: cs, k + 1 => rfl
  | c :: cs, 0 => by rw [replaceFrom, replaceFrom, matchLen_agree hr (no_head r) (agree_before h (c :: cs))]

theorem replaceFrom_fence (hr : r.anchored = false) (hc : r.fence c = true) (repl t : List Char) :
    ∀ (a : List Char) (k : Nat) (b : Option Char), k ≤ a.length →
      replaceFrom r repl k b (a ++ c :: t) = replaceFrom r repl k b a ++ c :: replaceFrom r repl 0 none t
  | [], k + 1, b, h => nomatch h
  | [], 0, b, _ => by
    have hsame : matchLen r ⟨b, c :: t⟩ = matchLen r ⟨b, []⟩ := matchLen_agree hr (fence_head hc t) ⟨rfl, rfl⟩
    have hnil : replaceFrom r repl 0 b [] = [] := rfl
    rw [hnil, nil_append, nil_append, replaceFrom, hsame, replaceFrom_before hr repl (before_fence hc) t 0]
    split
    · rename_i n hn
      exact absurd (matchLen_eq_some hn).1 (by simp)
    · rfl
  | x :: a, k + 1, b, h => replaceFrom_fence hr hc repl t a k (some x) (Nat.le_of_succ_le_succ h)
  | x :: a, 0, b, _ => by
    have hsame : matchLen r ⟨b, x :: (a ++ c :: t)⟩ = matchLen r ⟨b, x :: a⟩ := matchLen_agree hr (fence_head hc t) ⟨rfl, rfl⟩
    rw [cons_append, replaceFrom, replaceFrom, hsame]
    split
    · rename_i n hn
      have hle := (matchLen_eq_some hn).1
      rw [List.append_assoc, replaceFrom_fence hr hc repl t a n (some x) (Nat.le_of_succ_le_succ hle)]
    · rw [cons_append, replaceFrom_fence hr hc repl t a 0 (some x) (Nat.zero_le _)]

/-- **A replacement works on the two sides of a fence by themselves.** -/
theorem replaceAll_fence (hr : r.anchored = false) (hc : r.fence c = true) (repl a t : List Char) :
    replaceAll r repl (a ++ c :: t) = replaceAll r repl a ++ c :: replaceAll r repl t := by
  rw [replaceAll_eq, replaceAll_eq, replaceAll_eq, replaceFrom_fence hr hc repl t a 0 none (Nat.zero_le _)]

end Fences

/-! ## A text inside another

The text of `p` is a part of that of `p'`, at whose edges a word of the part may not be cut: where the part by itself has the
edge of a word, so has the whole. -/

structure Inside (w : Bool) (t : List Char) (p p' : Pos) : Prop where
  rest : p'.rest = p.rest ++ t
  boundary : w = true → atBoundary p = true → atBoundary p' = true
  stop : w = true → ∀ c ∈ p.rest.getLast?, isWord c = true → t.head?.any isWord = false

section Insides
variable {w : Bool} {t : List Char}

theorem Inside.step {b : Option Char} {c : Char} {cs : List Char} {p' : Pos} (h : Inside w t ⟨b, c :: cs⟩ p') :
    p'.rest = c :: (cs ++ t) ∧ Inside w t ⟨some c, cs⟩ ⟨some c, cs ++ t⟩ := by
  refine ⟨h.rest, rfl, ?_, ?_⟩
  · intro hw hb
    cases cs with
    | cons d ds => exact hb
    | nil =>
      have hword : isWord c = true := by simpa [atBoundary] using hb
      have ht := h.stop hw c rfl hword
      simp [atBoundary, hword, ht]
  · intro hw d hd hword
    refine h.stop hw d ?_ hword
    rw [mem_def, List.getLast?_cons, hd]
    rfl

theorem Inside.length_lt {p p' q q' : Pos} (hp : Inside w t p p') (hq : Inside w t q q') :
    q.rest.length < p.rest.length ↔ q'.rest.length < p'.rest.length := by
  rw [hp.rest, hq.rest, List.length_append, List.length_append]
  omega

theorem Inside.skip : ∀ {n : Nat} {p p' : Pos}, n ≤ p.rest.length → Inside w t p p' → Inside w t (p.skip n) (p'.skip n)
  | 0, _, _, _, h => by simpa using h
  | n + 1, ⟨_, []⟩, _, hn, _ => nomatch hn
  | n + 1, ⟨_, c :: cs⟩, ⟨b', s'⟩, hn, h => by
    obtain ⟨hrest, hstep⟩ := h.step
    obtain rfl : s' = c :: (cs ++ t) := hrest
    rw [Pos.skip_cons, Pos.skip_cons]
    exact hstep.skip (Nat.le_of_succ_le_succ hn)

theorem inside_greedyRounds {f : Pos → List Pos}
    (hf : ∀ p p' q, Inside w t p p' → q ∈ f p → ∃ q' ∈ f p', Inside w t q q') :
    ∀ (k : Nat) {n n' : Nat} {p p' q : Pos}, p.rest.length ≤ k → p.rest.length ≤ n → p'.rest.length ≤ n' → Inside w t p p' →
      q ∈ greedyRounds f n p → ∃ q' ∈ greedyRounds f n' p', Inside w t q q'
  | k, n, n', p, p', q, hk, hn, hn', h, hq => by
    rw [greedyRounds_of_le hn, mem_append, mem_flatMap, mem_singleton] at hq
    rw [greedyRounds_of_le hn']
    rcases hq with ⟨m, hm, hq⟩ | rfl
    · obtain ⟨hm, hlt⟩ := mem_filter.1 hm
      have hlt : m.rest.length < p.rest.length := of_decide_eq_true hlt
      obtain ⟨m', hm', hin⟩ := hf p p' m h hm
      have hlt' := (h.length_lt hin).1 hlt
      cases k with
      | zero => omega
      | succ k =>
        have hround : ∃ q' ∈ greedyRounds f (n' - 1) m', Inside w t q q' :=
          inside_greedyRounds hf k (by omega) (by omega) (by omega) hin hq
        obtain ⟨q', hq', hin'⟩ := hround
        exact ⟨q', mem_append_left _ (mem_flatMap.2 ⟨m', mem_filter.2 ⟨hm', decide_eq_true hlt'⟩, hq'⟩), hin'⟩
    · exact ⟨p', mem_append_right _ (mem_singleton_self p'), h⟩

/-- **A match in the part** is one in the whole. -/
theorem tries_inside : ∀ (r : Re), r.anchored = false → (r.looks = true → w = true) → ∀ (p p' q : Pos), Inside w t p p' →
    q ∈ tries r p → ∃ q' ∈ tries r p', Inside w t q q'
  | .eps, _, _, p, p', q, h, hq => ⟨p', mem_singleton_self p', by rwa [mem_singleton.1 hq]⟩
  | .cls f, _, _, ⟨b, []⟩, p', q, h, hq => nomatch hq
  | .cls f, _, _, ⟨b, c :: cs⟩, ⟨b', s'⟩, q, h, hq => by
    obtain ⟨hrest, hstep⟩ := h.step
    obtain rfl : s' = c :: (cs ++ t) := hrest
    simp only [tries] at hq ⊢
    split at hq
    · rename_i hc
      rw [if_pos hc]
      exact ⟨_, mem_singleton_self _, by rwa [mem_singleton.1 hq]⟩
    · cases hq
  | .seq a b, hr, hw, p, p', q, h, hq => by
    rw [Re.anchored, Bool.or_eq_false_iff] at hr
    obtain ⟨m, hm, hq⟩ := mem_flatMap.1 hq
    obtain ⟨m', hm', hin⟩ := tries_inside a hr.1 (fun ha => hw (by rw [Re.looks, ha, Bool.true_or])) p p' m h hm
    obtain ⟨q', hq', hin'⟩ := tries_inside b hr.2 (fun hb => hw (by rw [Re.looks, hb, Bool.or_true])) m m' q hin hq
    exact ⟨q', mem_flatMap.2 ⟨m', hm', hq'⟩, hin'⟩
  | .alt a b, hr, hw, p, p', q, h, hq => by
    rw [Re.anchored, Bool.or_eq_false_iff] at hr
    rcases mem_append.1 hq with hq | hq
    · obtain ⟨q', hq', hin⟩ := tries_inside a hr.1 (fun ha => hw (by rw [Re.looks, ha, Bool.true_or])) p p' q h hq
      exact ⟨q', mem_append_left _ hq', hin⟩
    · obtain ⟨q', hq', hin⟩ := tries_inside b hr.2 (fun hb => hw (by rw [Re.looks, hb, Bool.or_true])) p p' q h hq
      exact ⟨q', mem_append_right _ hq', hin⟩
  | .star a, hr, hw, p, p', q, h, hq =>
    inside_greedyRounds (tries_inside a hr hw) p.rest.length (Nat.le_refl _) (Nat.le_refl _) (Nat.le_refl _) h hq
  | .bot, hr, _, _, _, _, _, _ | .eot, hr, _, _, _, _, _, _ => nomatch hr
  | .wordBoundary, _, hw, p, p', q, h, hq => by
    rw [tries] at hq ⊢
    split at hq
    · rename_i hb
      have hb' : (p'.before.any isWord != p'.rest.head?.any isWord) = true := h.boundary (hw rfl) hb
      rw [if_pos hb']
      exact ⟨p', mem_singleton_self p', by rwa [mem_singleton.1 hq]⟩
    · cases hq

end Insides

/-! ## The gaps of a text -/

theorem exists_tries {r : Re} : ∀ {s : List Char} {b : Option Char}, matchFrom r b s = true →
    ∃ j ≤ s.length, ∃ q, q ∈ tries r (Pos.skip j ⟨b, s⟩)
  | [], b, h => by
    rw [matchFrom, ends_isEmpty, Bool.not_eq_true', isEmpty_eq_false_iff_exists_mem] at h
    obtain ⟨q, hq⟩ := h
    exact ⟨0, Nat.le_refl _, q, by rwa [Pos.skip_zero]⟩
  | c :: cs, b, h => by
    rw [matchFrom, Bool.or_eq_true, ends_isEmpty, Bool.not_eq_true', isEmpty_eq_false_iff_exists_mem] at h
    rcases h with ⟨q, hq⟩ | h
    · exact ⟨0, Nat.zero_le _, q, by rwa [Pos.skip_zero]⟩
    · obtain ⟨j, hj, q, hq⟩ := exists_tries h
      exact ⟨j + 1, Nat.succ_le_succ hj, q, hq⟩

theorem matchFrom_of_tries {r : Re} {q : Pos} : ∀ {j : Nat} {s : List Char} {b : Option Char}, q ∈ tries r (Pos.skip j ⟨b, s⟩) →
    matchFrom r b s = true
  | j, [], b, h => by
    rw [Pos.skip_nil] at h
    rw [matchFrom, ends_isEmpty, Bool.not_eq_true', isEmpty_eq_false_iff_exists_mem]
    exact ⟨q, h⟩
  | 0, c :: cs, b, h => by
    rw [Pos.skip_zero] at h
    rw [matchFrom, Bool.or_eq_true, ends_isEmpty, Bool.not_eq_true', isEmpty_eq_false_iff_exists_mem]
    exact Or.inl ⟨q, h⟩
  | j + 1, c :: cs, b, h => by
    rw [matchFrom, matchFrom_of_tries (s := cs) h, Bool.or_true]

/-- At `p` stands `g`, in which no match is taken; after it the text ends or one is. -/
structure GapAt (r : Re) (p : Pos) (g t : List Char) : Prop where
  rest : p.rest = g ++ t
  quiet : ∀ j < g.length, ∀ n, matchLen r (p.skip j) ≠ some (n + 1)
  stop : t = [] ∨ ∃ n, matchLen r (p.skip g.length) = some (n + 1)

def EndsAt (r : Re) (p : Pos) (m : Nat) : Prop := ∃ j n, j + (n + 1) = m ∧ matchLen r (p.skip j) = some (n + 1)

theorem EndsAt.cons {r : Re} {b : Option Char} {c : Char} {cs : List Char} {m : Nat} (h : EndsAt r ⟨some c, cs⟩ m) :
    EndsAt r ⟨b, c :: cs⟩ (m + 1) := by
  obtain ⟨j, n, rfl, hlen⟩ := h
  exact ⟨j + 1, n, Nat.add_right_comm j 1 (n + 1), hlen⟩

theorem gaps_spec {r : Re} : ∀ (s : List Char) (k : Nat) (b : Option Char), ∃ g gs, gaps r k b s = g :: gs ∧
    (∃ t, GapAt r (Pos.skip k ⟨b, s⟩) g t) ∧ ∀ g' ∈ gs, ∃ m t, GapAt r (Pos.skip m ⟨b, s⟩) g' t ∧ EndsAt r ⟨b, s⟩ m
  | [], k, b => by
    refine ⟨[], [], by cases k <;> rfl, ⟨[], ?_, ?_, Or.inl rfl⟩, fun g' hg => nomatch hg⟩
    · rw [Pos.skip_nil]
      rfl
    · intro j hj
      cases hj
  | c :: cs, k + 1, b => by
    obtain ⟨g, gs, hg, hfirst, hothers⟩ := gaps_spec (r := r) cs k (some c)
    refine ⟨g, gs, hg, hfirst, fun g' hg' => ?_⟩
    obtain ⟨m, t, hgap, hends⟩ := hothers g' hg'
    exact ⟨m + 1, t, hgap, hends.cons⟩
  | c :: cs, 0, b => by
    rw [gaps]
    split
    · rename_i n hn
      obtain ⟨g, gs, hg, ⟨t, hfirst⟩, hothers⟩ := gaps_spec (r := r) cs n (some c)
      refine ⟨[], g :: gs, by rw [hg], ⟨c :: cs, rfl, (fun j hj => nomatch hj), Or.inr ⟨n, hn⟩⟩, fun g' hg' => ?_⟩
      rcases mem_cons.1 hg' with rfl | hg'
      · exact ⟨n + 1, t, hfirst, ⟨0, n, Nat.zero_add _, hn⟩⟩
      · obtain ⟨m, t, hgap, hends⟩ := hothers g' hg'
        exact ⟨m + 1, t, hgap, hends.cons⟩
    · rename_i hnone
      obtain ⟨g, gs, hg, ⟨t, hfirst⟩, hothers⟩ := gaps_spec (r := r) cs 0 (some c)
      refine ⟨c :: g, gs, by rw [hg, modifyHead_cons], ⟨t, ?_, ?_, ?_⟩, fun g' hg' => ?_⟩
      · exact congrArg (c :: ·) hfirst.rest
      · intro j hj n
        cases j with
        | zero => exact hnone n
        | succ j => simpa using hfirst.quiet j (Nat.lt_of_succ_lt_succ hj) n
      · simpa using hfirst.stop
      · obtain ⟨m, t, hgap, hends⟩ := hothers g' hg'
        exact ⟨m + 1, t, hgap, hends.cons⟩

/-- Where a gap starts, what edges of words it has by itself it has in the text. -/
theorem GapAt.inside {r : Re} {w : Bool} {s : List Char} {b : Option Char} {m : Nat} {g t : List Char} (hb : r.bounded = true ∨ w = false)
    (hgap : GapAt r (Pos.skip m ⟨b, s⟩) g t) (hstart : (m = 0 ∧ b = none) ∨ EndsAt r ⟨b, s⟩ m) :
    Inside w t ⟨none, g⟩ (Pos.skip m ⟨b, s⟩) := by
  refine ⟨hgap.rest, fun hw hedge => ?_, fun hw c hc hword => ?_⟩
  · have hbounded : r.bounded = true := hb.resolve_right (by rw [hw]; decide)
    rcases hstart with ⟨rfl, rfl⟩ | ⟨j, n, rfl, hlen⟩
    · cases g with
      | nil => cases hedge
      | cons c g =>
        rw [Pos.skip_zero, show s = c :: (g ++ t) by simpa using hgap.rest]
        exact hedge
    · rw [← Pos.skip_skip]
      exact atBoundary_of_closes (Bool.and_eq_true_iff.1 hbounded).2 (matchLen_eq_some hlen).2
  · have hbounded : r.bounded = true := hb.resolve_right (by rw [hw]; decide)
    rcases hgap.stop with rfl | ⟨n, hlen⟩
    · rfl
    · have hopen := atBoundary_of_opens (Bool.and_eq_true_iff.1 hbounded).1 (matchLen_eq_some hlen).2
      obtain ⟨b', hpos⟩ : ∃ b', Pos.skip m ⟨b, s⟩ = ⟨b', g ++ t⟩ := ⟨_, by rw [← hgap.rest]⟩
      rw [hpos, Pos.skip_append, mem_def.1 hc] at hopen
      simpa [atBoundary, hword] using hopen

section Gaps
variable {r r' : Re} {s g : List Char}

theorem mem_gaps (hg : g ∈ gaps r 0 none s) : ∃ m t, GapAt r (Pos.skip m ⟨none, s⟩) g t ∧
    ((m = 0 ∧ (none : Option Char) = none) ∨ EndsAt r ⟨none, s⟩ m) := by
  obtain ⟨g₀, gs, heq, ⟨t, hfirst⟩, hothers⟩ := gaps_spec (r := r) s 0 none
  rw [heq] at hg
  rcases mem_cons.1 hg with rfl | hg
  · exact ⟨0, t, hfirst, Or.inl ⟨rfl, rfl⟩⟩
  · obtain ⟨m, t, hgap, hends⟩ := hothers g hg
    exact ⟨m, t, hgap, Or.inr hends⟩

theorem match_of_gap (hr : r'.anchored = false) (hb : r.bounded = true ∨ r'.looks = false) (hg : g ∈ gaps r 0 none s)
    (hm : matchFrom r' none g = true) : ∃ m t, GapAt r (Pos.skip m ⟨none, s⟩) g t ∧
      ∃ j q, j + r'.minLen ≤ g.length ∧ q ∈ tries r' ((Pos.skip m ⟨none, s⟩).skip j) := by
  obtain ⟨m, t, hgap, hstart⟩ := mem_gaps hg
  obtain ⟨j, hj, q, hq⟩ := exists_tries hm
  have hin : Inside r'.looks t ⟨none, g⟩ (Pos.skip m ⟨none, s⟩) := hgap.inside hb hstart
  obtain ⟨q', hq', _⟩ := tries_inside r' hr id _ _ q (hin.skip hj) hq
  obtain ⟨n, hn, hmin, _⟩ := tries_skip r' _ q hq
  have hlen : (Pos.skip j ⟨none, g⟩).rest.length + j = g.length := length_skip hj
  exact ⟨m, t, hgap, j, q', by omega, hq'⟩

theorem matchFrom_gap (hr : r'.anchored = false) (hb : r.bounded = true ∨ r'.looks = false) (hg : g ∈ gaps r 0 none s)
    (hm : matchFrom r' none g = true) : matchFrom r' none s = true := by
  obtain ⟨m, t, _, j, q, _, hq⟩ := match_of_gap hr hb hg hm
  rw [Pos.skip_skip] at hq
  exact matchFrom_of_tries hq

/-- **A gap by itself has no match** of an expression that is bounded by edges of words, or looks at none. -/
theorem matchFrom_own_gap (hr : r.anchored = false) (hb : r.bounded = true ∨ r.looks = false) (hmin : 0 < r.minLen)
    (hg : g ∈ gaps r 0 none s) : matchFrom r none g = false := by
  by_contra hm
  obtain ⟨m, t, hgap, j, q, hj, hq⟩ := match_of_gap hr hb hg (Bool.not_eq_false _ ▸ hm)
  obtain ⟨n, hn, hle⟩ := exists_matchLen hq
  obtain ⟨n, rfl⟩ : ∃ k, n = k + 1 := ⟨n - 1, by omega⟩
  exact hgap.quiet j (by omega) n hn

end Gaps

/-! ## Replacing by a text between two fences -/

section Markers
variable {r r' : Re} {o e : Char} {w : List Char}

/-- The text `w` between the characters `o` and `e`, which the matches of `r` stop at. -/
structure Marker (r : Re) (o e : Char) (w : List Char) : Prop where
  anchored : r.anchored = false
  fore : r.fence o = true
  back : r.fence e = true
  word : matchFrom r none w = false

def marked (o e : Char) (w : List Char) : List Char := o :: (w ++ [e])

theorem marked_append (a t : List Char) : a ++ marked o e w ++ t = a ++ o :: (w ++ e :: t) := by
  simp [marked]

theorem matchFrom_intercalate (h : Marker r o e w) : ∀ {gs : List (List Char)}, gs ≠ [] →
    matchFrom r none ((marked o e w).intercalate gs) = gs.any (matchFrom r none)
  | [g], _ => by simp
  | g :: g' :: gs, _ => by
    rw [List.intercalate_cons_cons, marked_append, matchFrom_fence h.anchored h.fore, matchFrom_fence h.anchored h.back, h.word,
      Bool.false_or, matchFrom_intercalate h (cons_ne_nil g' gs)]
    rfl

/-- **After a replacement there is no match.** -/
theorem matchFrom_replaceAll (h : Marker r o e w) (hb : r.bounded = true ∨ r.looks = false) (hmin : 0 < r.minLen) (s : List Char) :
    matchFrom r none (replaceAll r (marked o e w) s) = false := by
  rw [replaceAll, matchFrom_intercalate h (gaps_ne_nil s 0 none), List.any_eq_false]
  intro g hg
  rw [matchFrom_own_gap h.anchored hb hmin hg]
  exact Bool.false_ne_true

/-- A replacement brings in no match of an expression, unless it takes away what is next to a word. -/
theorem not_matchFrom_replaceAll (h : Marker r' o e w) (hb : r.bounded = true ∨ r'.looks = false) {s : List Char}
    (hs : matchFrom r' none s = false) : matchFrom r' none (replaceAll r (marked o e w) s) = false := by
  rw [replaceAll, matchFrom_intercalate h (gaps_ne_nil s 0 none), List.any_eq_false]
  intro g hg hm
  rw [matchFrom_gap h.anchored hb hg hm] at hs
  cases hs

theorem replaceAll_intercalate (h : Marker r o e w) {repl : List Char} (hw : replaceAll r repl w = w) :
    ∀ {gs : List (List Char)}, gs ≠ [] →
      replaceAll r repl ((marked o e w).intercalate gs) = (marked o e w).intercalate (gs.map (replaceAll r repl))
  | [g], _ => by simp
  | g :: g' :: gs, _ => by
    rw [List.intercalate_cons_cons, marked_append, replaceAll_fence h.anchored h.fore, replaceAll_fence h.anchored h.back, hw,
      replaceAll_intercalate h hw (cons_ne_nil g' gs), map_cons, map_cons, map_cons, List.intercalate_cons_cons,
      marked_append]

end Markers

/-- **A match in a list of parts** is one in a part. -/
theorem matchFrom_separated {r : Re} (hr : r.anchored = false) {c : Char} (hc : r.fence c = true) : ∀ {parts : List (List Char)},
    parts ≠ [] → matchFrom r none ([c].intercalate parts) = parts.any (matchFrom r none)
  | [x], _ => by simp
  | x :: y :: parts, _ => by
    rw [List.intercalate_cons_cons, List.append_assoc, singleton_append, matchFrom_fence hr hc,
      matchFrom_separated hr hc (cons_ne_nil y parts)]
    rfl

theorem matchFrom_nil {r : Re} (hmin : 0 < r.minLen) (b : Option Char) : matchFrom r b [] = false := by
  by_contra h
  rw [Bool.not_eq_false] at h
  obtain ⟨j, _, q, hq⟩ := exists_tries h
  rw [Pos.skip_nil] at hq
  obtain ⟨n, hn, hle, _⟩ := tries_skip r _ q hq
  exact absurd (Nat.lt_of_lt_of_le hmin (Nat.le_trans hle hn)) (Nat.lt_irrefl 0)

theorem replaceFrom_of_not_match {r : Re} (repl : List Char) : ∀ {s : List Char} {b : Option Char}, matchFrom r b s = false →
    replaceFrom r repl 0 b s = s
  | [], _, _ => rfl
  | c :: cs, b, h => by
    rw [matchFrom, Bool.or_eq_false_iff, ends_isEmpty, Bool.not_eq_false', List.isEmpty_iff] at h
    rw [replaceFrom, matchLen, h.1]
    exact congrArg (c :: ·) (replaceFrom_of_not_match repl h.2)

theorem replaceAll_of_not_match {r : Re} (repl : List Char) {s : List Char} (h : matchFrom r none s = false) :
    replaceAll r repl s = s := by
  rw [replaceAll_eq, replaceFrom_of_not_match repl h]

/-! ## What is written -/

variable {repl : List Char} {x : Char}

theorem mem_replaceFrom {r : Re} : ∀ {s : List Char} {k : Nat} {b : Option Char},
    x ∈ replaceFrom r repl k b s → x ∈ s ∨ x ∈ repl
  | [], k, b, h => by cases k <;> cases h
  | c :: cs, k + 1, b, h => (mem_replaceFrom (s := cs) (k := k) h).imp_left (mem_cons_of_mem c)
  | c :: cs, 0, b, h => by
    rw [replaceFrom] at h
    split at h
    · rcases mem_append.1 h with h | h
      · exact Or.inr h
      · exact (mem_replaceFrom h).imp_left (mem_cons_of_mem c)
    · rcases mem_cons.1 h with rfl | h
      · exact Or.inl mem_cons_self
      · exact (mem_replaceFrom h).imp_left (mem_cons_of_mem c)

theorem mem_replaceAll {r : Re} {s : List Char} (h : x ∈ replaceAll r repl s) : x ∈ s ∨ x ∈ repl :=
  mem_replaceFrom (replaceAll_eq repl s ▸ h)

theorem replaceAll_eq_nil_iff {r : Re} {s : List Char} (hrepl : repl ≠ []) : replaceAll r repl s = [] ↔ s = [] := by
  rw [replaceAll_eq]
  cases s with
  | nil => exact Iff.intro (fun _ => rfl) (fun _ => rfl)
  | cons c cs =>
    refine iff_of_false ?_ (cons_ne_nil c cs)
    rw [replaceFrom]
    split
    · exact fun h => hrepl (append_eq_nil_iff.1 h).1
    · exact cons_ne_nil _ _

theorem mem_replaceFrom_of_match {r : Re} (hx : x ∈ repl) : ∀ {s : List Char} {b : Option Char},
    0 < r.minLen → matchFrom r b s = true → x ∈ replaceFrom r repl 0 b s
  | [], b, hmin, h => by
    rw [matchFrom_nil hmin] at h
    cases h
  | c :: cs, b, hmin, h => by
    rw [replaceFrom]
    split
    · exact mem_append_left _ hx
    · rename_i hnone
      rw [matchFrom, Bool.or_eq_true, ends_isEmpty, Bool.not_eq_true', isEmpty_eq_false_iff_exists_mem] at h
      rcases h with ⟨q, hq⟩ | h
      · obtain ⟨n, hn, hle⟩ := exists_matchLen hq
        obtain ⟨n, rfl⟩ : ∃ k, n = k + 1 := ⟨n - 1, by omega⟩
        exact absurd hn (hnone n)
      · exact mem_cons_of_mem c (mem_replaceFrom_of_match hx hmin h)

/-- A text without the characters of the placeholder is one in which nothing was replaced. -/
theorem replaceAll_eq_of_not_mem {r : Re} {s : List Char} (hmin : 0 < r.minLen) (hx : x ∈ repl)
    (h : x ∉ replaceAll r repl s) : replaceAll r repl s = s := by
  apply replaceAll_of_not_match
  by_contra hm
  rw [Bool.not_eq_false] at hm
  exact h (replaceAll_eq repl s ▸ mem_replaceFrom_of_match hx hmin hm)

/-! ## Gaps and matches put together -/

def interleave : List (List Char) → List (List Char) → List Char
  | [], _ => []
  | g :: _, [] => g
  | g :: gs, m :: ms => g ++ (m ++ interleave gs ms)

def Matched (r : Re) (m : List Char) : Prop := ∃ p n, n ≤ p.rest.length ∧ p.skip n ∈ tries r p ∧ m = p.rest.take n

/-- **A text is its gaps with the matches between them.** -/
theorem gaps_interleave {r : Re} : ∀ (s : List Char) (k : Nat) (b : Option Char), k ≤ s.length →
    ∃ ms, ms.length + 1 = (gaps r k b s).length ∧ s = s.take k ++ interleave (gaps r k b s) ms ∧ ∀ m ∈ ms, Matched r m
  | [], k + 1, b, h => nomatch h
  | [], 0, b, _ => ⟨[], rfl, rfl, fun m hm => nomatch hm⟩
  | c :: cs, k + 1, b, h => by
    obtain ⟨ms, hlen, htext, hms⟩ := gaps_interleave (r := r) cs k (some c) (Nat.le_of_succ_le_succ h)
    exact ⟨ms, hlen, congrArg (c :: ·) htext, hms⟩
  | c :: cs, 0, b, _ => by
    rw [gaps]
    split
    · rename_i n hn
      obtain ⟨hle, hmatch⟩ := matchLen_eq_some hn
      obtain ⟨ms, hlen, htext, hms⟩ := gaps_interleave (r := r) cs n (some c) (Nat.le_of_succ_le_succ hle)
      refine ⟨(c :: cs.take n) :: ms, by rw [length_cons, hlen, length_cons], congrArg (c :: ·) htext, fun m hm => ?_⟩
      rcases mem_cons.1 hm with rfl | hm
      · exact ⟨⟨b, c :: cs⟩, n + 1, hle, hmatch, rfl⟩
      · exact hms m hm
    · obtain ⟨ms, hlen, htext, hms⟩ := gaps_interleave (r := r) cs 0 (some c) (Nat.zero_le _)
      obtain ⟨g, gs, hg⟩ := exists_cons_of_ne_nil (gaps_ne_nil (r := r) cs 0 (some c))
      rw [hg] at hlen htext ⊢
      refine ⟨ms, hlen, ?_, hms⟩
      rw [take_zero, nil_append] at htext ⊢
      rw [modifyHead_cons]
      cases ms with
      | nil => exact congrArg (c :: ·) htext
      | cons m ms => exact congrArg (c :: ·) htext

def Re.Requires (S : Char → Prop) : Re → Prop
  | .cls f => ∀ c, f c = true → S c
  | .seq a b => a.Requires S ∨ b.Requires S
  | .alt a b => a.Requires S ∧ b.Requires S
  | _ => False

theorem mem_take_of_requires {S : Char → Prop} : ∀ {r : Re} {p : Pos} {n : Nat}, r.Requires S → n ≤ p.rest.length → p.skip n ∈ tries r p →
    ∃ d ∈ p.rest.take n, S d
  | .cls f, ⟨b, []⟩, n, _, _, h => by cases h
  | .cls f, ⟨b, c :: cs⟩, n, hr, hn, h => by
    simp only [tries] at h
    split at h
    · rename_i hc
      have hrest := congrArg (fun q : Pos => q.rest.length) (mem_singleton.1 h)
      have hlen := length_skip hn
      simp only [length_cons] at hrest hlen
      obtain rfl : n = 1 := by omega
      exact ⟨c, mem_singleton_self c, hr c hc⟩
    · cases h
  | .seq a b, p, n, hr, hn, h => by
    obtain ⟨m, hm, hq⟩ := mem_flatMap.1 h
    obtain ⟨i, hi, _, rfl⟩ := tries_skip a p m hm
    obtain ⟨j, hj, _, heq⟩ := tries_skip b _ _ hq
    have hlen := length_skip hi
    have hlen' := length_skip hj
    have hlenn := length_skip hn
    rw [← heq] at hlen'
    obtain rfl : n = i + j := by omega
    rw [heq] at hq
    rcases hr with hr | hr
    · obtain ⟨d, hd, hS⟩ := mem_take_of_requires hr hi hm
      exact ⟨d, (take_subset_take_left _ (Nat.le_add_right i j)) hd, hS⟩
    · obtain ⟨d, hd, hS⟩ := mem_take_of_requires hr hj hq
      rw [Pos.rest_skip] at hd
      rw [take_add]
      exact ⟨d, mem_append_right _ hd, hS⟩
  | .alt a b, p, n, hr, hn, h => by
    rcases mem_append.1 h with h | h
    · exact mem_take_of_requires hr.1 hn h
    · exact mem_take_of_requires hr.2 hn h

theorem Matched.exists_required {r : Re} {S : Char → Prop} (hr : r.Requires S) {m : List Char} (h : Matched r m) : ∃ d ∈ m, S d := by
  obtain ⟨p, n, hn, hq, rfl⟩ := h
  exact mem_take_of_requires hr hn hq

end Regex
