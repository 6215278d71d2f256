import Mathlib.Data.List.Chain
/-!
# Quoted — double-quoted literals with backslash escapes

What the characters after an opening double quote stand for, up to the closing one, and where that is (`literal_body`).  A
text may be put between double quotes as it is when it has no double quote, no backslash and no line break
(`literal_plain`).
-/
namespace Quoted

open List

def digit (c : Char) : Option Nat :=
  if '0' ≤ c ∧ c ≤ '9' then some (c.toNat - '0'.toNat)
  else if 'a' ≤ c ∧ c ≤ 'f' then some (c.toNat - 'a'.toNat + 10)
  else if 'A' ≤ c ∧ c ≤ 'F' then some (c.toNat - 'A'.toNat + 10)
  else none

def codePoint (digits : List Char) : Option Char :=
  match digits.mapM digit with
  | none => none
  | some ds =>
    let n := ds.foldl (fun n d => 16 * n + d) 0
    if n.isValidChar then some (Char.ofNat n) else none

def escape : Char → Option Char
  | 'a' => some '\x07'
  | 'b' => some '\x08'
  | 'f' => some '\x0c'
  | 'n' => some '\n'
  | 'r' => some '\r'
  | 't' => some '\t'
  | 'v' => some '\x0b'
  | '\\' => some '\\'
  | '\'' => some '\''
  | '"' => some '"'
  | _ => none

def push (c : Option Char) (r : Option (List Char × List Char)) : Option (List Char × List Char) :=
  match c, r with
  | some c, some (cs, rest) => some (c :: cs, rest)
  | _, _ => none

def literal : List Char → Option (List Char × List Char)
  | [] => none
  | '"' :: rest => some ([], rest)
  | '\\' :: 'x' :: a :: b :: rest => push (codePoint [a, b]) (literal rest)
  | '\\' :: 'u' :: a :: b :: c :: d :: rest => push (codePoint [a, b, c, d]) (literal rest)
  | '\\' :: 'U' :: a :: b :: c :: d :: e :: f :: g :: h :: rest => push (codePoint [a, b, c, d, e, f, g, h]) (literal rest)
  | '\\' :: c :: rest => push (escape c) (literal rest)
  | c :: rest => if c = '\\' ∨ c = '\n' then none else push (some c) (literal rest)

theorem push_eq_some {c : Option Char} {r : Option (List Char × List Char)} {cs rest : List Char}
    (h : push c r = some (cs, rest)) : ∃ c' ds, c = some c' ∧ r = some (ds, rest) ∧ cs = c' :: ds := by
  unfold push at h
  split at h
  · rename_i c' ds rest'
    obtain ⟨rfl, rfl⟩ := Prod.mk.inj (Option.some.inj h)
    exact ⟨c', ds, rfl, rfl, rfl⟩
  · cases h

theorem literal_escape {c : Char} {d : Char} (h : escape c = some d) (rest : List Char) :
    literal ('\\' :: c :: rest) = push (some d) (literal rest) := by
  have hx : c ≠ 'x' := fun hc => by rw [hc] at h; cases h
  have hu : c ≠ 'u' := fun hc => by rw [hc] at h; cases h
  have hU : c ≠ 'U' := fun hc => by rw [hc] at h; cases h
  rw [literal, h]
  · intro a b rest' hc; simp_all
  · intro a b c' d' rest' hc; simp_all
  · intro a b c' d' e f g i rest' hc; simp_all

theorem literal_char {c : Char} (hq : c ≠ '"') (hb : c ≠ '\\') (hn : c ≠ '\n') (rest : List Char) :
    literal (c :: rest) = push (some c) (literal rest) := by
  rw [literal, if_neg (fun h => h.elim hb hn)]
  all_goals simp_all

def Shut (body : List Char) : Prop := List.IsChain (fun c d => d = '"' → c = '\\') (' ' :: body)

theorem Shut.cons {c : Char} {body : List Char} (h : Shut body) (hc : c ≠ '"') : Shut (c :: body) := by
  unfold Shut at h ⊢
  rw [isChain_cons] at h
  refine List.IsChain.cons_cons (fun hq => absurd hq hc) (isChain_cons.2 ⟨fun d hd hq => ?_, h.2⟩)
  exact absurd (h.1 d hd hq) (by decide)

theorem Shut.escape {c : Char} {body : List Char} (h : Shut body) : Shut ('\\' :: c :: body) := by
  unfold Shut at h ⊢
  rw [isChain_cons] at h
  refine List.IsChain.cons_cons (fun hq => absurd hq (by decide)) (List.IsChain.cons_cons (fun _ => rfl)
    (isChain_cons.2 ⟨fun d hd hq => ?_, h.2⟩))
  exact absurd (h.1 d hd hq) (by decide)

theorem Shut.ne_append {body : List Char} (h : Shut body) (before after : List Char) :
    body ≠ before ++ ' ' :: '"' :: after := by
  rintro rfl
  unfold Shut at h
  rw [isChain_cons_append_cons_cons] at h
  exact absurd (h.2.1 rfl) (by decide)

theorem ne_quote_of_codePoint {digits : List Char} {c : Char} (h : codePoint digits = some c) : ∀ d ∈ digits, d ≠ '"' := by
  have hall : ∀ (l : List Char) (ds : List Nat), l.mapM digit = some ds → ∀ d ∈ l, d ≠ '"' := by
    intro l
    induction l with
    | nil => simp
    | cons x l ih =>
      intro ds hds d hd
      rw [mapM_cons] at hds
      obtain ⟨n, hn, hrest⟩ := Option.bind_eq_some_iff.1 hds
      obtain ⟨ns, hns, _⟩ := Option.bind_eq_some_iff.1 hrest
      rcases mem_cons.1 hd with rfl | hd
      · rintro rfl; cases hn
      · exact ih ns hns d hd
  unfold codePoint at h
  split at h
  · cases h
  · rename_i ds hds
    exact hall digits ds hds

/-- What is read ends with the first double quote that is not escaped, and what comes after it does not count. -/
theorem literal_body {text cs rest : List Char} (h : literal text = some (cs, rest)) :
    ∃ body, text = body ++ '"' :: rest ∧ Shut body ∧ ∀ more, literal (body ++ '"' :: more) = some (cs, more) := by
  fun_induction literal text generalizing cs with
  | case1 => cases h
  | case2 text =>
    obtain ⟨rfl, rfl⟩ := Prod.mk.inj (Option.some.inj h)
    exact ⟨[], rfl, isChain_singleton _, fun _ => rfl⟩
  | case3 a b text ih =>
    obtain ⟨_, ds, hcode, hds, rfl⟩ := push_eq_some h
    obtain ⟨body, rfl, hshut, hmore⟩ := ih hds
    have hdigit := ne_quote_of_codePoint hcode
    refine ⟨'\\' :: 'x' :: a :: b :: body, rfl, ?_, fun more => ?_⟩
    · exact ((hshut.cons (hdigit b (by simp))).cons (hdigit a (by simp))).escape
    · simp only [cons_append]
      rw [literal, hmore, hcode]; rfl
  | case4 a b c d text ih =>
    obtain ⟨_, ds, hcode, hds, rfl⟩ := push_eq_some h
    obtain ⟨body, rfl, hshut, hmore⟩ := ih hds
    have hdigit := ne_quote_of_codePoint hcode
    refine ⟨'\\' :: 'u' :: a :: b :: c :: d :: body, rfl, ?_, fun more => ?_⟩
    · exact ((((hshut.cons (hdigit d (by simp))).cons (hdigit c (by simp))).cons (hdigit b (by simp))).cons
        (hdigit a (by simp))).escape
    · simp only [cons_append]
      rw [literal, hmore, hcode]; rfl
  | case5 a b c d e f g i text ih =>
    obtain ⟨_, ds, hcode, hds, rfl⟩ := push_eq_some h
    obtain ⟨body, rfl, hshut, hmore⟩ := ih hds
    have hdigit := ne_quote_of_codePoint hcode
    refine ⟨'\\' :: 'U' :: a :: b :: c :: d :: e :: f :: g :: i :: body, rfl, ?_, fun more => ?_⟩
    · exact ((((((((hshut.cons (hdigit i (by simp))).cons (hdigit g (by simp))).cons (hdigit f (by simp))).cons
        (hdigit e (by simp))).cons (hdigit d (by simp))).cons (hdigit c (by simp))).cons (hdigit b (by simp))).cons
        (hdigit a (by simp))).escape
    · simp only [cons_append]
      rw [literal, hmore, hcode]; rfl
  | case6 c text _ _ _ ih =>
    obtain ⟨_, ds, hescape, hds, rfl⟩ := push_eq_some h
    obtain ⟨body, rfl, hshut, hmore⟩ := ih hds
    refine ⟨'\\' :: c :: body, rfl, hshut.escape, fun more => ?_⟩
    simp only [cons_append]
    rw [literal_escape hescape, hmore]; rfl
  | case7 => cases h
  | case8 c text hquote _ _ _ _ hne ih =>
    obtain ⟨_, ds, hc, hds, rfl⟩ := push_eq_some h
    obtain ⟨body, rfl, hshut, hmore⟩ := ih hds
    refine ⟨c :: body, rfl, hshut.cons hquote, fun more => ?_⟩
    rw [cons_append, literal_char hquote (fun h => hne (Or.inl h)) (fun h => hne (Or.inr h)), hmore, hc]; rfl

/-- Two literals around the same separator are told apart, when the separator ends with an opening quote after a blank. -/
theorem append_inj_of_shut (sep : List Char) {a b c d : List Char} (hb : Shut b) (hd : Shut d)
    (h : a ++ (sep ++ [' ', '"']) ++ b = c ++ (sep ++ [' ', '"']) ++ d) : a = c ∧ b = d := by
  -- the later of two separators would lie in one of the literals
  have hlater : ∀ {x y : List Char}, Shut x → ∀ s : List Char, s ≠ [] →
      [' ', '"'] ++ x ≠ s ++ ([' ', '"'] ++ y) := by
    intro x y hx s hs heq
    match s, hs with
    | [_], _ => simp at heq
    | _ :: _ :: s, _ =>
      simp only [cons_append, nil_append, List.cons.injEq] at heq
      exact hx.ne_append s y heq.2.2
  have h' : (a ++ sep) ++ ([' ', '"'] ++ b) = (c ++ sep) ++ ([' ', '"'] ++ d) := by simpa using h
  rcases append_eq_append_iff.1 h' with ⟨s, hs, heq⟩ | ⟨s, hs, heq⟩
  · by_cases hnil : s = []
    · subst hnil
      exact ⟨by simpa using hs.symm, by simpa using heq⟩
    · exact absurd heq (hlater hb s hnil)
  · by_cases hnil : s = []
    · subst hnil
      exact ⟨by simpa using hs, by simpa using heq.symm⟩
    · exact absurd heq (hlater hd s hnil)

theorem literal_plain {text : List Char} (h : ∀ c ∈ text, c ≠ '"' ∧ c ≠ '\\' ∧ c ≠ '\n') (more : List Char) :
    literal (text ++ '"' :: more) = some (text, more) := by
  induction text with
  | nil => rfl
  | cons c text ih =>
    obtain ⟨hq, hb, hn⟩ := h c mem_cons_self
    rw [cons_append, literal_char hq hb hn, ih (fun d hd => h d (mem_cons_of_mem _ hd))]
    rfl

end Quoted
