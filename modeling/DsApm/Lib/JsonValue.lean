import DsApm.Lib.GoStd
import DsApm.Lib.Json
import DsApm.Lib.Search
/-!
# JsonValue — JSON texts and their values

A text is read as `encoding/json` reads it, blanks between its tokens and no more than so many open brackets; a value is
written without blanks.  What is written is read back, as far as its brackets may be open (`parse_render`).  `n` in the readers
bounds the calls, and the length of the text is enough.
-/
open List

namespace Json

inductive Value where
  | null
  | bool (b : Bool)
  | number (text : List Char)
  | string (s : List Char)
  | array (vs : List Value)
  | object (ms : List (List Char × Value))

/-! ## Numbers -/

def digits (s : List Char) : List Char × List Char := (s.takeWhile Char.isDigit, s.dropWhile Char.isDigit)

def intPart : List Char → Option (List Char × List Char)
  | [] => none
  | c :: s =>
    if c = '0' then some (['0'], s)
    else if c.isDigit then some (c :: (digits s).1, (digits s).2)
    else none

def someDigits (lead : List Char) (s : List Char) : Option (List Char × List Char) :=
  if (digits s).1 = [] then none else some (lead ++ (digits s).1, (digits s).2)

def fracPart : List Char → Option (List Char × List Char)
  | [] => some ([], [])
  | c :: s => if c = '.' then someDigits ['.'] s else some ([], c :: s)

def expPart : List Char → Option (List Char × List Char)
  | [] => some ([], [])
  | [c] => if c = 'e' ∨ c = 'E' then none else some ([], [c])
  | c :: d :: s =>
    if c = 'e' ∨ c = 'E' then
      if d = '+' ∨ d = '-' then someDigits [c, d] s else someDigits [c] (d :: s)
    else some ([], c :: d :: s)

def signPart : List Char → List Char × List Char
  | [] => ([], [])
  | c :: s => if c = '-' then (['-'], s) else ([], c :: s)

def numeral (s : List Char) : Option (List Char × List Char) :=
  match intPart (signPart s).2 with
  | none => none
  | some (i, s') => match fracPart s' with
    | none => none
    | some (f, s'') => match expPart s'' with
      | none => none
      | some (e, rest) => some ((signPart s).1 ++ i ++ f ++ e, rest)

/-! ## Reading -/

def isBlank (c : Char) : Bool := c == ' ' || c == '\t' || c == '\r' || c == '\n'

def skip (s : List Char) : List Char := s.dropWhile isBlank

def literal (word : List Char) (v : Value) (s : List Char) : Option (Value × List Char) :=
  if word.isPrefixOf s then some (v, s.drop word.length) else none

mutual

/-- A value and what comes after it; `depth` more brackets may be opened. -/
def value : Nat → Nat → List Char → Option (Value × List Char)
  | 0, _, _ => none
  | n + 1, depth, s =>
    match skip s with
    | [] => none
    | c :: t =>
      if c = '"' then (string (c :: t)).map fun r => (.string r.1, r.2)
      else if c = '[' then
        match depth with
        | 0 => none
        | depth + 1 => if (skip t).head? = some ']' then some (.array [], (skip t).tail)
          else (elements n depth t).map fun r => (.array r.1, r.2)
      else if c = '{' then
        match depth with
        | 0 => none
        | depth + 1 => if (skip t).head? = some '}' then some (.object [], (skip t).tail)
          else (members n depth t).map fun r => (.object r.1, r.2)
      else if c = 'n' then literal ['n', 'u', 'l', 'l'] .null (c :: t)
      else if c = 't' then literal ['t', 'r', 'u', 'e'] (.bool true) (c :: t)
      else if c = 'f' then literal ['f', 'a', 'l', 's', 'e'] (.bool false) (c :: t)
      else (numeral (c :: t)).map fun r => (.number r.1, r.2)

def elements : Nat → Nat → List Char → Option (List Value × List Char)
  | 0, _, _ => none
  | n + 1, depth, s =>
    match value n depth s with
    | none => none
    | some (v, s) =>
      match skip s with
      | [] => none
      | c :: t =>
        if c = ',' then (elements n depth t).map fun r => (v :: r.1, r.2)
        else if c = ']' then some ([v], t)
        else none

def members : Nat → Nat → List Char → Option (List (List Char × Value) × List Char)
  | 0, _, _ => none
  | n + 1, depth, s =>
    match string (skip s) with
    | none => none
    | some (k, s) =>
      if (skip s).head? = some ':' then
        match value n depth (skip s).tail with
        | none => none
        | some (v, s) =>
          match skip s with
          | [] => none
          | c :: t =>
            if c = ',' then (members n depth t).map fun r => ((k, v) :: r.1, r.2)
            else if c = '}' then some ([(k, v)], t)
            else none
      else none

end

def maxNestingDepth : Nat := 10000

def parse (s : List Char) : Option Value :=
  match value s.length maxNestingDepth s with
  | none => none
  | some (v, rest) => if skip rest = [] then some v else none

/-! ## Writing -/

mutual

def render : Value → List Char
  | .null => ['n', 'u', 'l', 'l']
  | .bool true => ['t', 'r', 'u', 'e']
  | .bool false => ['f', 'a', 'l', 's', 'e']
  | .number t => t
  | .string s => quoted s
  | .array vs => '[' :: (renderElements vs ++ [']'])
  | .object ms => '{' :: (renderMembers ms ++ ['}'])

def renderElements : List Value → List Char
  | [] => []
  | [v] => render v
  | v :: w :: vs => render v ++ ',' :: renderElements (w :: vs)

def renderMembers : List (List Char × Value) → List Char
  | [] => []
  | [(k, v)] => quoted k ++ ':' :: render v
  | (k, v) :: m :: ms => quoted k ++ ':' :: (render v ++ ',' :: renderMembers (m :: ms))

end

/-! ## Numbers are read up to their end -/

def Ends (rest : List Char) : Prop := ∀ c ∈ rest.head?, c.isDigit = false ∧ c ≠ '.' ∧ c ≠ 'e' ∧ c ≠ 'E'

def Stable (part : List Char → Option (List Char × List Char)) : Prop :=
  ∀ s a t rest, part s = some (a, t) → (t = [] → Ends rest) → part (s ++ rest) = some (a, t ++ rest)

theorem digits_append {rest : List Char} : ∀ s : List Char, ((digits s).2 = [] → Ends rest) →
    digits (s ++ rest) = ((digits s).1, (digits s).2 ++ rest)
  | [], h => by
    cases rest with
    | nil => rfl
    | cons c rest =>
      have hc : c.isDigit = false := (h rfl c rfl).1
      simp [digits, hc]
  | c :: s, h => by
    have ih := @digits_append rest s
    unfold digits at ih h ⊢
    cases hc : c.isDigit with
    | true =>
      simp only [dropWhile_cons_of_pos hc] at h
      have ihs := Prod.mk.inj (ih h)
      simp only [cons_append, takeWhile_cons_of_pos hc, dropWhile_cons_of_pos hc, ihs.1, ihs.2]
    | false => simp [hc]

theorem stable_someDigits (lead : List Char) : Stable (someDigits lead) := by
  intro s a t rest h hrest
  unfold someDigits at h ⊢
  split at h
  · cases h
  · rename_i hne
    cases h
    rw [digits_append s hrest, if_neg hne]

theorem stable_intPart : Stable intPart := by
  intro s a t rest h hrest
  cases s with
  | nil => cases h
  | cons c s =>
    rw [intPart] at h
    rw [cons_append, intPart]
    by_cases hc : c = '0'
    · rw [if_pos hc] at h ⊢
      cases h
      rfl
    · rw [if_neg hc] at h ⊢
      split at h
      · rename_i hd
        cases h
        rw [if_pos hd, digits_append s hrest]
      · cases h

theorem stable_fracPart : Stable fracPart := by
  intro s a t rest h hrest
  cases s with
  | nil =>
    cases h
    cases rest with
    | nil => rfl
    | cons c rest =>
      rw [nil_append, fracPart, if_neg (hrest rfl c rfl).2.1]
  | cons c s =>
    rw [fracPart] at h
    rw [cons_append, fracPart]
    by_cases hc : c = '.'
    · rw [if_pos hc] at h ⊢
      exact stable_someDigits _ s a t rest h hrest
    · rw [if_neg hc] at h ⊢
      cases h
      rfl

theorem expPart_of_ne {c : Char} (hc : ¬(c = 'e' ∨ c = 'E')) (s : List Char) : expPart (c :: s) = some ([], c :: s) := by
  cases s with
  | nil => rw [expPart, if_neg hc]
  | cons d s => rw [expPart, if_neg hc]

theorem stable_expPart : Stable expPart := by
  intro s a t rest h hrest
  cases s with
  | nil =>
    cases h
    cases rest with
    | nil => rfl
    | cons c rest =>
      have hc : ¬(c = 'e' ∨ c = 'E') := fun he => he.elim (hrest rfl c rfl).2.2.1 (hrest rfl c rfl).2.2.2
      rw [nil_append, expPart_of_ne hc]
  | cons c s =>
    by_cases hc : c = 'e' ∨ c = 'E'
    · cases s with
      | nil =>
        rw [expPart, if_pos hc] at h
        cases h
      | cons d s =>
        rw [expPart, if_pos hc] at h
        rw [cons_append, cons_append, expPart, if_pos hc]
        by_cases hd : d = '+' ∨ d = '-'
        · rw [if_pos hd] at h ⊢
          exact stable_someDigits _ s a t rest h hrest
        · rw [if_neg hd] at h ⊢
          exact stable_someDigits _ (d :: s) a t rest h hrest
    · rw [expPart_of_ne hc] at h
      cases h
      rw [cons_append, expPart_of_ne hc]

theorem signPart_append {s : List Char} (hs : s ≠ []) (rest : List Char) :
    signPart (s ++ rest) = ((signPart s).1, (signPart s).2 ++ rest) := by
  obtain ⟨c, s, rfl⟩ := exists_cons_of_ne_nil hs
  rw [cons_append, signPart, signPart]
  split <;> rfl

def IsNumeral (t : List Char) : Prop := numeral t = some (t, [])

theorem IsNumeral.ne_nil {t : List Char} (h : IsNumeral t) : t ≠ [] := by
  rintro rfl
  cases h

/-- **A number is read back**, whatever comes after it that does not continue it. -/
theorem numeral_append {t rest : List Char} (h : IsNumeral t) (hrest : Ends rest) : numeral (t ++ rest) = some (t, rest) := by
  have hne := h.ne_nil
  unfold IsNumeral numeral at h
  split at h
  · cases h
  · rename_i i s hi
    split at h
    · cases h
    · rename_i f s' hf
      split at h
      · cases h
      · rename_i e s'' he
        obtain ⟨ht, hs''⟩ := Prod.mk.inj (Option.some.inj h)
        subst hs''
        have hi' := stable_intPart _ _ _ rest hi (fun _ => hrest)
        have hf' := stable_fracPart _ _ _ rest hf (fun _ => hrest)
        have he' := stable_expPart _ _ _ rest he (fun _ => hrest)
        unfold numeral
        rw [signPart_append hne]
        dsimp only
        rw [hi']
        dsimp only
        rw [hf']
        dsimp only
        rw [he']
        dsimp only
        rw [ht, nil_append]

/-! ## What is written is read back -/

/-- A value whose numbers are numbers, and whose brackets are open no more than so many at a time. -/
inductive Fits : Nat → Value → Prop
  | null (d : Nat) : Fits d .null
  | bool (d : Nat) (b : Bool) : Fits d (.bool b)
  | number (d : Nat) {t : List Char} (h : IsNumeral t) : Fits d (.number t)
  | string (d : Nat) (s : List Char) : Fits d (.string s)
  | array {d : Nat} {vs : List Value} (h : ∀ v ∈ vs, Fits d v) : Fits (d + 1) (.array vs)
  | object {d : Nat} {ms : List (List Char × Value)} (h : ∀ m ∈ ms, Fits d m.2) : Fits (d + 1) (.object ms)

def Reads (d : Nat) (v : Value) : Prop :=
  ∀ n rest, (render v).length ≤ n → Ends rest → value n d (render v ++ rest) = some (v, rest)

theorem skip_of_head {c : Char} (h : isBlank c = false) (s : List Char) : skip (c :: s) = c :: s :=
  dropWhile_cons_of_neg (by simp [h])

theorem ends_cons {c : Char} (h : c = ',' ∨ c = ']' ∨ c = '}') (s : List Char) : Ends (c :: s) := by
  intro d hd
  cases hd
  rcases h with rfl | rfl | rfl <;> decide

theorem IsNumeral.head {t : List Char} (h : IsNumeral t) : ∃ c s, t = c :: s ∧ (c = '-' ∨ c.isDigit = true) := by
  obtain ⟨c, s, rfl⟩ := exists_cons_of_ne_nil h.ne_nil
  refine ⟨c, s, rfl, or_iff_not_imp_left.2 fun hc => ?_⟩
  unfold IsNumeral numeral at h
  rw [signPart, if_neg hc] at h
  by_contra hd
  have hzero : c ≠ '0' := fun he => hd (by rw [he]; decide)
  have hint : intPart (c :: s) = none := by rw [intPart, if_neg hzero, if_neg hd]
  rw [hint] at h
  cases h

theorem not_blank_of_digit {c : Char} (h : c.isDigit = true) : isBlank c = false ∧
    c ≠ '"' ∧ c ≠ '[' ∧ c ≠ '{' ∧ c ≠ 'n' ∧ c ≠ 't' ∧ c ≠ 'f' := by
  refine ⟨?_, ?_, ?_, ?_, ?_, ?_, ?_⟩
  · cases hb : isBlank c with
    | false => rfl
    | true =>
      simp only [isBlank, Bool.or_eq_true, beq_iff_eq] at hb
      rcases hb with ((rfl | rfl) | rfl) | rfl <;> cases h
  all_goals
    rintro rfl
    cases h

theorem reads_number (d : Nat) {t : List Char} (h : IsNumeral t) : Reads d (.number t) := by
  intro n rest hn hrest
  obtain ⟨c, s, rfl, hc⟩ := h.head
  have hhead : isBlank c = false ∧ c ≠ '"' ∧ c ≠ '[' ∧ c ≠ '{' ∧ c ≠ 'n' ∧ c ≠ 't' ∧ c ≠ 'f' := by
    rcases hc with rfl | hc
    · decide
    · exact not_blank_of_digit hc
  obtain ⟨hb, hq, ha, ho, hnull, ht, hf⟩ := hhead
  cases n with
  | zero => simp [render] at hn
  | succ n =>
    rw [render, cons_append, value, skip_of_head hb]
    dsimp only
    rw [if_neg hq, if_neg ha, if_neg ho, if_neg hnull, if_neg ht, if_neg hf, ← cons_append, numeral_append h hrest]
    rfl

theorem reads_string (d : Nat) (s : List Char) : Reads d (.string s) := by
  intro n rest hn _
  cases n with
  | zero => simp [render, quoted] at hn
  | succ n =>
    have hq : quoted s ++ rest = '"' :: (s.flatMap escape ++ ['"'] ++ rest) := rfl
    rw [render, value, hq, skip_of_head (by decide)]
    dsimp only
    rw [if_pos rfl, ← hq, string_quoted]
    rfl

theorem elements_render {d : Nat} (rest : List Char) : ∀ {vs : List Value}, vs ≠ [] → (∀ v ∈ vs, Reads d v) →
    (∀ v ∈ vs, render v ≠ []) → ∀ {n}, (renderElements vs).length < n →
      elements n d (renderElements vs ++ ']' :: rest) = some (vs, rest)
  | [v], _, h, _, n + 1, hn => by
    rw [renderElements] at hn ⊢
    rw [elements, h v mem_cons_self n _ (Nat.lt_succ_iff.1 hn) (ends_cons (.inr (.inl rfl)) rest)]
    dsimp only
    rw [skip_of_head (by decide)]
    dsimp only
    rw [if_neg (by decide), if_pos rfl]
  | v :: w :: vs, _, h, hne, n + 1, hn => by
    have hlen : 0 < (render v).length := length_pos_of_ne_nil (hne v mem_cons_self)
    rw [renderElements, List.length_append, length_cons] at hn
    have ih := elements_render rest (cons_ne_nil w vs) (fun x hx => h x (mem_cons_of_mem _ hx))
      (fun x hx => hne x (mem_cons_of_mem _ hx)) (show (renderElements (w :: vs)).length < n by omega)
    rw [renderElements, List.append_assoc, cons_append, elements,
      h v mem_cons_self n _ (by omega) (ends_cons (.inl rfl) _)]
    dsimp only
    rw [skip_of_head (by decide)]
    dsimp only
    rw [if_pos rfl, ih]
    rfl

theorem members_render {d : Nat} (rest : List Char) : ∀ {ms : List (List Char × Value)}, ms ≠ [] →
    (∀ m ∈ ms, Reads d m.2) → ∀ {n}, (renderMembers ms).length < n →
      members n d (renderMembers ms ++ '}' :: rest) = some (ms, rest)
  | [(k, v)], _, h, n + 1, hn => by
    rw [renderMembers, List.length_append, length_cons] at hn
    have hskip : ∀ t, skip (quoted k ++ t) = quoted k ++ t := fun t => skip_of_head (by decide) _
    rw [renderMembers, List.append_assoc, cons_append, members, hskip, string_quoted]
    dsimp only
    rw [skip_of_head (by decide), List.head?_cons, if_pos rfl, tail_cons,
      h _ mem_cons_self n _ (by dsimp only; omega) (ends_cons (.inr (.inr rfl)) rest)]
    dsimp only
    rw [skip_of_head (by decide)]
    dsimp only
    rw [if_neg (by decide), if_pos rfl]
  | (k, v) :: m :: ms, _, h, n + 1, hn => by
    rw [renderMembers, List.length_append, length_cons, List.length_append, length_cons] at hn
    have ih := members_render rest (cons_ne_nil m ms) (fun x hx => h x (mem_cons_of_mem _ hx))
      (show (renderMembers (m :: ms)).length < n by omega)
    have hskip : ∀ t, skip (quoted k ++ t) = quoted k ++ t := fun t => skip_of_head (by decide) _
    rw [renderMembers, List.append_assoc, cons_append, List.append_assoc, cons_append, members, hskip, string_quoted]
    dsimp only
    rw [skip_of_head (by decide), List.head?_cons, if_pos rfl, tail_cons,
      h _ mem_cons_self n _ (by dsimp only; omega) (ends_cons (.inl rfl) _)]
    dsimp only
    rw [skip_of_head (by decide)]
    dsimp only
    rw [if_pos rfl, ih]
    rfl

theorem Fits.head {d : Nat} {v : Value} (h : Fits d v) : ∃ c s, render v = c :: s ∧ isBlank c = false ∧ c ≠ ']' := by
  cases h with
  | bool _ b => cases b <;> exact ⟨_, _, rfl, by decide⟩
  | number _ h =>
    obtain ⟨c, s, rfl, hc⟩ := h.head
    refine ⟨c, s, rfl, ?_⟩
    rcases hc with rfl | hc
    · decide
    · refine ⟨(not_blank_of_digit hc).1, ?_⟩
      rintro rfl
      cases hc
  | null | string | array | object => exact ⟨_, _, rfl, by decide⟩

theorem Fits.render_ne_nil {d : Nat} {v : Value} (h : Fits d v) : render v ≠ [] := by
  obtain ⟨c, s, hv, -⟩ := h.head
  rw [hv]
  exact cons_ne_nil c s

theorem head_renderElements (v : Value) (vs : List Value) :
    ∃ t, renderElements (v :: vs) = render v ++ t := by
  cases vs with
  | nil => exact ⟨[], (append_nil _).symm⟩
  | cons w vs => exact ⟨_, rfl⟩

theorem head_renderMembers (m : List Char × Value) (ms : List (List Char × Value)) :
    ∃ t, renderMembers (m :: ms) = '"' :: t := by
  cases ms with
  | nil => exact ⟨_, rfl⟩
  | cons m' ms => exact ⟨_, rfl⟩

theorem reads_array {d : Nat} {vs : List Value} (hfits : ∀ v ∈ vs, Fits d v) (h : ∀ v ∈ vs, Reads d v) :
    Reads (d + 1) (.array vs) := by
  intro n rest hn _
  cases n with
  | zero => simp [render] at hn
  | succ n =>
    rw [render, length_cons, List.length_append, List.length_singleton] at hn
    rw [render, cons_append, value, skip_of_head (by decide)]
    dsimp only
    rw [if_neg (by decide), if_pos rfl]
    cases vs with
    | nil =>
      rw [renderElements, nil_append, singleton_append, skip_of_head (by decide), List.head?_cons, if_pos rfl]
      rfl
    | cons v vs =>
      obtain ⟨c, s, hv, hb, hc⟩ := (hfits v mem_cons_self).head
      obtain ⟨t, ht⟩ := head_renderElements v vs
      have hopen : ¬(skip (renderElements (v :: vs) ++ [']'] ++ rest)).head? = some ']' := by
        rw [ht, hv]
        simp only [cons_append, skip_of_head hb, List.head?_cons, Option.some.injEq]
        exact hc
      rw [if_neg hopen, List.append_assoc, singleton_append,
        elements_render rest (cons_ne_nil v vs) h (fun x hx => (hfits x hx).render_ne_nil) (by omega)]
      rfl

theorem reads_object {d : Nat} {ms : List (List Char × Value)} (h : ∀ m ∈ ms, Reads d m.2) : Reads (d + 1) (.object ms) := by
  intro n rest hn _
  cases n with
  | zero => simp [render] at hn
  | succ n =>
    rw [render, length_cons, List.length_append, List.length_singleton] at hn
    rw [render, cons_append, value, skip_of_head (by decide)]
    dsimp only
    rw [if_neg (by decide), if_neg (by decide), if_pos rfl]
    cases ms with
    | nil =>
      rw [renderMembers, nil_append, singleton_append, skip_of_head (by decide), List.head?_cons, if_pos rfl]
      rfl
    | cons m ms =>
      obtain ⟨t, ht⟩ := head_renderMembers m ms
      have hopen : ¬(skip (renderMembers (m :: ms) ++ ['}'] ++ rest)).head? = some '}' := by
        rw [ht]
        simp only [cons_append, skip_of_head (show isBlank '"' = false by decide), List.head?_cons, Option.some.injEq]
        decide
      rw [if_neg hopen, List.append_assoc, singleton_append, members_render rest (cons_ne_nil m ms) h (by omega)]
      rfl

/-- **A value is read back**, whatever comes after it that does not continue it. -/
theorem Fits.reads {d : Nat} {v : Value} (h : Fits d v) : Reads d v := by
  induction h with
  | number d h => exact reads_number d h
  | string d s => exact reads_string d s
  | array h ih => exact reads_array h ih
  | object _ ih => exact reads_object ih
  | null d =>
    intro n rest hn _
    cases n with
    | zero => simp [render] at hn
    | succ n => rfl
  | bool d b =>
    intro n rest hn _
    cases n with
    | zero => cases b <;> simp [render] at hn
    | succ n => cases b <;> rfl

/-- **What is written is read back**, with blanks after it. -/
theorem parse_render {v : Value} (h : Fits maxNestingDepth v) {rest : List Char} (hrest : skip rest = []) :
    parse (render v ++ rest) = some v := by
  have hends : Ends rest := by
    intro c hc
    cases rest with
    | nil => cases hc
    | cons d rest =>
      cases hc
      have hb : isBlank c = true := by
        by_contra hb
        rw [skip_of_head (Bool.not_eq_true _ ▸ hb)] at hrest
        cases hrest
      simp only [isBlank, Bool.or_eq_true, beq_iff_eq] at hb
      rcases hb with ((rfl | rfl) | rfl) | rfl <;> decide
  have hlen : (render v).length ≤ (render v ++ rest).length := by simp
  rw [parse, h.reads _ rest hlen hends]
  dsimp only
  rw [if_pos hrest]

/-! ## Runs of a character that is written as it is -/

section
variable {c : Char}

structure Plain (c : Char) : Prop where
  self : escape c = [c]
  other : ∀ d, d ≠ c → c ∉ escape d

theorem escape_ne_nil (c : Char) : escape c ≠ [] := by
  unfold escape
  split_ifs <;> exact cons_ne_nil _ _

theorem prefix_flatMap (hc : Plain c) : ∀ (n : Nat) (s : List Char),
    List.replicate n c <+: s.flatMap escape → List.replicate n c <+: s
  | 0, s, _ => nil_prefix
  | n + 1, [], h => h
  | n + 1, d :: s, h => by
    rw [flatMap_cons] at h
    by_cases hd : d = c
    · rw [hd, hc.self, singleton_append, replicate_succ, cons_prefix_cons] at h
      rw [replicate_succ, cons_prefix_cons]
      exact ⟨hd.symm, prefix_flatMap hc n s h.2⟩
    · obtain ⟨e, es, he⟩ := exists_cons_of_ne_nil (escape_ne_nil d)
      rw [he, cons_append, replicate_succ, cons_prefix_cons] at h
      exact absurd (by rw [he, h.1]; exact mem_cons_self) (hc.other d hd)

theorem infix_append_of_not_mem {n : Nat} {b : List Char} : ∀ {a : List Char}, c ∉ a →
    List.replicate (n + 1) c <:+: a ++ b → List.replicate (n + 1) c <:+: b
  | [], _, h => h
  | d :: a, hd, h => by
    rw [cons_append, infix_cons_iff] at h
    rcases h with h | h
    · rw [replicate_succ, cons_prefix_cons] at h
      exact absurd (h.1 ▸ mem_cons_self) hd
    · exact infix_append_of_not_mem (fun hc => hd (mem_cons_of_mem d hc)) h

theorem infix_flatMap (hc : Plain c) (n : Nat) : ∀ s : List Char,
    List.replicate (n + 1) c <:+: s.flatMap escape → List.replicate (n + 1) c <:+: s
  | [], h => h
  | d :: s, h => by
    rw [infix_cons_iff]
    by_cases hd : d = c
    · rw [flatMap_cons, hd, hc.self, singleton_append, infix_cons_iff] at h
      refine h.imp (fun hp => prefix_flatMap hc (n + 1) (d :: s) ?_) (infix_flatMap hc n s)
      rw [flatMap_cons, hd, hc.self]
      exact hp
    · rw [flatMap_cons] at h
      exact .inr (infix_flatMap hc n s (infix_append_of_not_mem (hc.other d hd) h))

theorem not_mem_replicate {d : Char} (h : d ≠ c) (n : Nat) : d ∉ List.replicate n c := fun hd => h (mem_replicate.1 hd).2

theorem infix_quoted (hc : Plain c) (hq : '"' ≠ c) {n : Nat} {s : List Char} (h : List.replicate (n + 1) c <:+: quoted s) :
    List.replicate (n + 1) c <:+: s := by
  have hne : List.replicate (n + 1) c ≠ [] := by simp
  rw [quoted, cons_append] at h
  rcases (Search.infix_append_cons (a := []) hne (not_mem_replicate hq _)).1 h with h | h
  · exact absurd (infix_nil.1 h) hne
  · rcases (Search.infix_append_cons hne (not_mem_replicate hq _)).1 h with h | h
    · exact infix_flatMap hc n s h
    · exact absurd (infix_nil.1 h) hne

/-- **A run of the character in an object of strings** is one in a name or a string. -/
theorem infix_renderMembers (hc : Plain c) (hq : '"' ≠ c) (hcolon : ':' ≠ c) (hcomma : ',' ≠ c) {n : Nat} :
    ∀ {ms : List (List Char × List Char)},
      List.replicate (n + 1) c <:+: renderMembers (ms.map fun m => (m.1, .string m.2)) →
        ∃ m ∈ ms, List.replicate (n + 1) c <:+: m.1 ∨ List.replicate (n + 1) c <:+: m.2
  | [], h => absurd (infix_nil.1 h) (by simp)
  | [(k, v)], h => by
    rw [map_singleton, renderMembers, Search.infix_append_cons (by simp) (not_mem_replicate hcolon _), render] at h
    exact ⟨(k, v), mem_singleton.2 rfl, h.imp (infix_quoted hc hq) (infix_quoted hc hq)⟩
  | (k, v) :: m :: ms, h => by
    rw [map_cons, map_cons, renderMembers, Search.infix_append_cons (by simp) (not_mem_replicate hcolon _),
      Search.infix_append_cons (by simp) (not_mem_replicate hcomma _), render] at h
    rcases h with h | h | h
    · exact ⟨(k, v), mem_cons_self, .inl (infix_quoted hc hq h)⟩
    · exact ⟨(k, v), mem_cons_self, .inr (infix_quoted hc hq h)⟩
    · obtain ⟨x, hx, hrun⟩ := @infix_renderMembers hc hq hcolon hcomma _ (m :: ms) h
      exact ⟨x, mem_cons_of_mem _ hx, hrun⟩

end

end Json

/-!
## JsonDecode — JSON values read into records

`json.Unmarshal` of a record: a member goes to the field of its name, or of its name in other letters; one without a field is
passed over, and `null` leaves a field as it is.  A value of another kind is an error.
-/
namespace Json

/-- How a value is read over what is there; nothing is an error. -/
abbrev Decoder (α : Type) := α → Value → Option α

namespace Decoder

variable {α β : Type}

def text : Decoder String
  | old, .null => some old
  | _, .string s => some (String.ofList s)
  | _, _ => none

def bool : Decoder Bool
  | old, .null => some old
  | _, .bool b => some b
  | _, _ => none

def int : Decoder Int
  | old, .null => some old
  | _, .number t => GoStd.atoi t
  | _, _ => none

def slice (zero : α) (d : Decoder α) : Decoder (List α)
  | _, .null => some []
  | _, .array vs => vs.mapM (d zero)
  | _, _ => none

/-- A pointer: what it points to is read over, or over `zero` where it is nil. -/
def pointer (zero : α) (d : Decoder α) : Decoder (Option α)
  | _, .null => some none
  | old, v => (d (old.getD zero) v).map some

def of (get : α → β) (set : α → β → α) (d : Decoder β) : Decoder α := fun a v => (d (get a) v).map (set a)

/-- Letters that differ in case only; two further characters fold to ASCII ones. -/
def foldName (key : List Char) : List Char :=
  key.map fun c => if c = '\u017f' then 's' else if c = '\u212a' then 'k' else c.toLower

/-- The field of a name: the one written so, or else the first that is in other letters. -/
def field (fields : List (String × Decoder α)) (key : List Char) : Option (Decoder α) :=
  ((fields.find? (fun f => f.1.toList = key)).or (fields.find? (fun f => foldName f.1.toList = foldName key))).map Prod.snd

def setMember (fields : List (String × Decoder α)) (a : α) (m : List Char × Value) : Option α :=
  match field fields m.1 with
  | none => some a
  | some d => d a m.2

def record (fields : List (String × Decoder α)) : Decoder α
  | old, .null => some old
  | old, .object ms => ms.foldlM (setMember fields) old
  | _, _ => none

theorem field_of_mem {fields : List (String × Decoder α)} (hnames : (fields.map Prod.fst).Nodup) {key : String} {d : Decoder α}
    (h : (key, d) ∈ fields) : field fields key.toList = some d := by
  have hfind : fields.find? (fun f => f.1.toList = key.toList) = some (key, d) := by
    rw [List.find?_eq_some_iff_append]
    obtain ⟨before, after, rfl⟩ := append_of_mem h
    refine ⟨by simp, before, after, rfl, fun f hf => ?_⟩
    rw [map_append, nodup_append] at hnames
    have hne : f.1 ≠ key := hnames.2.2 _ (List.mem_map_of_mem hf) _ mem_cons_self
    simpa [String.toList_inj] using hne
  rw [field, hfind]
  rfl

end Decoder

def unmarshal {α : Type} (d : Decoder α) (zero : α) (s : List Char) : Option α := (parse s).bind (d zero)

end Json
