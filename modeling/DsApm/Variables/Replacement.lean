import DsApm.Variables.Substitution
import Mathlib.Data.List.Chain
/-!
# Replacement — the printed expression parses to the substituted tree

From the texts of literals (`literal_of_scalar`) through values, conditions and parts: each is printed as the text of what it is
to become, or as the marker when it is to be removed.
-/
namespace DsApm
namespace Variables

open List

/-! ## The text of a literal -/

theorem plain_induction {motive : Text → Prop} (nil : motive []) (quote : ∀ s, motive s → motive ('\'' :: s))
    (backslash : ∀ d s, d ≠ '\\' → d ≠ '\'' → motive s → motive ('\\' :: d :: s))
    (other : ∀ c s, c ≠ '\\' → c ≠ '\'' → motive s → motive (c :: s)) : ∀ s, PlainBackslashes s → motive s
  | [], _ => nil
  | [c], h => by
    by_cases hq : c = '\''
    · exact hq ▸ quote [] nil
    · have hb : c ≠ '\\' := by
        rintro rfl
        exact ((isChain_cons_cons.1 h).1 rfl).2 rfl
      exact other c [] hb hq nil
  | c :: d :: s, h => by
    have ht : PlainBackslashes (d :: s) := (isChain_cons_cons.1 h).2
    by_cases hq : c = '\''
    · exact hq ▸ quote _ (plain_induction nil quote backslash other (d :: s) ht)
    · by_cases hb : c = '\\'
      · have hd := (isChain_cons_cons.1 h).1 hb
        exact hb ▸ backslash d s hd.1 hd.2 (plain_induction nil quote backslash other s (List.IsChain.tail ht))
      · exact other c _ hb hq (plain_induction nil quote backslash other (d :: s) ht)

def escaped (s : Text) : Text := s.flatMap (fun c => if c = '\'' then ['\\', '\''] else [c])

theorem escaped_quote (s : Text) : escaped ('\'' :: s) = '\\' :: '\'' :: escaped s := rfl

theorem escaped_cons {c : Char} (h : c ≠ '\'') (s : Text) : escaped (c :: s) = c :: escaped s := by
  unfold escaped
  rw [flatMap_cons, if_neg h, singleton_append]

theorem isQuoted_quoteValue {s : Text} (h : PlainBackslashes s) : isQuoted (quoteValue s) = true := by
  have hbody : Munch.run quotedStep (some (.inside '\'')) (escaped s) = some (.inside '\'') := by
    refine plain_induction (motive := fun s =>
      Munch.run quotedStep (some (.inside '\'')) (escaped s) = some (.inside '\'')) rfl ?_ ?_ ?_ s h
    · intro s ih
      rw [escaped_quote]
      exact ih
    · intro d s _ hq ih
      rw [escaped_cons (by decide), escaped_cons hq]
      exact ih
    · intro c s hb hq ih
      rw [escaped_cons hq, Munch.run_cons]
      simpa [quotedStep, hb, hq] using ih
  have hrun : Munch.run quotedStep (some .start) ('\'' :: (escaped s ++ ['\'']))
      = Munch.run quotedStep (Munch.run quotedStep (some (.inside '\'')) (escaped s)) ['\''] := Munch.run_append _ _ _ _
  rw [isQuoted, quoteValue]
  show (Munch.run quotedStep (some .start) ('\'' :: (escaped s ++ ['\''])) == _) = true
  rw [hrun, hbody]
  rfl

theorem replacePair_cons {a b new c : Char} (h : c ≠ a) (s : Text) :
    replacePair a b new (c :: s) = c :: replacePair a b new s := by
  cases s with
  | nil => rw [replacePair, replacePair] <;> simp
  | cons d s => rw [replacePair, if_neg (fun hp => h hp.1)]

theorem replacePair_skip {a b new c d : Char} (h : d ≠ b) (s : Text) :
    replacePair a b new (c :: d :: s) = c :: replacePair a b new (d :: s) := by
  rw [replacePair, if_neg (fun hp => h hp.2)]

theorem unquoted_quoteValue {s : Text} (h : PlainBackslashes s) : unquoted (quoteValue s) = s := by
  have htrim : trimQuotes (quoteValue s) = escaped s := by
    rw [quoteValue, trimQuotes, if_pos ⟨Or.inr rfl, List.getLast?_concat⟩, dropLast_concat, escaped]
  have hone : replacePair '\\' '\\' '\\' (escaped s) = escaped s := by
    refine plain_induction (motive := fun s => replacePair '\\' '\\' '\\' (escaped s) = escaped s) rfl ?_ ?_ ?_ s h
    · intro s ih
      rw [escaped_quote, replacePair_skip (by decide), replacePair_cons (by decide), ih]
    · intro d s hb hq ih
      rw [escaped_cons (by decide), escaped_cons hq, replacePair_skip hb, replacePair_cons hb, ih]
    · intro c s hb hq ih
      rw [escaped_cons hq, replacePair_cons hb, ih]
  have htwo : replacePair '\\' '\'' '\'' (escaped s) = s := by
    refine plain_induction (motive := fun s => replacePair '\\' '\'' '\'' (escaped s) = s) rfl ?_ ?_ ?_ s h
    · intro s ih
      rw [escaped_quote, replacePair, if_pos ⟨rfl, rfl⟩, ih]
    · intro d s hb hq ih
      rw [escaped_cons (by decide), escaped_cons hq, replacePair_skip hq, replacePair_cons hb, ih]
    · intro c s hb hq ih
      rw [escaped_cons hq, replacePair_cons hb, ih]
  rw [unquoted, htrim, hone, htwo]

def Literal.text : Literal → Text
  | .quoted w => w.text
  | .number w => w.text
  | .bool w => w.text

def Value.text : Value → Text
  | .literal l => l.text
  | .key w => w.text

theorem Word.reads {k : Kind} (w : Word k) (h : k ≠ .ws) : Reads w.text [w.token] := Reads.word w.is h

theorem Literal.reads : ∀ l : Literal, Reads l.text [l.token]
  | .quoted w => w.reads (by decide)
  | .number w => w.reads (by decide)
  | .bool w => w.reads (by decide)

theorem Value.reads : ∀ v : Value, Reads v.text [v.token]
  | .literal l => l.reads
  | .key w => w.reads (by decide)

theorem kindOf_marker : kindOf specialSkipMarker = some .key := by decide

theorem Word.text_ne_marker {k : Kind} (w : Word k) (h : k ≠ .key) : w.text ≠ specialSkipMarker := by
  intro ht
  have hk := w.is
  rw [ht, kindOf_marker] at hk
  exact h (Option.some.inj hk).symm

theorem Literal.text_ne_marker : ∀ l : Literal, l.text ≠ specialSkipMarker
  | .quoted w => w.text_ne_marker (by decide)
  | .number w => w.text_ne_marker (by decide)
  | .bool w => w.text_ne_marker (by decide)

/-- **A scalar is printed as a literal that stands for it.** -/
theorem literal_of_scalar {val : VarValue} (h : val.Scalar) : ∃ l, Denotes l val ∧ formatVariableValue val = l.text := by
  cases val with
  | string s =>
    exact ⟨.quoted ⟨quoteValue s, kindOf_quoted (isQuoted_quoteValue h)⟩, unquoted_quoteValue h, by rw [formatVariableValue]; rfl⟩
  | number text => exact ⟨.number ⟨text, h⟩, rfl, by rw [formatVariableValue]; rfl⟩
  | bool b => exact ⟨.bool ⟨formatBool b, by cases b <;> decide⟩, rfl, by rw [formatVariableValue]; rfl⟩
  | strings _ => exact h.elim
  | array _ => exact h.elim
  | other _ => exact h.elim

theorem formatVariableValues_eq : ∀ items : List VarValue, formatVariableValues items = items.map formatVariableValue
  | [] => by rw [formatVariableValues, map_nil]
  | item :: items => by rw [formatVariableValues, map_cons, formatVariableValues_eq items]

theorem format_of_items {val : VarValue} {items : List VarValue} (h : val.items = some items) :
    formatVariableValue val = bracketed (items.map formatVariableValue) := by
  cases val with
  | strings ss =>
    cases h
    rw [formatVariableValue, List.map_map]
    exact congrArg _ (map_congr_left (fun s _ => by rw [Function.comp_apply, formatVariableValue]))
  | array is =>
    cases h
    rw [formatVariableValue, formatVariableValues_eq]
  | _ => cases h

/-- **A list is printed as a list of literals that stand for its elements.** -/
theorem literals_of_listing {val : VarValue} (h : val.Listing) :
    ∃ vs, DenotesList vs val ∧
      Reads (formatVariableValue val) (mark .lbrack :: (vs.tokens ++ [mark .rbrack])) := by
  obtain ⟨items, hitems, hne, hscalar⟩ := h
  cases items with
  | nil => exact absurd rfl hne
  | cons item items =>
    obtain ⟨v, vs, hvs, hr⟩ := Reads.list (R := fun item v => ∃ l, v = Value.literal l ∧ Denotes l item)
      (f := formatVariableValue) (g := fun v => [v.token]) item items (fun x hx => by
        obtain ⟨l, hl, htext⟩ := literal_of_scalar (hscalar x hx)
        exact ⟨.literal l, ⟨l, rfl, hl⟩, htext ▸ l.reads⟩)
    refine ⟨⟨v, vs⟩, ⟨item :: items, hitems, hvs.flip⟩, ?_⟩
    rw [format_of_items hitems]
    exact hr.brackets

section
variable {variables' : GoMap Text VariableItem}

/-! ## Values -/

theorem visitValue_all {v : Value} (h : v.All variables') : visitValue variables' v = specialSkipMarker := by
  obtain ⟨varItem, hv, hall⟩ := h
  unfold visitValue
  rw [hv]
  exact if_pos hall

theorem visitKey_all {w : Word .key} (h : IsAll variables' w.text) : visitKey variables' w = specialSkipMarker := by
  obtain ⟨varItem, hv, hall⟩ := h
  rw [visitKey, hv]
  exact if_pos hall

theorem replaced_of_scalar {varItem : VariableItem} (hall : varItem.isAll = false) (h : varItem.value.Scalar) :
    ∃ l, Denotes l varItem.value ∧ replaced varItem = l.text := by
  obtain ⟨l, hl, htext⟩ := literal_of_scalar h
  exact ⟨l, hl, by rw [replaced, hall, ← htext]; rfl⟩

theorem replaced_of_listing {varItem : VariableItem} (hall : varItem.isAll = false) (h : varItem.value.Listing) :
    ∃ vs, DenotesList vs varItem.value ∧ Reads (replaced varItem) (mark .lbrack :: (vs.tokens ++ [mark .rbrack])) := by
  obtain ⟨vs, hvs, hr⟩ := literals_of_listing h
  exact ⟨vs, hvs, by rw [replaced, hall]; exact hr⟩

theorem not_isAll {text : Text} (h : ∀ varItem, variableOf variables' text = some varItem → varItem.isAll = false) :
    ¬IsAll variables' text := by
  rintro ⟨varItem, hv, hall⟩
  rw [h varItem hv] at hall
  cases hall

theorem not_isAll_of_keyFine {w : Word .key} (h : KeyFine variables' w) : ¬IsAll variables' w.text := by
  rintro ⟨varItem, hv, -⟩
  rw [show variableOf variables' w.text = none from h] at hv
  cases hv

theorem Value.Fine.not_all {v : Value} (h : v.Fine variables') : ¬v.All variables' := by
  rintro ⟨varItem, hv, hall⟩
  unfold Value.Fine at h
  rw [hv] at h
  rw [h.1] at hall
  cases hall

/-- **A value is printed as what it becomes.** -/
theorem visitValue_fine {v : Value} (h : v.Fine variables') :
    ∃ v', v.Replaced variables' v' ∧ visitValue variables' v = v'.text ∧ v'.text ≠ specialSkipMarker := by
  unfold Value.Fine at h
  unfold visitValue Value.Replaced
  cases hv : variableOf variables' v.originalValue with
  | some varItem =>
    rw [hv] at h
    obtain ⟨l, hl, htext⟩ := replaced_of_scalar h.1 h.2
    exact ⟨.literal l, ⟨l, rfl, hl⟩, htext, l.text_ne_marker⟩
  | none =>
    rw [hv] at h
    refine ⟨v, rfl, ?_⟩
    cases v with
    | key w => exact ⟨rfl, h⟩
    | literal l =>
      refine ⟨?_, l.text_ne_marker⟩
      cases l with
      | quoted w => exact if_neg h
      | number _ => rfl
      | bool _ => rfl

theorem visitKey_fine {w : Word .key} (h : KeyFine variables' w) : visitKey variables' w = w.text := by
  rw [visitKey, show variableOf variables' w.text = none from h]

theorem reads_value {v : Value} (h : v.Fine variables') :
    ∃ v', v.Replaced variables' v' ∧ Reads (visitValue variables' v) [v'.token] := by
  obtain ⟨v', hv', htext, -⟩ := visitValue_fine h
  exact ⟨v', hv', htext ▸ v'.reads⟩

theorem Reads.ne_marker {s : Text} {ts : List Token} (h : Reads s ts) (hts : ts ≠ [⟨.key, specialSkipMarker⟩]) :
    s ≠ specialSkipMarker := by
  rintro rfl
  have hm := (Reads.word kindOf_marker (by decide)).lexed_eq
  rw [h.lexed_eq] at hm
  exact hts (Option.some.inj hm)

theorem visitValueList_fine {vs : ValueList} (h : ∀ v ∈ vs.values, v.Fine variables') :
    ∃ vs' : ValueList, List.Forall₂ (Value.Replaced variables') vs.values vs'.values ∧
      Reads (visitValueList variables' vs) (mark .lparen :: (vs'.tokens ++ [mark .rparen])) := by
  obtain ⟨v', rest', hvs, hr⟩ := Reads.list (R := Value.Replaced variables') (f := visitValue variables')
    (g := fun v => [v.token]) vs.first vs.rest (fun v hv => reads_value (h v hv))
  refine ⟨⟨v', rest'⟩, hvs, ?_⟩
  rw [visitValueList, if_neg]
  · exact hr.parens
  · intro hany
    obtain ⟨v, hv, hm⟩ := List.any_eq_true.1 hany
    obtain ⟨v', -, htext, hne⟩ := visitValue_fine (h v hv)
    exact hne (htext.symm.trans (by simpa using hm))

theorem visitInClause_all {c : InClause} (h : c.All variables') : visitInClause variables' c = specialSkipMarker := by
  cases c with
  | valueList vs =>
    obtain ⟨v, hv, hall⟩ := h
    rw [visitInClause, visitValueList, if_pos]
    exact List.any_eq_true.2 ⟨v, hv, by rw [visitValue_all hall]; exact beq_self_eq_true _⟩
  | value v => exact visitValue_all h

theorem InClause.Fine.not_all {c : InClause} (h : c.Fine variables') : ¬c.All variables' := by
  cases c with
  | valueList vs =>
    rintro ⟨v, hv, hall⟩
    exact (h v hv).not_all hall
  | value v =>
    rcases h with h | ⟨varItem, hv, hall, -⟩
    · exact h.not_all
    · exact not_isAll (fun _ hv' => by rw [hv] at hv'; cases hv'; exact hall)

/-- **The values of IN are printed as what they become.** -/
theorem visitInClause_fine {c : InClause} (h : c.Fine variables') :
    ∃ c' ts, c.Replaced variables' c' ∧ c'.Yields ts ∧ Reads (visitInClause variables' c) ts ∧
      visitInClause variables' c ≠ specialSkipMarker := by
  cases c with
  | valueList vs =>
    obtain ⟨vs', hvs, hr⟩ := visitValueList_fine h
    exact ⟨.valueList vs', _, ⟨vs', rfl, hvs⟩, Or.inl rfl, hr, hr.ne_marker (by simp [mark])⟩
  | value v =>
    rcases h with h | ⟨varItem, hv, hall, hlist⟩
    · obtain ⟨v', hv', htext, hne⟩ := visitValue_fine h
      rw [visitInClause, htext]
      exact ⟨.value v', _, Or.inl ⟨v', rfl, hv'⟩, rfl, v'.reads, hne⟩
    · obtain ⟨vs, hvs, hr⟩ := replaced_of_listing hall hlist
      have hvisit : visitValue variables' v = replaced varItem := by
        unfold visitValue
        rw [hv]
      rw [visitInClause, hvisit]
      exact ⟨.valueList vs, _, Or.inr ⟨varItem, vs, hv, rfl, hvs⟩, Or.inr rfl, hr, hr.ne_marker (by simp [mark])⟩

/-! ## Conditions -/

theorem Operator.reads (op : Operator) : ∃ core, op.text = ' ' :: (core ++ [' ']) ∧ Reads core op.tokens := by
  have hnot : Reads ['N', 'O', 'T'] [mark .not'] := Reads.keyword (by decide) (by decide) rfl
  cases op with
  | equals => exact ⟨['='], rfl, Reads.keyword (by decide) (by decide) rfl⟩
  | notEquals => exact ⟨['!', '='], rfl, Reads.keyword (by decide) (by decide) rfl⟩
  | neq => exact ⟨['<', '>'], rfl, Reads.keyword (by decide) (by decide) rfl⟩
  | lt => exact ⟨['<'], rfl, Reads.keyword (by decide) (by decide) rfl⟩
  | le => exact ⟨['<', '='], rfl, Reads.keyword (by decide) (by decide) rfl⟩
  | gt => exact ⟨['>'], rfl, Reads.keyword (by decide) (by decide) rfl⟩
  | ge => exact ⟨['>', '='], rfl, Reads.keyword (by decide) (by decide) rfl⟩
  | like => exact ⟨['L', 'I', 'K', 'E'], rfl, Reads.keyword (by decide) (by decide) rfl⟩
  | ilike => exact ⟨['I', 'L', 'I', 'K', 'E'], rfl, Reads.keyword (by decide) (by decide) rfl⟩
  | regexp => exact ⟨['R', 'E', 'G', 'E', 'X', 'P'], rfl, Reads.keyword (by decide) (by decide) rfl⟩
  | contains => exact ⟨['C', 'O', 'N', 'T', 'A', 'I', 'N', 'S'], rfl, Reads.keyword (by decide) (by decide) rfl⟩
  | notLike => exact ⟨_, rfl, hnot.space (t := ['L', 'I', 'K', 'E']) (Reads.keyword (by decide) (by decide) rfl)⟩
  | notIlike => exact ⟨_, rfl, hnot.space (t := ['I', 'L', 'I', 'K', 'E']) (Reads.keyword (by decide) (by decide) rfl)⟩
  | notRegexp =>
    exact ⟨_, rfl, hnot.space (t := ['R', 'E', 'G', 'E', 'X', 'P']) (Reads.keyword (by decide) (by decide) rfl)⟩
  | notContains =>
    exact ⟨_, rfl, hnot.space (t := ['C', 'O', 'N', 'T', 'A', 'I', 'N', 'S']) (Reads.keyword (by decide) (by decide) rfl)⟩

theorem reads_negated (key : Word .key) (not' : Bool) {s : Text} {ts : List Token} (h : Reads s ts) :
    Reads (key.text ++ notText not' ++ ' ' :: s) (key.token :: (negation not' ++ ts)) := by
  have hkey := key.reads (by decide)
  have hnot : Reads ['N', 'O', 'T'] [mark .not'] := Reads.keyword (by decide) (by decide) rfl
  cases not' with
  | false =>
    have hr := hkey.space h
    simpa [notText, negation] using hr
  | true =>
    have hr := hkey.space (hnot.space h)
    simpa [notText, negation] using hr

/-- **A comparison is printed as what it becomes, or it is removed.** -/
theorem visitComparison_meets {c : Comparison} (h : c.Meets variables') :
    ((Condition.comparison c).Removed variables' ∧ visitComparison variables' c = specialSkipMarker) ∨
      (¬(Condition.comparison c).Removed variables' ∧ ∃ c' ts, c.Replaced variables' c' ∧ c'.Yields ts ∧
        Reads (visitComparison variables' c) ts ∧ ts ≠ [⟨.key, specialSkipMarker⟩]) := by
  cases c with
  | operator key op v =>
    rcases h with hall | ⟨hkey, hv⟩
    · exact Or.inl ⟨Or.inr hall, by rw [visitComparison, if_pos (visitValue_all hall)]⟩
    · obtain ⟨v', hrep, htext, hne⟩ := visitValue_fine hv
      obtain ⟨core, hop, hcore⟩ := op.reads
      refine Or.inr ⟨?_, .operator key op v', _, ⟨hkey, v', rfl, hrep⟩, rfl, ?_, by simp⟩
      · rintro (hall | hall)
        · exact not_isAll_of_keyFine hkey hall
        · exact hv.not_all hall
      · rw [visitComparison, htext, if_neg hne, visitKey_fine hkey, hop]
        have hr := (key.reads (by decide)).space (hcore.space v'.reads)
        simpa using hr
  | between key not' lo hi =>
    rcases h with hall | ⟨hkey, hlo, hhi⟩
    · refine Or.inl ⟨Or.inr hall, ?_⟩
      rw [visitComparison, if_pos (hall.imp visitValue_all visitValue_all)]
    · obtain ⟨lo', hlor, hlot, hlon⟩ := visitValue_fine hlo
      obtain ⟨hi', hhir, hhit, hhin⟩ := visitValue_fine hhi
      refine Or.inr ⟨?_, .between key not' lo' hi', _, ⟨hkey, lo', hi', rfl, hlor, hhir⟩, rfl, ?_, by
        intro h; have := congrArg List.length h; cases not' <;> simp [negation] at this⟩
      · rintro (hall | hall | hall)
        · exact not_isAll_of_keyFine hkey hall
        · exact hlo.not_all hall
        · exact hhi.not_all hall
      · have hbetween : Reads ['B', 'E', 'T', 'W', 'E', 'E', 'N'] [mark .between] := Reads.keyword (by decide) (by decide) rfl
        have hand : Reads ['A', 'N', 'D'] [mark .and'] := Reads.keyword (by decide) (by decide) rfl
        have hr := reads_negated key not' (hbetween.space (lo'.reads.space (hand.space hi'.reads)))
        rw [visitComparison, hlot, hhit, if_neg (not_or.2 ⟨hlon, hhin⟩), visitKey_fine hkey]
        simpa using hr
  | inClause key not' c =>
    rcases h with hall | ⟨hkey, hc⟩
    · exact Or.inl ⟨Or.inr hall, by rw [visitComparison, if_pos (visitInClause_all hall)]⟩
    · obtain ⟨d, ts, hrep, hyields, hreads, hne⟩ := visitInClause_fine hc
      refine Or.inr ⟨?_, .inClause key not' d, _, ⟨hkey, d, rfl, hrep⟩, ⟨ts, hyields, rfl⟩, ?_, by
        intro h; have := congrArg List.length h; cases not' <;> simp [negation] at this⟩
      · rintro (hall | hall)
        · exact not_isAll_of_keyFine hkey hall
        · exact hc.not_all hall
      · have hin : Reads ['I', 'N'] [mark .in'] := Reads.keyword (by decide) (by decide) rfl
        have hr := reads_negated key not' (hin.space hreads)
        rw [visitComparison, if_neg hne, visitKey_fine hkey]
        simpa using hr
  | exists' key not' =>
    refine Or.inr ⟨not_isAll_of_keyFine h, .exists' key not', _, ⟨h, rfl⟩, rfl, ?_, by
      intro h; have := congrArg List.length h; cases not' <;> simp [negation] at this⟩
    have hexists : Reads ['E', 'X', 'I', 'S', 'T', 'S'] [mark .exists'] := Reads.keyword (by decide) (by decide) rfl
    have hr := reads_negated key not' hexists
    rw [visitComparison, visitKey_fine h]
    simpa using hr

theorem paramReplaced_of_none {text : Text} (p : FunctionParam) (hv : variableOf variables' text = none) :
    ParamReplaced variables' text p p := by
  unfold ParamReplaced
  rw [hv]

theorem paramReplaced_of_literal {text : Text} (p : FunctionParam) {varItem : VariableItem} {l : Literal}
    (hv : variableOf variables' text = some varItem) (hl : Denotes l varItem.value) :
    ParamReplaced variables' text p (.value l) := by
  unfold ParamReplaced
  rw [hv]
  exact Or.inl ⟨l, rfl, hl⟩

theorem reads_param {text : Text} (p : FunctionParam) {varItem : VariableItem}
    (hv : variableOf variables' text = some varItem) (hall : varItem.isAll = false)
    (h : varItem.value.Scalar ∨ varItem.value.Listing) :
    ∃ p', ParamReplaced variables' text p p' ∧ Reads (replaced varItem) p'.tokens := by
  rcases h with h | h
  · obtain ⟨l, hl, htext⟩ := replaced_of_scalar hall h
    exact ⟨.value l, paramReplaced_of_literal p hv hl, htext ▸ l.reads⟩
  · obtain ⟨vs, hvs, hr⟩ := replaced_of_listing hall h
    refine ⟨.array vs, ?_, hr⟩
    unfold ParamReplaced
    rw [hv]
    exact Or.inr ⟨vs, rfl, hvs⟩

theorem visitValue_variable {v : Value} {varItem : VariableItem} (hv : variableOf variables' v.originalValue = some varItem) :
    visitValue variables' v = replaced varItem := by
  unfold visitValue
  rw [hv]

/-- **A parameter is printed as what it becomes.** -/
theorem visitFunctionParam_meets {p : FunctionParam} (h : p.Meets variables') :
    ¬p.All variables' ∧ ∃ p', p.Replaced variables' p' ∧ Reads (visitFunctionParam variables' p) p'.tokens := by
  cases p with
  | key w =>
    refine ⟨not_isAll (fun varItem hv => (h varItem hv).1), ?_⟩
    rw [visitFunctionParam, visitKey]
    cases hv : variableOf variables' w.text with
    | some varItem => exact reads_param _ hv (h varItem hv).1 (h varItem hv).2
    | none => exact ⟨.key w, paramReplaced_of_none _ hv, w.reads (by decide)⟩
  | value l =>
    rw [visitFunctionParam]
    rcases h with h | ⟨varItem, hv, hall, hlist⟩
    · refine ⟨h.not_all, ?_⟩
      obtain ⟨v', hrep, hr⟩ := reads_value h
      unfold Value.Replaced at hrep
      cases hv : variableOf variables' (Value.literal l).originalValue with
      | some varItem =>
        rw [hv] at hrep
        obtain ⟨l', rfl, hl'⟩ := hrep
        exact ⟨.value l', paramReplaced_of_literal _ hv hl', hr⟩
      | none =>
        rw [hv] at hrep
        cases hrep
        exact ⟨.value l, paramReplaced_of_none _ hv, hr⟩
    · refine ⟨not_isAll (fun _ hv' => by rw [hv] at hv'; cases hv'; exact hall), ?_⟩
      rw [visitValue_variable hv]
      exact reads_param _ hv hall (Or.inr hlist)
  | array vs => exact h.elim

theorem FunctionName.reads (name : FunctionName) : Reads name.text [mark name.kind] := by
  cases name <;> exact Reads.keyword (by decide) (by decide) rfl

theorem Literal.condition_yields : ∀ l : Literal, l.condition.Yields [l.token]
  | .quoted _ | .number _ | .bool _ => rfl

theorem variableOf_word {k : Kind} (w : Word k) (hk : k ≠ .key) (hf : k ≠ .freeText) : variableOf variables' w.text = none := by
  have hw := w.is
  unfold variableOf
  split
  · rename_i name heq
    rw [heq] at hw
    rcases kind_of_dollar hw with rfl | rfl
    · exact absurd rfl hk
    · exact absurd rfl hf
  · rfl

theorem visitValue_plain (l : Literal) (h : variableOf variables' (Value.literal l).originalValue = none)
    (ht : (Value.literal l).originalValue = l.text) (hq : ∀ w, l ≠ .quoted w) :
    visitValue variables' (.literal l) = l.text := by
  unfold visitValue
  rw [h]
  cases l with
  | quoted w => exact absurd rfl (hq w)
  | _ => exact ht

/-- **A condition is printed as what it becomes, or it is removed.** -/
theorem visitCondition_meets {c : Condition} (h : c.Meets variables') :
    (c.Removed variables' ∧ visitCondition variables' c = specialSkipMarker) ∨
      (¬c.Removed variables' ∧ ∃ c' ts, c.Replaced variables' c' ∧ c'.Yields ts ∧
        Reads (visitCondition variables' c) ts ∧ visitCondition variables' c ≠ specialSkipMarker) := by
  cases c with
  | comparison c =>
    rcases visitComparison_meets h with hall | ⟨hnot, c', ts, hrep, hyields, hr, hne⟩
    · exact Or.inl hall
    · exact Or.inr ⟨hnot, .comparison c', ts, ⟨c', rfl, hrep⟩, hyields, hr, hr.ne_marker hne⟩
  | functionCall name ps =>
    obtain ⟨p', rest', hps, hr⟩ := Reads.list (R := FunctionParam.Replaced variables') (f := visitFunctionParam variables')
      (g := FunctionParam.tokens) ps.first ps.rest (fun p hp => (visitFunctionParam_meets (h p hp)).2)
    have hcall := name.reads.append hr.parens rfl
    refine Or.inr ⟨?_, .functionCall name ⟨p', rest'⟩, _, ⟨_, rfl, hps⟩, rfl, hcall, hcall.ne_marker (by simp)⟩
    rintro ⟨p, hp, hall⟩
    exact (visitFunctionParam_meets (h p hp)).1 hall
  | quotedText w =>
    exact Or.inr ⟨not_false, .quotedText w, _, rfl, rfl, w.reads (by decide), w.text_ne_marker (by decide)⟩
  | freeText w =>
    exact Or.inr ⟨not_false, .freeText w, _, rfl, rfl, w.reads (by decide), w.text_ne_marker (by decide)⟩
  | number w =>
    rw [visitCondition, visitValue_plain (.number w) (variableOf_word w (by decide) (by decide)) rfl (fun _ h => by cases h)]
    exact Or.inr ⟨not_false, .number w, _, rfl, rfl, w.reads (by decide), w.text_ne_marker (by decide)⟩
  | bool w =>
    rw [visitCondition, visitValue_plain (.bool w) (variableOf_word w (by decide) (by decide)) rfl (fun _ h => by cases h)]
    exact Or.inr ⟨not_false, .bool w, _, rfl, rfl, w.reads (by decide), w.text_ne_marker (by decide)⟩
  | key w =>
    rcases h with hall | hfine
    · exact Or.inl ⟨hall, visitKey_all hall⟩
    · refine Or.inr ⟨hfine.not_all, ?_⟩
      unfold Value.Fine Value.originalValue at hfine
      unfold Condition.Replaced visitCondition visitKey
      cases hv : variableOf variables' w.text with
      | some varItem =>
        simp only [hv] at hfine ⊢
        obtain ⟨l, hl, htext⟩ := replaced_of_scalar hfine.1 hfine.2
        rw [htext]
        exact ⟨l.condition, _, ⟨l, rfl, hl⟩, l.condition_yields, l.reads, l.text_ne_marker⟩
      | none =>
        simp only [hv] at hfine ⊢
        exact ⟨.key w, _, rfl, rfl, w.reads (by decide), hfine⟩

/-! ## Expressions -/

theorem kept_marker : kept specialSkipMarker = [] := if_pos (Or.inl rfl)

theorem kept_of_reads {s : Text} {ts : List Token} (h : Reads s ts) (hne : s ≠ specialSkipMarker) : kept s = [s] := by
  obtain ⟨c, s', rfl, -⟩ := h.head
  exact if_neg (by simp [hne])

theorem joinedParts_nil (sep : Text) : joinedParts sep [] = specialSkipMarker := rfl

theorem joinedParts_one (sep s : Text) : joinedParts sep [s] = s := by
  rw [joinedParts, if_neg (by simp)]
  simp [List.intercalate]

theorem joinedParts_cons (sep s : Text) {parts : List Text} (h : parts ≠ []) :
    joinedParts sep (s :: parts) = s ++ (sep ++ joinedParts sep parts) := by
  cases parts with
  | nil => exact absurd rfl h
  | cons p l =>
    rw [joinedParts, joinedParts, if_neg (by simp), if_neg (by simp)]
    rfl

/-- Parts that are printed as a tree with some tokens, or none where the tree is taken out. -/
def PartsPrinted {α : Type} (Gone : Prop) (Substituted : Option α → Prop) (Yields : α → List Token → Prop) (sep : Text)
    (parts : List Text) : Prop :=
  (Gone ∧ Substituted none ∧ parts = []) ∨
    (¬Gone ∧ parts ≠ [] ∧ ∃ x ts, Substituted (some x) ∧ Yields x ts ∧ Reads (joinedParts sep parts) ts ∧
      joinedParts sep parts ≠ specialSkipMarker)

/-- A text that is printed as a tree with some tokens, or the marker where the tree is taken out. -/
def TextPrinted {α : Type} (Gone : Prop) (Substituted : Option α → Prop) (Yields : α → List Token → Prop) (s : Text) : Prop :=
  (Gone ∧ Substituted none ∧ s = specialSkipMarker) ∨
    (¬Gone ∧ ∃ x ts, Substituted (some x) ∧ Yields x ts ∧ Reads s ts ∧ s ≠ specialSkipMarker)

section
variable {α β : Type} {G : Prop} {H : Prop} {S : Option α → Prop} {T : Option β → Prop} {Y : α → List Token → Prop}
  {Z : β → List Token → Prop} {sep s : Text} {parts : List Text}

theorem PartsPrinted.text (h : PartsPrinted G S Y sep parts) : TextPrinted G S Y (joinedParts sep parts) := by
  rcases h with ⟨hg, hs, rfl⟩ | ⟨hg, -, hprinted⟩
  · exact Or.inl ⟨hg, hs, joinedParts_nil sep⟩
  · exact Or.inr ⟨hg, hprinted⟩

theorem TextPrinted.one (h : TextPrinted G S Y s) (one : α → β) (hnone : S none → T none)
    (hone : ∀ x, S (some x) → T (some (one x))) (hyields : ∀ x ts, Y x ts → Z (one x) ts) :
    PartsPrinted G T Z sep (kept s) := by
  rcases h with ⟨hg, hs, rfl⟩ | ⟨hg, x, ts, hs, hy, hr, hne⟩
  · exact Or.inl ⟨hg, hnone hs, kept_marker⟩
  · rw [kept_of_reads hr hne]
    refine Or.inr ⟨hg, cons_ne_nil _ _, one x, ts, hone x hs, hyields x ts hy, ?_⟩
    rw [joinedParts_one]
    exact ⟨hr, hne⟩

theorem TextPrinted.cons (h : TextPrinted G S Y s) (hrest : PartsPrinted H T Z sep parts) {U : Option β → Prop} (one : α → β)
    (cons : α → β → β) (hnone : ∀ r, S none → T r → U r) (hone : ∀ x, S (some x) → T none → U (some (one x)))
    (hcons : ∀ x r, S (some x) → T (some r) → U (some (cons x r))) (hyone : ∀ x ts, Y x ts → Z (one x) ts)
    {w : Text} {k : Kind} (hsep : sep = ' ' :: (w ++ [' '])) (hw : Reads w [mark k])
    (hycons : ∀ x r ts us, Y x ts → Z r us → Z (cons x r) (ts ++ mark k :: us)) :
    PartsPrinted (G ∧ H) U Z sep (kept s ++ parts) := by
  rcases h with ⟨hg, hs, rfl⟩ | ⟨hg, x, ts, hs, hy, hr, hne⟩
  · rw [kept_marker, nil_append]
    rcases hrest with ⟨hh, ht, hp⟩ | ⟨hh, hp, r, us, ht, hz, hr', hne'⟩
    · exact Or.inl ⟨⟨hg, hh⟩, hnone none hs ht, hp⟩
    · exact Or.inr ⟨fun h => hh h.2, hp, r, us, hnone (some r) hs ht, hz, hr', hne'⟩
  · rw [kept_of_reads hr hne, singleton_append]
    rcases hrest with ⟨-, ht, rfl⟩ | ⟨-, hp, r, us, ht, hz, hr', -⟩
    · rw [← joinedParts_one sep s] at hr hne
      exact Or.inr ⟨fun h => hg h.1, cons_ne_nil _ _, one x, ts, hone x hs ht, hyone x ts hy, hr, hne⟩
    · have hread := hr.space (hw.space hr')
      have hjoin : joinedParts sep (s :: parts) = s ++ ' ' :: (w ++ ' ' :: joinedParts sep parts) := by
        rw [joinedParts_cons sep s hp]
        nth_rewrite 1 [hsep]
        simp
      rw [← hjoin] at hread
      refine Or.inr ⟨fun h => hg h.1, cons_ne_nil _ _, cons x r, _, hcons x r hs ht, hycons x r ts us hy hz, hread, ?_⟩
      refine hread.ne_marker (fun heq => ?_)
      have hk : mark k ∈ [(⟨.key, specialSkipMarker⟩ : Token)] := heq ▸ by simp
      have hnil : ([] : Text) ≠ specialSkipMarker := by decide
      exact hnil (congrArg Token.text (mem_singleton.1 hk))

end

theorem reads_and : Reads ['A', 'N', 'D'] [mark .and'] := Reads.keyword (by decide) (by decide) rfl

theorem reads_or : Reads ['O', 'R'] [mark .or'] := Reads.keyword (by decide) (by decide) rfl

theorem reads_not : Reads ['N', 'O', 'T'] [mark .not'] := Reads.keyword (by decide) (by decide) rfl

mutual

theorem orParts_printed : ∀ e : OrExpression, e.Meets variables' →
    PartsPrinted (e.Gone variables') (e.Substituted variables') OrExpression.Yields [' ', 'O', 'R', ' '] (orParts variables' e)
  | .one a, h =>
    (andParts_printed a h).text.one .one (fun hs => ⟨none, hs, rfl⟩) (fun x hs => ⟨some x, hs, rfl⟩) (fun _ _ hy => hy)
  | .cons a rest, h =>
    (andParts_printed a h.1).text.cons (orParts_printed rest h.2) .one .cons (fun r hs ht => ⟨none, r, hs, ht, rfl⟩)
      (fun x hs ht => ⟨some x, none, hs, ht, rfl⟩) (fun x r hs ht => ⟨some x, some r, hs, ht, rfl⟩) (fun _ _ hy => hy) rfl
      reads_or (fun _ _ ts us hy hz => ⟨ts, us, hy, hz, rfl⟩)

theorem andParts_printed : ∀ a : AndExpression, a.Meets variables' →
    PartsPrinted (a.Gone variables') (a.Substituted variables') AndExpression.Yields [' ', 'A', 'N', 'D', ' ']
      (andParts variables' a)
  | .one u, h =>
    (visitUnaryExpression_printed u h).one .one (fun hs => ⟨none, hs, rfl⟩) (fun x hs => ⟨some x, hs, rfl⟩) (fun _ _ hy => hy)
  | .cons u rest, h =>
    (visitUnaryExpression_printed u h.1).cons (andParts_printed rest h.2) .one .cons (fun r hs ht => ⟨none, r, hs, ht, rfl⟩)
      (fun x hs ht => ⟨some x, none, hs, ht, rfl⟩) (fun x r hs ht => ⟨some x, some r, hs, ht, rfl⟩) (fun _ _ hy => hy) rfl
      reads_and (fun _ _ ts us hy hz => ⟨ts, us, hy, hz, Or.inl rfl⟩)

theorem visitUnaryExpression_printed : ∀ u : UnaryExpression, u.Meets variables' →
    TextPrinted (u.Gone variables') (u.Substituted variables') UnaryExpression.Yields (visitUnaryExpression variables' u)
  | .mk not' p, h => by
    rw [visitUnaryExpression]
    rcases visitPrimary_printed p h with ⟨hg, hs, hp⟩ | ⟨hg, x, ts, hs, hy, hr, hne⟩
    · rw [if_pos hp]
      exact Or.inl ⟨hg, ⟨none, hs, rfl⟩, rfl⟩
    · rw [if_neg hne]
      cases not' with
      | false => exact Or.inr ⟨hg, .mk false x, ts, ⟨some x, hs, rfl⟩, ⟨ts, hy, rfl⟩, hr, hne⟩
      | true =>
        have hnot := reads_not.space hr
        exact Or.inr ⟨hg, .mk true x, _, ⟨some x, hs, rfl⟩, ⟨ts, hy, rfl⟩, hnot, hnot.ne_marker (by simp [mark])⟩

theorem visitPrimary_printed : ∀ p : Primary, p.Meets variables' →
    TextPrinted (p.Gone variables') (p.Substituted variables') Primary.Yields (visitPrimary variables' p)
  | .group e, h => by
    rw [visitPrimary]
    rcases (orParts_printed e h.1).text with ⟨hg, -⟩ | ⟨hg, x, ts, hs, hy, hr, -⟩
    · exact absurd hg h.2
    · exact Or.inr ⟨hg, .group x, _, ⟨some x, hs, rfl⟩, ⟨ts, hy, rfl⟩, hr.parens, hr.parens.ne_marker (by simp)⟩
  | .condition c, h => by
    rw [visitPrimary]
    rcases visitCondition_meets h with ⟨hg, hp⟩ | ⟨hg, c', ts, hrep, hy, hr, hne⟩
    · exact Or.inl ⟨hg, ⟨none, Or.inl ⟨hg, rfl⟩, rfl⟩, hp⟩
    · exact Or.inr ⟨hg, .condition c', ts, ⟨some c', Or.inr ⟨hg, c', rfl, hrep⟩, rfl⟩, hy, hr, hne⟩

end

end

/-! ## The result -/

/-- The result of the replacement: empty where every condition is taken out, or else a text that parses to the substituted
tree. -/
def ReplacedBy (variables' : GoMap Text VariableItem) (e : OrExpression) (out : Text) : Prop :=
  (out = [] ∧ e.Substituted variables' none) ∨ ∃ e', e.Substituted variables' (some e') ∧ Parses out e'

section
variable {variables' : GoMap Text VariableItem}

mutual

theorem OrExpression.substituted_of_gone : ∀ {e : OrExpression} {o : Option OrExpression}, e.Gone variables' →
    e.Substituted variables' o → o = none
  | .one _, _, hg, ⟨a', hs, ho⟩ => by rw [ho, AndExpression.substituted_of_gone hg hs]; rfl
  | .cons _ _, _, hg, ⟨a', rest', hs, hr, ho⟩ => by
    rw [ho, AndExpression.substituted_of_gone hg.1 hs, OrExpression.substituted_of_gone hg.2 hr]; rfl

theorem AndExpression.substituted_of_gone : ∀ {a : AndExpression} {o : Option AndExpression}, a.Gone variables' →
    a.Substituted variables' o → o = none
  | .one _, _, hg, ⟨u', hs, ho⟩ => by rw [ho, UnaryExpression.substituted_of_gone hg hs]; rfl
  | .cons _ _, _, hg, ⟨u', rest', hs, hr, ho⟩ => by
    rw [ho, UnaryExpression.substituted_of_gone hg.1 hs, AndExpression.substituted_of_gone hg.2 hr]; rfl

theorem UnaryExpression.substituted_of_gone : ∀ {u : UnaryExpression} {o : Option UnaryExpression}, u.Gone variables' →
    u.Substituted variables' o → o = none
  | .mk _ _, _, hg, ⟨p', hs, ho⟩ => by rw [ho, Primary.substituted_of_gone hg hs]; rfl

theorem Primary.substituted_of_gone : ∀ {p : Primary} {o : Option Primary}, p.Gone variables' →
    p.Substituted variables' o → o = none
  | .group _, _, hg, ⟨e', hs, ho⟩ => by rw [ho, OrExpression.substituted_of_gone hg hs]; rfl
  | .condition _, _, hg, ⟨c', hs, ho⟩ => by
    rcases hs with ⟨-, hc⟩ | ⟨hn, -⟩
    · rw [ho, hc]; rfl
    · exact absurd hg hn

end

end

def envKey : Word .key := ⟨['e', 'n', 'v'], by decide⟩

def envCondition : Condition := .comparison (.operator envKey .equals (.key ⟨['$', 'e'], by decide⟩))

def dynamicVariable (value : Text) : GoMap Text VariableItem := AList.singleton ['e'] ⟨.dynamic, .string value⟩

theorem variableOf_dynamic (value : Text) :
    variableOf (dynamicVariable value) ['$', 'e'] = some ⟨.dynamic, .string value⟩ := rfl

def specialAll : Text := "__all__".toList

end Variables
end DsApm
