import DsApm.Rules.Eval
/-!
# AfterRestart — the first states recorded after a restart

`implrulestatehistory/module.go`: what was saved last of each fingerprint is compared with the current items, and an entry is
added where the two differ.  What an absent fingerprint's saved state becomes depends on which state it is, and the overall
state is that of the added entries alone.  `reconciled_iff` says on which inputs the history is right afterwards.
-/
namespace DsApm
namespace Rules

open Option

/-- `item.State == StateFiring || item.State == StateNoData`. -/
def AlertState.Raised (st : AlertState) : Prop := st = .firing ∨ st = .noData

instance (st : AlertState) : Decidable st.Raised := inferInstanceAs (Decidable (_ ∨ _))

section
variable {V : Type}

namespace RuleStateHistory

def byFingerprint (items : List (RuleStateHistory V)) : GoMap Nat (RuleStateHistory V) :=
  items.foldl (fun m item => GoMap.putIf (fun _ => some item) m item.fingerprint) ∅

def changedTo (item : RuleStateHistory V) (st : AlertState) (now : Nat → Int) : RuleStateHistory V :=
  { item with state := st, stateChanged := true, unixMilli := now item.fingerprint }

def revise (now : Nat → Int) (current : GoMap Nat (RuleStateHistory V)) (item : RuleStateHistory V) : Option (RuleStateHistory V) :=
  match current.lookup item.fingerprint with
  | none => if item.state.Raised then some (item.changedTo .inactive now) else none
  | some currentState => if item.state ≠ currentState.state then some (item.changedTo currentState.state now) else none

end RuleStateHistory

open RuleStateHistory

/-- The entries that are added for the fingerprints, before the overall state is set. -/
def revisedItems (now : Nat → Int) (lastSavedState itemsToAdd : List (RuleStateHistory V)) : GoMap Nat (RuleStateHistory V) :=
  let current := byFingerprint itemsToAdd
  let revised := lastSavedState.foldl (fun m item => GoMap.putIf (fun _ => item.revise now current) m item.fingerprint) ∅
  let shouldSkip := lastSavedState.map RuleStateHistory.fingerprint
  itemsToAdd.foldl (fun m item => GoMap.putIf (fun old => if old = none ∧ item.fingerprint ∉ shouldSkip then some item else none)
    m item.fingerprint) revised

/-- `RecordRuleStateHistory`: the entries that are added, in any order. -/
def recordRuleStateHistory (now : Nat → Int) (handledRestart : Bool) (lastSavedState itemsToAdd : List (RuleStateHistory V)) :
    GoMap Nat (RuleStateHistory V) :=
  match handledRestart, lastSavedState with
  | false, first :: _ =>
    let revised := revisedItems now lastSavedState itemsToAdd
    let newState := if ∃ item ∈ GoMap.values revised, item.state.Raised then AlertState.firing else .inactive
    if first.overallState ≠ newState then
      GoMap.filterMapVal (fun _ item => some { item with overallState := newState, overallStateChanged := true }) revised
    else revised
  | _, _ => byFingerprint itemsToAdd

/-! ## What the history says afterwards -/

def find (items : List (RuleStateHistory V)) (fp : Nat) : Option (RuleStateHistory V) := items.find? fun item => item.fingerprint = fp

/-- The state of a fingerprint: of the added entry, else of the saved one; one without either is inactive. -/
def stateAfter (saved : List (RuleStateHistory V)) (added : GoMap Nat (RuleStateHistory V)) (fp : Nat) : AlertState :=
  (((added.lookup fp).or (find saved fp)).map RuleStateHistory.state).getD .inactive

structure Reconciled (saved items : List (RuleStateHistory V)) (added : GoMap Nat (RuleStateHistory V)) : Prop where
  current : ∀ item ∈ items, stateAfter saved added item.fingerprint = item.state
  others : ∀ fp, (∀ item ∈ items, item.fingerprint ≠ fp) → stateAfter saved added fp = .inactive
  changed : ∀ fp entry, added.lookup fp = some entry → ∀ item ∈ saved, item.fingerprint = fp → item.state ≠ entry.state
  overall : ∀ fp entry, added.lookup fp = some entry →
    (entry.overallState = .firing ↔ ∃ fp, (stateAfter saved added fp).Raised)

/-! ## The inputs on which it is -/

variable (saved items : List (RuleStateHistory V))

def Anew (item : RuleStateHistory V) : Prop := ∀ old ∈ saved, old.fingerprint = item.fingerprint → old.state ≠ item.state

instance (item : RuleStateHistory V) : Decidable (Anew saved item) := inferInstanceAs (Decidable (∀ old ∈ saved, _))

/-- The record that an entry is made from: an item without a saved entry, or a saved entry whose state changes. -/
def Origin (r : RuleStateHistory V) : Prop :=
  (r ∈ items ∧ ∀ old ∈ saved, old.fingerprint ≠ r.fingerprint) ∨
  (r ∈ saved ∧ ((∃ item ∈ items, item.fingerprint = r.fingerprint ∧ r.state ≠ item.state) ∨
    ((∀ item ∈ items, item.fingerprint ≠ r.fingerprint) ∧ r.state.Raised)))

def newState : AlertState := if ∃ item ∈ items, item.state.Raised ∧ Anew saved item then .firing else .inactive

def OverallChanges : Prop := ∃ first ∈ saved.head?, first.overallState ≠ newState saved items

instance : Decidable (OverallChanges saved items) := inferInstanceAs (Decidable (∃ first ∈ saved.head?, _))

/-- No saved state is left standing that should go, and the overall state is right: where it is set, an item that is firing
or without data is among those that are new or have changed; where it is not, each record has the right one already. -/
structure Reconcilable : Prop where
  gone : ∀ old ∈ saved, (∀ item ∈ items, item.fingerprint ≠ old.fingerprint) → old.state = .inactive ∨ old.state.Raised
  set : OverallChanges saved items → (∃ r, Origin saved items r) → (∃ item ∈ items, item.state.Raised) →
    ∃ item ∈ items, item.state.Raised ∧ Anew saved item
  kept : ¬ OverallChanges saved items → ∀ r, Origin saved items r →
    (r.overallState = .firing ↔ ∃ item ∈ items, item.state.Raised)

/-! ## The entries -/

variable {saved items}

theorem find_eq_some (hs : (saved.map RuleStateHistory.fingerprint).Nodup) {fp : Nat} {r : RuleStateHistory V} :
    find saved fp = some r ↔ r ∈ saved ∧ r.fingerprint = fp := by
  unfold find
  constructor
  · exact fun h => ⟨List.mem_of_find?_eq_some h, by simpa using List.find?_some h⟩
  · rintro ⟨hr, rfl⟩
    cases h : saved.find? fun item => item.fingerprint = r.fingerprint with
    | none =>
      have hne := List.find?_eq_none.1 h r hr
      simp at hne
    | some r' =>
      have hfp : r'.fingerprint = r.fingerprint := by simpa using List.find?_some h
      rw [List.inj_on_of_nodup_map hs (List.mem_of_find?_eq_some h) hr hfp]

theorem find_eq_none {fp : Nat} : find saved fp = none ↔ ∀ r ∈ saved, r.fingerprint ≠ fp := by
  simp [find]

theorem lookup_byFingerprint (hi : (items.map RuleStateHistory.fingerprint).Nodup) (fp : Nat) :
    (byFingerprint items).lookup fp = find items fp := by
  rw [byFingerprint, GoMap.lookup_foldl_putIf RuleStateHistory.fingerprint (fun item _ => some item) items ∅ fp hi, find]
  simp

def entryOf (now : Nat → Int) : Option (RuleStateHistory V) → Option (RuleStateHistory V) → Option (RuleStateHistory V)
  | none, item => item
  | some old, none => if old.state.Raised then some (old.changedTo .inactive now) else none
  | some old, some item => if old.state ≠ item.state then some (old.changedTo item.state now) else none

variable (hs : (saved.map RuleStateHistory.fingerprint).Nodup) (hi : (items.map RuleStateHistory.fingerprint).Nodup)
include hs hi

theorem lookup_revisedItems (now : Nat → Int) (fp : Nat) :
    (revisedItems now saved items).lookup fp = entryOf now (find saved fp) (find items fp) := by
  have hrevised : (saved.foldl (fun m item => GoMap.putIf (fun _ => item.revise now (byFingerprint items)) m item.fingerprint) ∅).lookup fp =
      (find saved fp).bind fun item => item.revise now (byFingerprint items) := by
    rw [GoMap.lookup_foldl_putIf RuleStateHistory.fingerprint (fun item _ => item.revise now (byFingerprint items)) saved ∅ fp hs,
      AList.lookup_empty, or_none]
    rfl
  have hadded : (revisedItems now saved items).lookup fp = ((find items fp).bind fun item =>
      if ((find saved fp).bind fun item => item.revise now (byFingerprint items)) = none ∧
        item.fingerprint ∉ saved.map RuleStateHistory.fingerprint then some item else none).or
      ((find saved fp).bind fun item => item.revise now (byFingerprint items)) := by
    rw [← hrevised]
    exact GoMap.lookup_foldl_putIf RuleStateHistory.fingerprint
      (fun item old => if old = none ∧ item.fingerprint ∉ saved.map RuleStateHistory.fingerprint then some item else none) items _ fp hi
  rw [hadded]
  cases hold : find saved fp with
  | none =>
    cases hitem : find items fp with
    | none => rfl
    | some item =>
      have hnew : item.fingerprint ∉ saved.map RuleStateHistory.fingerprint := by
        rw [List.mem_map]
        rintro ⟨old, hmem, hfp⟩
        exact find_eq_none.1 hold old hmem (hfp.trans ((find_eq_some hi).1 hitem).2)
      rw [bind_none, bind_some, if_pos ⟨rfl, hnew⟩]
      rfl
  | some old =>
    obtain ⟨hmem, hfp⟩ := (find_eq_some hs).1 hold
    have hskip : ∀ item ∈ find items fp, item.fingerprint ∈ saved.map RuleStateHistory.fingerprint := fun item hitem => by
      rw [((find_eq_some hi).1 hitem).2, ← hfp]
      exact List.mem_map_of_mem hmem
    cases hitem : find items fp with
    | none => simp [RuleStateHistory.revise, lookup_byFingerprint hi, hfp, hitem, entryOf]
    | some item =>
      rw [bind_some, if_neg fun h => h.2 (hskip item hitem), none_or]
      simp [RuleStateHistory.revise, lookup_byFingerprint hi, hfp, hitem, entryOf]

omit hs hi in
theorem entryOf_raised {now : Nat → Int} {old item : Option (RuleStateHistory V)} :
    (∃ entry ∈ entryOf now old item, entry.state.Raised) ↔
      ∃ i ∈ item, i.state.Raised ∧ ∀ o ∈ old, o.state ≠ i.state := by
  cases old with
  | none => simp [entryOf]
  | some old =>
    cases item with
    | none =>
      have hinactive : ¬ AlertState.inactive.Raised := by decide
      by_cases h : old.state.Raised <;> simp [entryOf, h, RuleStateHistory.changedTo, hinactive]
    | some item => by_cases h : old.state = item.state <;> simp [entryOf, h, RuleStateHistory.changedTo]

theorem raised_revisedItems (now : Nat → Int) :
    (∃ item ∈ GoMap.values (revisedItems now saved items), item.state.Raised) ↔ ∃ item ∈ items, item.state.Raised ∧ Anew saved item := by
  constructor
  · rintro ⟨entry, hentry, hraised⟩
    obtain ⟨fp, hfp⟩ := GoMap.mem_values.1 hentry
    rw [lookup_revisedItems hs hi] at hfp
    obtain ⟨item, hitem, hr, hold⟩ := entryOf_raised.1 ⟨entry, hfp, hraised⟩
    obtain ⟨hmem, rfl⟩ := (find_eq_some hi).1 hitem
    exact ⟨item, hmem, hr, fun old ho hfp => hold old ((find_eq_some hs).2 ⟨ho, hfp⟩)⟩
  · rintro ⟨item, hmem, hr, hanew⟩
    obtain ⟨entry, hentry, hraised⟩ := (@entryOf_raised _ now (find saved item.fingerprint) (find items item.fingerprint)).2
      ⟨item, (find_eq_some hi).2 ⟨hmem, rfl⟩, hr, fun old ho =>
        hanew old ((find_eq_some hs).1 ho).1 ((find_eq_some hs).1 ho).2⟩
    rw [← lookup_revisedItems hs hi now] at hentry
    exact ⟨entry, GoMap.mem_values.2 ⟨_, hentry⟩, hraised⟩

theorem lookup_recorded (now : Nat → Int) (fp : Nat) :
    (recordRuleStateHistory now false saved items).lookup fp = (entryOf now (find saved fp) (find items fp)).map fun entry =>
      if OverallChanges saved items then { entry with overallState := newState saved items, overallStateChanged := true } else entry := by
  cases hsaved : saved with
  | nil =>
    have hkeep : ¬ OverallChanges ([] : List (RuleStateHistory V)) items := by simp [OverallChanges]
    simp [recordRuleStateHistory, hkeep, lookup_byFingerprint hi, find, entryOf]
  | cons first rest =>
    rw [← hsaved]
    have hnew : (if ∃ item ∈ GoMap.values (revisedItems now saved items), item.state.Raised then AlertState.firing else .inactive) =
        newState saved items := by
      simp only [newState, raised_revisedItems hs hi now]
    have hrecorded : recordRuleStateHistory now false saved items = if first.overallState ≠ newState saved items then
        GoMap.filterMapVal (fun _ item => some { item with overallState := newState saved items, overallStateChanged := true })
          (revisedItems now saved items) else revisedItems now saved items := by
      rw [← hnew, hsaved]
      rfl
    have hchanges : OverallChanges saved items ↔ first.overallState ≠ newState saved items := by
      simp [OverallChanges, hsaved]
    rw [hrecorded]
    by_cases h : OverallChanges saved items
    · rw [if_pos (hchanges.1 h), GoMap.lookup_filterMapVal, lookup_revisedItems hs hi]
      simp only [if_pos h]
      cases entryOf now (find saved fp) (find items fp) <;> rfl
    · rw [if_neg (hchanges.not.1 h), lookup_revisedItems hs hi]
      simp [h]

theorem stateAfter_recorded (now : Nat → Int) (fp : Nat) :
    stateAfter saved (recordRuleStateHistory now false saved items) fp =
      match find items fp, find saved fp with
      | some item, _ => item.state
      | none, some old => if old.state.Raised then .inactive else old.state
      | none, none => .inactive := by
  have hstate : ∀ o : Option (RuleStateHistory V), (o.map fun entry => if OverallChanges saved items then
      { entry with overallState := newState saved items, overallStateChanged := true } else entry).map RuleStateHistory.state =
        o.map RuleStateHistory.state := by
    rintro (_ | entry)
    · rfl
    · by_cases h : OverallChanges saved items <;> simp [h]
  unfold stateAfter
  rw [lookup_recorded hs hi, map_or, hstate, ← map_or]
  cases find saved fp with
  | none => cases find items fp <;> rfl
  | some old =>
    cases find items fp with
    | none => by_cases h : old.state.Raised <;> simp [entryOf, h, RuleStateHistory.changedTo]
    | some item => by_cases h : old.state = item.state <;> simp [entryOf, h, RuleStateHistory.changedTo]

theorem exists_origin_iff (now : Nat → Int) (fp : Nat) (st : AlertState) :
    (∃ entry ∈ entryOf now (find saved fp) (find items fp), entry.overallState = st) ↔
      ∃ r, Origin saved items r ∧ r.fingerprint = fp ∧ r.overallState = st := by
  constructor
  · rintro ⟨entry, hentry, rfl⟩
    cases hold : find saved fp with
    | none =>
      rw [hold] at hentry
      obtain ⟨hmem, hfp⟩ := (find_eq_some hi).1 (show find items fp = some entry from hentry)
      exact ⟨entry, Or.inl ⟨hmem, fun old ho => hfp ▸ find_eq_none.1 hold old ho⟩, hfp, rfl⟩
    | some old =>
      obtain ⟨ho, rfl⟩ := (find_eq_some hs).1 hold
      rw [hold] at hentry
      cases hitem : find items old.fingerprint with
      | none =>
        rw [hitem, entryOf, mem_ite_none_right] at hentry
        obtain ⟨hraised, hentry⟩ := hentry
        cases hentry
        exact ⟨old, Or.inr ⟨ho, Or.inr ⟨find_eq_none.1 hitem, hraised⟩⟩, rfl, rfl⟩
      | some item =>
        rw [hitem, entryOf, mem_ite_none_right] at hentry
        obtain ⟨hne, hentry⟩ := hentry
        cases hentry
        obtain ⟨hmem, hfp⟩ := (find_eq_some hi).1 hitem
        exact ⟨old, Or.inr ⟨ho, Or.inl ⟨item, hmem, hfp, hne⟩⟩, rfl, rfl⟩
  · rintro ⟨r, ⟨hmem, hnew⟩ | ⟨hmem, ⟨item, hitem, hfp, hne⟩ | ⟨hgone, hraised⟩⟩, rfl, rfl⟩
    · exact ⟨r, by rw [find_eq_none.2 hnew, (find_eq_some hi).2 ⟨hmem, rfl⟩]; rfl, rfl⟩
    · refine ⟨r.changedTo item.state now, ?_, rfl⟩
      rw [(find_eq_some hs).2 ⟨hmem, rfl⟩, (find_eq_some hi).2 ⟨hitem, hfp⟩, entryOf, if_pos hne]
      rfl
    · refine ⟨r.changedTo .inactive now, ?_, rfl⟩
      rw [(find_eq_some hs).2 ⟨hmem, rfl⟩, find_eq_none.2 hgone, entryOf, if_pos hraised]
      rfl

/-! ## The history -/

theorem raised_after (now : Nat → Int) (h : ∀ fp, (∀ item ∈ items, item.fingerprint ≠ fp) →
    stateAfter saved (recordRuleStateHistory now false saved items) fp = .inactive) :
    (∃ fp, (stateAfter saved (recordRuleStateHistory now false saved items) fp).Raised) ↔ ∃ item ∈ items, item.state.Raised := by
  constructor
  · rintro ⟨fp, hraised⟩
    cases hitem : find items fp with
    | none =>
      rw [h fp (find_eq_none.1 hitem)] at hraised
      exact absurd hraised (by decide)
    | some item =>
      rw [stateAfter_recorded hs hi, hitem] at hraised
      exact ⟨item, ((find_eq_some hi).1 hitem).1, hraised⟩
  · rintro ⟨item, hmem, hraised⟩
    refine ⟨item.fingerprint, ?_⟩
    rw [stateAfter_recorded hs hi, (find_eq_some hi).2 ⟨hmem, rfl⟩]
    exact hraised

theorem others_iff (now : Nat → Int) : (∀ fp, (∀ item ∈ items, item.fingerprint ≠ fp) →
    stateAfter saved (recordRuleStateHistory now false saved items) fp = .inactive) ↔
      ∀ old ∈ saved, (∀ item ∈ items, item.fingerprint ≠ old.fingerprint) → old.state = .inactive ∨ old.state.Raised := by
  constructor
  · intro h old ho hgone
    have hafter := h old.fingerprint hgone
    rw [stateAfter_recorded hs hi, find_eq_none.2 hgone, (find_eq_some hs).2 ⟨ho, rfl⟩] at hafter
    by_cases hraised : old.state.Raised
    · exact Or.inr hraised
    · exact Or.inl (by simpa [hraised] using hafter)
  · intro h fp hgone
    rw [stateAfter_recorded hs hi, find_eq_none.2 hgone]
    cases hold : find saved fp with
    | none => rfl
    | some old =>
      obtain ⟨ho, rfl⟩ := (find_eq_some hs).1 hold
      rcases h old ho hgone with hinactive | hraised
      · simp [hinactive]
      · simp [hraised]

theorem changed_recorded (now : Nat → Int) {fp : Nat} {entry old : RuleStateHistory V}
    (h : (recordRuleStateHistory now false saved items).lookup fp = some entry) (ho : old ∈ saved) (hfp : old.fingerprint = fp) :
    old.state ≠ entry.state := by
  rw [lookup_recorded hs hi, (find_eq_some hs).2 ⟨ho, hfp⟩] at h
  obtain ⟨made, hmade, rfl⟩ := map_eq_some_iff.1 h
  have hstate : old.state ≠ made.state := by
    cases hitem : find items fp with
    | none =>
      rw [hitem, entryOf, ite_none_right_eq_some] at hmade
      obtain ⟨hraised, hmade⟩ := hmade
      cases hmade
      intro hinactive
      rw [hinactive] at hraised
      exact absurd hraised (by decide : ¬ AlertState.inactive.Raised)
    | some item =>
      rw [hitem, entryOf, ite_none_right_eq_some] at hmade
      obtain ⟨hne, hmade⟩ := hmade
      cases hmade
      exact hne
  split_ifs
  · exact hstate
  · exact hstate

theorem overall_iff (now : Nat → Int) (P : Prop) : (∀ fp entry, (recordRuleStateHistory now false saved items).lookup fp = some entry →
    (entry.overallState = .firing ↔ P)) ↔
      ∀ r, Origin saved items r → ((if OverallChanges saved items then newState saved items else r.overallState) = .firing ↔ P) := by
  constructor
  · intro h r hr
    obtain ⟨entry, hentry, hown⟩ := (exists_origin_iff hs hi now r.fingerprint r.overallState).2 ⟨r, hr, rfl, rfl⟩
    have hlookup := lookup_recorded hs hi now r.fingerprint
    rw [mem_def.1 hentry, map_some] at hlookup
    have hentry := h _ _ hlookup
    split_ifs at hentry ⊢
    · exact hentry
    · rwa [hown] at hentry
  · intro h fp entry hlookup
    rw [lookup_recorded hs hi] at hlookup
    obtain ⟨made, hmade, rfl⟩ := map_eq_some_iff.1 hlookup
    obtain ⟨r, hr, -, hown⟩ := (exists_origin_iff hs hi now fp made.overallState).1 ⟨made, hmade, rfl⟩
    have hr := h r hr
    split_ifs at hr ⊢
    · exact hr
    · rwa [hown] at hr

/-- **State history after a restart.** -/
theorem reconciled_iff (now : Nat → Int) :
    Reconciled saved items (recordRuleStateHistory now false saved items) ↔ Reconcilable saved items := by
  have hraised := raised_after hs hi now
  constructor
  · rintro ⟨-, hothers, -, hoverall⟩
    rw [hraised hothers, overall_iff hs hi] at hoverall
    refine ⟨(others_iff hs hi now).1 hothers, fun hset ⟨r, hr⟩ hitem => ?_, fun hkept r hr => ?_⟩
    · have hfiring := (hoverall r hr).2 hitem
      rw [if_pos hset, newState] at hfiring
      by_contra hno
      rw [if_neg hno] at hfiring
      cases hfiring
    · have hown := hoverall r hr
      rwa [if_neg hkept] at hown
  · rintro ⟨hgone, hset, hkept⟩
    have hothers := (others_iff hs hi now).2 hgone
    refine ⟨fun item hitem => ?_, hothers, fun fp entry hentry old ho hfp => ?_, ?_⟩
    · rw [stateAfter_recorded hs hi, (find_eq_some hi).2 ⟨hitem, rfl⟩]
    · exact changed_recorded hs hi now hentry ho hfp
    · rw [hraised hothers, overall_iff hs hi]
      intro r hr
      split_ifs with hchanges
      · rw [newState]
        constructor
        · intro hfiring
          by_contra hno
          rw [if_neg fun ⟨item, hmem, hitem, _⟩ => hno ⟨item, hmem, hitem⟩] at hfiring
          cases hfiring
        · intro hitem
          rw [if_pos (hset hchanges ⟨r, hr⟩ hitem)]
      · exact hkept hchanges r hr

/-- **Another restart adds nothing**: the entries that are added, over those saved before, agree with the current items. -/
theorem recorded_again (now now' : Nat → Int) {saved' : List (RuleStateHistory V)}
    (hs' : (saved'.map RuleStateHistory.fingerprint).Nodup)
    (hlast : ∀ fp, find saved' fp = ((recordRuleStateHistory now false saved items).lookup fp).or (find saved fp)) (fp : Nat) :
    (recordRuleStateHistory now' false saved' items).lookup fp = none := by
  have hinactive : ¬ AlertState.inactive.Raised := by decide
  have hstate := stateAfter_recorded hs hi now fp
  rw [stateAfter, ← hlast fp] at hstate
  rw [lookup_recorded hs' hi, map_eq_none_iff]
  cases hold : find saved' fp with
  | none =>
    obtain ⟨hadded, hsaved⟩ := or_eq_none_iff.1 ((hlast fp).symm.trans hold)
    rw [lookup_recorded hs hi, hsaved] at hadded
    exact map_eq_none_iff.1 hadded
  | some old =>
    rw [hold, map_some, getD_some] at hstate
    cases hitem : find items fp with
    | some item =>
      rw [hitem] at hstate
      exact if_neg (not_not.2 hstate)
    | none =>
      refine if_neg fun hraised => ?_
      rw [hstate, hitem] at hraised
      cases hsaved : find saved fp with
      | none =>
        rw [hsaved] at hraised
        exact hinactive hraised
      | some before =>
        simp only [hsaved] at hraised
        split_ifs at hraised with hbefore
        · exact hinactive hraised
        · exact hbefore hraised

end

def entryAt (fp : Nat) (st overall : AlertState) : RuleStateHistory Unit :=
  ⟨"a", "a", overall, false, st, true, 0, [], fp, ()⟩

/-- Two fingerprints were firing, and one of them is gone. -/
theorem one_gone : ¬ Reconciled [entryAt 1 .firing .firing, entryAt 2 .firing .firing] [entryAt 1 .firing .firing]
    (recordRuleStateHistory (fun _ => 9) false [entryAt 1 .firing .firing, entryAt 2 .firing .firing] [entryAt 1 .firing .firing]) := by
  rintro ⟨-, -, -, hoverall⟩
  have hfiring := (hoverall 2 _ rfl).2 ⟨1, by decide⟩
  revert hfiring
  decide

/-- Both are gone. -/
theorem both_gone : Reconciled [entryAt 1 .firing .firing, entryAt 2 .firing .firing] []
    (recordRuleStateHistory (fun _ => 9) false [entryAt 1 .firing .firing, entryAt 2 .firing .firing] []) := by
  refine (reconciled_iff (by decide) (by decide) _).2 ⟨by decide, fun _ _ h => ?_, fun h => absurd ?_ h⟩
  · obtain ⟨item, hitem, -⟩ := h
    cases hitem
  · decide

theorem one_again : (recordRuleStateHistory (fun _ => 9) false [entryAt 1 .firing .firing]
    [entryAt 1 .firing .firing]).lookup 1 = none := by
  refine @recorded_again Unit [] [entryAt 1 .firing .firing] .nil (by decide) (fun _ => 8) _ _ (by decide) (fun fp => ?_) 1
  change _ = ((RuleStateHistory.byFingerprint _).lookup fp).or none
  rw [lookup_byFingerprint (by decide), or_none]

end Rules
end DsApm
