import DsApm.Rules.Hysteresis
import DsApm.Rules.Transitions
/-!
# History — the state history against the alerts

Every evaluation hands the history an item for each state an alert goes into, in the order in which the loop comes by the
alerts.  An item carries the fingerprint of the query's labels, an entry of `Active` that of the alert's labels: where one
does not follow from the other, two entries write under one fingerprint of the history and the order of the map decides
which item is the last.
-/
namespace DsApm
namespace Rules

open Latest StepRun GoMap List Option

/-! ## What a history may say -/

/-- The states that may be recorded after one; before the first, the alert is taken as inactive. -/
def mayFollow : AlertState → AlertState → Bool
  | .inactive, .firing => true
  | .inactive, .noData => true
  | .firing, .recovering => true
  | .firing, .inactive => true
  | .noData, .recovering => true
  | .noData, .inactive => true
  | .recovering, .firing => true
  | .recovering, .inactive => true
  | _, _ => false

/-- The recorded state is the alert's; a firing alert that was raised for missing data is recorded as without data. -/
def Mirrors (recorded state : AlertState) : Prop := recorded = state ∨ (recorded = .noData ∧ state = .firing)

instance (recorded state : AlertState) : Decidable (Mirrors recorded state) := inferInstanceAs (Decidable (_ ∨ _))

structure Records (st : AlertState) (l : List AlertState) (st' : AlertState) : Prop where
  chain : ∀ recorded, Mirrors recorded st → (recorded :: l).IsChain (fun x y => mayFollow x y = true)
  last : ∀ recorded, Mirrors recorded st → Mirrors ((recorded :: l).getLast (List.cons_ne_nil _ _)) st'
  resolved : l.count .inactive = if st ≠ .inactive ∧ st' = .inactive then 1 else 0

instance : DecidableRel (fun x y => mayFollow x y = true) := fun _ _ => inferInstanceAs (Decidable (_ = true))

theorem records_of {st st' : AlertState} {l : List AlertState}
    (hown : (st :: l).IsChain (fun x y => mayFollow x y = true) ∧ Mirrors ((st :: l).getLast (cons_ne_nil _ _)) st')
    (hmissing : st = .firing → (AlertState.noData :: l).IsChain (fun x y => mayFollow x y = true) ∧
      Mirrors ((AlertState.noData :: l).getLast (cons_ne_nil _ _)) st')
    (hcount : l.count .inactive = if st ≠ .inactive ∧ st' = .inactive then 1 else 0) : Records st l st' := by
  refine ⟨?_, ?_, hcount⟩
  · rintro recorded (rfl | ⟨rfl, hst⟩)
    · exact hown.1
    · exact (hmissing hst).1
  · rintro recorded (rfl | ⟨rfl, hst⟩)
    · exact hown.2
    · exact (hmissing hst).2

theorem records_nil (st : AlertState) : Records st [] st := by
  refine ⟨fun _ _ => isChain_singleton _, fun _ h => h, ?_⟩
  rw [if_neg (fun h => h.1 h.2)]
  rfl

section
variable {V : Type}

def entryState (o : Option (Alert V)) : AlertState := (o.map Alert.state).getD .inactive

theorem AlertStep.records {ts : Int} {o o' : Option (Alert V)} {l : List AlertState} (h : AlertStep ts o o' l) :
    Records (entryState o) l (entryState o') := by
  cases h with
  | absent => exact records_nil _
  | expired h =>
    rw [show entryState (some _) = AlertState.inactive from h]
    exact records_nil _
  | rested h => exact records_nil _
  | resolved h =>
    rename_i a
    have hafter : entryState (some { a with state := .inactive, resolvedAt := ts }) = .inactive := rfl
    rw [hafter, show entryState (some a) = a.state from rfl]
    rcases h with h | h <;> rw [h]
    · exact records_of (by decide) (by decide) (by decide)
    · exact records_of (by decide) (by decide) (by decide)
  | raised h hstate hresolved hsent =>
    rename_i b
    have hbefore : entryState o = .inactive := by
      cases o with
      | none => rfl
      | some a => exact h a rfl
    rw [hbefore, show entryState (some b) = b.state from rfl, hstate, raisedStates]
    cases b.missing <;> cases b.isRecovering
    · exact records_of (by decide) (by decide) (by decide)
    · exact records_of (by decide) (by decide) (by decide)
    · exact records_of (by decide) (by decide) (by decide)
    · exact records_of (by decide) (by decide) (by decide)
  | kept h h' hlabels hresolved hsent hvalid =>
    rename_i a b
    rw [show entryState (some a) = a.state from rfl, show entryState (some b) = b.state from rfl]
    rcases h with h | h <;> rcases h' with h' | h' <;> rw [h, h']
    · exact records_nil _
    · exact records_of (by decide) (by decide) (by decide)
    · exact records_of (by decide) (by decide) (by decide)
    · exact records_nil _

end

/-! ## The items of an evaluation -/

variable {V : Type} [Float64 V] (W : World V) (r : Rule V)

/-- An evaluation's input with the order in which its loop comes by the entries of `Active`. -/
structure HistoryInput (V : Type) where
  input : EvalInput V
  visit : Visit (Sigma (fun _ : Nat => Alert V))

def itemsOf (prevState : AlertState) (resultFPs : List Nat) (ts : Int) (after : GoMap Nat (Alert V))
    (e : Sigma (fun _ : Nat => Alert V)) : List (RuleStateHistory V) :=
  (changes r resultFPs ts e.1 e.2).map (fun c =>
    { ruleID := r.id, ruleName := r.name, overallState := overallState after
      overallStateChanged := decide (overallState after ≠ prevState), state := c.1, stateChanged := true
      unixMilli := ts / 1000000, labels := e.2.queryResultLabels, fingerprint := W.hash e.2.queryResultLabels
      value := c.2 })

def record (s : RuleState V) (x : HistoryInput V) : RuleState V × List (RuleStateHistory V) :=
  ((eval W r s x.input).1,
    match (buildAndRunQuery W r s x.input).2 with
    | none => []
    | some samples =>
      if (samples.map (fingerprint W r)).Nodup then
        (x.visit.order (merged W r s x.input samples).entries).flatMap
          (itemsOf W r (overallState s.active) (samples.map (fingerprint W r)) x.input.ts (eval W r s x.input).1.active)
      else [])

theorem record_eval (s : RuleState V) (i : EvalInput V) :
    (record W r s { input := i, visit := ⟨id, fun _ => List.Perm.refl _⟩ }).2 =
      ((eval W r s i).2.map Prod.snd).getD [] := by
  unfold record
  cases hq : (buildAndRunQuery W r s i).2 with
  | none =>
    have hfail : (eval W r s i).2 = none := by
      by_contra hne
      obtain ⟨out, hout⟩ := ne_none_iff_exists'.1 hne
      obtain ⟨samples, hsome, -⟩ := eval_succeeded hout
      rw [hq] at hsome
      cases hsome
    rw [hfail]
    rfl
  | some samples =>
    by_cases hnd : (samples.map (fingerprint W r)).Nodup
    · simp only [if_pos hnd]
      rw [eval_items hq hnd]
      rfl
    · have hfail : (eval W r s i).2 = none := by
        by_contra hne
        obtain ⟨out, hout⟩ := ne_none_iff_exists'.1 hne
        obtain ⟨samples', hsome, hnd'⟩ := eval_succeeded hout
        obtain rfl := Option.some.inj (hq.symm.trans hsome)
        exact hnd hnd'
      simp only [if_neg hnd]
      rw [hfail]
      rfl

def statesOf (h : Nat) (items : List (RuleStateHistory V)) : List AlertState :=
  (items.filter (fun it => it.fingerprint = h)).map RuleStateHistory.state

/-- The state of the alert with a recorded fingerprint: inactive where `Active` has no unresolved one. -/
def currentState (s : RuleState V) (h : Nat) : AlertState :=
  (((values s.active).find? (fun a => decide a.Unresolved && decide (W.hash a.queryResultLabels = h))).map
    Alert.state).getD .inactive

def historyOf (s : RuleState V) (xs : List (HistoryInput V)) : List (RuleStateHistory V) :=
  (trace (record W r) s xs).flatMap (fun x => x.2.2)

/-- What a history should say of the alerts, with a relation of a recorded state to the alert's: after every evaluation
the states recorded under a fingerprint follow each other as they may, the last of them is the alert's, and the evaluation
recorded that the alert is inactive once if it resolved it and not at all otherwise. -/
structure HistoryAgrees (agrees : AlertState → AlertState → Prop) (xs : List (HistoryInput V)) : Prop where
  chain : ∀ pre, pre <+: xs → ∀ h,
    (.inactive :: statesOf h (historyOf W r (RuleState.init V) pre)).IsChain (fun x y => mayFollow x y = true)
  last : ∀ pre, pre <+: xs → ∀ h,
    agrees ((.inactive :: statesOf h (historyOf W r (RuleState.init V) pre)).getLast (List.cons_ne_nil _ _))
      (currentState W (final (record W r) (RuleState.init V) pre) h)
  resolved : ∀ x ∈ trace (record W r) (RuleState.init V) xs, ∀ h, (statesOf h x.2.2).count .inactive =
    if currentState W x.1 h ≠ .inactive ∧ currentState W (record W r x.1 x.2.1).1 h = .inactive then 1 else 0

/-- A recorded fingerprint belongs to one alert: samples that would be recorded under one fingerprint have one
fingerprint in `Active`, and so have a sample and an unresolved alert. -/
structure OneAlert (s : RuleState V) (i : EvalInput V) : Prop where
  samples : ∀ samples, (buildAndRunQuery W r s i).2 = some samples → ∀ a ∈ samples, ∀ b ∈ samples,
    W.hash (resultLabels r.kind a.metric) = W.hash (resultLabels r.kind b.metric) → fingerprint W r a = fingerprint W r b
  entries : ∀ samples, (buildAndRunQuery W r s i).2 = some samples → ∀ a ∈ samples, ∀ fp e,
    s.active.lookup fp = some e → e.Unresolved →
    W.hash e.queryResultLabels = W.hash (resultLabels r.kind a.metric) → fp = fingerprint W r a

def OneEach (s : RuleState V) : Prop := ∀ fp fp' a a', s.active.lookup fp = some a → s.active.lookup fp' = some a' →
  a.Unresolved → a'.Unresolved → W.hash a.queryResultLabels = W.hash a'.queryResultLabels → fp = fp'

omit [Float64 V] in
theorem oneEach_init : OneEach W (RuleState.init V) := by
  intro fp fp' a a' h
  cases h

/-! ## Which entry writes under a fingerprint -/

section
variable {W r} {s : RuleState V} {i : EvalInput V} {samples : List (Sample V)}

theorem lookup_eval_eq (hq : (buildAndRunQuery W r s i).2 = some samples) (hnd : (samples.map (fingerprint W r)).Nodup)
    (fp : Nat) : (eval W r s i).1.active.lookup fp =
      ((merged W r s i samples).lookup fp).bind (settle (samples.map (fingerprint W r)) i.ts fp) := by
  rw [eval_active hq hnd, lookup_filterMapVal]
  rfl

omit [Float64 V] in
theorem settle_labels {fps : List Nat} {ts : Int} {fp : Nat} {a b : Alert V} (h : settle fps ts fp a = some b) :
    b.queryResultLabels = a.queryResultLabels := by
  unfold settle at h
  by_cases hfp : fp ∈ fps
  · rw [if_pos hfp] at h
    rw [← Option.some.inj h, (turn_fields _).1, fire]
    split_ifs <;> rfl
  · rw [if_neg hfp, settleMissed] at h
    split_ifs at h <;> cases h <;> rfl

theorem merged_of_lookup_eval (hq : (buildAndRunQuery W r s i).2 = some samples)
    (hnd : (samples.map (fingerprint W r)).Nodup) {fp : Nat} {b : Alert V}
    (h : (eval W r s i).1.active.lookup fp = some b) :
    ∃ m, (merged W r s i samples).lookup fp = some m ∧ m.queryResultLabels = b.queryResultLabels := by
  rw [lookup_eval_eq hq hnd, bind_eq_some_iff] at h
  obtain ⟨m, hm, hsettle⟩ := h
  exact ⟨m, hm, (settle_labels hsettle).symm⟩

omit [Float64 V] in
theorem merged_of_unresolved (hnd : (samples.map (fingerprint W r)).Nodup) {fp : Nat} {a : Alert V}
    (h : s.active.lookup fp = some a) (hun : a.Unresolved) :
    ∃ m, (merged W r s i samples).lookup fp = some m ∧ m.queryResultLabels = a.queryResultLabels := by
  by_cases hfp : fp ∈ samples.map (fingerprint W r)
  · obtain ⟨smpl, hin, rfl⟩ := List.mem_map.1 hfp
    refine ⟨_, lookup_merged_of_mem hnd hin, ?_⟩
    rw [h, mergeAlert, if_pos hun.not_inactive]
  · exact ⟨a, (lookup_merged_of_not_mem hfp).trans h, rfl⟩

theorem merged_of_raised (hs : Standing s) (hq : (buildAndRunQuery W r s i).2 = some samples)
    (hnd : (samples.map (fingerprint W r)).Nodup) {fp : Nat} {b : Alert V}
    (hbefore : ∀ a, s.active.lookup fp = some a → ¬ a.Unresolved)
    (h : (eval W r s i).1.active.lookup fp = some b) (hun : b.Unresolved) :
    ∃ smpl ∈ samples, fp = fingerprint W r smpl ∧ b.queryResultLabels = resultLabels r.kind smpl.metric := by
  have hinactive : ∀ a, s.active.lookup fp = some a → a.state = .inactive := fun a ha =>
    (hs fp a ha).resolve_right (fun hu => hbefore a ha hu.1)
  by_cases hfp : fp ∈ samples.map (fingerprint W r)
  · obtain ⟨smpl, hin, rfl⟩ := List.mem_map.1 hfp
    refine ⟨smpl, hin, rfl, ?_⟩
    obtain ⟨m, hm, hlabels⟩ := merged_of_lookup_eval hq hnd h
    rw [lookup_merged_of_mem hnd hin, mergeAlert_of_inactive _ _ hinactive] at hm
    rw [← hlabels, ← Option.some.inj hm]
    rfl
  · rw [lookup_eval_of_not_mem hq hnd hfp, bind_eq_some_iff] at h
    obtain ⟨a, ha, hsettle⟩ := h
    rw [settleMissed_inactive (hinactive a ha) hsettle] at hun
    exact absurd (hinactive a ha) hun.not_inactive

theorem merged_of_touched (hs : Standing s) (hq : (buildAndRunQuery W r s i).2 = some samples)
    (hnd : (samples.map (fingerprint W r)).Nodup) {fp : Nat} (h : UnresolvedAt s fp ∨ UnresolvedAt (eval W r s i).1 fp) :
    ∃ m, (merged W r s i samples).lookup fp = some m ∧
      ((∃ a, s.active.lookup fp = some a ∧ a.Unresolved ∧ a.queryResultLabels = m.queryResultLabels) ∨
        ∃ smpl ∈ samples, fp = fingerprint W r smpl ∧ m.queryResultLabels = resultLabels r.kind smpl.metric) := by
  by_cases hbefore : UnresolvedAt s fp
  · obtain ⟨a, ha, hun⟩ := hbefore
    obtain ⟨m, hm, hlabels⟩ := merged_of_unresolved (i := i) hnd ha hun
    exact ⟨m, hm, .inl ⟨a, ha, hun, hlabels.symm⟩⟩
  · obtain ⟨b, hb, hun⟩ := h.resolve_left hbefore
    obtain ⟨m, hm, hlabels⟩ := merged_of_lookup_eval hq hnd hb
    obtain ⟨smpl, hin, hfp, hresult⟩ := merged_of_raised hs hq hnd (fun a ha hu => hbefore ⟨a, ha, hu⟩) hb hun
    exact ⟨m, hm, .inr ⟨smpl, hin, hfp, hlabels.trans hresult⟩⟩

theorem touched_unique (hs : Standing s) (hone : OneEach W s) (ho : OneAlert W r s i)
    (hq : (buildAndRunQuery W r s i).2 = some samples) (hnd : (samples.map (fingerprint W r)).Nodup) {fp fp' : Nat}
    {m m' : Alert V} (hm : (merged W r s i samples).lookup fp = some m)
    (hm' : (merged W r s i samples).lookup fp' = some m')
    (h : UnresolvedAt s fp ∨ UnresolvedAt (eval W r s i).1 fp) (h' : UnresolvedAt s fp' ∨ UnresolvedAt (eval W r s i).1 fp')
    (hhash : W.hash m.queryResultLabels = W.hash m'.queryResultLabels) : fp = fp' := by
  obtain ⟨n, hn, hcase⟩ := merged_of_touched hs hq hnd h
  obtain ⟨n', hn', hcase'⟩ := merged_of_touched hs hq hnd h'
  obtain rfl := Option.some.inj (hm.symm.trans hn)
  obtain rfl := Option.some.inj (hm'.symm.trans hn')
  rcases hcase with ⟨a, ha, hun, hl⟩ | ⟨smpl, hin, rfl, hl⟩ <;>
    rcases hcase' with ⟨a', ha', hun', hl'⟩ | ⟨smpl', hin', rfl, hl'⟩
  · exact hone fp fp' a a' ha ha' hun hun' (by rw [hl, hl', hhash])
  · exact ho.entries samples hq smpl' hin' fp a ha hun (by rw [hl, hhash, hl'])
  · exact (ho.entries samples hq smpl hin fp' a' ha' hun' (by rw [hl', ← hhash, hl])).symm
  · exact ho.samples samples hq smpl hin smpl' hin' (by rw [← hl, hhash, hl'])

omit [Float64 V] in
theorem currentState_of_one {t : RuleState V} (h fp : Nat) (ht : Standing t)
    (hothers : ∀ fp' a, t.active.lookup fp' = some a → a.Unresolved → W.hash a.queryResultLabels = h → fp' = fp)
    (hown : ∀ a, t.active.lookup fp = some a → a.Unresolved → W.hash a.queryResultLabels = h) :
    currentState W t h = entryState (t.active.lookup fp) := by
  unfold currentState
  cases hfind : (values t.active).find? (fun a => decide a.Unresolved && decide (W.hash a.queryResultLabels = h)) with
  | some a =>
    have hp := List.find?_some hfind
    rw [Bool.and_eq_true, decide_eq_true_eq, decide_eq_true_eq] at hp
    obtain ⟨fp', hfp'⟩ := mem_values.1 (mem_of_find?_eq_some hfind)
    obtain rfl := hothers fp' a hfp' hp.1 hp.2
    rw [hfp']
    rfl
  | none =>
    rw [List.find?_eq_none] at hfind
    cases hfp : t.active.lookup fp with
    | none => rfl
    | some a =>
      rcases ht fp a hfp with hinactive | ⟨hun, -⟩
      · rw [show entryState (some a) = a.state from rfl, hinactive]
        rfl
      · refine absurd ?_ (hfind a (mem_values.2 ⟨fp, hfp⟩))
        rw [Bool.and_eq_true, decide_eq_true_eq, decide_eq_true_eq]
        exact ⟨hun, hown a hfp hun⟩

omit [Float64 V] in
theorem currentState_of_none {t : RuleState V} {h : Nat}
    (hnone : ∀ fp a, t.active.lookup fp = some a → a.Unresolved → W.hash a.queryResultLabels ≠ h) :
    currentState W t h = .inactive := by
  unfold currentState
  rw [List.find?_eq_none.2]
  · rfl
  · intro a ha hp
    rw [Bool.and_eq_true, decide_eq_true_eq, decide_eq_true_eq] at hp
    obtain ⟨fp, hfp⟩ := mem_values.1 ha
    exact hnone fp a hfp hp.1 hp.2

theorem statesOf_itemsOf (h : Nat) (prevState : AlertState) (fps : List Nat) (ts : Int) (after : GoMap Nat (Alert V))
    (e : Sigma (fun _ : Nat => Alert V)) : statesOf h (itemsOf W r prevState fps ts after e) =
      if W.hash e.2.queryResultLabels = h then (changes r fps ts e.1 e.2).map Prod.fst else [] := by
  unfold statesOf itemsOf
  rw [List.filter_map, List.map_map]
  split_ifs with hh
  · simp [hh, Function.comp_def]
  · simp [hh, Function.comp_def]

omit [Float64 V] in
theorem statesOf_flatMap (h : Nat) {α : Type} (f : α → List (RuleStateHistory V)) (l : List α) :
    statesOf h (l.flatMap f) = l.flatMap (fun e => statesOf h (f e)) := by
  unfold statesOf
  rw [filter_flatMap, map_flatMap]

theorem recordedStates_untouched (hs : Standing s) (hq : (buildAndRunQuery W r s i).2 = some samples)
    (hnd : (samples.map (fingerprint W r)).Nodup) {fp : Nat}
    (h : ¬ (UnresolvedAt s fp ∨ UnresolvedAt (eval W r s i).1 fp)) : recordedStates W r s i samples fp = [] := by
  rw [not_or] at h
  have hstep := alertStep_eval hs hq hnd fp
  generalize hbefore : s.active.lookup fp = o at hstep
  generalize hafter : (eval W r s i).1.active.lookup fp = o' at hstep
  generalize recordedStates W r s i samples fp = l at hstep
  cases hstep with
  | absent => rfl
  | expired _ => rfl
  | rested _ => rfl
  | resolved hun => exact absurd ⟨_, hbefore, hun⟩ h.1
  | raised _ hstate _ _ =>
    refine absurd ⟨_, hafter, ?_⟩ h.2
    unfold Alert.Unresolved
    rw [hstate]
    split_ifs
    · exact .inr rfl
    · exact .inl rfl
  | kept hun _ _ _ _ _ => exact absurd ⟨_, hbefore, hun⟩ h.1

theorem statesOf_entries (hs : Standing s) (hone : OneEach W s) (ho : OneAlert W r s i)
    (hq : (buildAndRunQuery W r s i).2 = some samples) (hnd : (samples.map (fingerprint W r)).Nodup)
    (visit : Visit (Sigma (fun _ : Nat => Alert V))) (prevState : AlertState) {h fp : Nat} {m : Alert V}
    (hm : (merged W r s i samples).lookup fp = some m) (hh : W.hash m.queryResultLabels = h)
    (htouched : UnresolvedAt s fp ∨ UnresolvedAt (eval W r s i).1 fp) :
    statesOf h ((visit.order (merged W r s i samples).entries).flatMap (itemsOf W r prevState
      (samples.map (fingerprint W r)) i.ts (eval W r s i).1.active)) = recordedStates W r s i samples fp := by
  rw [statesOf_flatMap]
  have hperm := visit.perm (merged W r s i samples).entries
  have hentry : (⟨fp, m⟩ : Sigma (fun _ : Nat => Alert V)) ∈ visit.order (merged W r s i samples).entries :=
    hperm.mem_iff.2 (AList.mem_lookup_iff.1 hm)
  have hnodup := hperm.nodup_iff.2 (merged W r s i samples).nodupKeys.nodup
  rw [flatMap_of_one hnodup hentry, statesOf_itemsOf, if_pos hh, recordedStates, hm, map_some, getD_some]
  -- every other entry of the fingerprint is untouched
  rintro ⟨fp', m'⟩ hin hne
  have hm' : (merged W r s i samples).lookup fp' = some m' := AList.mem_lookup_iff.2 (hperm.mem_iff.1 hin)
  rw [statesOf_itemsOf]
  split_ifs with hh'
  · have huntouched : ¬ (UnresolvedAt s fp' ∨ UnresolvedAt (eval W r s i).1 fp') := by
      intro h'
      obtain rfl := touched_unique hs hone ho hq hnd hm' hm h' htouched (hh'.trans hh.symm)
      obtain rfl := Option.some.inj (hm'.symm.trans hm)
      exact hne rfl
    have hnone := recordedStates_untouched hs hq hnd huntouched
    rwa [recordedStates, hm', map_some, getD_some] at hnone
  · rfl

/-- **One evaluation records, under every fingerprint, the way from its alert's state before to the one after.** -/
theorem records_step (hs : Standing s) (hone : OneEach W s) (x : HistoryInput V) (ho : OneAlert W r s x.input) (h : Nat) :
    Records (currentState W s h) (statesOf h (record W r s x).2) (currentState W (record W r s x).1 h) := by
  by_cases hok : ∃ samples, (buildAndRunQuery W r s x.input).2 = some samples ∧ (samples.map (fingerprint W r)).Nodup
  · obtain ⟨samples, hq, hnd⟩ := hok
    have hstanding : Standing (eval W r s x.input).1 := standing_eval hs
    simp only [record, hq, if_pos hnd]
    -- an unresolved alert of the fingerprint, before or after, is touched and was merged under it
    have hbefore : ∀ fp a, s.active.lookup fp = some a → a.Unresolved → W.hash a.queryResultLabels = h →
        ∃ m, (merged W r s x.input samples).lookup fp = some m ∧ W.hash m.queryResultLabels = h := by
      intro fp a ha hun hh
      obtain ⟨m, hm, hl⟩ := merged_of_unresolved (i := x.input) hnd ha hun
      exact ⟨m, hm, by rw [hl, hh]⟩
    have hafter : ∀ fp a, (eval W r s x.input).1.active.lookup fp = some a → W.hash a.queryResultLabels = h →
        ∃ m, (merged W r s x.input samples).lookup fp = some m ∧ W.hash m.queryResultLabels = h := by
      intro fp a ha hh
      obtain ⟨m, hm, hl⟩ := merged_of_lookup_eval hq hnd ha
      exact ⟨m, hm, by rw [hl, hh]⟩
    by_cases htouched : ∃ fp m, (merged W r s x.input samples).lookup fp = some m ∧ W.hash m.queryResultLabels = h ∧
        (UnresolvedAt s fp ∨ UnresolvedAt (eval W r s x.input).1 fp)
    · obtain ⟨fp, m, hm, hh, ht⟩ := htouched
      rw [statesOf_entries hs hone ho hq hnd x.visit _ hm hh ht,
        currentState_of_one h fp hs ?_ ?_, currentState_of_one h fp hstanding ?_ ?_]
      · exact (alertStep_eval hs hq hnd fp).records
      · intro fp' a ha hun hh'
        obtain ⟨m', hm', hh''⟩ := hafter fp' a ha hh'
        exact touched_unique hs hone ho hq hnd hm' hm (.inr ⟨a, ha, hun⟩) ht (hh''.trans hh.symm)
      · intro a ha hun
        obtain ⟨m', hm', hl⟩ := merged_of_lookup_eval hq hnd ha
        obtain rfl := Option.some.inj (hm.symm.trans hm')
        rw [← hl, hh]
      · intro fp' a ha hun hh'
        obtain ⟨m', hm', hh''⟩ := hbefore fp' a ha hun hh'
        exact touched_unique hs hone ho hq hnd hm' hm (.inl ⟨a, ha, hun⟩) ht (hh''.trans hh.symm)
      · intro a ha hun
        obtain ⟨m', hm', hl⟩ := merged_of_unresolved (i := x.input) hnd ha hun
        obtain rfl := Option.some.inj (hm.symm.trans hm')
        rw [← hl, hh]
    · have hnone : ∀ fp m, (merged W r s x.input samples).lookup fp = some m → W.hash m.queryResultLabels = h →
          ¬ (UnresolvedAt s fp ∨ UnresolvedAt (eval W r s x.input).1 fp) := fun fp m hm hh ht =>
        htouched ⟨fp, m, hm, hh, ht⟩
      rw [currentState_of_none (h := h) (t := s), currentState_of_none (h := h) (t := (eval W r s x.input).1)]
      · have hempty : statesOf h ((x.visit.order (merged W r s x.input samples).entries).flatMap (itemsOf W r
            (overallState s.active) (samples.map (fingerprint W r)) x.input.ts (eval W r s x.input).1.active)) = [] := by
          rw [statesOf_flatMap, flatMap_eq_nil_iff]
          rintro ⟨fp, m⟩ hin
          have hm : (merged W r s x.input samples).lookup fp = some m :=
            AList.mem_lookup_iff.2 ((x.visit.perm _).mem_iff.1 hin)
          rw [statesOf_itemsOf]
          split_ifs with hh
          · have hnil := recordedStates_untouched hs hq hnd (hnone fp m hm hh)
            rwa [recordedStates, hm, map_some, getD_some] at hnil
          · rfl
        rw [hempty]
        exact records_nil _
      · intro fp a ha hun hh
        obtain ⟨m, hm, hh'⟩ := hafter fp a ha hh
        exact hnone fp m hm hh' (.inr ⟨a, ha, hun⟩)
      · intro fp a ha hun hh
        obtain ⟨m, hm, hh'⟩ := hbefore fp a ha hun hh
        exact hnone fp m hm hh' (.inl ⟨a, ha, hun⟩)
  · have hactive := eval_failed W r (s := s) (i := x.input) (fun samples hq hnd => hok ⟨samples, hq, hnd⟩)
    have hitems : (record W r s x).2 = [] := by
      unfold record
      cases hq : (buildAndRunQuery W r s x.input).2 with
      | none => rfl
      | some samples => exact if_neg (fun hnd => hok ⟨samples, hq, hnd⟩)
    have hsame : currentState W (record W r s x).1 h = currentState W s h := by
      unfold currentState record
      simp only
      rw [hactive]
    rw [hitems, hsame]
    exact records_nil _

theorem oneEach_record (hs : Standing s) (hone : OneEach W s) (x : HistoryInput V) (ho : OneAlert W r s x.input) :
    OneEach W (record W r s x).1 := by
  by_cases hok : ∃ samples, (buildAndRunQuery W r s x.input).2 = some samples ∧ (samples.map (fingerprint W r)).Nodup
  · obtain ⟨samples, hq, hnd⟩ := hok
    intro fp fp' a a' ha ha' hun hun' hhash
    obtain ⟨m, hm, hl⟩ := merged_of_lookup_eval hq hnd ha
    obtain ⟨m', hm', hl'⟩ := merged_of_lookup_eval hq hnd ha'
    exact touched_unique hs hone ho hq hnd hm hm' (.inr ⟨a, ha, hun⟩) (.inr ⟨a', ha', hun'⟩) (by rw [hl, hl', hhash])
  · have hactive := eval_failed W r (s := s) (i := x.input) (fun samples hq hnd => hok ⟨samples, hq, hnd⟩)
    unfold OneEach record
    simp only
    rw [hactive]
    exact hone

end

/-! ## Whole runs -/

theorem isChain_extend : ∀ (a : AlertState) (l l' : List AlertState), (a :: l).IsChain (fun x y => mayFollow x y = true) →
    ((a :: l).getLast (cons_ne_nil _ _) :: l').IsChain (fun x y => mayFollow x y = true) →
    (a :: (l ++ l')).IsChain (fun x y => mayFollow x y = true) ∧
      (a :: (l ++ l')).getLast (cons_ne_nil _ _) =
        ((a :: l).getLast (cons_ne_nil _ _) :: l').getLast (cons_ne_nil _ _)
  | _, [], _, _, h => ⟨h, rfl⟩
  | a, b :: l, l', hl, h => by
    rw [isChain_cons_cons] at hl
    rw [getLast_cons_cons] at h ⊢
    obtain ⟨hchain, hlast⟩ := isChain_extend b l l' hl.2 h
    rw [cons_append, isChain_cons_cons, getLast_cons_cons]
    exact ⟨⟨hl.1, hchain⟩, hlast⟩

structure Mirrored (s : RuleState V) (l : List (RuleState V × HistoryInput V × List (RuleStateHistory V))) : Prop where
  standing : Standing s
  oneEach : OneEach W s
  chain : ∀ h, (.inactive :: statesOf h (l.flatMap (fun x => x.2.2))).IsChain (fun x y => mayFollow x y = true)
  last : ∀ h, Mirrors ((.inactive :: statesOf h (l.flatMap (fun x => x.2.2))).getLast (List.cons_ne_nil _ _))
    (currentState W s h)

theorem mirrored_step {s : RuleState V} {l : List (RuleState V × HistoryInput V × List (RuleStateHistory V))}
    {x : HistoryInput V} (ho : OneAlert W r s x.input) (hm : Mirrored W s l) :
    Mirrored W (record W r s x).1 (l ++ [(s, x, (record W r s x).2)]) := by
  have hstates : ∀ h, statesOf h ((l ++ [(s, x, (record W r s x).2)]).flatMap (fun x => x.2.2)) =
      statesOf h (l.flatMap (fun x => x.2.2)) ++ statesOf h (record W r s x).2 := by
    intro h
    rw [flatMap_append, flatMap_singleton]
    unfold statesOf
    rw [filter_append, map_append]
  have hextend : ∀ h, _ := fun h => isChain_extend .inactive _ (statesOf h (record W r s x).2) (hm.chain h)
    ((records_step hm.standing hm.oneEach x ho h).chain _ (hm.last h))
  refine ⟨standing_eval hm.standing, oneEach_record hm.standing hm.oneEach x ho, fun h => ?_, fun h => ?_⟩
  · rw [hstates]
    exact (hextend h).1
  · have hlast := (records_step hm.standing hm.oneEach x ho h).last _ (hm.last h)
    rw [← (hextend h).2] at hlast
    simpa only [hstates] using hlast

def inOrder (i : EvalInput Int) : HistoryInput Int := { input := i, visit := ⟨id, fun _ => List.Perm.refl _⟩ }

def podHash : Nat := plainWorld.hash (prepareSampleLabelsForRule plainWorld [("pod", "a")] "critical")

theorem oneAlert_of_single {s : RuleState Int} {i : EvalInput Int} {smpl : Sample Int}
    (hanswer : (buildAndRunQuery plainWorld (cpuRule .threshold) s i).2 = some [smpl])
    (hkeys : ∀ fp ∈ s.active.keys, fp = fingerprint plainWorld (cpuRule .threshold) smpl) :
    OneAlert plainWorld (cpuRule .threshold) s i := by
  refine ⟨?_, ?_⟩
  · intro samples hq a ha b hb _
    obtain rfl := Option.some.inj (hanswer.symm.trans hq)
    rw [mem_singleton] at ha hb
    rw [ha, hb]
  · intro samples hq a ha fp e he _ _
    obtain rfl := Option.some.inj (hanswer.symm.trans hq)
    rw [mem_singleton] at ha
    rw [ha]
    exact hkeys fp (AList.mem_keys.1 (AList.lookup_isSome.1 (by rw [he]; rfl)))

def absentRule : Rule Int := { cpuRule .threshold with alertOnAbsent := true }

def noDataAt (minutes : Int) : EvalInput Int := { evalAt minutes [] 0 with query := some (some []) }

def valueWorld : World Int :=
  { plainWorld with expand := fun _ _ _ value _ text => if text = "\x7b\x7b$value\x7d\x7d" then value else text }

def valueRule : Rule Int := { cpuRule .threshold with labels := [("value", "\x7b\x7b$value\x7d\x7d")] }

end Rules
end DsApm
