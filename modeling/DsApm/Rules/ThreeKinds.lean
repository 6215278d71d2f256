import DsApm.Lib.InStep
import DsApm.Rules.History
/-!
# ThreeKinds — one state machine, written three times

`ThresholdRule`, `PromRule` and `AnomalyRule` each have a copy of the loop that turns samples into alerts.  Fed the same
samples the copies run in step, except in two places: the prom rule records a resolved alert without its value, and the
anomaly rule sets a label `anomaly` of its own, over one that a series may have.
-/
namespace DsApm
namespace Rules

open Latest StepRun GoMap List

variable {V : Type} [Float64 V] (W : World V)

structure VectorInput (V : Type) where
  ts : Int
  samples : List (Sample V)
  order : Visit (BasicRuleThreshold V)

def evalVector (r : Rule V) (active : GoMap Nat (Alert V)) (x : VectorInput V) :
    GoMap Nat (Alert V) × Option (List (RuleStateHistory V)) :=
  let receivers := getRuleReceivers x.order r.thresholds
  match newAlerts W r receivers x.ts x.samples with
  | none => (active, none)
  | some alerts =>
    let resultFPs := alerts.map Prod.fst
    let merged := alerts.foldl (fun m e => put (mergeAlert receivers e.2) m e.1) active
    let after := filterMapVal (settle resultFPs x.ts) merged
    (after, some (itemsToAdd W r (overallState active) resultFPs x.ts merged after))

def mergedVector (r : Rule V) (active : GoMap Nat (Alert V)) (x : VectorInput V) : GoMap Nat (Alert V) :=
  (x.samples.map (fun smpl => (fingerprint W r smpl, newAlert W r (getRuleReceivers x.order r.thresholds) x.ts smpl))).foldl
    (fun m e => put (mergeAlert (getRuleReceivers x.order r.thresholds) e.2) m e.1) active

theorem evalVector_of_nodup {r : Rule V} {active : GoMap Nat (Alert V)} {x : VectorInput V}
    (h : (x.samples.map (fingerprint W r)).Nodup) : evalVector W r active x =
      (filterMapVal (settle (x.samples.map (fingerprint W r)) x.ts) (mergedVector W r active x),
        some (itemsToAdd W r (overallState active) (x.samples.map (fingerprint W r)) x.ts (mergedVector W r active x)
          (filterMapVal (settle (x.samples.map (fingerprint W r)) x.ts) (mergedVector W r active x)))) := by
  simp only [evalVector, newAlerts, if_pos h, List.map_map, Function.comp_def]
  rfl

theorem evalVector_of_dup {r : Rule V} {active : GoMap Nat (Alert V)} {x : VectorInput V}
    (h : ¬ (x.samples.map (fingerprint W r)).Nodup) : evalVector W r active x = (active, none) := by
  simp only [evalVector, newAlerts, if_neg h]

def Rule.ofKind (r : Rule V) (k : RuleKind) : Rule V := { r with kind := k }

abbrev ThreeActive (V : Type) := RuleKind → GoMap Nat (Alert V)

def evalAll (r : Rule V) (A : ThreeActive V) (x : VectorInput V) :
    ThreeActive V × (RuleKind → Option (List (RuleStateHistory V))) :=
  (fun k => (evalVector W (r.ofKind k) (A k) x).1, fun k => (evalVector W (r.ofKind k) (A k) x).2)

def Alert.machine (a : Alert V) : AlertState × Int × Int × Int × V :=
  (a.state, a.activeAt, a.firedAt, a.resolvedAt, a.value)

def fedSamples (xs : List (VectorInput V)) : List (Sample V) := xs.flatMap VectorInput.samples

/-- After every step each rule's alert of a sample agrees with the threshold rule's, no rule has an entry that is no
sample's, and the items that a step records are those of the threshold rule, in whatever order the map is visited. -/
structure OneMachine (r : Rule V) (xs : List (VectorInput V)) : Prop where
  agree : ∀ pre, pre <+: xs → ∀ k, ∀ smpl ∈ fedSamples pre,
    ((final (evalAll W r) (fun _ => ∅) pre k).lookup (fingerprint W (r.ofKind k) smpl)).map Alert.machine =
      ((final (evalAll W r) (fun _ => ∅) pre .threshold).lookup (fingerprint W (r.ofKind .threshold) smpl)).map Alert.machine
  entries : ∀ pre, pre <+: xs → ∀ k fp a, (final (evalAll W r) (fun _ => ∅) pre k).lookup fp = some a →
    ∃ smpl ∈ fedSamples pre, fingerprint W (r.ofKind k) smpl = fp
  items : ∀ x ∈ trace (evalAll W r) (fun _ => ∅) xs, ∀ k, Option.Rel List.Perm (x.2.2 k) (x.2.2 .threshold)

def NoTemporality (xs : List (VectorInput V)) : Prop :=
  ∀ smpl ∈ fedSamples xs, ∀ l ∈ smpl.metric, l.1 ≠ temporalityLabel

/-- The label that the anomaly rule sets confuses no samples that the threshold rule tells apart, and no hash does. -/
def AnomalyTells (r : Rule V) (xs : List (VectorInput V)) : Prop :=
  ∀ a ∈ fedSamples xs, ∀ b ∈ fedSamples xs,
    (fingerprint W (r.ofKind .threshold) a = fingerprint W (r.ofKind .threshold) b ↔
      fingerprint W (r.ofKind .anomaly) a = fingerprint W (r.ofKind .anomaly) b)

/-- An alert that the step resolves has the value zero; a vector with two samples of one fingerprint is refused and
resolves none. -/
def ResolvedZero (r : Rule V) (A : ThreeActive V) (x : VectorInput V) : Prop :=
  (x.samples.map (fingerprint W (r.ofKind .threshold))).Nodup → ∀ fp a, (A .threshold).lookup fp = some a → a.state ≠ .inactive →
    fp ∉ x.samples.map (fingerprint W (r.ofKind .threshold)) → a.value = Float64.zero

/-! ## Labels of the three kinds -/

omit [Float64 V] in
theorem labels_congr {b b' : Builder} (hbase : b.base = b'.base) (hadd : b.add = b'.add) (hd : b.del ≠ [])
    (hd' : b'.del ≠ []) (h : ∀ l ∈ b.base, l.1 ∈ b.del ↔ l.1 ∈ b'.del) : b.labels = b'.labels := by
  have hne : ∀ c : Builder, c.del ≠ [] → (c.del.isEmpty && c.add.isEmpty) = false := by
    intro c hc
    rw [Bool.and_eq_false_iff]
    exact .inl (by simpa using hc)
  have hfilter : b.base.filter (fun l => !b.del.contains l.1 && !(b.add.map Prod.fst).contains l.1) =
      b'.base.filter (fun l => !b'.del.contains l.1 && !(b'.add.map Prod.fst).contains l.1) := by
    rw [← hbase, ← hadd]
    refine filter_congr (fun l hl => ?_)
    rw [Bool.eq_iff_iff]
    simp [h l hl]
  unfold Builder.labels
  rw [hne b hd, hne b' hd', hfilter, hadd, if_neg Bool.false_ne_true, if_neg Bool.false_ne_true]

theorem setAll_add_congr (m : Labels) {b b' : Builder} (h : b.add = b'.add) : (b.setAll m).add = (b'.setAll m).add := by
  induction m generalizing b b' with
  | nil => exact h
  | cons l m ih =>
    have hset : (b.set l.1 l.2).add = (b'.set l.1 l.2).add := by
      simp only [Builder.set, h]
    exact ih hset

/-- Without `__temporality__`, the names that the threshold rule drops and the prom rule keeps are of no consequence. -/
theorem mem_droppedNames_prom {ls : Labels} (h : ∀ l ∈ ls, l.1 ≠ temporalityLabel) :
    ∀ l ∈ ls, l.1 ∈ droppedNames .prom ↔ l.1 ∈ droppedNames .threshold := by
  intro l hl
  have hne := h l hl
  simp [droppedNames, hne]

theorem droppedNames_ne_nil (k : RuleKind) : droppedNames k ≠ [] := by
  cases k <;> decide

theorem resultLabels_kind {metric : Labels} (h : ∀ l ∈ metric, l.1 ≠ temporalityLabel) (k : RuleKind) :
    resultLabels k metric = resultLabels .threshold metric := by
  cases k with
  | threshold => rfl
  | anomaly => rfl
  | prom =>
    unfold resultLabels
    rw [foldl_delete_newBuilder, foldl_delete_newBuilder]
    exact labels_congr rfl rfl (droppedNames_ne_nil .prom) (droppedNames_ne_nil .threshold) (mem_droppedNames_prom h)

omit [Float64 V] in
theorem alertLabels_prom (r : Rule V) {smpl : Sample V} (h : ∀ l ∈ smpl.metric, l.1 ≠ temporalityLabel) :
    alertLabels W (r.ofKind .prom) smpl = alertLabels W (r.ofKind .threshold) smpl := by
  have hadd : ∀ m : Labels, (({ base := smpl.metric, del := droppedNames .prom, add := [] } : Builder).setAll m).add =
      (({ base := smpl.metric, del := droppedNames .threshold, add := [] } : Builder).setAll m).add :=
    fun m => setAll_add_congr m rfl
  simp only [alertLabels, Rule.ofKind, foldl_delete_newBuilder, reduceCtorEq, if_false]
  refine labels_congr ?_ ?_ ?_ ?_ ?_
  · split_ifs <;> simp [Builder.set]
  · split_ifs <;> simp only [Builder.set, hadd]
  · split_ifs <;> simp [Builder.set, droppedNames]
  · split_ifs <;> simp [Builder.set, droppedNames]
  · have hnames := mem_droppedNames_prom h
    split_ifs <;> simpa [Builder.set] using hnames

/-! ## Alerts in step -/

def Alert.core (a : Alert V) : AlertState × Int × Int × Int × V × Labels × Bool × Bool :=
  (a.state, a.activeAt, a.firedAt, a.resolvedAt, a.value, a.queryResultLabels, a.missing, a.isRecovering)

def SameCore (a a' : Alert V) : Prop := a.core = a'.core

section
variable {W} {r : Rule V} {k : RuleKind} {a a' : Alert V}

omit [Float64 V] in
theorem SameCore.fields (h : SameCore a a') : a.state = a'.state ∧ a.activeAt = a'.activeAt ∧ a.firedAt = a'.firedAt ∧
    a.resolvedAt = a'.resolvedAt ∧ a.value = a'.value ∧ a.queryResultLabels = a'.queryResultLabels ∧
    a.missing = a'.missing ∧ a.isRecovering = a'.isRecovering := by
  simpa only [SameCore, Alert.core, Prod.mk.injEq] using h

omit [Float64 V] in
theorem sameCore_newAlert (receivers : List RuleReceivers) (ts : Int) {smpl : Sample V}
    (h : ∀ l ∈ smpl.metric, l.1 ≠ temporalityLabel) :
    SameCore (newAlert W (r.ofKind .threshold) receivers ts smpl) (newAlert W (r.ofKind k) receivers ts smpl) := by
  have hlabels := resultLabels_kind h k
  simp only [SameCore, Alert.core, newAlert, Rule.ofKind, hlabels]

omit [Float64 V] in
theorem sameCore_mergeAlert (receivers : List RuleReceivers) (h : SameCore a a') {o o' : Option (Alert V)}
    (ho : Option.Rel SameCore o o') : SameCore (mergeAlert receivers a o) (mergeAlert receivers a' o') := by
  cases ho with
  | none => exact h
  | @some b b' hb =>
    obtain ⟨-, -, -, -, hvalue, -, hmissing, hrecovering⟩ := h.fields
    obtain ⟨hstate, hactive, hfired, hresolved, -, hlabels, -, -⟩ := hb.fields
    simp only [mergeAlert]
    rw [← hstate]
    split_ifs
    · simp only [SameCore, Alert.core, hstate, hactive, hfired, hresolved, hlabels, hvalue, hmissing, hrecovering]
    · exact h

omit [Float64 V] in
theorem sameCore_fire (ts : Int) (h : SameCore a a') : firesNow ts a = firesNow ts a' ∧ SameCore (fire ts a) (fire ts a') := by
  obtain ⟨hstate, hactive, hfired, hresolved, hvalue, hlabels, hmissing, hrecovering⟩ := h.fields
  have hfires : firesNow ts a = firesNow ts a' := by
    simp only [firesNow, hstate, hactive]
  refine ⟨hfires, ?_⟩
  unfold fire
  rw [hfires]
  split_ifs
  · simp only [SameCore, Alert.core, hactive, hresolved, hlabels, hvalue, hmissing, hrecovering]
  · exact h

omit [Float64 V] in
theorem sameCore_turn (h : SameCore a a') : changeRecoveringToFiring a = changeRecoveringToFiring a' ∧
    changeAlertingToRecovering a = changeAlertingToRecovering a' ∧ SameCore (turn a) (turn a') := by
  obtain ⟨hstate, hactive, hfired, hresolved, hvalue, hlabels, hmissing, hrecovering⟩ := h.fields
  have hrf : changeRecoveringToFiring a = changeRecoveringToFiring a' := by
    simp only [changeRecoveringToFiring, hstate, hrecovering, hmissing]
  have haf : changeAlertingToRecovering a = changeAlertingToRecovering a' := by
    simp only [changeAlertingToRecovering, hstate, hrecovering]
  refine ⟨hrf, haf, ?_⟩
  unfold turn
  rw [hrf, haf]
  split_ifs
  · simp only [SameCore, Alert.core, hactive, hfired, hresolved, hlabels, hvalue, hmissing, hrecovering]
  · simp only [SameCore, Alert.core, hactive, hfired, hresolved, hlabels, hvalue, hmissing, hrecovering]
  · exact h

omit [Float64 V] in
theorem sameCore_settle {fps fps' : List Nat} {fp fp' : Nat} (ts : Int) (hfp : fp ∈ fps ↔ fp' ∈ fps') (h : SameCore a a') :
    Option.Rel SameCore (settle fps ts fp a) (settle fps' ts fp' a') := by
  obtain ⟨hstate, hactive, hfired, hresolved, hvalue, hlabels, hmissing, hrecovering⟩ := h.fields
  unfold settle
  by_cases hin : fp ∈ fps
  · rw [if_pos hin, if_pos (hfp.1 hin)]
    exact Option.Rel.some (sameCore_turn (sameCore_fire ts h).2).2.2
  · rw [if_neg hin, if_neg (fun hin' => hin (hfp.2 hin'))]
    unfold settleMissed
    rw [← hstate, ← hresolved]
    split_ifs
    · exact Option.Rel.none
    · refine Option.Rel.some ?_
      simp only [SameCore, Alert.core, hactive, hfired, hlabels, hvalue, hmissing, hrecovering]
    · exact Option.Rel.some h

theorem changes_kind {fps fps' : List Nat} {fp fp' : Nat} (ts : Int) (hfp : fp ∈ fps ↔ fp' ∈ fps') (h : SameCore a a')
    (hzero : k = .prom → a.state ≠ .inactive → fp ∉ fps → a.value = Float64.zero) :
    changes (r.ofKind .threshold) fps ts fp a = changes (r.ofKind k) fps' ts fp' a' := by
  obtain ⟨hstate, -, -, -, hvalue, -, hmissing, -⟩ := h.fields
  obtain ⟨hfires, hfired⟩ := sameCore_fire ts h
  obtain ⟨hrf, haf, -⟩ := sameCore_turn hfired
  unfold changes
  by_cases hin : fp ∈ fps
  · rw [if_pos hin, if_pos (hfp.1 hin), hfires, hrf, haf, hmissing, hvalue]
  · rw [if_neg hin, if_neg (fun hin' => hin (hfp.2 hin')), ← hstate]
    by_cases hinactive : a.state ≠ .inactive
    · rw [if_pos hinactive, if_pos hinactive]
      have hkind : (if (r.ofKind k).kind = .prom then Float64.zero else a'.value) = a.value := by
        split_ifs with hprom
        · exact (hzero hprom hinactive hin).symm
        · exact hvalue.symm
      rw [hkind]
      rfl
    · rw [if_neg hinactive, if_neg hinactive]

end

/-! ## One step -/

/-- The fingerprints that the threshold rule and the rule of a kind have for one of the samples. -/
def Corresponds (r : Rule V) (k : RuleKind) (fed : List (Sample V)) (fp fp' : Nat) : Prop :=
  ∃ smpl ∈ fed, fingerprint W (r.ofKind .threshold) smpl = fp ∧ fingerprint W (r.ofKind k) smpl = fp'

def KindTells (r : Rule V) (k : RuleKind) (fed : List (Sample V)) : Prop := ∀ a ∈ fed, ∀ b ∈ fed,
  (fingerprint W (r.ofKind .threshold) a = fingerprint W (r.ofKind .threshold) b ↔
    fingerprint W (r.ofKind k) a = fingerprint W (r.ofKind k) b)

section
variable {W} {r : Rule V} {k : RuleKind} {fed : List (Sample V)}

omit [Float64 V] in
theorem tellsAlike_of_kindTells (h : KindTells W r k fed) : TellsAlike (Corresponds W r k fed) := by
  rintro fp fp' fq fq' ⟨a, ha, rfl, rfl⟩ ⟨b, hb, rfl, rfl⟩
  exact h a ha b hb

omit [Float64 V] in
theorem nodup_map_iff {α : Type} {f g : α → Nat} {l : List α} (h : ∀ a ∈ l, ∀ b ∈ l, f a = f b ↔ g a = g b) :
    (l.map f).Nodup ↔ (l.map g).Nodup := by
  unfold List.Nodup
  rw [pairwise_map, pairwise_map]
  refine List.Pairwise.iff_of_mem (fun {a b} ha hb => ?_)
  exact not_congr (h a ha b hb)

omit [Float64 V] in
theorem mem_map_fingerprint_iff (h : KindTells W r k fed) {samples : List (Sample V)} (hsub : ∀ smpl ∈ samples, smpl ∈ fed)
    {fp fp' : Nat} (hc : Corresponds W r k fed fp fp') : fp ∈ samples.map (fingerprint W (r.ofKind .threshold)) ↔
      fp' ∈ samples.map (fingerprint W (r.ofKind k)) := by
  obtain ⟨smpl, hin, rfl, rfl⟩ := hc
  rw [List.mem_map, List.mem_map]
  constructor
  · rintro ⟨a, ha, heq⟩
    exact ⟨a, ha, (h a (hsub a ha) smpl hin).1 heq⟩
  · rintro ⟨a, ha, heq⟩
    exact ⟨a, ha, (h a (hsub a ha) smpl hin).2 heq⟩

omit [Float64 V] in
theorem overallState_inStep {K : Nat → Nat → Prop} {m m' : GoMap Nat (Alert V)} (h : GoMap.InStep K SameCore m m') :
    overallState m = overallState m' := by
  have hstates : m.entries.flatMap (fun e => [e.2.state]) = m'.entries.flatMap (fun e => [e.2.state]) :=
    h.flatMap_eq (fun e _ e' he => by rw [he.2.fields.1])
  have hfold : ∀ m : GoMap Nat (Alert V), overallState m = (m.entries.flatMap (fun e => [e.2.state])).foldl
      (fun acc st => if acc.severity < st.severity then st else acc) .inactive := by
    intro m
    unfold overallState values
    rw [foldl_map, ← map_eq_flatMap, foldl_map]
  rw [hfold, hfold, hstates]

variable {x : VectorInput V} {A A' : GoMap Nat (Alert V)}

omit [Float64 V] in
theorem inStep_merged (htells : KindTells W r k fed) (hsub : ∀ smpl ∈ x.samples, smpl ∈ fed)
    (htemp : ∀ smpl ∈ x.samples, ∀ l ∈ smpl.metric, l.1 ≠ temporalityLabel)
    (h : GoMap.InStep (Corresponds W r k fed) SameCore A A') :
    GoMap.InStep (Corresponds W r k fed) SameCore (mergedVector W (r.ofKind .threshold) A x)
      (mergedVector W (r.ofKind k) A' x) := by
  refine GoMap.InStep.foldl_put (tellsAlike_of_kindTells htells) ?_ h
  rw [List.forall₂_map_left_iff, List.forall₂_map_right_iff, List.forall₂_same]
  intro smpl hin
  refine ⟨⟨smpl, hsub smpl hin, rfl, rfl⟩, fun o o' ho => ?_⟩
  exact sameCore_mergeAlert _ (sameCore_newAlert _ x.ts (htemp smpl hin)) ho

/-- **Fed one vector, the rule of a kind keeps step with the threshold rule**, and records what it records where no prom
rule resolves an alert of another value than zero. -/
theorem evalVector_inStep (htells : KindTells W r k fed) (hsub : ∀ smpl ∈ x.samples, smpl ∈ fed)
    (htemp : ∀ smpl ∈ x.samples, ∀ l ∈ smpl.metric, l.1 ≠ temporalityLabel)
    (h : GoMap.InStep (Corresponds W r k fed) SameCore A A') :
    GoMap.InStep (Corresponds W r k fed) SameCore (evalVector W (r.ofKind .threshold) A x).1
      (evalVector W (r.ofKind k) A' x).1 ∧
    ((k = .prom → (x.samples.map (fingerprint W (r.ofKind .threshold))).Nodup → ∀ fp a, A.lookup fp = some a →
      a.state ≠ .inactive → fp ∉ x.samples.map (fingerprint W (r.ofKind .threshold)) → a.value = Float64.zero) →
        (evalVector W (r.ofKind .threshold) A x).2 = (evalVector W (r.ofKind k) A' x).2) := by
  have hnodup : (x.samples.map (fingerprint W (r.ofKind .threshold))).Nodup ↔
      (x.samples.map (fingerprint W (r.ofKind k))).Nodup :=
    nodup_map_iff (fun a ha b hb => htells a (hsub a ha) b (hsub b hb))
  by_cases hnd : (x.samples.map (fingerprint W (r.ofKind .threshold))).Nodup
  · rw [evalVector_of_nodup W hnd, evalVector_of_nodup W (hnodup.1 hnd)]
    have hmerged := inStep_merged htells hsub htemp h
    have hafter : GoMap.InStep (Corresponds W r k fed) SameCore
        (filterMapVal (settle (x.samples.map (fingerprint W (r.ofKind .threshold))) x.ts) _)
        (filterMapVal (settle (x.samples.map (fingerprint W (r.ofKind k))) x.ts) _) :=
      hmerged.filterMapVal (fun fp fp' a a' hc ha => sameCore_settle x.ts (mem_map_fingerprint_iff htells hsub hc) ha)
    refine ⟨hafter, fun hzero => ?_⟩
    rw [Option.some.injEq]
    unfold itemsToAdd
    refine hmerged.flatMap_eq (fun e hin e' he => ?_)
    -- an entry without a sample is as it was before the samples came
    have hlookup : e.1 ∉ x.samples.map (fingerprint W (r.ofKind .threshold)) → A.lookup e.1 = some e.2 := by
      intro hnot
      refine Eq.trans (lookup_foldl_put_of_not_mem _ _ _ ?_).symm (AList.mem_lookup_iff.2 hin)
      rwa [List.map_map]
    have hchanges := changes_kind (r := r) (k := k) x.ts (mem_map_fingerprint_iff htells hsub he.1) he.2
      (fun hprom hstate hnot => hzero hprom hnd e.1 e.2 (hlookup hnot) hstate hnot)
    rw [hchanges, overallState_inStep hafter, overallState_inStep h, he.2.fields.2.2.2.2.2.1]
    rfl
  · rw [evalVector_of_dup W hnd, evalVector_of_dup W (fun h => hnd (hnodup.2 h))]
    exact ⟨h, fun _ => rfl⟩

end

/-! ## Whole runs -/

section
variable {W} {r : Rule V}

omit [Float64 V] in
theorem kindTells_of (k : RuleKind) {fed : List (Sample V)} (htemp : ∀ smpl ∈ fed, ∀ l ∈ smpl.metric, l.1 ≠ temporalityLabel)
    (hanomaly : KindTells W r .anomaly fed) : KindTells W r k fed := by
  cases k with
  | threshold => exact fun a _ b _ => Iff.rfl
  | prom =>
    intro a ha b hb
    unfold fingerprint
    rw [alertLabels_prom W r (htemp a ha), alertLabels_prom W r (htemp b hb)]
  | anomaly => exact hanomaly

omit [Float64 V] in
theorem fedSamples_append (xs ys : List (VectorInput V)) : fedSamples (xs ++ ys) = fedSamples xs ++ fedSamples ys :=
  flatMap_append

omit [Float64 V] in
theorem mem_fedSamples_earlier {pre xs : List (VectorInput V)} (h : pre <+: xs) {smpl : Sample V}
    (hs : smpl ∈ fedSamples pre) : smpl ∈ fedSamples xs := by
  obtain ⟨post, rfl⟩ := h
  rw [fedSamples_append]
  exact mem_append_left _ hs

theorem inStep_run (xs : List (VectorInput V)) (htemp : NoTemporality xs) (htells : AnomalyTells W r xs) (k : RuleKind) :
    GoMap.InStep (Corresponds W r k (fedSamples xs)) SameCore (final (evalAll W r) (fun _ => ∅) xs .threshold)
      (final (evalAll W r) (fun _ => ∅) xs k) := by
  refine history_inv (evalAll W r)
    (fun A pre => ∀ k, GoMap.InStep (Corresponds W r k (fedSamples pre)) SameCore (A .threshold) (A k))
    (fun pre => NoTemporality pre ∧ AnomalyTells W r pre) (fun _ => ∅) ?_ (fun k => inStep_empty) ?_ xs ⟨htemp, htells⟩ k
  · rintro pre x ⟨htemp, htells⟩
    have hsub : ∀ smpl ∈ fedSamples pre, smpl ∈ fedSamples (pre ++ [x]) := fun smpl =>
      mem_fedSamples_earlier (prefix_append _ _)
    exact ⟨fun smpl hs => htemp smpl (hsub smpl hs), fun a ha b hb => htells a (hsub a ha) b (hsub b hb)⟩
  · rintro pre x ⟨htemp, htells⟩ hprev k
    have hnew : ∀ smpl ∈ x.samples, smpl ∈ fedSamples (pre ++ [x]) := by
      intro smpl hs
      rw [fedSamples_append]
      exact mem_append_right _ (mem_flatMap.2 ⟨x, mem_singleton_self x, hs⟩)
    have hold : GoMap.InStep (Corresponds W r k (fedSamples (pre ++ [x]))) SameCore
        (final (evalAll W r) (fun _ => ∅) pre .threshold) (final (evalAll W r) (fun _ => ∅) pre k) := by
      refine (hprev k).mono ?_
      rintro fp fp' ⟨smpl, hs, hfp, hfp'⟩
      exact ⟨smpl, mem_fedSamples_earlier (prefix_append _ _) hs, hfp, hfp'⟩
    exact (evalVector_inStep (kindTells_of k htemp htells) hnew (fun smpl hs => htemp smpl (hnew smpl hs)) hold).1

end

/-- **Fed the same samples, the three rules are one machine**, in every run in which the anomaly rule's label confuses no
samples and every alert that is resolved has the value zero. -/
theorem oneMachine_run (r : Rule V) (xs : List (VectorInput V)) (htemp : NoTemporality xs) (htells : AnomalyTells W r xs)
    (hzero : ∀ x ∈ trace (evalAll W r) (fun _ => ∅) xs, ResolvedZero W r x.1 x.2.1) : OneMachine W r xs := by
  have htemp' : ∀ pre, pre <+: xs → NoTemporality pre := fun pre hp smpl hs =>
    htemp smpl (mem_fedSamples_earlier hp hs)
  have htells' : ∀ pre, pre <+: xs → AnomalyTells W r pre := fun pre hp a ha b hb =>
    htells a (mem_fedSamples_earlier hp ha) b (mem_fedSamples_earlier hp hb)
  have hrun : ∀ pre, pre <+: xs → ∀ k, GoMap.InStep (Corresponds W r k (fedSamples pre)) SameCore
      (final (evalAll W r) (fun _ => ∅) pre .threshold) (final (evalAll W r) (fun _ => ∅) pre k) :=
    fun pre hp k => inStep_run pre (htemp' pre hp) (htells' pre hp) k
  refine ⟨?_, ?_, ?_⟩
  · intro pre hp k smpl hs
    have hrel := (hrun pre hp k).lookup (tellsAlike_of_kindTells (kindTells_of k (htemp' pre hp) (htells' pre hp)))
      ⟨smpl, hs, rfl, rfl⟩
    generalize (final (evalAll W r) (fun _ => ∅) pre .threshold).lookup (fingerprint W (r.ofKind .threshold) smpl) = o at hrel
    generalize (final (evalAll W r) (fun _ => ∅) pre k).lookup (fingerprint W (r.ofKind k) smpl) = o' at hrel
    cases hrel with
    | none => rfl
    | some hsame =>
      obtain ⟨hstate, hactive, hfired, hresolved, hvalue, -⟩ := hsame.fields
      simp only [Option.map_some, Alert.machine, hstate, hactive, hfired, hresolved, hvalue]
  · intro pre hp k fp a ha
    obtain ⟨e, -, ⟨smpl, hs, -, hfp⟩, -⟩ := (hrun pre hp k).exists_entry (AList.mem_lookup_iff.1 ha)
    exact ⟨smpl, hs, hfp⟩
  · intro x hx k
    obtain ⟨pre, post, hxs, hstate, hout⟩ := (mem_trace _ _ _ _).1 hx
    have hp : pre ++ [x.2.1] <+: xs := ⟨post, by rw [hxs, List.append_assoc, singleton_append]⟩
    have hnew : ∀ smpl ∈ x.2.1.samples, smpl ∈ fedSamples (pre ++ [x.2.1]) := by
      intro smpl hs
      rw [fedSamples_append]
      exact mem_append_right _ (mem_flatMap.2 ⟨x.2.1, mem_singleton_self _, hs⟩)
    have hold : GoMap.InStep (Corresponds W r k (fedSamples (pre ++ [x.2.1]))) SameCore (x.1 .threshold) (x.1 k) := by
      rw [hstate]
      refine (hrun pre ((prefix_append _ _).trans hp) k).mono ?_
      rintro fp fp' ⟨smpl, hs, hfp, hfp'⟩
      exact ⟨smpl, mem_fedSamples_earlier (prefix_append _ _) hs, hfp, hfp'⟩
    have hitems := (evalVector_inStep (kindTells_of k (htemp' _ hp) (htells' _ hp)) hnew
      (fun smpl hs => htemp' _ hp smpl (hnew smpl hs)) hold).2 (fun _ => hzero x hx)
    have hsame : x.2.2 k = x.2.2 .threshold := by
      rw [hout]
      exact hitems.symm
    rw [hsame]
    cases x.2.2 .threshold with
    | none => exact Option.Rel.none
    | some items => exact Option.Rel.some (List.Perm.refl items)

def podVector (minutes : Int) (vs : List Int) : VectorInput Int :=
  { ts := minutes * Calendar.minute, samples := vs.map (criticalAboveFive.sample plainWorld [("pod", "a")])
    order := .asStored }

def fallingRun : List (VectorInput Int) := [podVector 0 [10], podVector 1 [0], podVector 2 []]

theorem fallingRun_oneMachine :
    (final (evalAll plainWorld (cpuRule .threshold)) (fun _ => ∅) fallingRun .anomaly).entries.map
      (fun e => (e.2.state, e.2.resolvedAt)) = [(.inactive, 2 * Calendar.minute)] ∧
    OneMachine plainWorld (cpuRule .threshold) fallingRun := by
  have hzero : ∀ x ∈ trace (evalAll plainWorld (cpuRule .threshold)) (fun _ => ∅) fallingRun,
      ∀ e ∈ (x.1 .threshold).entries, e.2.state ≠ .inactive →
        e.1 ∉ x.2.1.samples.map (fingerprint plainWorld ((cpuRule .threshold).ofKind .threshold)) → e.2.value = 0 := by
    decide +kernel
  have htemp : NoTemporality fallingRun := by
    unfold NoTemporality
    decide
  have htells : AnomalyTells plainWorld (cpuRule .threshold) fallingRun := by
    unfold AnomalyTells
    decide +kernel
  refine ⟨by decide +kernel, oneMachine_run plainWorld (cpuRule .threshold) fallingRun htemp htells ?_⟩
  intro x hx _ fp a ha hstate hnot
  exact hzero x hx ⟨fp, a⟩ (AList.mem_lookup_iff.1 ha) hstate hnot

/-- Ten fires, and its series is gone a minute later: the prom rule records a resolved alert of the value zero. -/
theorem prom_forgets_value : ¬ OneMachine plainWorld (cpuRule .threshold) [podVector 0 [10], podVector 1 []] := by
  intro h
  have hvalues : ∀ k, ((evalAll plainWorld (cpuRule .threshold)
      (final (evalAll plainWorld (cpuRule .threshold)) (fun _ => ∅) [podVector 0 [10]]) (podVector 1 [])).2 k).map
        (fun items => items.map RuleStateHistory.value) = some [if k = .prom then 0 else 10] := by
    intro k
    cases k <;> decide +kernel
  generalize hA : final (evalAll plainWorld (cpuRule .threshold)) (fun _ => ∅) [podVector 0 [10]] = A at hvalues
  have hx : (A, podVector 1 [], (evalAll plainWorld (cpuRule .threshold) A (podVector 1 [])).2) ∈
      trace (evalAll plainWorld (cpuRule .threshold)) (fun _ => ∅) [podVector 0 [10], podVector 1 []] :=
    (mem_trace _ _ _ _).2 ⟨[podVector 0 [10]], [], rfl, hA.symm, rfl⟩
  have hitems := h.items _ hx .prom
  obtain ⟨items, hout, hmap⟩ := Option.map_eq_some_iff.1 (hvalues .prom)
  obtain ⟨items', hout', hmap'⟩ := Option.map_eq_some_iff.1 (hvalues .threshold)
  rw [hout, hout'] at hitems
  cases hitems with
  | some hperm =>
    have hvals := hperm.map RuleStateHistory.value
    rw [hmap, hmap'] at hvals
    exact absurd hvals (by decide)

end Rules
end DsApm
