import DsApm.Rules.Routing
/-!
# Duplicates — when two samples of an evaluation are one alert

An alert is known by its labels: those of the series, the threshold's name and severity, and the rule's own.  Two samples
with one label set fail the whole evaluation.  Series of a query differ in their labels, so the samples of one are told
from those of another; the samples of one series are told apart by the threshold's name alone, and `Validate` lets two
thresholds have the same.
-/
namespace DsApm
namespace Rules

open Latest StepRun GoMap List Option

variable {V : Type} [Float64 V] (W : World V) (r : Rule V)

def fixedNames : List String := [alertNameLabel, alertRuleIDLabel, ruleSourceLabel]

def ownNames : List String := r.labels.map Prod.fst ++ fixedNames

def keptName (n : String) : Bool := !(droppedNames .threshold).contains n

def expandFor (smpl : Sample V) (text : String) : String :=
  W.expand r.name r.annotations smpl.metric (W.format r.unit smpl.v r.unit) (W.format r.unit smpl.target smpl.targetUnit) text

def ownLabels (smpl : Sample V) : Labels :=
  setLabel (setLabel (setLabel ((r.labels.map (fun l => (l.1, expandFor W r smpl l.2))).foldl
    (fun a l => setLabel a l.1 l.2) []) alertNameLabel r.name) alertRuleIDLabel r.id) ruleSourceLabel r.generatorURL

def keptLabels (series : TimeSeries V) : Labels :=
  (((newBuilder []).setAll series.labels).labels).filter (fun l => keptName l.1)

/-- The labels of the series tell them apart, and the rule sets none of their names. -/
structure SeparateSeries (i : EvalInput V) : Prop where
  distinct : ∀ result, i.query = some result → (result.getD []).Pairwise (fun s t => keptLabels s ≠ keptLabels t)
  free : ∀ result, i.query = some result → ∀ series ∈ result.getD [], ∀ l ∈ series.labels,
    l.1 ∉ ownNames r ∧ l.1 ≠ labelThresholdName ∧ l.1 ≠ labelSeverityName

def Collisionless (s : RuleState V) (i : EvalInput V) : Prop :=
  ∀ samples, (buildAndRunQuery W r s i).2 = some samples → ∀ x ∈ samples, ∀ y ∈ samples,
    fingerprint W r x = fingerprint W r y → alertLabels W r x = alertLabels W r y

/-- The label sets of the alerts are pairwise different, and the evaluation does not fail for them. -/
structure NoDuplicates (s : RuleState V) (i : EvalInput V) : Prop where
  labels : ∀ samples, (buildAndRunQuery W r s i).2 = some samples → (samples.map (alertLabels W r)).Nodup
  succeeds : i.query ≠ none → (eval W r s i).2 ≠ none

def evalOn (s : RuleState V) (series : TimeSeries V) (b : BasicRuleThreshold V) : Option (Sample V) :=
  b.eval W { series with values := series.evaluableValues } r.unit
    { activeAlerts := activeAlertsLabelFP W s.active, sendUnmatched := r.sendUnmatched }

/-- The rule keeps the names of the thresholds apart, or their severities, or one of its own labels differs. -/
def Distinguished (a b : BasicRuleThreshold V) (x y : Sample V) : Prop :=
  (labelThresholdName ∉ r.labels.map Prod.fst ∧ a.name ≠ b.name) ∨
  (labelSeverityName ∉ r.labels.map Prod.fst ∧ W.lower a.name ≠ W.lower b.name) ∨
  ∃ l ∈ r.labels, l.1 ∉ fixedNames ∧ expandFor W r x l.2 ≠ expandFor W r y l.2

/-- No series has samples of two thresholds that the alert's labels take for one. -/
def ThresholdsApart (s : RuleState V) (i : EvalInput V) : Prop :=
  ∀ series ∈ evaluatedSeries W r s i, r.thresholds.Pairwise (fun a b => ∀ x y,
    evalOn W r s series a = some x → evalOn W r s series b = some y → Distinguished W r a b x y)

/-! ## The labels of the rule -/

section
omit [Float64 V]
variable {W r}

theorem mem_names_ownLabels {smpl : Sample V} {n : String} :
    n ∈ (ownLabels W r smpl).map Prod.fst ↔ n ∈ ownNames r := by
  have hset := mem_names_setAll (r.labels.map (fun l => (l.1, expandFor W r smpl l.2))) (newBuilder []) n
  rw [setAll_add, List.map_map] at hset
  unfold ownLabels ownNames fixedNames
  rw [mem_names_setLabel, mem_names_setLabel, mem_names_setLabel, mem_append]
  have hnames : n ∈ List.map (Prod.fst ∘ fun l : String × String => (l.1, expandFor W r smpl l.2)) r.labels ↔
      n ∈ r.labels.map Prod.fst := Iff.rfl
  rw [hnames] at hset
  simp only [newBuilder, map_nil, not_mem_nil, or_false] at hset
  rw [hset]
  simp only [mem_cons, not_mem_nil, or_false]
  tauto

theorem nodup_ownLabels (smpl : Sample V) : ((ownLabels W r smpl).map Prod.fst).Nodup :=
  nodup_setLabel (nodup_setLabel (nodup_setLabel (nodup_foldl_setLabel (a := []) _ nodup_nil) _ _) _ _) _ _

theorem mem_ownLabels (hnames : (r.labels.map Prod.fst).Nodup) (smpl : Sample V) (l : String × String) :
    l ∈ ownLabels W r smpl ↔
      l ∈ [(alertNameLabel, r.name), (alertRuleIDLabel, r.id), (ruleSourceLabel, r.generatorURL)] ∨
      (l.1 ∉ fixedNames ∧ ∃ m ∈ r.labels, l = (m.1, expandFor W r smpl m.2)) := by
  have hmap : ((r.labels.map (fun l => (l.1, expandFor W r smpl l.2))).map Prod.fst).Nodup := by
    rw [List.map_map]
    exact hnames
  have hset := foldl_setLabel_of_nodup (a := []) _ hmap
  rw [nil_append] at hset
  have h₁ := nodup_setLabel hmap alertNameLabel r.name
  have h₂ := nodup_setLabel h₁ alertRuleIDLabel r.id
  have hid : alertRuleIDLabel ≠ ruleSourceLabel := by decide
  have hname : alertNameLabel ≠ ruleSourceLabel ∧ alertNameLabel ≠ alertRuleIDLabel := by decide
  unfold ownLabels
  rw [hset, mem_setLabel h₂, mem_setLabel h₁, mem_setLabel hmap, List.mem_map]
  unfold fixedNames
  simp only [mem_cons, not_mem_nil, or_false, not_or]
  constructor
  · rintro (rfl | ⟨hs, rfl | ⟨hi, rfl | ⟨hn, m, hm, rfl⟩⟩⟩)
    · exact .inl (.inr (.inr rfl))
    · exact .inl (.inr (.inl rfl))
    · exact .inl (.inl rfl)
    · exact .inr ⟨⟨hn, hi, hs⟩, m, hm, rfl⟩
  · rintro ((rfl | rfl | rfl) | ⟨⟨hn, hi, hs⟩, m, hm, rfl⟩)
    · exact .inr ⟨hname.1, .inr ⟨hname.2, .inl rfl⟩⟩
    · exact .inr ⟨hid, .inl rfl⟩
    · exact .inl rfl
    · exact .inr ⟨hs, .inr ⟨hi, .inr ⟨hn, m, hm, rfl⟩⟩⟩

theorem ownLabels_perm_iff (hnames : (r.labels.map Prod.fst).Nodup) (x y : Sample V) :
    (ownLabels W r x).Perm (ownLabels W r y) ↔
      ∀ l ∈ r.labels, l.1 ∉ fixedNames → expandFor W r x l.2 = expandFor W r y l.2 := by
  rw [perm_ext_iff_of_nodup (nodup_ownLabels x).of_map (nodup_ownLabels y).of_map]
  constructor
  · intro h l hl hfixed
    have hin := (h (l.1, expandFor W r x l.2)).1 ((mem_ownLabels hnames x _).2 (.inr ⟨hfixed, l, hl, rfl⟩))
    rcases (mem_ownLabels hnames y _).1 hin with hrule | ⟨-, m, hm, heq⟩
    · exact absurd (List.mem_map_of_mem (f := Prod.fst) hrule) hfixed
    · obtain ⟨hkey, hvalue⟩ := Prod.mk.injEq _ _ _ _ ▸ heq
      rw [hvalue, inj_on_of_nodup_map hnames hl hm hkey]
  · intro h l
    rw [mem_ownLabels hnames, mem_ownLabels hnames]
    refine or_congr Iff.rfl (and_congr_right (fun hfixed => ?_))
    refine exists_congr (fun m => and_congr_right (fun hm => ?_))
    constructor
    · rintro rfl
      rw [h m hm hfixed]
    · rintro rfl
      rw [h m hm hfixed]

/-! ## The labels of an alert -/

theorem alertLabels_eq (hk : r.kind = .threshold) {smpl : Sample V} (hmissing : smpl.isMissing = false) :
    alertLabels W r smpl =
      sortLabels (smpl.metric.filter (fun l => keptName l.1 && !(ownNames r).contains l.1) ++ ownLabels W r smpl) := by
  have hcontains : ∀ n, ((ownLabels W r smpl).map Prod.fst).contains n = (ownNames r).contains n := by
    intro n
    rw [Bool.eq_iff_iff, contains_iff_mem, contains_iff_mem]
    exact mem_names_ownLabels
  unfold alertLabels
  simp only [hk, hmissing, foldl_delete_newBuilder, reduceCtorEq, if_false, Bool.false_eq_true]
  unfold Builder.labels
  have hadd : ((((({ base := smpl.metric, del := droppedNames .threshold, add := [] } : Builder).setAll
      (r.labels.map (fun l => (l.1, expandFor W r smpl l.2)))).set alertNameLabel r.name).set alertRuleIDLabel
      r.id).set ruleSourceLabel r.generatorURL).add = ownLabels W r smpl := by
    unfold ownLabels Builder.set
    simp only [setAll_add]
  have hbase : ((((({ base := smpl.metric, del := droppedNames .threshold, add := [] } : Builder).setAll
      (r.labels.map (fun l => (l.1, expandFor W r smpl l.2)))).set alertNameLabel r.name).set alertRuleIDLabel
      r.id).set ruleSourceLabel r.generatorURL).base = smpl.metric := setAll_base _ _
  have hdel : ((((({ base := smpl.metric, del := droppedNames .threshold, add := [] } : Builder).setAll
      (r.labels.map (fun l => (l.1, expandFor W r smpl l.2)))).set alertNameLabel r.name).set alertRuleIDLabel
      r.id).set ruleSourceLabel r.generatorURL).del = droppedNames .threshold := setAll_del _ _
  unfold expandFor at hadd hbase hdel
  rw [hadd, hbase, hdel, if_neg (by simp [droppedNames])]
  simp only [hcontains]
  rfl

theorem alertLabels_eq_iff (hk : r.kind = .threshold) (hnames : (r.labels.map Prod.fst).Nodup) {x y : Sample V}
    (hx : x.isMissing = false) (hy : y.isMissing = false) (hxs : (x.metric.map Prod.fst).Nodup) :
    alertLabels W r x = alertLabels W r y ↔
      (x.metric.filter (fun l => keptName l.1 && !(ownNames r).contains l.1)).Perm
        (y.metric.filter (fun l => keptName l.1 && !(ownNames r).contains l.1)) ∧
      ∀ l ∈ r.labels, l.1 ∉ fixedNames → expandFor W r x l.2 = expandFor W r y l.2 := by
  have hfilter : ∀ z : Sample V, ∀ l ∈ z.metric.filter (fun l => keptName l.1 && !(ownNames r).contains l.1),
      l.1 ∉ ownNames r := by
    intro z l hl
    have := (mem_filter.1 hl).2
    rw [Bool.and_eq_true, Bool.not_eq_true', contains_eq_mem, decide_eq_false_iff_not] at this
    exact this.2
  have hown : ∀ z : Sample V, ∀ l ∈ ownLabels W r z, l.1 ∈ ownNames r := fun z l hl =>
    mem_names_ownLabels.1 (List.mem_map_of_mem hl)
  have hnodup : ((x.metric.filter (fun l => keptName l.1 && !(ownNames r).contains l.1) ++ ownLabels W r x).map
      Prod.fst).Nodup := by
    rw [map_append, nodup_append]
    refine ⟨hxs.sublist (filter_sublist.map _), nodup_ownLabels x, ?_⟩
    rintro n hn _ hm rfl
    obtain ⟨l, hl, rfl⟩ := List.mem_map.1 hn
    exact hfilter x l hl (mem_names_ownLabels.1 hm)
  rw [alertLabels_eq hk hx, alertLabels_eq hk hy, sortLabels_eq_iff hnodup, ← ownLabels_perm_iff hnames x y]
  exact perm_append_iff (fun l => decide (l.1 ∈ ownNames r)) (fun l hl => decide_eq_false (hfilter x l hl))
    (fun l hl => decide_eq_false (hfilter y l hl)) (fun l hl => decide_eq_true (hown x l hl))
    (fun l hl => decide_eq_true (hown y l hl))

/-! ## The labels of a sample -/

def seriesLabels (ls : Labels) : Labels := ((newBuilder []).setAll ls).add

theorem nodup_seriesLabels (ls : Labels) : ((seriesLabels ls).map Prod.fst).Nodup := by
  unfold seriesLabels
  rw [setAll_add]
  exact nodup_foldl_setLabel _ nodup_nil

variable {ls : Labels}

theorem mem_names_seriesLabels {n : String} : n ∈ (seriesLabels ls).map Prod.fst ↔ n ∈ ls.map Prod.fst := by
  unfold seriesLabels
  rw [mem_names_setAll]
  simp [newBuilder]

def thresholdLabels (b : BasicRuleThreshold V) : Labels :=
  [(labelThresholdName, b.name), (labelSeverityName, W.lower b.name)]

theorem prepareSampleLabels_perm (h : ∀ l ∈ ls, l.1 ≠ labelThresholdName ∧ l.1 ≠ labelSeverityName)
    (b : BasicRuleThreshold V) :
    (prepareSampleLabelsForRule W ls b.name).Perm (seriesLabels ls ++ thresholdLabels (W := W) b) := by
  have hname : labelThresholdName ∉ (seriesLabels ls).map Prod.fst := by
    rw [mem_names_seriesLabels, List.mem_map]
    rintro ⟨l, hl, hkey⟩
    exact (h l hl).1 hkey
  have hseverity : labelSeverityName ∉ (seriesLabels ls ++ [(labelThresholdName, b.name)]).map Prod.fst := by
    rw [map_append, mem_append, mem_names_seriesLabels, List.mem_map]
    rintro (⟨l, hl, hkey⟩ | hin)
    · exact (h l hl).2 hkey
    · exact absurd (mem_singleton.1 hin) (by decide : labelSeverityName ≠ labelThresholdName)
  rw [prepareSampleLabels_eq]
  refine (sortBy_perm Prod.fst _).trans ?_
  change (setLabel (setLabel (seriesLabels ls) labelThresholdName b.name) labelSeverityName (W.lower b.name)).Perm _
  rw [setLabel_of_not_mem hname, setLabel_of_not_mem hseverity, List.append_assoc]
  exact List.Perm.refl _

theorem thresholdLabels_perm_iff (a b : BasicRuleThreshold V) :
    ((thresholdLabels (W := W) a).filter (fun l => keptName l.1 && !(ownNames r).contains l.1)).Perm
      ((thresholdLabels (W := W) b).filter (fun l => keptName l.1 && !(ownNames r).contains l.1)) ↔
    (labelThresholdName ∈ r.labels.map Prod.fst ∨ a.name = b.name) ∧
      (labelSeverityName ∈ r.labels.map Prod.fst ∨ W.lower a.name = W.lower b.name) := by
  have hkept : keptName labelThresholdName = true ∧ keptName labelSeverityName = true := by decide
  have hfixed : labelThresholdName ∉ fixedNames ∧ labelSeverityName ∉ fixedNames := by decide
  have hname : (ownNames r).contains labelThresholdName = decide (labelThresholdName ∈ r.labels.map Prod.fst) := by
    rw [Bool.eq_iff_iff, contains_iff_mem, decide_eq_true_iff, ownNames, mem_append]
    exact or_iff_left hfixed.1
  have hseverity : (ownNames r).contains labelSeverityName = decide (labelSeverityName ∈ r.labels.map Prod.fst) := by
    rw [Bool.eq_iff_iff, contains_iff_mem, decide_eq_true_iff, ownNames, mem_append]
    exact or_iff_left hfixed.2
  have hne : labelThresholdName ≠ labelSeverityName := by decide
  unfold thresholdLabels
  by_cases ht : labelThresholdName ∈ r.labels.map Prod.fst <;>
    by_cases hs : labelSeverityName ∈ r.labels.map Prod.fst
  all_goals
    simp only [filter_cons, filter_nil, hkept, hname, hseverity, ht, hs, decide_true, decide_false, Bool.not_true,
      Bool.not_false, Bool.and_true, Bool.and_false, if_true, if_false, Bool.false_eq_true, true_or, false_or, and_true,
      true_and, List.Perm.refl]
  · exact perm_singleton.trans (by simp)
  · exact perm_singleton.trans (by simp)
  · constructor
    · intro h
      have ha : (labelThresholdName, a.name) ∈ [(labelThresholdName, b.name), (labelSeverityName, W.lower b.name)] :=
        h.mem_iff.1 mem_cons_self
      simp only [mem_cons, Prod.mk.injEq, true_and, hne, false_and, not_mem_nil, or_false] at ha
      exact ⟨ha, by rw [ha]⟩
    · rintro ⟨hname, -⟩
      rw [hname]

theorem metric_perm
    (hfree : ∀ l ∈ ls, l.1 ∉ ownNames r ∧ l.1 ≠ labelThresholdName ∧ l.1 ≠ labelSeverityName) (b : BasicRuleThreshold V) :
    ((prepareSampleLabelsForRule W ls b.name).filter (fun l => keptName l.1 && !(ownNames r).contains l.1)).Perm
      ((seriesLabels ls).filter (fun l => keptName l.1) ++
        (thresholdLabels (W := W) b).filter (fun l => keptName l.1 && !(ownNames r).contains l.1)) := by
  have hperm := (prepareSampleLabels_perm (W := W) (fun l hl => (hfree l hl).2) b).filter
    (fun l => keptName l.1 && !(ownNames r).contains l.1)
  rw [filter_append] at hperm
  have hseries : (seriesLabels ls).filter (fun l => keptName l.1 && !(ownNames r).contains l.1) =
      (seriesLabels ls).filter (fun l => keptName l.1) := by
    refine filter_congr (fun l hl => ?_)
    obtain ⟨m, hm, hkey⟩ := List.mem_map.1 (mem_names_seriesLabels.1 (List.mem_map_of_mem (f := Prod.fst) hl))
    have hout : (ownNames r).contains l.1 = false := by
      rw [contains_eq_mem, decide_eq_false_iff_not, ← hkey]
      exact (hfree m hm).1
    rw [hout, Bool.not_false, Bool.and_true]
  rwa [hseries] at hperm

theorem seriesLabels_threshold
    (hfree : ∀ l ∈ ls, l.1 ∉ ownNames r ∧ l.1 ≠ labelThresholdName ∧ l.1 ≠ labelSeverityName) :
    ∀ l ∈ (seriesLabels ls).filter (fun l => keptName l.1),
      decide (l.1 = labelThresholdName ∨ l.1 = labelSeverityName) = false := by
  intro l hl
  obtain ⟨m, hm, hkey⟩ := List.mem_map.1
    (mem_names_seriesLabels.1 (List.mem_map_of_mem (f := Prod.fst) (mem_filter.1 hl).1))
  rw [decide_eq_false_iff_not, not_or, ← hkey]
  exact (hfree m hm).2

theorem thresholdLabels_names (b : BasicRuleThreshold V) : ∀ l ∈ (thresholdLabels (W := W) b).filter
      (fun l => keptName l.1 && !(ownNames r).contains l.1),
    decide (l.1 = labelThresholdName ∨ l.1 = labelSeverityName) = true := by
  intro l hl
  have hin := (mem_filter.1 hl).1
  simp only [thresholdLabels, mem_cons, not_mem_nil, or_false] at hin
  rcases hin with rfl | rfl
  · exact decide_eq_true (.inl rfl)
  · exact decide_eq_true (.inr rfl)

theorem keptLabels_eq (series : TimeSeries V) :
    keptLabels series = (sortLabels (seriesLabels series.labels)).filter (fun l => keptName l.1) := by
  unfold keptLabels seriesLabels
  rw [labels_of_base_nil (setAll_base _ _)]

theorem metric_perm_iff {ls' : Labels}
    (hfree : ∀ l ∈ ls, l.1 ∉ ownNames r ∧ l.1 ≠ labelThresholdName ∧ l.1 ≠ labelSeverityName)
    (hfree' : ∀ l ∈ ls', l.1 ∉ ownNames r ∧ l.1 ≠ labelThresholdName ∧ l.1 ≠ labelSeverityName)
    (a b : BasicRuleThreshold V) :
    ((prepareSampleLabelsForRule W ls a.name).filter (fun l => keptName l.1 && !(ownNames r).contains l.1)).Perm
      ((prepareSampleLabelsForRule W ls' b.name).filter (fun l => keptName l.1 && !(ownNames r).contains l.1)) ↔
    ((seriesLabels ls).filter (fun l => keptName l.1)).Perm ((seriesLabels ls').filter (fun l => keptName l.1)) ∧
      (labelThresholdName ∈ r.labels.map Prod.fst ∨ a.name = b.name) ∧
      (labelSeverityName ∈ r.labels.map Prod.fst ∨ W.lower a.name = W.lower b.name) := by
  have hparts := perm_append_iff (fun l : String × String => decide (l.1 = labelThresholdName ∨ l.1 = labelSeverityName))
    (seriesLabels_threshold hfree) (seriesLabels_threshold hfree') (thresholdLabels_names (W := W) (r := r) a)
    (thresholdLabels_names (W := W) (r := r) b)
  rw [thresholdLabels_perm_iff] at hparts
  rw [← hparts]
  exact ⟨fun h => (metric_perm hfree a).symm.trans (h.trans (metric_perm hfree' b)),
    fun h => (metric_perm hfree a).trans (h.trans (metric_perm hfree' b).symm)⟩

theorem keptLabels_eq_of_perm {s t : TimeSeries V}
    (h : ((seriesLabels s.labels).filter (fun l => keptName l.1)).Perm ((seriesLabels t.labels).filter (fun l => keptName l.1))) :
    keptLabels s = keptLabels t := by
  have hsort : ∀ u : TimeSeries V, ((sortLabels (seriesLabels u.labels)).filter (fun l => keptName l.1)).Perm
      ((seriesLabels u.labels).filter (fun l => keptName l.1)) := fun u => (sortBy_perm Prod.fst _).filter _
  have hperm := (hsort s).trans (h.trans (hsort t).symm)
  rw [keptLabels_eq, keptLabels_eq]
  refine hperm.eq_of_pairwise (fun x y hx hy hxy hyx => ?_) ((sorted_sortLabels _).filter _) ((sorted_sortLabels _).filter _)
  have hin : ∀ z ∈ (sortLabels (seriesLabels s.labels)).filter (fun l => keptName l.1), z ∈ seriesLabels s.labels :=
    fun z hz => (mem_filter.1 ((hsort s).mem_iff.1 hz)).1
  exact inj_on_of_nodup_map (nodup_seriesLabels s.labels) (hin x hx) (hin y (hperm.mem_iff.2 hy)) (le_antisymm hxy hyx)

theorem nodup_prepareSampleLabels (ls : Labels) (name : String) :
    ((prepareSampleLabelsForRule W ls name).map Prod.fst).Nodup := by
  rw [prepareSampleLabels_eq]
  refine (((sortBy_perm Prod.fst _).map Prod.fst).nodup_iff).2 ?_
  exact nodup_setLabel (nodup_setLabel (nodup_seriesLabels ls) _ _) _ _

end

/-! ## The samples of an evaluation -/

section
variable {W r} {s : RuleState V} {i : EvalInput V}

variable {series : TimeSeries V} {b : BasicRuleThreshold V}

theorem evalOn_metric {smpl : Sample V}
    (h : evalOn W r s series b = some smpl) : smpl.metric = prepareSampleLabelsForRule W series.labels b.name := by
  have hmetric := eval_metric h
  exact hmetric

theorem evalOn_isMissing {smpl : Sample V}
    (h : evalOn W r s series b = some smpl) : smpl.isMissing = false := by
  unfold evalOn BasicRuleThreshold.eval at h
  split at h
  · rw [← Option.some.inj h]; rfl
  · split at h
    · obtain ⟨_, _, rfl⟩ := map_eq_some_iff.1 h; rfl
    · split at h
      · cases h
      · split at h
        · obtain ⟨_, _, rfl⟩ := map_eq_some_iff.1 h; rfl
        · cases h

theorem alertLabels_evalOn_iff (hk : r.kind = .threshold) (hnames : (r.labels.map Prod.fst).Nodup) {series' : TimeSeries V}
    (hfree : ∀ l ∈ series.labels, l.1 ∉ ownNames r ∧ l.1 ≠ labelThresholdName ∧ l.1 ≠ labelSeverityName)
    (hfree' : ∀ l ∈ series'.labels, l.1 ∉ ownNames r ∧ l.1 ≠ labelThresholdName ∧ l.1 ≠ labelSeverityName)
    {a : BasicRuleThreshold V} {x y : Sample V} (hx : evalOn W r s series a = some x) (hy : evalOn W r s series' b = some y) :
    alertLabels W r x = alertLabels W r y ↔
      ((seriesLabels series.labels).filter (fun l => keptName l.1)).Perm
        ((seriesLabels series'.labels).filter (fun l => keptName l.1)) ∧ ¬ Distinguished W r a b x y := by
  have hmetric := evalOn_metric hx
  rw [alertLabels_eq_iff hk hnames (evalOn_isMissing hx) (evalOn_isMissing hy)
    (by rw [hmetric]; exact nodup_prepareSampleLabels _ _), hmetric, evalOn_metric hy, metric_perm_iff hfree hfree']
  unfold Distinguished
  push Not
  rw [and_assoc, and_assoc, or_iff_not_imp_left, or_iff_not_imp_left]

theorem evaluatedSeries_sublist (hk : r.kind = .threshold) : ∃ result, (evaluatedSeries W r s i).Sublist result ∧
    (result = [] ∨ ∃ o, i.query = some o ∧ result = o.getD []) := by
  unfold evaluatedSeries
  cases hq : i.query with
  | none => exact ⟨[], List.Sublist.refl _, .inl rfl⟩
  | some o =>
    refine ⟨o.getD [], ?_, .inr ⟨o, rfl, rfl⟩⟩
    simp only
    split
    · exact nil_sublist _
    · unfold seriesToEval
      simp only [hk]
      refine filter_sublist.trans ?_
      split
      · unfold filterNewSeries
        cases i.groupBys with
        | none => exact List.Sublist.refl _
        | some groupBys =>
          simp only
          split
          · exact List.Sublist.refl _
          · cases i.firstSeen with
            | none => exact List.Sublist.refl _
            | some firstSeen => exact filter_sublist
      · exact List.Sublist.refl _

variable {samples : List (Sample V)}

theorem samples_eq (hq : (buildAndRunQuery W r s i).2 = some samples) :
    samples = (evaluatedSeries W r s i).flatMap (fun series => (i.order.order r.thresholds).filterMap (evalOn W r s series)) ∨
    evaluatedSeries W r s i = [] ∧ samples.length = 1 := by
  revert hq
  unfold buildAndRunQuery evaluatedSeries
  cases i.query with
  | none => intro hq; cases hq
  | some result =>
    simp only
    cases handleMissingDataAlert W r s i.ts (hasData result) with
    | mk s' missing =>
      cases missing with
      | some alert =>
        intro hq
        cases hq
        exact .inr ⟨rfl, rfl⟩
      | none =>
        intro hq
        cases hq
        exact .inl rfl

omit [Float64 V] in
theorem not_perm_of_keptLabels_ne {series series' : TimeSeries V} (h : keptLabels series ≠ keptLabels series') :
    ¬ ((seriesLabels series.labels).filter (fun l => keptName l.1)).Perm
      ((seriesLabels series'.labels).filter (fun l => keptName l.1)) := fun hperm => h (keptLabels_eq_of_perm hperm)

theorem nodup_alertLabels_iff (hk : r.kind = .threshold) (hnames : (r.labels.map Prod.fst).Nodup) (hsep : SeparateSeries r i) (hq : (buildAndRunQuery W r s i).2 = some samples) :
    (samples.map (alertLabels W r)).Nodup ↔ ThresholdsApart W r s i := by
  obtain ⟨result, hsub, hresult⟩ := evaluatedSeries_sublist (W := W) (s := s) (i := i) hk
  have hfree : ∀ series ∈ evaluatedSeries W r s i, ∀ l ∈ series.labels,
      l.1 ∉ ownNames r ∧ l.1 ≠ labelThresholdName ∧ l.1 ≠ labelSeverityName := by
    intro series hseries
    have hin := hsub.subset hseries
    rcases hresult with rfl | ⟨o, ho, rfl⟩
    · cases hin
    · exact hsep.free o ho series hin
  have hdistinct : (evaluatedSeries W r s i).Pairwise (fun s t => keptLabels s ≠ keptLabels t) := by
    refine List.Pairwise.sublist hsub ?_
    rcases hresult with rfl | ⟨o, ho, rfl⟩
    · exact List.Pairwise.nil
    · exact hsep.distinct o ho
  rcases samples_eq hq with rfl | ⟨hnone, hone⟩
  · unfold ThresholdsApart
    rw [List.Nodup, pairwise_map, pairwise_flatMap]
    have hacross : (evaluatedSeries W r s i).Pairwise (fun series series' =>
        ∀ x ∈ (i.order.order r.thresholds).filterMap (evalOn W r s series),
          ∀ y ∈ (i.order.order r.thresholds).filterMap (evalOn W r s series'), alertLabels W r x ≠ alertLabels W r y) := by
      refine hdistinct.imp_of_mem (fun {series series'} hs hs' hne x hx y hy heq => ?_)
      obtain ⟨a, -, ha⟩ := mem_filterMap.1 hx
      obtain ⟨b, -, hb⟩ := mem_filterMap.1 hy
      exact not_perm_of_keptLabels_ne hne ((alertLabels_evalOn_iff hk hnames (hfree series hs) (hfree series' hs') ha hb).1 heq).1
    rw [and_iff_left hacross]
    refine forall₂_congr (fun series hseries => ?_)
    have hpair : ∀ {a b : BasicRuleThreshold V} {x y : Sample V}, evalOn W r s series a = some x →
        evalOn W r s series b = some y → (alertLabels W r x ≠ alertLabels W r y ↔ Distinguished W r a b x y) := by
      intro a b x y hx hy
      rw [ne_eq, alertLabels_evalOn_iff hk hnames (hfree series hseries) (hfree series hseries) hx hy, not_and, not_not]
      exact ⟨fun h => h (List.Perm.refl _), fun h _ => h⟩
    rw [pairwise_filterMap]
    refine Iff.trans ((i.order.perm r.thresholds).pairwise_iff ?_) (List.Pairwise.iff ?_)
    · intro a b h x hx y hy heq
      exact h y hy x hx heq.symm
    · intro a b
      exact ⟨fun h x y hx hy => (hpair hx hy).1 (h x hx y hy), fun h x hx y hy => (hpair hx hy).2 (h x y hx hy)⟩
  · unfold ThresholdsApart
    rw [hnone]
    obtain ⟨x, rfl⟩ := length_eq_one_iff.1 hone
    simp

theorem exists_samples (hq : i.query ≠ none) : ∃ samples, (buildAndRunQuery W r s i).2 = some samples := by
  unfold buildAndRunQuery
  cases h : i.query with
  | none => exact absurd h hq
  | some result =>
    simp only
    cases handleMissingDataAlert W r s i.ts (hasData result) with
    | mk s' missing => cases missing <;> exact ⟨_, rfl⟩

theorem eval_ne_none_iff (hq : (buildAndRunQuery W r s i).2 = some samples) :
    (eval W r s i).2 ≠ none ↔ (samples.map (fingerprint W r)).Nodup := by
  constructor
  · intro h
    obtain ⟨out, hout⟩ := ne_none_iff_exists'.1 h
    obtain ⟨samples', hq', hnd⟩ := eval_succeeded hout
    rw [hq] at hq'
    rwa [Option.some.inj hq']
  · intro h
    unfold eval
    revert hq
    cases buildAndRunQuery W r s i with
    | mk s' answer =>
      rintro rfl
      have hsome : newAlerts W r (getRuleReceivers i.order r.thresholds) i.ts samples =
          some (samples.map (fun smpl => (fingerprint W r smpl,
            newAlert W r (getRuleReceivers i.order r.thresholds) i.ts smpl))) := if_pos h
      simp only [hsome]
      exact some_ne_none _

theorem nodup_fingerprint_iff (hhash : Collisionless W r s i)
    (hq : (buildAndRunQuery W r s i).2 = some samples) :
    (samples.map (fingerprint W r)).Nodup ↔ (samples.map (alertLabels W r)).Nodup := by
  unfold List.Nodup
  rw [pairwise_map, pairwise_map]
  constructor
  · exact fun h => h.imp (fun hne heq => hne (by unfold fingerprint; rw [heq]))
  · exact fun h => h.imp_of_mem (fun hx hy hne heq => hne (hhash samples hq _ hx _ hy heq))

/-- **Where the series differ in their labels, the alerts of an evaluation do, and it does not fail for them, exactly when
no series has samples of two thresholds that the alert's labels take for one.** -/
theorem no_duplicates_iff (hk : r.kind = .threshold) (hnames : (r.labels.map Prod.fst).Nodup) (hsep : SeparateSeries r i)
    (hhash : Collisionless W r s i) : NoDuplicates W r s i ↔ ThresholdsApart W r s i := by
  constructor
  · intro h
    by_cases hquery : i.query = none
    · intro series hseries
      rw [evaluatedSeries, hquery] at hseries
      cases hseries
    · obtain ⟨samples, hq⟩ := exists_samples (W := W) (r := r) (s := s) hquery
      exact (nodup_alertLabels_iff hk hnames hsep hq).1 (h.labels samples hq)
  · intro h
    refine ⟨fun samples hq => (nodup_alertLabels_iff hk hnames hsep hq).2 h, fun hquery => ?_⟩
    obtain ⟨samples, hq⟩ := exists_samples (W := W) (r := r) (s := s) hquery
    exact (eval_ne_none_iff hq).2 ((nodup_fingerprint_iff hhash hq).2 ((nodup_alertLabels_iff hk hnames hsep hq).2 h))

end

/-! ## Two thresholds of one name -/

/-- `BasicRuleThresholds.Validate`, on thresholds whose target is set and whose operator and match type are known. -/
def validateThresholds (thresholds : List (BasicRuleThreshold V)) : Bool :=
  !thresholds.isEmpty && thresholds.all (fun b => b.name != "")

def twoThresholds (name : String) : Rule Int :=
  { cpuRule .threshold with thresholds := [criticalAboveFive, { criticalAboveFive with name, targetValue := 8 }] }

theorem separateSeries_pod (name : String) : SeparateSeries (twoThresholds name) (evalAt 0 [("pod", "a")] 10) := by
  constructor
  · rintro _ ⟨⟩
    exact pairwise_singleton _ _
  · rintro _ ⟨⟩ series hseries l hl
    rw [getD_some, mem_singleton] at hseries
    subst hseries
    rw [oneValue, mem_singleton] at hl
    subst hl
    have hown : ownNames (twoThresholds name) = fixedNames := rfl
    rw [hown]
    exact (by decide : "pod" ∉ fixedNames ∧ "pod" ≠ labelThresholdName ∧ "pod" ≠ labelSeverityName)

/-- A warning above eight beside the critical alert above five. -/
theorem warning_beside_critical : validateThresholds (twoThresholds "warning").thresholds = true ∧
    NoDuplicates plainWorld (twoThresholds "warning") (RuleState.init Int) (evalAt 0 [("pod", "a")] 10) := by
  have hnames : ((twoThresholds "warning").labels.map Prod.fst).Nodup := nodup_nil
  have hfingerprints : (((buildAndRunQuery plainWorld (twoThresholds "warning") (RuleState.init Int)
      (evalAt 0 [("pod", "a")] 10)).2.getD []).map (fingerprint plainWorld (twoThresholds "warning"))).Nodup := by
    decide +kernel
  refine ⟨by decide, (no_duplicates_iff rfl hnames (separateSeries_pod "warning") ?_).2 ?_⟩
  · intro samples hq x hx y hy hxy
    rw [hq, getD_some] at hfingerprints
    rw [inj_on_of_nodup_map hfingerprints hx hy hxy]
  · intro series _
    refine pairwise_pair.2 (fun x y _ _ => .inl ⟨not_mem_nil, ?_⟩)
    exact (by decide : "critical" ≠ "warning")

/-- Two critical alerts, above five and above eight: a value above both fails the evaluation. -/
theorem critical_twice : validateThresholds (twoThresholds "critical").thresholds = true ∧
    SeparateSeries (twoThresholds "critical") (evalAt 0 [("pod", "a")] 10) ∧
    ¬ NoDuplicates plainWorld (twoThresholds "critical") (RuleState.init Int) (evalAt 0 [("pod", "a")] 10) := by
  refine ⟨by decide, separateSeries_pod "critical", fun h => h.succeeds (by simp [evalAt]) ?_⟩
  decide +kernel

end Rules
end DsApm
