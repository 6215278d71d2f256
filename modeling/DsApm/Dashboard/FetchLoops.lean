import DsApm.Dashboard.VariableFetchStore
/-!
# FetchLoops — what each action does to the states

The loops of the actions, each by what it makes of the state of one variable.  `SoundContext` is what the actions need of
the graph and the types, and what `getVariableDependencyContext` gives for variables without a cycle.
-/
namespace DsApm
namespace Dashboard

open Kahn Relation List

/-! ## The context -/

structure SoundContext (ctx : VariableFetchContext) : Prop where
  acyclic : ∀ v, ¬ TransGen (Edge ctx.dependencyData.graph) v v
  toQuery : ∀ u, ∀ v ∈ ctx.dependencyData.graph u, ctx.variableTypes.get v = some .query
  known : ∀ u, ∀ v ∈ ctx.dependencyData.graph u, u ∈ ctx.variableTypes.keys
  typed : ∀ v, v ∈ ctx.variableTypes.keys ↔ ctx.variableTypes.get v ≠ none
  parents : ∀ p v, p ∈ ctx.dependencyData.parentDependencyGraph v ↔ v ∈ ctx.dependencyData.graph p
  sorted : ∃ all, Sorted ctx.dependencyData.graph all ∧
    ctx.dependencyData.order = all.filter (fun v => decide (ctx.variableTypes.get v = some .query))
  order : ∀ v, v ∈ ctx.dependencyData.order ↔ ctx.variableTypes.get v = some .query
  descendants : ∀ u v, v ∈ ctx.dependencyData.transitiveDescendants u ↔ TransGen (Edge ctx.dependencyData.graph) u v
  front : ∀ u, Front ctx.dependencyData.graph (ctx.dependencyData.graph u) []
    (ctx.dependencyData.transitiveDescendants u)
  dynamics : ∀ v, v ∈ ctx.dynamicVariableOrder ↔ ctx.variableTypes.get v = some .dynamic

section
variable {textContainsVariableReference : String → String → Bool} {vars : List DashboardVariable}

theorem get_buildVariableTypesMap (hnames : (vars.map DashboardVariable.name).Nodup) {name : String}
    {type : TVariableQueryType} :
    (buildVariableTypesMap vars).get name = some type ↔ ∃ v ∈ vars, v.name = name ∧ v.type = type := by
  have hfold : ∀ (l : List DashboardVariable) (types : Record TVariableQueryType),
      (l.map DashboardVariable.name).Nodup →
      ((l.foldl (fun types v => types.set v.name v.type) types).get name = some type ↔
        (∃ v ∈ l, v.name = name ∧ v.type = type) ∨ (name ∉ l.map DashboardVariable.name ∧ types.get name = some type)) := by
    intro l
    induction l with
    | nil => simp
    | cons w l ih =>
      intro types hl
      obtain ⟨hw, hl⟩ := nodup_cons.1 hl
      rw [foldl_cons, ih _ hl, exists_mem_cons_iff, map_cons, mem_cons, not_or]
      by_cases hwn : w.name = name
      · subst hwn
        have hno : ¬ ∃ v ∈ l, v.name = w.name ∧ v.type = type := by
          rintro ⟨v, hv, hn, -⟩
          exact hw (by rw [← hn]; exact List.mem_map_of_mem hv)
        simp only [Record.set, Function.update_self, Option.some.injEq, hno, hw, not_false_eq_true, true_and, false_or,
          or_false, not_true_eq_false, false_and]
      · have hnw : ¬ name = w.name := fun h => hwn h.symm
        simp only [Record.set, Function.update_of_ne hnw, hwn, false_and, false_or, hnw, not_false_eq_true, true_and]
  rw [buildVariableTypesMap, hfold vars {} hnames]
  simp

theorem keys_buildVariableTypesMap {name : String} :
    name ∈ (buildVariableTypesMap vars).keys ↔ name ∈ vars.map DashboardVariable.name := by
  have hfold : ∀ (l : List DashboardVariable) (types : Record TVariableQueryType),
      name ∈ (l.foldl (fun types v => types.set v.name v.type) types).keys ↔
        name ∈ types.keys ∨ name ∈ l.map DashboardVariable.name := by
    intro l
    induction l with
    | nil => simp
    | cons w l ih =>
      intro types
      rw [foldl_cons, ih, map_cons, mem_cons, ← or_assoc]
      refine or_congr_left ?_
      unfold Record.set
      by_cases hw : w.name ∈ types.keys
      · rw [if_pos hw]
        constructor
        · exact .inl
        · rintro (h | rfl)
          · exact h
          · exact hw
      · rw [if_neg hw, mem_append, mem_singleton]
  rw [buildVariableTypesMap, hfold]
  simp

theorem mem_buildDependencies {u v : String} :
    v ∈ buildDependencies textContainsVariableReference vars u ↔ u ∈ vars.map DashboardVariable.name ∧
      ∃ w ∈ vars, w.name = v ∧ w.type = .query ∧ textContainsVariableReference w.queryValue u = true := by
  unfold buildDependencies getDependentVariablesBasedOnVariableName
  split
  · rename_i hu
    simp only [List.mem_map, mem_filter, Bool.and_eq_true, decide_eq_true_eq]
    constructor
    · rintro ⟨w, ⟨hw, htype, href⟩, hn⟩
      exact ⟨List.mem_map.1 hu, w, hw, hn, htype, href⟩
    · rintro ⟨-, w, hw, hn, htype, href⟩
      exact ⟨w, ⟨hw, htype, href⟩, hn⟩
  · rename_i hu
    constructor
    · intro h; cases h
    · rintro ⟨h, -⟩; exact absurd h hu

/-- **The context of variables with names of their own, that do not refer to each other in a circle, is sound.** -/
theorem sound_getVariableDependencyContext (hnames : (vars.map DashboardVariable.name).Nodup)
    (hacyclic : ∀ v, ¬ TransGen (Edge (buildDependencies textContainsVariableReference vars)) v v) :
    SoundContext (getVariableDependencyContext textContainsVariableReference vars) := by
  set deps := buildDependencies textContainsVariableReference vars with hdeps
  set keys := objectKeys (vars.map DashboardVariable.name) with hkeys
  have hmemkeys : ∀ v, v ∈ keys ↔ v ∈ vars.map DashboardVariable.name := fun v => (objectKeys_perm _).mem_iff
  have hknown : ∀ u, ∀ v ∈ deps u, u ∈ vars.map DashboardVariable.name ∧ v ∈ vars.map DashboardVariable.name := by
    intro u v hv
    obtain ⟨hu, w, hw, rfl, -⟩ := mem_buildDependencies.1 hv
    exact ⟨hu, List.mem_map_of_mem hw⟩
  have hnodup : keys.Nodup := (objectKeys_perm _).nodup_iff.2 hnames
  have hclosed : ∀ u ∈ keys, ∀ v ∈ deps u, v ∈ keys := fun u _ v hv => (hmemkeys v).2 (hknown u v hv).2
  obtain ⟨hsorted, hall⟩ := kahn_sorted hnodup (inDegreeKeys_perm hnodup hclosed) hclosed hacyclic
  have htype : ∀ {v type}, (buildVariableTypesMap vars).get v = some type ↔ ∃ w ∈ vars, w.name = v ∧ w.type = type :=
    get_buildVariableTypesMap hnames
  have hquery : ∀ v, (decide ((vars.find? (fun w => decide (w.name = v))).map DashboardVariable.type = some .query)) =
      decide ((buildVariableTypesMap vars).get v = some .query) := by
    intro v
    refine decide_eq_decide.2 ?_
    rw [htype, Option.map_eq_some_iff]
    constructor
    · rintro ⟨w, hw, ht⟩
      exact ⟨w, mem_of_find?_eq_some hw, by simpa using List.find?_some hw, ht⟩
    · rintro ⟨w, hw, hn, ht⟩
      cases hfind : vars.find? (fun w => decide (w.name = v)) with
      | none => exact absurd (List.find?_eq_none.1 hfind w hw) (by simpa using hn)
      | some w' =>
        have hn' : w'.name = v := by simpa using List.find?_some hfind
        have heq : w' = w := inj_on_of_nodup_map hnames (mem_of_find?_eq_some hfind) hw (hn'.trans hn.symm)
        exact ⟨w', rfl, by rw [heq]; exact ht⟩
  have horder : (getVariableDependencyContext textContainsVariableReference vars).dependencyData.order =
      (kahn deps keys (objectKeys (keys.flatMap (fun node => node :: deps node)).eraseDups)).filter
        (fun v => decide ((buildVariableTypesMap vars).get v = some .query)) :=
    filter_congr (fun v _ => hquery v)
  have hnames' : ∀ v, v ∈ vars.map DashboardVariable.name ↔ (buildVariableTypesMap vars).get v ≠ none := by
    intro v
    rw [List.mem_map, Option.ne_none_iff_exists']
    constructor
    · rintro ⟨w, hw, hn⟩
      exact ⟨w.type, htype.2 ⟨w, hw, hn, rfl⟩⟩
    · rintro ⟨type, h⟩
      obtain ⟨w, hw, hn, -⟩ := htype.1 h
      exact ⟨w, hw, hn⟩
  refine
    { acyclic := hacyclic
      toQuery := fun u v hv => ?_
      known := fun u v hv => keys_buildVariableTypesMap.2 (hknown u v hv).1
      typed := fun v => keys_buildVariableTypesMap.trans (hnames' v)
      parents := fun p v => ?_
      sorted := ⟨_, hsorted, horder⟩
      order := fun v => ?_
      descendants := fun u v => ?_
      front := fun u => front_descendants hsorted u
      dynamics := fun v => ?_ }
  · obtain ⟨-, w, hw, hn, ht, -⟩ := mem_buildDependencies.1 hv
    exact htype.2 ⟨w, hw, hn, ht⟩
  · refine mem_buildParentDependencyGraph.trans (and_iff_right_of_imp (fun hv => ?_))
    exact (hmemkeys p).2 (hknown p v hv).1
  · rw [horder, mem_filter, decide_eq_true_eq, hall, hmemkeys, hnames']
    exact and_iff_right_of_imp (fun h => by rw [h]; exact nofun)
  · by_cases hu : u ∈ keys
    · exact mem_descendants hsorted ((hall u).2 hu)
    · -- a name that no variable has reaches nothing
      have hempty : descendants deps (kahn deps keys _) u = [] := descendants_of_notMem (fun h => hu ((hall u).1 h))
      refine iff_of_false (fun h => ?_) (fun h => ?_)
      · have hnil : v ∈ descendants deps (kahn deps keys _) u := h
        rw [hempty] at hnil
        cases hnil
      · obtain ⟨w, hw, -⟩ := TransGen.head'_iff.1 h
        exact hu ((hmemkeys u).2 (hknown u w hw).1)
  · show v ∈ buildDynamicVariableOrder vars ↔ (buildVariableTypesMap vars).get v = some .dynamic
    rw [buildDynamicVariableOrder, htype, List.mem_map]
    constructor
    · rintro ⟨w, hw, hn⟩
      obtain ⟨hw, ht⟩ := mem_filter.1 hw
      exact ⟨w, hw, hn, by simpa using ht⟩
    · rintro ⟨w, hw, hn, ht⟩
      exact ⟨w, mem_filter.2 ⟨hw, by simpa using ht⟩, hn⟩

end

/-! ## Loops -/

def IsFetching (state : Option VariableFetchState) : Prop := state = some .loading ∨ state = some .revalidating

def started (draft : VariableFetchStore) (name : String) : Option VariableFetchState := some (resolveFetchState draft name)

theorem isFetching_started (draft : VariableFetchStore) (name : String) : IsFetching (started draft name) := by
  unfold started resolveFetchState
  split
  · exact .inr rfl
  · exact .inl rfl

theorem IsFetching.ne_waiting {state : Option VariableFetchState} (h : IsFetching state) : state ≠ some .waiting := by
  rcases h with rfl | rfl <;> nofun

theorem IsFetching.not_settled {state : Option VariableFetchState} (h : IsFetching state) : isSettled state = false := by
  rcases h with rfl | rfl <;> rfl

theorem started_ne_waiting (draft : VariableFetchStore) (name : String) : started draft name ≠ some .waiting :=
  (isFetching_started draft name).ne_waiting

theorem started_congr {draft draft' : VariableFetchStore} (h : draft'.lastUpdated = draft.lastUpdated) (name : String) :
    started draft' name = started draft name := by
  unfold started resolveFetchState
  rw [h]

/-- **A loop whose turns each set their own variable**: every variable of the list is set, once or again, and no other. -/
theorem foldl_states {f : VariableFetchStore → String → VariableFetchStore}
    {g : String → Option VariableFetchState → Option VariableFetchState} (I : VariableFetchStore → Prop)
    (hg : ∀ x s, g x (g x s) = g x s) : ∀ (l : List String) (d : VariableFetchStore),
    (∀ d x, I d → x ∈ l → I (f d x) ∧ (f d x).states = Function.update d.states x (g x (d.states x))) → I d →
    I (l.foldl f d) ∧ ∀ v, (l.foldl f d).states v = if v ∈ l then g v (d.states v) else d.states v
  | [], d, _, hd => ⟨hd, fun v => by simp⟩
  | x :: l, d, hf, hd => by
    obtain ⟨hx, hstates⟩ := hf d x hd mem_cons_self
    obtain ⟨hI, hall⟩ := foldl_states I hg l (f d x) (fun d y hd hy => hf d y hd (mem_cons_of_mem _ hy)) hx
    refine ⟨hI, fun v => ?_⟩
    rw [foldl_cons, hall v, hstates]
    by_cases hvx : v = x
    · subst hvx
      rw [Function.update_self, hg, ite_self, if_pos mem_cons_self]
    · rw [Function.update_of_ne hvx]
      simp only [mem_cons, hvx, false_or]

variable {ctx : VariableFetchContext} {d : VariableFetchStore} {name v : String}

theorem unlockWaitingDynamicVariables_states (l : List String) (d : VariableFetchStore) (v : String) :
    (unlockWaitingDynamicVariables d l).states v =
      if v ∈ l then (if d.states v = some .waiting then started d v else d.states v) else d.states v := by
  refine (foldl_states (g := fun x s => if s = some .waiting then started d x else s)
    (fun d' => d'.lastUpdated = d.lastUpdated) ?_ l d ?_ rfl).2 v
  · intro x s
    by_cases hs : s = some .waiting
    · rw [if_pos hs, if_neg (started_ne_waiting d x)]
    · rw [if_neg hs, if_neg hs]
  · intro d' x hd _
    by_cases hs : d'.states x = some .waiting
    · rw [if_pos hs, if_pos hs, ← started_congr hd]
      exact ⟨hd, rfl⟩
    · rw [if_neg hs, if_neg hs, Function.update_eq_self]
      exact ⟨hd, rfl⟩

theorem unlockIfSettled_states (ctx : VariableFetchContext) (name : String) (d : VariableFetchStore) (v : String) :
    (unlockIfSettled ctx name d).states v =
      if (ctx.variableTypes.get name = some .query ∧ areAllQueryVariablesSettled d.states ctx.variableTypes = true) ∧
          v ∈ ctx.dynamicVariableOrder ∧ d.states v = some .waiting then started d v else d.states v := by
  unfold unlockIfSettled
  by_cases h : ctx.variableTypes.get name = some .query ∧ areAllQueryVariablesSettled d.states ctx.variableTypes = true
  · rw [if_pos h, unlockWaitingDynamicVariables_states]
    simp only [h, true_and, ← ite_and]
  · rw [if_neg h, if_neg (fun hc => h hc.1)]

theorem areAllQueryVariablesSettled_iff (hctx : SoundContext ctx) {states : String → Option VariableFetchState} :
    areAllQueryVariablesSettled states ctx.variableTypes = true ↔
      ∀ v, ctx.variableTypes.get v = some .query → isSettled (states v) = true := by
  unfold areAllQueryVariablesSettled
  simp only [List.all_eq_true, mem_filter, decide_eq_true_eq]
  refine forall_congr' (fun v => ⟨fun h ht => h ⟨(hctx.typed v).2 (by rw [ht]; exact nofun), ht⟩, fun h hv => h hv.2⟩)

/-! ## The actions -/

def completed (ctx : VariableFetchContext) (name : String) (now : Nat) (d : VariableFetchStore) : VariableFetchStore :=
  (ctx.dependencyData.graph name).foldl (fun draft child =>
    if ctx.variableTypes.get child = some .query ∧ draft.states child = some .waiting then
      draft.setState child (resolveFetchState draft child)
    else draft) { d.setState name .idle with lastUpdated := Function.update d.lastUpdated name now }

theorem completed_states (hctx : SoundContext ctx) (name : String) (now : Nat) (d : VariableFetchStore) (v : String) :
    (completed ctx name now d).states v =
      if v ∈ ctx.dependencyData.graph name ∧ d.states v = some .waiting then
        started { d with lastUpdated := Function.update d.lastUpdated name now } v
      else if v = name then some .idle else d.states v := by
  set d₀ : VariableFetchStore := { d.setState name .idle with lastUpdated := Function.update d.lastUpdated name now } with hd₀
  have hloop := (foldl_states
    (f := fun draft child => if ctx.variableTypes.get child = some .query ∧ draft.states child = some .waiting then
      draft.setState child (resolveFetchState draft child) else draft)
    (g := fun x s => if ctx.variableTypes.get x = some .query ∧ s = some .waiting then started d₀ x else s)
    (fun d' => d'.lastUpdated = d₀.lastUpdated) (fun x s => ?_) (ctx.dependencyData.graph name) d₀ (fun d' x hd _ => ?_)
    rfl).2 v
  · have hstates : d₀.states v = if v = name then some .idle else d.states v := Function.update_apply _ _ _ _
    rw [completed, hloop]
    by_cases hv : v ∈ ctx.dependencyData.graph name
    · have hne : v ≠ name := fun h => hctx.acyclic v (TransGen.single (by rw [h] at hv ⊢; exact hv))
      rw [if_neg hne] at hstates
      simp only [hv, hctx.toQuery name v hv, hstates, hne, if_true, if_false, true_and]
      rfl
    · simp only [hv, if_false, false_and, hstates]
  · by_cases hs : ctx.variableTypes.get x = some .query ∧ s = some .waiting
    · rw [if_pos hs, if_neg (fun h => started_ne_waiting d₀ x h.2)]
    · rw [if_neg hs, if_neg hs]
  · by_cases hs : ctx.variableTypes.get x = some .query ∧ d'.states x = some .waiting
    · rw [if_pos hs, if_pos hs, ← started_congr hd]
      exact ⟨hd, rfl⟩
    · rw [if_neg hs, if_neg hs, Function.update_eq_self]
      exact ⟨hd, rfl⟩

theorem onVariableFetchComplete_eq (ctx : VariableFetchContext) (name : String) (now : Nat) (d : VariableFetchStore) :
    onVariableFetchComplete ctx name now d = unlockIfSettled ctx name (completed ctx name now d) := rfl

def failed (ctx : VariableFetchContext) (name : String) (d : VariableFetchStore) : VariableFetchStore :=
  (ctx.dependencyData.transitiveDescendants name).foldl (fun draft desc =>
    if ctx.variableTypes.get desc = some .query then draft.setState desc .idle else draft) (d.setState name .error)

theorem SoundContext.query_of_reached (hctx : SoundContext ctx) {u v : String}
    (h : TransGen (Edge ctx.dependencyData.graph) u v) : ctx.variableTypes.get v = some .query := by
  obtain ⟨w, -, hv⟩ := TransGen.tail'_iff.1 h
  exact hctx.toQuery w v hv

theorem failed_states (hctx : SoundContext ctx) (name : String) (d : VariableFetchStore) (v : String) :
    (failed ctx name d).states v =
      if v ∈ ctx.dependencyData.transitiveDescendants name then some .idle
      else if v = name then some .error else d.states v := by
  have hloop := (foldl_states
    (f := fun draft desc => if ctx.variableTypes.get desc = some .query then draft.setState desc .idle else draft)
    (g := fun x s => if ctx.variableTypes.get x = some .query then some .idle else s)
    (fun _ => True) (fun x s => ?_) (ctx.dependencyData.transitiveDescendants name) (d.setState name .error)
    (fun d' x _ _ => ?_) trivial).2 v
  · have hstates : (d.setState name .error).states v = if v = name then some .error else d.states v :=
      Function.update_apply _ _ _ _
    rw [failed, hloop, hstates]
    by_cases hv : v ∈ ctx.dependencyData.transitiveDescendants name
    · simp only [hv, hctx.query_of_reached ((hctx.descendants name v).1 hv), if_true]
    · simp only [hv, if_false]
  · by_cases hs : ctx.variableTypes.get x = some .query
    · rw [if_pos hs, if_pos hs]
    · rw [if_neg hs, if_neg hs]
  · by_cases hs : ctx.variableTypes.get x = some .query
    · rw [if_pos hs, if_pos hs]
      exact ⟨trivial, rfl⟩
    · rw [if_neg hs, if_neg hs, Function.update_eq_self]
      exact ⟨trivial, rfl⟩

theorem onVariableFetchFailure_eq (ctx : VariableFetchContext) (name : String) (d : VariableFetchStore) :
    onVariableFetchFailure ctx name d = unlockIfSettled ctx name (failed ctx name d) := rfl

def HasQueryParent (ctx : VariableFetchContext) (v : String) : Prop :=
  ∃ p, v ∈ ctx.dependencyData.graph p ∧ ctx.variableTypes.get p = some .query

theorem hasQueryParent_iff (hctx : SoundContext ctx) :
    ((ctx.dependencyData.parentDependencyGraph v).any (fun p => decide (ctx.variableTypes.get p = some .query))) = true ↔
      HasQueryParent ctx v := by
  simp only [List.any_eq_true, decide_eq_true_eq, hctx.parents, HasQueryParent]

/-- The state `enqueueFetchOfAllVariables` gives a query variable. -/
def queryStart (ctx : VariableFetchContext) (d : VariableFetchStore) (v : String) : Option VariableFetchState :=
  if (ctx.dependencyData.parentDependencyGraph v).any (fun p => decide (ctx.variableTypes.get p = some .query)) then
    some .waiting
  else started d v

theorem enqueueFetchOfAllVariables_states (hctx : SoundContext ctx) (hasValue : String → Bool) (d : VariableFetchStore)
    (v : String) :
    (enqueueFetchOfAllVariables ctx hasValue d).states v =
      if ctx.variableTypes.get v = some .dynamic then
        if doAllQueryVariablesHaveValuesSelected ctx.variableTypes hasValue then started d v else some .waiting
      else if ctx.variableTypes.get v = some .query then queryStart ctx d v
      else d.states v := by
  have hquery := foldl_states
    (f := fun draft name => (draft.bumpCycle name).setState name
      (if (ctx.dependencyData.parentDependencyGraph name).any (fun p => decide (ctx.variableTypes.get p = some .query)) then
        .waiting else resolveFetchState (draft.bumpCycle name) name))
    (g := fun x _ => queryStart ctx d x)
    (fun d' => d'.lastUpdated = d.lastUpdated) (fun _ _ => rfl) ctx.dependencyData.order d (fun d' x hd _ => ⟨hd, ?_⟩) rfl
  · have hdynamic := foldl_states
      (f := fun draft name => (draft.bumpCycle name).setState name
        (if doAllQueryVariablesHaveValuesSelected ctx.variableTypes hasValue then
          resolveFetchState (draft.bumpCycle name) name else .waiting))
      (g := fun x _ => if doAllQueryVariablesHaveValuesSelected ctx.variableTypes hasValue then started d x else some .waiting)
      (fun d' => d'.lastUpdated = d.lastUpdated) (fun _ _ => rfl) ctx.dynamicVariableOrder _ (fun d' x hd _ => ⟨hd, ?_⟩)
      hquery.1
    · unfold enqueueFetchOfAllVariables
      refine (hdynamic.2 v).trans ?_
      rw [hquery.2 v]
      simp only [hctx.dynamics, hctx.order]
    · unfold VariableFetchStore.setState
      dsimp only
      congr 1
      split
      · exact congrArg some rfl |>.trans (started_congr hd x)
      · rfl
  · unfold VariableFetchStore.setState queryStart
    dsimp only
    congr 1
    split
    · rfl
    · exact @started_congr _ (d'.bumpCycle x) hd x

/-! ## A value changes -/

def cascadeTurn (ctx : VariableFetchContext) (draft : VariableFetchStore) (desc : String) : VariableFetchStore :=
  (draft.bumpCycle desc).setState desc
    (if (ctx.dependencyData.parentDependencyGraph desc).all (fun p => isSettled ((draft.bumpCycle desc).states p)) then
      resolveFetchState (draft.bumpCycle desc) desc else .waiting)

def HasUnsettledParent (ctx : VariableFetchContext) (d : VariableFetchStore) (v : String) : Prop :=
  ∃ p, v ∈ ctx.dependencyData.graph p ∧ isSettled (d.states p) = false

theorem cascadeTurn_of_ne (x : String) (d : VariableFetchStore) {v : String} (hv : v ≠ x) :
    (cascadeTurn ctx d x).states v = d.states v := Function.update_of_ne hv _ _

/-- **A turn lets its variable wait exactly when a parent is not settled.** -/
theorem cascadeTurn_self (hctx : SoundContext ctx) (x : String) (d : VariableFetchStore) :
    (HasUnsettledParent ctx d x ∧ (cascadeTurn ctx d x).states x = some .waiting) ∨
      (¬ HasUnsettledParent ctx d x ∧ (cascadeTurn ctx d x).states x = started d x) := by
  have hall : ((ctx.dependencyData.parentDependencyGraph x).all (fun p => isSettled ((d.bumpCycle x).states p))) = true ↔
      ¬ HasUnsettledParent ctx d x := by
    simp only [List.all_eq_true, hctx.parents, HasUnsettledParent, not_exists, not_and, Bool.not_eq_false]
    rfl
  unfold cascadeTurn
  by_cases h : HasUnsettledParent ctx d x
  · refine .inl ⟨h, ?_⟩
    rw [if_neg (fun hc => hall.1 hc h)]
    exact Function.update_self _ _ _
  · refine .inr ⟨h, ?_⟩
    rw [if_pos (hall.2 h)]
    exact Function.update_self _ _ _

theorem cascadeTurn_unsettled (hctx : SoundContext ctx) (x : String) {d : VariableFetchStore} {p : String}
    (hp : isSettled (d.states p) = false) : isSettled ((cascadeTurn ctx d x).states p) = false := by
  by_cases hpx : p = x
  · subst hpx
    rcases cascadeTurn_self hctx p d with ⟨-, h⟩ | ⟨-, h⟩
    · rw [h]; rfl
    · rw [h]; exact (isFetching_started d p).not_settled
  · rwa [cascadeTurn_of_ne x d hpx]

def cascade (ctx : VariableFetchContext) (l : List String) (d : VariableFetchStore) : VariableFetchStore :=
  l.foldl (cascadeTurn ctx) d

theorem cascade_lastUpdated : ∀ (l : List String) (d : VariableFetchStore), (cascade ctx l d).lastUpdated = d.lastUpdated
  | [], _ => rfl
  | x :: l, d => cascade_lastUpdated l (cascadeTurn ctx d x)

theorem cascade_of_notMem : ∀ {l : List String} {d : VariableFetchStore} {v : String}, v ∉ l →
    (cascade ctx l d).states v = d.states v
  | [], _, _, _ => rfl
  | x :: l, d, v, hv => by
    rw [mem_cons, not_or] at hv
    exact (cascade_of_notMem (l := l) (d := cascadeTurn ctx d x) hv.2).trans (cascadeTurn_of_ne x d hv.1)

theorem cascade_unsettled (hctx : SoundContext ctx) : ∀ (l : List String) {d : VariableFetchStore} {p : String},
    isSettled (d.states p) = false → isSettled ((cascade ctx l d).states p) = false
  | [], _, _, hp => hp
  | x :: l, _, _, hp => cascade_unsettled hctx l (cascadeTurn_unsettled hctx x hp)

theorem cascade_mem (hctx : SoundContext ctx) : ∀ {l : List String} {d : VariableFetchStore} {v : String}, v ∈ l →
    IsFetching ((cascade ctx l d).states v) ∨
      ((cascade ctx l d).states v = some .waiting ∧ HasUnsettledParent ctx (cascade ctx l d) v)
  | x :: l, d, v, hv => by
    by_cases hvl : v ∈ l
    · exact cascade_mem hctx (d := cascadeTurn ctx d x) hvl
    · obtain rfl := (mem_cons.1 hv).resolve_right hvl
      have hlast : (cascade ctx (v :: l) d).states v = (cascadeTurn ctx d v).states v := cascade_of_notMem hvl
      rcases cascadeTurn_self hctx v d with ⟨⟨p, hedge, hp⟩, h⟩ | ⟨-, h⟩
      · exact .inr ⟨hlast.trans h, p, hedge, cascade_unsettled hctx l (cascadeTurn_unsettled hctx v hp)⟩
      · exact .inl (by rw [hlast, h]; exact isFetching_started d v)

theorem cascade_waiting (hctx : SoundContext ctx) : ∀ {l : List String} {d : VariableFetchStore} {v : String}, v ∈ l →
    HasUnsettledParent ctx d v → (cascade ctx l d).states v = some .waiting
  | x :: l, d, v, hv, ⟨p, hedge, hp⟩ => by
    by_cases hvl : v ∈ l
    · exact cascade_waiting hctx (d := cascadeTurn ctx d x) hvl ⟨p, hedge, cascadeTurn_unsettled hctx x hp⟩
    · obtain rfl := (mem_cons.1 hv).resolve_right hvl
      have hlast : (cascade ctx (v :: l) d).states v = (cascadeTurn ctx d v).states v := cascade_of_notMem hvl
      rcases cascadeTurn_self hctx v d with ⟨-, h⟩ | ⟨hno, -⟩
      · exact hlast.trans h
      · exact absurd ⟨p, hedge, hp⟩ hno

/-- When the changed variable is not settled itself, all its descendants wait, since each comes after a parent. -/
theorem cascade_front (hctx : SoundContext ctx) {A : List String} : ∀ {l seen : List String} {d : VariableFetchStore},
    Front ctx.dependencyData.graph A seen l → (∀ v ∈ A, HasUnsettledParent ctx d v) →
    (∀ p ∈ seen, isSettled (d.states p) = false) → ∀ v ∈ l, (cascade ctx l d).states v = some .waiting
  | x :: l, seen, d, ⟨hx, hl⟩, hA, hseen, v, hv => by
    have hparent : HasUnsettledParent ctx d x := by
      rcases hx with hx | ⟨p, hp, hedge⟩
      · exact hA x hx
      · exact ⟨p, hedge, hseen p hp⟩
    by_cases hvl : v ∈ l
    · refine cascade_front hctx (d := cascadeTurn ctx d x) hl (fun w hw => ?_) (fun p hp => ?_) v hvl
      · obtain ⟨p, hedge, hp⟩ := hA w hw
        exact ⟨p, hedge, cascadeTurn_unsettled hctx x hp⟩
      · rcases mem_cons.1 hp with rfl | hp
        · rcases cascadeTurn_self hctx p d with ⟨-, h⟩ | ⟨hno, -⟩
          · rw [h]; rfl
          · exact absurd hparent hno
        · exact cascadeTurn_unsettled hctx x (hseen p hp)
    · obtain rfl := (mem_cons.1 hv).resolve_right hvl
      exact cascade_waiting hctx mem_cons_self hparent

theorem filter_descendants (hctx : SoundContext ctx) (name : String) :
    (ctx.dependencyData.transitiveDescendants name).filter
      (fun desc => decide (ctx.variableTypes.get desc = some .query)) = ctx.dependencyData.transitiveDescendants name :=
  filter_eq_self.2 (fun v hv => decide_eq_true (hctx.query_of_reached ((hctx.descendants name v).1 hv)))

theorem enqueueDescendantsOfVariable_states (hctx : SoundContext ctx) (name : String) (d : VariableFetchStore) (v : String) :
    (enqueueDescendantsOfVariable ctx name d).states v =
      let draft := cascade ctx (ctx.dependencyData.transitiveDescendants name) d
      if ctx.variableTypes.get v = some .dynamic then
        if areAllQueryVariablesSettled draft.states ctx.variableTypes then started d v else some .waiting
      else draft.states v := by
  set draft := cascade ctx (ctx.dependencyData.transitiveDescendants name) d with hdraft
  have hloop := foldl_states
    (f := fun draft dynName => (draft.bumpCycle dynName).setState dynName
      (if areAllQueryVariablesSettled (draft.bumpCycle dynName).states ctx.variableTypes then
        resolveFetchState (draft.bumpCycle dynName) dynName else .waiting))
    (g := fun x _ => if areAllQueryVariablesSettled draft.states ctx.variableTypes then started d x else some .waiting)
    (fun d' => d'.lastUpdated = d.lastUpdated ∧
      ∀ q, ctx.variableTypes.get q = some .query → d'.states q = draft.states q)
    (fun _ _ => rfl) ctx.dynamicVariableOrder draft (fun d' x hd hx => ?_) ⟨cascade_lastUpdated _ d, fun _ _ => rfl⟩
  · refine Eq.trans ?_ ((hloop.2 v).trans ?_)
    · unfold enqueueDescendantsOfVariable
      rw [filter_descendants hctx]
      rfl
    · simp only [hctx.dynamics]
  · -- setting a dynamic variable does not change whether the query variables are settled
    have hsame : areAllQueryVariablesSettled (d'.bumpCycle x).states ctx.variableTypes =
        areAllQueryVariablesSettled draft.states ctx.variableTypes := by
      rw [Bool.eq_iff_iff, areAllQueryVariablesSettled_iff hctx, areAllQueryVariablesSettled_iff hctx]
      refine forall₂_congr (fun q hq => ?_)
      rw [← hd.2 q hq]
      rfl
    refine ⟨⟨hd.1, fun q hq => ?_⟩, ?_⟩
    · have hne : q ≠ x := by
        rintro rfl
        rw [(hctx.dynamics q).1 hx] at hq
        cases hq
      exact (Function.update_of_ne hne _ _).trans (hd.2 q hq)
    · unfold VariableFetchStore.setState
      dsimp only
      rw [hsame]
      congr 1
      split
      · exact @started_congr _ (d'.bumpCycle x) hd.1 x
      · rfl

end Dashboard
end DsApm
