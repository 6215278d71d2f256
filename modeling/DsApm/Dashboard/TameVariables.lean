import DsApm.Dashboard.FetchProtocol
/-!
# TameVariables — which sets of variables keep the law

Completing the query variables of a full cycle one after the other, in their order, brings every one of them to its turn
while it fetches (`sweep`).  On the way a variable with two query parents starts at the first of them; at the end, a value
change of a dynamic variable with a query child lets both wait.
-/
namespace DsApm
namespace Dashboard

open Kahn Relation StepRun List

variable {ctx : VariableFetchContext} {d : VariableFetchStore} {name v : String}

/-! ## A full cycle, in order -/

/-- The states of a full cycle after the query variables of a list have come back. -/
structure Swept (ctx : VariableFetchContext) (store : VariableFetchStore) (done : List String) : Prop where
  idle : ∀ v, ctx.variableTypes.get v = some .query → v ∈ done → store.states v = some .idle
  fetching : ∀ v, ctx.variableTypes.get v = some .query → v ∉ done →
    (HasQueryParent ctx v → ∃ p ∈ done, v ∈ ctx.dependencyData.graph p) → IsFetching (store.states v)
  waiting : ∀ v, ctx.variableTypes.get v = some .query → v ∉ done → HasQueryParent ctx v →
    (∀ p ∈ done, v ∉ ctx.dependencyData.graph p) → store.states v = some .waiting
  dynamic : ∀ v, ctx.variableTypes.get v = some .dynamic → IsFetching (store.states v)
  plain : ∀ v, ctx.variableTypes.get v ≠ some .query → ctx.variableTypes.get v ≠ some .dynamic →
    ¬ IsFetching (store.states v)

def Ready (ctx : VariableFetchContext) : List String → List String → Prop
  | _, [] => True
  | done, x :: l => ctx.variableTypes.get x = some .query ∧ x ∉ done ∧
      (∀ p, x ∈ ctx.dependencyData.graph p → ctx.variableTypes.get p = some .query → p ∈ done) ∧ Ready ctx (x :: done) l

theorem Swept.unsettled {done : List String} (h : Swept ctx d done) (hv : ctx.variableTypes.get v = some .query)
    (hno : v ∉ done) : isSettled (d.states v) = false := by
  by_cases hfetch : HasQueryParent ctx v → ∃ p ∈ done, v ∈ ctx.dependencyData.graph p
  · exact (h.fetching v hv hno hfetch).not_settled
  · push Not at hfetch
    rw [h.waiting v hv hno hfetch.1 hfetch.2]
    rfl

theorem swept_enqueueFetchOfAllVariables (hctx : SoundContext ctx) (h : Progress ctx d) :
    Swept ctx (enqueueFetchOfAllVariables ctx (fun _ => true) d) [] := by
  have hstates := enqueueFetchOfAllVariables_states hctx (fun _ => true) d
  have hquery : ∀ v, ctx.variableTypes.get v = some .query →
      (enqueueFetchOfAllVariables ctx (fun _ => true) d).states v = queryStart ctx d v := by
    intro v hv
    rw [hstates v, if_neg (by rw [hv]; exact nofun), if_pos hv]
  have hall : doAllQueryVariablesHaveValuesSelected ctx.variableTypes (fun _ => true) = true := by
    unfold doAllQueryVariablesHaveValuesSelected
    simp
  refine ⟨fun _ _ h => (by cases h), fun v hv _ hfetch => ?_, fun v hv _ hparent _ => ?_, fun v hv => ?_, fun v hq hd => ?_⟩
  · rw [hquery v hv, queryStart, if_neg]
    · exact isFetching_started d v
    · intro hparent
      obtain ⟨p, hp, -⟩ := hfetch ((hasQueryParent_iff hctx).1 hparent)
      cases hp
  · rw [hquery v hv, queryStart, if_pos ((hasQueryParent_iff hctx).2 hparent)]
  · rw [hstates v, if_pos hv, if_pos hall]
    exact isFetching_started d v
  · rw [hstates v, if_neg hd, if_neg hq, h.plain v hq hd]
    rintro (hf | hf) <;> split at hf <;> cases hf

/-- **The next variable fetches, and its completion goes on with the sweep.** -/
theorem swept_onVariableFetchComplete (hctx : SoundContext ctx) {done : List String} (h : Swept ctx d done)
    (hname : ctx.variableTypes.get name = some .query) (hno : name ∉ done)
    (hparents : ∀ p, name ∈ ctx.dependencyData.graph p → ctx.variableTypes.get p = some .query → p ∈ done) (now : Nat) :
    Fetching d name ∧ Swept ctx (onVariableFetchComplete ctx name now d) (name :: done) := by
  have hfetching : IsFetching (d.states name) :=
    h.fetching name hname hno (fun ⟨p, hedge, hp⟩ => ⟨p, hparents p hedge hp, hedge⟩)
  have hstates := completed_states hctx name now d
  have hquery : ∀ v, ctx.variableTypes.get v ≠ some .dynamic →
      (onVariableFetchComplete ctx name now d).states v = (completed ctx name now d).states v :=
    fun v hv => unlockIfSettled_of_not_dynamic hctx hv
  refine ⟨hfetching, fun v hv hmem => ?_, fun v hv hnot hfetch => ?_, fun v hv hnot hparent hnone => ?_, fun v hv => ?_,
    fun v hq hd => ?_⟩
  · rw [hquery v (by rw [hv]; exact nofun), hstates v]
    rcases mem_cons.1 hmem with rfl | hdone
    · rw [if_neg (fun hc => hctx.ne_of_edge hc.1 rfl), if_pos rfl]
    · have hidle := h.idle v hv hdone
      rw [if_neg (fun hc => by rw [hc.2] at hidle; cases hidle), if_neg]
      · exact hidle
      · rintro rfl
        exact hno hdone
  · rw [mem_cons, not_or] at hnot
    rw [hquery v (by rw [hv]; exact nofun), hstates v, if_neg hnot.1]
    split
    · exact isFetching_started _ v
    · rename_i hchild
      refine h.fetching v hv hnot.2 (fun hparent => ?_)
      by_contra hnone
      push Not at hnone
      -- a child of the completed variable that no earlier one started still waits
      have hwait := h.waiting v hv hnot.2 hparent hnone
      obtain ⟨p, hp, hedge⟩ := hfetch hparent
      rcases mem_cons.1 hp with rfl | hp
      · exact hchild ⟨hedge, hwait⟩
      · exact hnone p hp hedge
  · rw [mem_cons, not_or] at hnot
    rw [hquery v (by rw [hv]; exact nofun), hstates v, if_neg (fun hc => hnone name mem_cons_self hc.1),
      if_neg hnot.1]
    exact h.waiting v hv hnot.2 hparent (fun p hp => hnone p (mem_cons_of_mem _ hp))
  · have hsame : (completed ctx name now d).states v = d.states v := by
      rw [hstates v, if_neg, if_neg]
      · rintro rfl
        rw [hname] at hv
        cases hv
      · rintro ⟨hc, -⟩
        rw [hctx.toQuery name v hc] at hv
        cases hv
    rw [onVariableFetchComplete_eq, unlockIfSettled_states, hsame, if_neg (fun hc => (h.dynamic v hv).ne_waiting hc.2.2)]
    exact h.dynamic v hv
  · rw [hquery v hd, hstates v, if_neg (fun hc => hq (hctx.toQuery name v hc.1)), if_neg]
    · exact h.plain v hq hd
    · rintro rfl
      exact hq hname

def completions (l : List String) : List FetchAction := l.map (fun name => .onVariableFetchComplete name 0)

theorem sweep (hctx : SoundContext ctx) : ∀ {l done : List String} {d : VariableFetchStore}, Ready ctx done l →
    Swept ctx d done → Proper ctx d (completions l) ∧
      Swept ctx (final (fetchStep ctx) d (completions l)) (l.reverse ++ done)
  | [], done, d, _, h => ⟨fun _ hx => (by cases hx), h⟩
  | x :: l, done, d, ⟨hx, hno, hparents, hl⟩, h => by
    obtain ⟨hout, hswept⟩ := swept_onVariableFetchComplete hctx h hx hno hparents 0
    obtain ⟨hproper, hfinal⟩ := sweep hctx hl hswept
    refine ⟨forall_mem_cons.2 ⟨hout, hproper⟩, ?_⟩
    rw [reverse_cons, List.append_assoc, singleton_append]
    exact hfinal

theorem Ready.of_append : ∀ {l l' done : List String}, Ready ctx done (l ++ l') → Ready ctx done l
  | [], _, _, _ => trivial
  | _ :: _, _, _, ⟨hx, hno, hparents, hl⟩ => ⟨hx, hno, hparents, Ready.of_append hl⟩

theorem mem_of_sorted {adj : String → List String} {p c : String} (hc : c ∈ adj p) : ∀ {l : List String}, Sorted adj l →
    p ∈ l → c ∈ l
  | x :: l, ⟨_, hchildren, hl⟩, hp => by
    rcases mem_cons.1 hp with rfl | hp
    · exact mem_cons_of_mem _ (hchildren c hc)
    · exact mem_cons_of_mem _ (mem_of_sorted hc hl hp)

theorem ready_of_sorted (hctx : SoundContext ctx) : ∀ {l done : List String}, Sorted ctx.dependencyData.graph l →
    (∀ x ∈ l, x ∉ done) → (∀ p, ctx.variableTypes.get p = some .query → p ∉ done → p ∈ l) →
    Ready ctx done (l.filter (fun x => decide (ctx.variableTypes.get x = some .query)))
  | [], _, _, _, _ => trivial
  | x :: l, done, ⟨hx, hchildren, hl⟩, hnew, hall => by
    by_cases hq : ctx.variableTypes.get x = some .query
    · rw [filter_cons_of_pos (by simpa using hq)]
      refine ⟨hq, hnew x mem_cons_self, fun p hedge hp => ?_, ready_of_sorted hctx hl (fun y hy => ?_) (fun p hp hno => ?_)⟩
      · by_contra hno
        rcases mem_cons.1 (hall p hp hno) with rfl | hmem
        · exact hctx.ne_of_edge hedge rfl
        · exact hx (mem_of_sorted hedge hl hmem)
      · rw [mem_cons, not_or]
        refine ⟨?_, hnew y (mem_cons_of_mem _ hy)⟩
        rintro rfl
        exact hx hy
      · rw [mem_cons, not_or] at hno
        exact (mem_cons.1 (hall p hp hno.2)).resolve_left hno.1
    · rw [filter_cons_of_neg (by simpa using hq)]
      refine ready_of_sorted hctx hl (fun y hy => hnew y (mem_cons_of_mem _ hy)) (fun p hp hno => ?_)
      refine (mem_cons.1 (hall p hp hno)).resolve_left ?_
      rintro rfl
      exact hq hp

theorem ready_order (hctx : SoundContext ctx) : Ready ctx [] ctx.dependencyData.order := by
  obtain ⟨all, hsorted, horder⟩ := hctx.sorted
  rw [horder]
  refine ready_of_sorted hctx hsorted (fun _ _ => not_mem_nil) (fun p hp _ => ?_)
  have hmem := (hctx.order p).2 hp
  rw [horder] at hmem
  exact (mem_filter.1 hmem).1

theorem Ready.parent_mem {p : String} (hedge : v ∈ ctx.dependencyData.graph p)
    (hp : ctx.variableTypes.get p = some .query) : ∀ {l done : List String}, Ready ctx done l → v ∈ l → p ∈ done ∨ p ∈ l
  | x :: l, done, ⟨_, _, hparents, hl⟩, hv => by
    rcases mem_cons.1 hv with rfl | hv
    · exact .inl (hparents p hedge hp)
    · rcases Ready.parent_mem hedge hp hl hv with h | h
      · rcases mem_cons.1 h with rfl | h
        · exact .inr mem_cons_self
        · exact .inl h
      · exact .inr (mem_cons_of_mem _ h)

/-! ## Where the law breaks -/

def cycleOf (l : List String) : List FetchAction := .enqueueFetchOfAllVariables (fun _ => true) :: completions l

theorem sweep_cycleOf (hctx : SoundContext ctx) (hstart : Progress ctx d) {l : List String} (hl : Ready ctx [] l) :
    Proper ctx d (cycleOf l) ∧ Swept ctx (final (fetchStep ctx) d (cycleOf l)) l.reverse := by
  obtain ⟨hproper, hswept⟩ := sweep hctx hl (swept_enqueueFetchOfAllVariables hctx hstart)
  rw [append_nil] at hswept
  exact ⟨forall_mem_cons.2 ⟨trivial, hproper⟩, hswept⟩

/-- **A variable with two query parents starts at the first of them.** -/
theorem not_lawful_of_two_parents (hctx : SoundContext ctx) (hstart : Progress ctx d) {p q : String}
    (hp : v ∈ ctx.dependencyData.graph p) (hq : v ∈ ctx.dependencyData.graph q)
    (hpt : ctx.variableTypes.get p = some .query) (hqt : ctx.variableTypes.get q = some .query) (hne : p ≠ q) :
    ∃ acts, Proper ctx d acts ∧ ¬ Lawful ctx d acts := by
  obtain ⟨x, hx⟩ : ∃ x, ctx.dependencyData.order.find? (fun x => decide (v ∈ ctx.dependencyData.graph x)) = some x :=
    Option.isSome_iff_exists.1 (List.find?_isSome.2 ⟨p, (hctx.order p).2 hpt, by simpa using hp⟩)
  obtain ⟨hedge, l₁, l₂, horder, hfirst⟩ := List.find?_eq_some_iff_append.1 hx
  rw [decide_eq_true_eq] at hedge
  have hnone : ∀ y ∈ l₁, v ∉ ctx.dependencyData.graph y := fun y hy => by simpa using hfirst y hy
  have hxt : ctx.variableTypes.get x = some .query := (hctx.order x).1 (by rw [horder]; simp)
  have hready := ready_order hctx
  rw [horder, ← singleton_append, ← List.append_assoc] at hready
  have hready := hready.of_append
  have hvt := hctx.toQuery x v hedge
  have hvx : v ≠ x := hctx.ne_of_edge hedge
  have hvl : v ∉ l₁ := fun hmem => by
    rcases hready.of_append.parent_mem hedge hxt hmem with h | h
    · cases h
    · exact hnone x h hedge
  obtain ⟨-, hbefore⟩ := sweep_cycleOf hctx hstart hready.of_append
  obtain ⟨hproper, hafter⟩ := sweep_cycleOf hctx hstart hready
  refine ⟨cycleOf (l₁ ++ [x]), hproper, fun hlaw => ?_⟩
  have hsplit : cycleOf (l₁ ++ [x]) = cycleOf l₁ ++ [.onVariableFetchComplete x 0] := by
    unfold cycleOf completions
    rw [map_append]
    rfl
  rw [hsplit, final_append] at hafter
  have hstep := hlaw.1 (final (fetchStep ctx) d (cycleOf l₁), .onVariableFetchComplete x 0, ())
    ((mem_trace (fetchStep ctx) _ d _).2 ⟨cycleOf l₁, [], hsplit, rfl, rfl⟩)
  obtain ⟨y, hy, hyt, hyx⟩ : ∃ y, v ∈ ctx.dependencyData.graph y ∧ ctx.variableTypes.get y = some .query ∧ y ≠ x := by
    by_cases hpx : p = x
    · exact ⟨q, hq, hqt, fun hqx => hne (hpx.trans hqx.symm)⟩
    · exact ⟨p, hp, hpt, hpx⟩
  have hyl : y ∉ (l₁ ++ [x]).reverse := by
    rw [mem_reverse, mem_append, mem_singleton, not_or]
    exact ⟨fun h => hnone y h hy, hyx⟩
  have hvl' : v ∉ (l₁ ++ [x]).reverse := by
    rw [mem_reverse, mem_append, mem_singleton, not_or]
    exact ⟨hvl, hvx⟩
  have hwait := hbefore.waiting v hvt (by rwa [mem_reverse]) ⟨x, hedge, hxt⟩
    (fun y hy => hnone y (mem_reverse.1 hy))
  have hfetch := hafter.fetching v hvt hvl' (fun _ => ⟨x, by simp, hedge⟩)
  have hsettled := hstep v hvt hwait hfetch y hy hyt
  have hunsettled := hafter.unsettled hyt hyl
  exact absurd (hsettled.symm.trans hunsettled) nofun

/-- **A dynamic variable whose value changes while it fetches, and its query child, wait for each other.** -/
theorem not_lawful_of_dynamic_parent (hctx : SoundContext ctx) (hstart : Progress ctx d) {p : String}
    (hedge : v ∈ ctx.dependencyData.graph p) (hp : ctx.variableTypes.get p = some .dynamic) :
    ∃ acts, Proper ctx d acts ∧ ¬ Lawful ctx d acts := by
  obtain ⟨hproper, hswept⟩ := sweep_cycleOf hctx hstart (ready_order hctx)
  set e := final (fetchStep ctx) d (cycleOf ctx.dependencyData.order) with he
  refine ⟨cycleOf ctx.dependencyData.order ++ [.enqueueDescendantsOfVariable p], fun x hx => ?_, fun hlaw => ?_⟩
  · rw [trace_append] at hx
    rcases mem_append.1 hx with hx | hx
    · exact hproper x hx
    · rw [mem_singleton.1 hx]
      trivial
  · have hstuck := hlaw.2 _ prefix_rfl
    rw [final_append, ← he] at hstuck
    have hstates := enqueueDescendantsOfVariable_states hctx p e
    -- the descendants wait: the variable itself fetches
    have hunsettled : isSettled (e.states p) = false := (hswept.dynamic p hp).not_settled
    have hcascade := cascade_front (d := e) hctx (hctx.front p) (fun c hc => ⟨p, hc, hunsettled⟩)
      (fun _ h => by cases h)
    have hv := hcascade v ((hctx.descendants p v).2 (TransGen.single hedge))
    have hvt := hctx.toQuery p v hedge
    have hno : ¬ areAllQueryVariablesSettled (cascade ctx (ctx.dependencyData.transitiveDescendants p) e).states
        ctx.variableTypes = true := by
      rw [areAllQueryVariablesSettled_iff hctx]
      intro hall
      have := hall v hvt
      rw [hv] at this
      cases this
    refine hstuck (fun u hu => ?_) v ?_
    · have hu' : IsFetching ((enqueueDescendantsOfVariable ctx p e).states u) := hu
      rw [hstates u] at hu'
      dsimp only at hu'
      by_cases hud : ctx.variableTypes.get u = some .dynamic
      · rw [if_pos hud, if_neg hno] at hu'
        exact hu'.ne_waiting rfl
      · rw [if_neg hud] at hu'
        by_cases hmem : u ∈ ctx.dependencyData.transitiveDescendants p
        · exact hu'.ne_waiting (hcascade u hmem)
        · rw [cascade_of_notMem hmem] at hu'
          by_cases huq : ctx.variableTypes.get u = some .query
          · rw [hswept.idle u huq (mem_reverse.2 ((hctx.order u).2 huq))] at hu'
            rcases hu' with h | h <;> cases h
          · exact hswept.plain u huq hud hu'
    · show (enqueueDescendantsOfVariable ctx p e).states v = some .waiting
      rw [hstates v]
      dsimp only
      rw [if_neg (by rw [hvt]; exact nofun)]
      exact hv

/-! ## The protocol -/

section
variable {textContainsVariableReference : String → String → Bool} {vars : List DashboardVariable}

theorem initializeVariableFetchStore_states (names : List String) (v : String) :
    (initializeVariableFetchStore names).states v = if v ∈ names then some .idle else none := by
  refine (foldl_states (f := fun draft name => if draft.states name = none then draft.setState name .idle else draft)
    (g := fun _ s => if s = none then some .idle else s) (fun _ => True) (fun _ s => ?_) names {} (fun d x _ _ => ?_)
    trivial).2 v
  · by_cases hs : s = none
    · rw [if_pos hs, if_neg (by exact nofun)]
    · rw [if_neg hs, if_neg hs]
  · by_cases hs : d.states x = none
    · rw [if_pos hs, if_pos hs]
      exact ⟨trivial, rfl⟩
    · rw [if_neg hs, if_neg hs, Function.update_eq_self]
      exact ⟨trivial, rfl⟩

theorem progress_initializeVariableFetchStore (hctx : SoundContext (getVariableDependencyContext textContainsVariableReference vars)) :
    Progress (getVariableDependencyContext textContainsVariableReference vars)
      (initializeVariableFetchStore (vars.map DashboardVariable.name)) := by
  have hstates := initializeVariableFetchStore_states (vars.map DashboardVariable.name)
  have hnames : ∀ v, v ∈ vars.map DashboardVariable.name ↔
      (getVariableDependencyContext textContainsVariableReference vars).variableTypes.get v ≠ none :=
    fun v => keys_buildVariableTypesMap.symm.trans (hctx.typed v)
  have hidle : ∀ v, (initializeVariableFetchStore (vars.map DashboardVariable.name)).states v ≠ some .waiting := by
    intro v
    rw [hstates v]
    split <;> exact nofun
  refine ⟨fun v hv => ?_, fun v _ _ => ?_, fun v _ hw => absurd hw (hidle v), fun v _ hw => absurd hw (hidle v)⟩
  · rw [hstates v, if_pos ((hnames v).2 hv)]
    exact nofun
  · rw [hstates v]
    by_cases hv : (getVariableDependencyContext textContainsVariableReference vars).variableTypes.get v = none
    · rw [if_pos hv, if_neg (fun h => (hnames v).1 h hv)]
    · rw [if_neg hv, if_pos ((hnames v).2 hv)]

end

/-! ## Two sets of variables -/

/-- A text refers to the names that stand between its spaces, after a dollar sign. -/
def mentions (text name : String) : Bool := (text.toList.splitOn ' ').contains ('$' :: name.toList)

theorem acyclic_of_positions {vars : List DashboardVariable}
    (h : ∀ u ∈ vars.map DashboardVariable.name, ∀ v ∈ buildDependencies mentions vars u,
      (vars.map DashboardVariable.name).idxOf u < (vars.map DashboardVariable.name).idxOf v) (v : String) :
    ¬ TransGen (Edge (buildDependencies mentions vars)) v v := by
  refine acyclic_of_rank (fun u => (vars.map DashboardVariable.name).idxOf u) (fun u w hw => ?_) v
  exact h u (mem_buildDependencies.1 hw).1 w hw

def chained : List DashboardVariable :=
  [{ name := "ns", type := .query }, { name := "pod", type := .query, queryValue := "pods $ns" }]

def chainedContext : VariableFetchContext := getVariableDependencyContext mentions chained

theorem chained_acyclic : ∀ v, ¬ TransGen (Edge (buildDependencies mentions chained)) v v :=
  acyclic_of_positions (by decide)

theorem chained_edges {p v : String} (h : v ∈ chainedContext.dependencyData.graph p) : p = "ns" := by
  obtain ⟨hp, -⟩ := mem_buildDependencies.1 h
  simp only [chained, map_cons, map_nil, mem_cons, not_mem_nil, or_false] at hp
  rcases hp with rfl | rfl
  · rfl
  · have hnone : buildDependencies mentions chained "pod" = [] := by decide
    rw [show chainedContext.dependencyData.graph "pod" = [] from hnone] at h
    cases h

theorem chained_tame : Tame chainedContext := by
  refine ⟨fun v p q hp hq _ _ => (chained_edges hp).trans (chained_edges hq).symm, fun v p h => ?_⟩
  rw [chained_edges h]
  decide

def chainedRun : List FetchAction :=
  [.enqueueFetchOfAllVariables (fun _ => false), .onVariableFetchComplete "ns" 5, .enqueueDescendantsOfVariable "ns",
    .onVariableFetchFailure "pod"]

def twoParents : List DashboardVariable :=
  [{ name := "cluster", type := .query }, { name := "ns", type := .query },
    { name := "pod", type := .query, queryValue := "pods $cluster $ns" }]

def firstBack : List FetchAction :=
  [.enqueueFetchOfAllVariables (fun _ => true), .onVariableFetchComplete "cluster" 5]

def dynamicParent : List DashboardVariable :=
  [{ name := "ns", type := .dynamic }, { name := "pod", type := .query, queryValue := "pods $ns" }]

def changedWhileFetching : List FetchAction :=
  [.enqueueFetchOfAllVariables (fun _ => true), .enqueueDescendantsOfVariable "ns"]

theorem twoParents_acyclic : ∀ v, ¬ TransGen (Edge (buildDependencies mentions twoParents)) v v :=
  acyclic_of_positions (by decide)

theorem dynamicParent_acyclic : ∀ v, ¬ TransGen (Edge (buildDependencies mentions dynamicParent)) v v :=
  acyclic_of_positions (by decide)

theorem changedWhileFetching_states (v : String) :
    (final (fetchStep (getVariableDependencyContext mentions dynamicParent))
      (initializeVariableFetchStore (dynamicParent.map DashboardVariable.name)) changedWhileFetching).states v =
      if v = "ns" ∨ v = "pod" then some .waiting else none := by
  by_cases hns : v = "ns"
  · subst hns
    decide
  · by_cases hpod : v = "pod"
    · subst hpod
      decide
    · -- no action sets a name that no variable has
      have hctx := sound_getVariableDependencyContext (by decide) dynamicParent_acyclic
      have hnone : (getVariableDependencyContext mentions dynamicParent).variableTypes.get v = none := by
        by_contra hsome
        have hmem := keys_buildVariableTypesMap.1 ((hctx.typed v).2 hsome)
        simp only [dynamicParent, map_cons, map_nil, mem_cons, not_mem_nil, or_false] at hmem
        exact hmem.elim hns hpod
      have hnotquery : (getVariableDependencyContext mentions dynamicParent).variableTypes.get v ≠ some .query := by
        simp [hnone]
      have hnotdynamic : (getVariableDependencyContext mentions dynamicParent).variableTypes.get v ≠ some .dynamic := by
        simp [hnone]
      rw [if_neg (by simp [hns, hpod])]
      refine (enqueueDescendantsOfVariable_states hctx "ns" _ v).trans ?_
      dsimp only
      rw [if_neg hnotdynamic, cascade_of_notMem (hctx.notMem_of_plain hnotquery "ns")]
      refine (enqueueFetchOfAllVariables_states hctx (fun _ => true) _ v).trans ?_
      rw [if_neg hnotdynamic, if_neg hnotquery, initializeVariableFetchStore_states, if_neg]
      simp [dynamicParent, hns, hpod]

end Dashboard
end DsApm
