import DsApm.Dashboard.FetchLoops
import DsApm.Lib.StepRun
/-!
# FetchProtocol — who may fetch when

A query variable should start to fetch when its query parents are settled, and no variable should wait when none fetches.
The invariant is that a waiting query variable has a query parent that is not settled, and waiting dynamic variables a
query variable.  Two steps break the law: a completed variable starts every waiting child, whatever the child's other
parents do; and a value change lets a query variable wait for a dynamic one, which then waits for it.

`fetch_protocol` says which sets of variables never see either: those whose query variables refer to one query variable at
most and to no dynamic one.
-/
namespace DsApm
namespace Dashboard

open Kahn Relation StepRun

/-! ## The law -/

def StartsSettled (ctx : VariableFetchContext) (before after : VariableFetchStore) : Prop :=
  ∀ v, ctx.variableTypes.get v = some .query → before.states v = some .waiting → Fetching after v →
    ∀ p, v ∈ ctx.dependencyData.graph p → ctx.variableTypes.get p = some .query → isSettled (after.states p) = true

def NotStuck (store : VariableFetchStore) : Prop := (∀ v, ¬ Fetching store v) → ∀ v, store.states v ≠ some .waiting

def Lawful (ctx : VariableFetchContext) (start : VariableFetchStore) (acts : List FetchAction) : Prop :=
  (∀ x ∈ trace (fetchStep ctx) start acts, StartsSettled ctx x.1 (fetchStep ctx x.1 x.2.1).1) ∧
  ∀ pre, pre <+: acts → NotStuck (final (fetchStep ctx) start pre)

def Proper (ctx : VariableFetchContext) (start : VariableFetchStore) (acts : List FetchAction) : Prop :=
  ∀ x ∈ trace (fetchStep ctx) start acts, Allowed x.1 x.2.1

/-- The condition on a step: a completed variable's waiting children have their other query parents settled, and the
dynamic parents of what a value change reaches are settled. -/
def Clean (ctx : VariableFetchContext) (store : VariableFetchStore) : FetchAction → Prop
  | .onVariableFetchComplete name _ => ∀ c ∈ ctx.dependencyData.graph name, store.states c = some .waiting →
      ∀ p, c ∈ ctx.dependencyData.graph p → p ≠ name → ctx.variableTypes.get p = some .query →
        isSettled (store.states p) = true
  | .enqueueDescendantsOfVariable name => ∀ v ∈ ctx.dependencyData.transitiveDescendants name,
      ∀ p, v ∈ ctx.dependencyData.graph p → ctx.variableTypes.get p = some .dynamic → isSettled (store.states p) = true
  | _ => True

/-- The condition on a set of variables: a query variable refers to one query variable at most, and to no dynamic one. -/
structure Tame (ctx : VariableFetchContext) : Prop where
  single : ∀ v p q, v ∈ ctx.dependencyData.graph p → v ∈ ctx.dependencyData.graph q →
    ctx.variableTypes.get p = some .query → ctx.variableTypes.get q = some .query → p = q
  static : ∀ v p, v ∈ ctx.dependencyData.graph p → ctx.variableTypes.get p ≠ some .dynamic

/-! ## The invariant -/

structure Progress (ctx : VariableFetchContext) (store : VariableFetchStore) : Prop where
  known : ∀ v, ctx.variableTypes.get v ≠ none → store.states v ≠ none
  plain : ∀ v, ctx.variableTypes.get v ≠ some .query → ctx.variableTypes.get v ≠ some .dynamic →
    store.states v = if ctx.variableTypes.get v = none then none else some .idle
  query : ∀ v, ctx.variableTypes.get v = some .query → store.states v = some .waiting →
    ∃ p, v ∈ ctx.dependencyData.graph p ∧ ctx.variableTypes.get p = some .query ∧ isSettled (store.states p) = false
  dynamic : ∀ v, ctx.variableTypes.get v = some .dynamic → store.states v = some .waiting →
    (∀ w, ctx.variableTypes.get w = some .dynamic → store.states w = some .waiting) ∧
    ∃ q, ctx.variableTypes.get q = some .query ∧ isSettled (store.states q) = false

variable {ctx : VariableFetchContext} {d : VariableFetchStore} {name v : String}

theorem unsettled_cases {state : Option VariableFetchState} (hsome : state ≠ none) (h : isSettled state = false) :
    IsFetching state ∨ state = some .waiting := by
  cases state with
  | none => exact absurd rfl hsome
  | some state =>
    cases state with
    | idle | error => cases h
    | loading => exact .inl (.inl rfl)
    | revalidating => exact .inl (.inr rfl)
    | waiting => exact .inr rfl

theorem Progress.not_plain (h : Progress ctx d) (hv : IsFetching (d.states v) ∨ d.states v = some .waiting) :
    ctx.variableTypes.get v = some .query ∨ ctx.variableTypes.get v = some .dynamic := by
  by_contra hno
  rw [not_or] at hno
  rw [h.plain v hno.1 hno.2] at hv
  split at hv <;> rcases hv with (hv | hv) | hv <;> cases hv

theorem Progress.plain_settled (hctx : SoundContext ctx) (h : Progress ctx d) {p : String}
    (hedge : v ∈ ctx.dependencyData.graph p) (hq : ctx.variableTypes.get p ≠ some .query)
    (hd : ctx.variableTypes.get p ≠ some .dynamic) : isSettled (d.states p) = true := by
  rw [h.plain p hq hd, if_neg ((hctx.typed p).1 (hctx.known p v hedge))]
  rfl

theorem SoundContext.notMem_of_plain (hctx : SoundContext ctx) (hq : ctx.variableTypes.get v ≠ some .query) (u : String) :
    v ∉ ctx.dependencyData.transitiveDescendants u :=
  fun h => hq (hctx.query_of_reached ((hctx.descendants u v).1 h))

theorem SoundContext.ne_of_edge (hctx : SoundContext ctx) {p : String} (hedge : v ∈ ctx.dependencyData.graph p) : v ≠ p :=
  fun h => hctx.acyclic v (TransGen.single (by rw [← h] at hedge; exact hedge))

/-- **A state with the invariant is not stuck**: among waiting query variables there would be one without a parent. -/
theorem Progress.notStuck (hctx : SoundContext ctx) (h : Progress ctx d) : NotStuck d := by
  intro hnone v hv
  have hwaits : ∀ q, ctx.variableTypes.get q = some .query → isSettled (d.states q) = false → d.states q = some .waiting :=
    fun q hq hun => (unsettled_cases (h.known q (by rw [hq]; exact nofun)) hun).resolve_left (hnone q)
  obtain ⟨q, hq, hqw⟩ : ∃ q, ctx.variableTypes.get q = some .query ∧ d.states q = some .waiting := by
    rcases h.not_plain (.inr hv) with hvq | hvd
    · exact ⟨v, hvq, hv⟩
    · obtain ⟨-, q, hq, hun⟩ := h.dynamic v hvd hv
      exact ⟨q, hq, hwaits q hq hun⟩
  obtain ⟨r, hr, hroot⟩ := exists_root (fun v _ => hctx.acyclic v)
    (s := ctx.dependencyData.order.toFinset.filter (fun u => d.states u = some .waiting))
    ⟨q, Finset.mem_filter.2 ⟨List.mem_toFinset.2 ((hctx.order q).2 hq), hqw⟩⟩
  rw [Finset.mem_filter, List.mem_toFinset, hctx.order] at hr
  obtain ⟨p, hedge, hp, hun⟩ := h.query r hr.1 hr.2
  exact hroot p (Finset.mem_filter.2 ⟨List.mem_toFinset.2 ((hctx.order p).2 hp), hwaits p hp hun⟩) hedge

/-! ## One step -/

theorem dynamic_unlock (hctx : SoundContext ctx) {draft : VariableFetchStore}
    (hname : ctx.variableTypes.get name = some .query)
    (hall : ∀ w, ctx.variableTypes.get w = some .dynamic → draft.states w = some .waiting)
    (hv : ctx.variableTypes.get v = some .dynamic) (hw : (unlockIfSettled ctx name draft).states v = some .waiting) :
    (∀ w, ctx.variableTypes.get w = some .dynamic → (unlockIfSettled ctx name draft).states w = some .waiting) ∧
    ∃ q, ctx.variableTypes.get q = some .query ∧ isSettled ((unlockIfSettled ctx name draft).states q) = false := by
  have hno : ¬ areAllQueryVariablesSettled draft.states ctx.variableTypes = true := by
    intro hsettled
    rw [unlockIfSettled_states, if_pos ⟨⟨hname, hsettled⟩, (hctx.dynamics v).2 hv, hall v hv⟩] at hw
    exact started_ne_waiting draft v hw
  have hsame : ∀ w, (unlockIfSettled ctx name draft).states w = draft.states w := by
    intro w
    rw [unlockIfSettled_states, if_neg (fun h => hno h.1.2)]
  simp only [hsame]
  refine ⟨hall, ?_⟩
  rw [areAllQueryVariablesSettled_iff hctx] at hno
  push Not at hno
  obtain ⟨q, hq, hun⟩ := hno
  exact ⟨q, hq, by simpa using hun⟩

theorem unlockIfSettled_known {draft : VariableFetchStore} (hv : draft.states v ≠ none) :
    (unlockIfSettled ctx name draft).states v ≠ none := by
  rw [unlockIfSettled_states]
  split
  · exact nofun
  · exact hv

theorem unlockIfSettled_of_not_dynamic (hctx : SoundContext ctx) {draft : VariableFetchStore}
    (hv : ctx.variableTypes.get v ≠ some .dynamic) : (unlockIfSettled ctx name draft).states v = draft.states v := by
  rw [unlockIfSettled_states, if_neg (fun h => hv ((hctx.dynamics v).1 h.2.1))]

theorem progress_enqueueFetchOfAllVariables (hctx : SoundContext ctx) (hasValue : String → Bool) (h : Progress ctx d) :
    Progress ctx (enqueueFetchOfAllVariables ctx hasValue d) := by
  have hstates := enqueueFetchOfAllVariables_states hctx hasValue d
  have hunsettled : ∀ q, ctx.variableTypes.get q = some .query →
      isSettled ((enqueueFetchOfAllVariables ctx hasValue d).states q) = false := by
    intro q hq
    rw [hstates q, if_neg (by rw [hq]; exact nofun), if_pos hq]
    unfold queryStart
    split
    · rfl
    · exact (isFetching_started d q).not_settled
  refine ⟨fun v hv => ?_, fun v hq hd => ?_, fun v hq hw => ?_, fun v hv hw => ?_⟩
  · rw [hstates v]
    unfold queryStart
    split_ifs
    · exact nofun
    · exact nofun
    · exact nofun
    · exact nofun
    · exact h.known v hv
  · rw [hstates v, if_neg hd, if_neg hq]
    exact h.plain v hq hd
  · rw [hstates v, if_neg (by rw [hq]; exact nofun), if_pos hq] at hw
    unfold queryStart at hw
    split at hw
    · rename_i hparents
      obtain ⟨p, hedge, hp⟩ := (hasQueryParent_iff hctx).1 hparents
      exact ⟨p, hedge, hp, hunsettled p hp⟩
    · exact absurd hw (started_ne_waiting d v)
  · rw [hstates v, if_pos hv] at hw
    by_cases hall : doAllQueryVariablesHaveValuesSelected ctx.variableTypes hasValue = true
    · rw [if_pos hall] at hw
      exact absurd hw (started_ne_waiting d v)
    · refine ⟨fun w hw => by rw [hstates w, if_pos hw, if_neg hall], ?_⟩
      -- a query variable has no value selected
      unfold doAllQueryVariablesHaveValuesSelected at hall
      simp only [List.all_eq_true, Bool.or_eq_true, decide_eq_true_eq, not_forall, not_or, not_not] at hall
      obtain ⟨q, -, hq, -⟩ := hall
      exact ⟨q, hq, hunsettled q hq⟩

theorem progress_enqueueDescendantsOfVariable (hctx : SoundContext ctx) (h : Progress ctx d)
    (hclean : Clean ctx d (.enqueueDescendantsOfVariable name)) :
    Progress ctx (enqueueDescendantsOfVariable ctx name d) := by
  have hstates := enqueueDescendantsOfVariable_states hctx name d
  set draft := cascade ctx (ctx.dependencyData.transitiveDescendants name) d with hdraft
  have hquery : ∀ q, ctx.variableTypes.get q ≠ some .dynamic →
      (enqueueDescendantsOfVariable ctx name d).states q = draft.states q := fun q hq => by rw [hstates q, if_neg hq]
  have hkept : ∀ q, ctx.variableTypes.get q ≠ some .query → draft.states q = d.states q :=
    fun q hq => cascade_of_notMem (hctx.notMem_of_plain hq name)
  refine ⟨fun v hv => ?_, fun v hq hd => ?_, fun v hq hw => ?_, fun v hv hw => ?_⟩
  · rw [hstates v]
    dsimp only
    split_ifs
    · exact nofun
    · exact nofun
    · by_cases hmem : v ∈ ctx.dependencyData.transitiveDescendants name
      · rcases cascade_mem hctx (d := d) hmem with (hf | hf) | ⟨hf, -⟩ <;> rw [hdraft, hf] <;> exact nofun
      · rw [hdraft, cascade_of_notMem hmem]
        exact h.known v hv
  · rw [hquery v hd, hkept v hq]
    exact h.plain v hq hd
  · have hnd : ctx.variableTypes.get v ≠ some .dynamic := by rw [hq]; exact nofun
    rw [hquery v hnd] at hw
    by_cases hmem : v ∈ ctx.dependencyData.transitiveDescendants name
    · rcases cascade_mem hctx (d := d) hmem with hf | ⟨-, p, hedge, hun⟩
      · exact absurd hw hf.ne_waiting
      · -- the parent is a query variable: another one was settled before, and was not touched
        have hp : ctx.variableTypes.get p = some .query := by
          by_contra hpq
          have hold := hkept p hpq
          rw [hdraft] at hold
          rw [hold] at hun
          by_cases hpd : ctx.variableTypes.get p = some .dynamic
          · rw [hclean v hmem p hedge hpd] at hun
            cases hun
          · rw [h.plain_settled hctx hedge hpq hpd] at hun
            cases hun
        refine ⟨p, hedge, hp, ?_⟩
        rw [hquery p (by rw [hp]; exact nofun)]
        exact hun
    · rw [hdraft, cascade_of_notMem hmem] at hw
      obtain ⟨p, hedge, hp, hun⟩ := h.query v hq hw
      refine ⟨p, hedge, hp, ?_⟩
      rw [hquery p (by rw [hp]; exact nofun)]
      exact cascade_unsettled hctx _ hun
  · rw [hstates v] at hw
    dsimp only at hw
    rw [if_pos hv] at hw
    by_cases hall : areAllQueryVariablesSettled draft.states ctx.variableTypes = true
    · rw [if_pos hall] at hw
      exact absurd hw (started_ne_waiting d v)
    · refine ⟨fun w hw => by rw [hstates w]; dsimp only; rw [if_pos hw, if_neg hall], ?_⟩
      rw [areAllQueryVariablesSettled_iff hctx] at hall
      push Not at hall
      obtain ⟨q, hq, hun⟩ := hall
      refine ⟨q, hq, ?_⟩
      rw [hquery q (by rw [hq]; exact nofun)]
      simpa using hun

theorem progress_onVariableFetchComplete (hctx : SoundContext ctx) (now : Nat) (h : Progress ctx d)
    (hout : Fetching d name) : Progress ctx (onVariableFetchComplete ctx name now d) := by
  have hstates := completed_states hctx name now d
  have hname := h.not_plain (.inl hout)
  have hself : ∀ v, d.states v = some .waiting → v ≠ name := by
    rintro v hv rfl
    exact IsFetching.ne_waiting hout hv
  -- who is not started and not the variable itself is as before
  have hkept : ∀ v, (completed ctx name now d).states v = some .waiting →
      d.states v = some .waiting ∧ v ∉ ctx.dependencyData.graph name := by
    intro v hv
    rw [hstates v] at hv
    split_ifs at hv with hchild hvn
    · exact absurd hv (started_ne_waiting _ v)
    · cases hv
    · exact ⟨hv, fun hc => hchild ⟨hc, hv⟩⟩
  rw [onVariableFetchComplete_eq]
  refine ⟨fun v hv => ?_, fun v hq hd => ?_, fun v hq hw => ?_, fun v hv hw => ?_⟩
  · refine unlockIfSettled_known ?_
    rw [hstates v]
    split_ifs
    · exact nofun
    · exact nofun
    · exact h.known v hv
  · rw [unlockIfSettled_of_not_dynamic hctx hd, hstates v, if_neg (fun hc => hq (hctx.toQuery name v hc.1)), if_neg]
    · exact h.plain v hq hd
    · rintro rfl
      exact hname.elim hq hd
  · rw [unlockIfSettled_of_not_dynamic hctx (by rw [hq]; exact nofun)] at hw
    obtain ⟨hwd, hnochild⟩ := hkept v hw
    obtain ⟨p, hedge, hp, hun⟩ := h.query v hq hwd
    refine ⟨p, hedge, hp, ?_⟩
    have hpn : p ≠ name := by
      rintro rfl
      exact hnochild hedge
    rw [unlockIfSettled_of_not_dynamic hctx (by rw [hp]; exact nofun), hstates p, if_neg hpn]
    split
    · exact (isFetching_started _ p).not_settled
    · exact hun
  · -- a waiting dynamic variable: all wait, so it is a query variable that is done
    have hwd : d.states v = some .waiting := by
      rw [unlockIfSettled_states] at hw
      split at hw
      · exact absurd hw (started_ne_waiting _ v)
      · exact (hkept v hw).1
    obtain ⟨hall, -⟩ := h.dynamic v hv hwd
    have hnameq : ctx.variableTypes.get name = some .query :=
      hname.resolve_right (fun hd => IsFetching.ne_waiting hout (hall name hd))
    refine dynamic_unlock hctx hnameq (fun w hwdyn => ?_) hv hw
    have hww := hall w hwdyn
    rw [hstates w, if_neg, if_neg (hself w hww)]
    · exact hww
    · rintro ⟨hc, -⟩
      rw [hctx.toQuery name w hc] at hwdyn
      cases hwdyn

theorem progress_onVariableFetchFailure (hctx : SoundContext ctx) (h : Progress ctx d) (hout : Fetching d name) :
    Progress ctx (onVariableFetchFailure ctx name d) := by
  have hstates := failed_states hctx name d
  have hname := h.not_plain (.inl hout)
  have hkept : ∀ v, (failed ctx name d).states v = some .waiting →
      d.states v = some .waiting ∧ v ∉ ctx.dependencyData.transitiveDescendants name ∧ v ≠ name := by
    intro v hv
    rw [hstates v] at hv
    split_ifs at hv with hdesc hvn
    · cases hv
    · cases hv
    · exact ⟨hv, hdesc, hvn⟩
  rw [onVariableFetchFailure_eq]
  refine ⟨fun v hv => ?_, fun v hq hd => ?_, fun v hq hw => ?_, fun v hv hw => ?_⟩
  · refine unlockIfSettled_known ?_
    rw [hstates v]
    split_ifs
    · exact nofun
    · exact nofun
    · exact h.known v hv
  · rw [unlockIfSettled_of_not_dynamic hctx hd, hstates v, if_neg (hctx.notMem_of_plain hq name), if_neg]
    · exact h.plain v hq hd
    · rintro rfl
      exact hname.elim hq hd
  · rw [unlockIfSettled_of_not_dynamic hctx (by rw [hq]; exact nofun)] at hw
    obtain ⟨hwd, hnodesc, hvn⟩ := hkept v hw
    obtain ⟨p, hedge, hp, hun⟩ := h.query v hq hwd
    refine ⟨p, hedge, hp, ?_⟩
    have hpn : p ≠ name := by
      rintro rfl
      exact hnodesc ((hctx.descendants p v).2 (TransGen.single hedge))
    have hpd : p ∉ ctx.dependencyData.transitiveDescendants name := fun hpd =>
      hnodesc ((hctx.descendants name v).2 (((hctx.descendants name p).1 hpd).tail hedge))
    rwa [unlockIfSettled_of_not_dynamic hctx (by rw [hp]; exact nofun), hstates p, if_neg hpd, if_neg hpn]
  · have hwd : d.states v = some .waiting := by
      rw [unlockIfSettled_states] at hw
      split at hw
      · exact absurd hw (started_ne_waiting _ v)
      · exact (hkept v hw).1
    obtain ⟨hall, -⟩ := h.dynamic v hv hwd
    have hnameq : ctx.variableTypes.get name = some .query :=
      hname.resolve_right (fun hd => IsFetching.ne_waiting hout (hall name hd))
    refine dynamic_unlock hctx hnameq (fun w hwdyn => ?_) hv hw
    have hww := hall w hwdyn
    rw [hstates w, if_neg (hctx.notMem_of_plain (by rw [hwdyn]; exact nofun) name), if_neg]
    · exact hww
    · rintro rfl
      exact IsFetching.ne_waiting hout hww

/-- **A clean step keeps the invariant.** -/
theorem progress_fetchStep (hctx : SoundContext ctx) (a : FetchAction) (h : Progress ctx d) (hout : Allowed d a)
    (hclean : Clean ctx d a) : Progress ctx (fetchStep ctx d a).1 := by
  cases a with
  | enqueueFetchOfAllVariables hasValue => exact progress_enqueueFetchOfAllVariables hctx hasValue h
  | enqueueDescendantsOfVariable name => exact progress_enqueueDescendantsOfVariable hctx h hclean
  | onVariableFetchComplete name now => exact progress_onVariableFetchComplete hctx now h hout
  | onVariableFetchFailure name => exact progress_onVariableFetchFailure hctx h hout

/-- **A clean step starts no variable before its parents.** -/
theorem startsSettled_fetchStep (hctx : SoundContext ctx) (a : FetchAction) (h : Progress ctx d)
    (hclean : Clean ctx d a) : StartsSettled ctx d (fetchStep ctx d a).1 := by
  intro v hv hw hf p hedge hp
  have hnd : ctx.variableTypes.get v ≠ some .dynamic := by rw [hv]; exact nofun
  cases a with
  | enqueueFetchOfAllVariables hasValue =>
    have hstate := enqueueFetchOfAllVariables_states hctx hasValue d v
    rw [if_neg hnd, if_pos hv, queryStart, if_pos ((hasQueryParent_iff hctx).2 ⟨p, hedge, hp⟩)] at hstate
    exact absurd hstate (IsFetching.ne_waiting hf)
  | enqueueDescendantsOfVariable name =>
    -- the parent that kept the variable waiting still does
    have hstate := enqueueDescendantsOfVariable_states hctx name d v
    dsimp only at hstate
    rw [if_neg hnd] at hstate
    have hwaits : (cascade ctx (ctx.dependencyData.transitiveDescendants name) d).states v = some .waiting := by
      by_cases hmem : v ∈ ctx.dependencyData.transitiveDescendants name
      · obtain ⟨q, hqv, -, hun⟩ := h.query v hv hw
        exact cascade_waiting hctx hmem ⟨q, hqv, hun⟩
      · rw [cascade_of_notMem hmem]
        exact hw
    exact absurd (hstate.trans hwaits) (IsFetching.ne_waiting hf)
  | onVariableFetchFailure name =>
    have hfail : IsFetching ((unlockIfSettled ctx name (failed ctx name d)).states v) := hf
    rw [unlockIfSettled_of_not_dynamic hctx hnd, failed_states hctx] at hfail
    split_ifs at hfail
    · rcases hfail with h | h <;> cases h
    · rcases hfail with h | h <;> cases h
    · exact absurd hw hfail.ne_waiting
  | onVariableFetchComplete name now =>
    have hstate : ∀ u, ctx.variableTypes.get u = some .query →
        (fetchStep ctx d (.onVariableFetchComplete name now)).1.states u = (completed ctx name now d).states u :=
      fun u hu => unlockIfSettled_of_not_dynamic hctx (by rw [hu]; exact nofun)
    by_cases hchild : v ∈ ctx.dependencyData.graph name
    · rw [hstate p hp, completed_states hctx]
      by_cases hpn : p = name
      · subst hpn
        rw [if_neg (fun hc => hctx.ne_of_edge hc.1 rfl), if_pos rfl]
        rfl
      · have hsettled := hclean v hchild hw p hedge hpn hp
        rw [if_neg (fun hc => by rw [hc.2] at hsettled; cases hsettled), if_neg hpn]
        exact hsettled
    · -- only children of the variable start
      have hchildless : IsFetching ((fetchStep ctx d (.onVariableFetchComplete name now)).1.states v) := hf
      rw [hstate v hv, completed_states hctx, if_neg (fun hc => hchild hc.1)] at hchildless
      split_ifs at hchildless
      · rcases hchildless with h | h <;> cases h
      · exact absurd hw hchildless.ne_waiting

theorem clean_of_tame (htame : Tame ctx) (a : FetchAction) (h : Progress ctx d) (hout : Allowed d a) : Clean ctx d a := by
  cases a with
  | enqueueFetchOfAllVariables hasValue => trivial
  | onVariableFetchFailure name => trivial
  | enqueueDescendantsOfVariable name => exact fun v _ p hedge hp => absurd hp (htame.static v p hedge)
  | onVariableFetchComplete name now =>
    intro c hc hw p hedge hpn hp
    rcases h.not_plain (.inl hout) with hname | hname
    · exact absurd (htame.single c p name hedge hc hp hname) hpn
    · exact absurd hname (htame.static c name hc)

/-! ## Runs -/

theorem lawful_of_steps (hctx : SoundContext ctx) {start : VariableFetchStore} (hstart : Progress ctx start)
    (G : VariableFetchStore → FetchAction → Prop)
    (hG : ∀ d a, Progress ctx d → G d a → Allowed d a ∧ Clean ctx d a) {acts : List FetchAction}
    (hacts : ∀ x ∈ trace (fetchStep ctx) start acts, G x.1 x.2.1) : Lawful ctx start acts := by
  have hkeep : ∀ d a, G d a → Progress ctx d → Progress ctx (fetchStep ctx d a).1 := fun d a hg h =>
    progress_fetchStep hctx a h (hG d a h hg).1 (hG d a h hg).2
  have hinv : ∀ pre, pre <+: acts → Progress ctx (final (fetchStep ctx) start pre) := fun pre hpre =>
    prefix_inv (fetchStep ctx) (Progress ctx) G hkeep hacts hstart hpre
  refine ⟨fun x hx => ?_, fun pre hpre => (hinv pre hpre).notStuck hctx⟩
  obtain ⟨pre, post, hsplit, hst, -⟩ := (mem_trace (fetchStep ctx) acts start x).1 hx
  have hprogress : Progress ctx x.1 := by
    rw [hst]
    exact hinv pre ⟨_, hsplit.symm⟩
  exact startsSettled_fetchStep hctx x.2.1 hprogress (hG _ _ hprogress (hacts x hx)).2

end Dashboard
end DsApm
