import DsApm.Rules.Commits
import DsApm.Rules.Initiate
/-!
# Routes — routes and inhibit rules follow the stored rules

The route policies and inhibit rules of a rule are derived from its definition.  Which of the four operations keep them
so: a creation does; a patch does not touch them; an edit replaces the routes, unless the new definition uses notification
policies, and never removes an inhibit rule, because what it deletes is written over by what it adds, which starts from
the configuration as it was before the edit.
-/
namespace DsApm
namespace Rules

open Alertmanager StepRun Tx List Option

section
variable {V : Type} [Float64 V] (E : Checks V)

/-! ## What is recorded and what is derived -/

def StorableRule.routes (row : StorableRule V) : List PostableRoutePolicy :=
  (unmarshalRule E row.data).elim [] (fun r => r.routes E row.id)

def StorableRule.inhibitors (row : StorableRule V) : List InhibitRule :=
  (unmarshalRule E row.data).elim [] (fun r => r.inhibitors E row.id)

def RoutePolicy.ofRule (orgID id : String) (p : RoutePolicy) : Bool :=
  p.orgID == orgID && p.name == id && p.expressionKind == .ruleBased

def InhibitRule.ofRule (id : String) (rule : InhibitRule) : Bool :=
  rule.sourceMatchers.contains ⟨alertRuleIDLabel, id⟩ || rule.targetMatchers.contains ⟨alertRuleIDLabel, id⟩

def Database.ruleRoutes (db : Database V) (orgID id : String) : List PostableRoutePolicy :=
  (db.routes.filter (RoutePolicy.ofRule orgID id)).map RoutePolicy.toPostableRoutePolicy

def Database.ruleInhibitors (db : Database V) (orgID id : String) : List InhibitRule :=
  (db.inhibitRules orgID).filter (InhibitRule.ofRule id)

/-- What the rule stored under an id has in an organisation: nothing, where it is not stored or is another's. -/
def Database.derived {β : Type} (f : StorableRule V → List β) (db : Database V) (orgID id : String) : List β :=
  (db.stored.lookup id).elim [] (fun row => if row.orgID = orgID then f row else [])

structure RoutesFollow (s : ManagerState V) : Prop where
  keyed : Keyed s.db
  routes : ∀ orgID id, (s.db.ruleRoutes orgID id).Perm (s.db.derived (StorableRule.routes E) orgID id)
  inhibitors : ∀ orgID id, (s.db.ruleInhibitors orgID id).Perm (s.db.derived (StorableRule.inhibitors E) orgID id)

/-- An edit of a rule without inhibit rules that leaves it no routes to remove where it turns to notification policies;
a patch that changes no route and no inhibit rule; a deletion of a rule whose id is in no other rule's inhibit rules.
The rule is one of the caller's organisation. -/
def Maintained (s : ManagerState V) : Call V → Prop
  | .create _ _ _ _ => True
  | .edit orgID id text a => ∀ row ∈ s.db.stored.lookup id, ∀ r ∈ writable E text a,
      row.orgID = orgID ∧ row.inhibitors E = [] ∧ (r.usePolicy = true → row.routes E = [])
  | .patch _ id patch a => ∀ row ∈ s.db.stored.lookup id, ∀ r ∈ patched E row patch a,
      (row.routes E).Perm (r.routes E id) ∧ (row.inhibitors E).Perm (r.inhibitors E id)
  | .delete orgID id _ => ∀ row ∈ s.db.stored.lookup id,
      row.orgID = orgID ∧ ∀ rule ∈ s.db.inhibitRules orgID, rule.containsRuleID id = true → InhibitRule.ofRule id rule = true

instance (s : ManagerState V) : ∀ c, Decidable (Maintained E s c)
  | .create _ _ _ _ => by dsimp only [Maintained]; infer_instance
  | .edit _ _ _ _ => by dsimp only [Maintained]; infer_instance
  | .patch _ _ _ _ => by dsimp only [Maintained]; infer_instance
  | .delete _ _ _ => by dsimp only [Maintained]; infer_instance

variable {E} {s : ManagerState V}

/-! ## What is recorded afterwards -/

omit [Float64 V] in
theorem routes_named {r : PostableRule V} {id : String} {p : PostableRoutePolicy} (h : p ∈ r.routes E id) :
    p.name = id ∧ p.expressionKind = .ruleBased := by
  unfold PostableRule.routes PostableRule.getRuleRouteRequest at h
  split_ifs at h
  · cases h
  · cases ht : r.ruleThresholds with
    | none => rw [ht] at h; cases h
    | some thresholds =>
      rw [ht] at h
      obtain ⟨receiver, -, rfl⟩ := List.mem_map.1 h
      exact ⟨rfl, rfl⟩

omit [Float64 V] in
theorem inhibitors_of {r : PostableRule V} {id : String} {rule : InhibitRule} (h : rule ∈ r.inhibitors E id) (k : String) :
    InhibitRule.ofRule k rule = true ↔ k = id := by
  unfold PostableRule.inhibitors PostableRule.getInhibitRules at h
  split_ifs at h
  · cases h
  · cases ht : r.ruleThresholds with
    | none => rw [ht] at h; cases h
    | some thresholds =>
      rw [ht] at h
      obtain ⟨pair, -, rfl⟩ := List.mem_map.1 h
      have hlabel : alertRuleIDLabel ≠ labelThresholdName := by decide
      simp [InhibitRule.ofRule, hlabel]

omit [Float64 V] in
theorem ofRule_routes (r : PostableRule V) (orgID id o k : String) :
    (((r.routes E id).map (fun p => ({ p with orgID } : RoutePolicy))).filter (RoutePolicy.ofRule o k)).map
      RoutePolicy.toPostableRoutePolicy = if o = orgID ∧ k = id then r.routes E id else [] := by
  split_ifs with h
  · obtain ⟨rfl, rfl⟩ := h
    rw [filter_eq_self.2, List.map_map]
    · exact List.map_id _
    · intro p hp
      obtain ⟨q, hq, rfl⟩ := List.mem_map.1 hp
      obtain ⟨hname, hkind⟩ := routes_named hq
      simp [RoutePolicy.ofRule, hname, hkind]
  · rw [filter_eq_nil_iff.2, map_nil]
    intro p hp
    obtain ⟨q, hq, rfl⟩ := List.mem_map.1 hp
    obtain ⟨hname, -⟩ := routes_named hq
    simp only [RoutePolicy.ofRule, hname, Bool.and_eq_true, beq_iff_eq]
    rintro ⟨⟨ho, hk⟩, -⟩
    exact h ⟨ho.symm, hk.symm⟩

omit [Float64 V] in
theorem ofRule_inhibitors (r : PostableRule V) (id k : String) :
    (r.inhibitors E id).filter (InhibitRule.ofRule k) = if k = id then r.inhibitors E id else [] := by
  split_ifs with h
  · exact filter_eq_self.2 (fun rule hrule => (inhibitors_of hrule k).2 h)
  · exact filter_eq_nil_iff.2 (fun rule hrule hof => h ((inhibitors_of hrule k).1 hof))

theorem ofRule_withoutName (routes : List RoutePolicy) (orgID id o k : String) :
    (withoutName routes orgID id).filter (RoutePolicy.ofRule o k) =
      if o = orgID ∧ k = id then [] else routes.filter (RoutePolicy.ofRule o k) := by
  unfold withoutName
  rw [List.filter_filter]
  split_ifs with h
  · obtain ⟨rfl, rfl⟩ := h
    refine filter_eq_nil_iff.2 (fun p _ => ?_)
    simp only [RoutePolicy.ofRule, Bool.and_eq_true, Bool.not_eq_true', Bool.and_eq_false_iff]
    rintro ⟨⟨⟨ho, hk⟩, -⟩, hne⟩
    rcases hne with hne | hne
    · rw [ho] at hne
      cases hne
    · rw [hk] at hne
      cases hne
  · refine filter_congr (fun p _ => ?_)
    cases hof : RoutePolicy.ofRule o k p with
    | false => rfl
    | true =>
      simp only [RoutePolicy.ofRule, Bool.and_eq_true, beq_iff_eq] at hof
      simp only [Bool.true_and, Bool.not_eq_true', Bool.and_eq_false_iff, hof.1.1, hof.1.2, beq_eq_false_iff_ne]
      by_contra hno
      rw [not_or, not_not, not_not] at hno
      exact h hno

variable {s' : ManagerState V}

omit [Float64 V] in
theorem derived_of_lookup {β : Type} (f : StorableRule V → List β) {id : String} {row : Option (StorableRule V)}
    (h : ∀ k, s'.db.stored.lookup k = if k = id then row else s.db.stored.lookup k) (o k : String) :
    s'.db.derived f o k =
      if k = id then row.elim [] (fun row => if row.orgID = o then f row else []) else s.db.derived f o k := by
  unfold Database.derived
  rw [h]
  split_ifs <;> rfl

omit [Float64 V] in
theorem derived_perm {β : Type} (f : StorableRule V → List β) {id : String} {row row' : StorableRule V}
    (hl : s.db.stored.lookup id = some row)
    (h : ∀ k, s'.db.stored.lookup k = if k = id then some row' else s.db.stored.lookup k) (horg : row'.orgID = row.orgID)
    (hf : (f row).Perm (f row')) (o k : String) : (s.db.derived f o k).Perm (s'.db.derived f o k) := by
  rw [derived_of_lookup f h]
  split_ifs with hk
  · unfold Database.derived
    rw [hk, hl, elim_some, elim_some, horg]
    split_ifs
    · exact hf
    · exact List.Perm.refl _
  · exact List.Perm.refl _

/-- **A row is written with its routes and inhibit rules**, where none are left from before. -/
theorem RoutesFollow.written (h : RoutesFollow E s) (row : StorableRule V) {r : PostableRule V} {kept : List RoutePolicy}
    (hread : unmarshalRule E row.data = some r)
    (hadd : RoutingAdded E (storeRow s row).db s'.db kept row.orgID row.id r)
    (hkept : ∀ o k, (kept.filter (RoutePolicy.ofRule o k)).map RoutePolicy.toPostableRoutePolicy =
      if k = row.id then [] else s.db.ruleRoutes o k)
    (hinhibit : ∀ o, s.db.ruleInhibitors o row.id = []) : RoutesFollow E s' := by
  have hstored : ∀ k, s'.db.stored.lookup k = if k = row.id then some row else s.db.stored.lookup k := by
    intro k
    rw [hadd.stored, storeRow_lookup]
  have hroutes : row.routes E = r.routes E row.id := by unfold StorableRule.routes; rw [hread]; rfl
  have hinhibitors : row.inhibitors E = r.inhibitors E row.id := by unfold StorableRule.inhibitors; rw [hread]; rfl
  refine ⟨?_, fun o k => ?_, fun o k => ?_⟩
  · intro k x hx
    rw [hstored] at hx
    split_ifs at hx with hk
    · rw [hk, ← some_inj.1 hx]
    · exact h.keyed k x hx
  · rw [derived_of_lookup _ hstored, Database.ruleRoutes, hadd.routes, filter_append, map_append, hkept,
      ofRule_routes]
    by_cases hk : k = row.id
    · simp only [hk, if_true, and_true, nil_append, elim_some, hroutes, eq_comm (a := o)]
      exact List.Perm.refl _
    · simp only [hk, if_false, and_false, append_nil]
      exact h.routes o k
  · have hrec : s'.db.ruleInhibitors o k =
        s.db.ruleInhibitors o k ++ if o = row.orgID ∧ k = row.id then r.inhibitors E row.id else [] := by
      unfold Database.ruleInhibitors
      rw [hadd.inhibit]
      by_cases ho : o = row.orgID
      · rw [if_pos ho, filter_append, ofRule_inhibitors, ho]
        simp only [true_and]
        rfl
      · simp only [ho, if_false, false_and, append_nil]
        rfl
    rw [derived_of_lookup _ hstored, hrec]
    by_cases hk : k = row.id
    · simp only [hk, if_true, and_true, hinhibit, nil_append, elim_some, hinhibitors, eq_comm (a := o)]
      exact List.Perm.refl _
    · simp only [hk, if_false, and_false, append_nil]
      exact h.inhibitors o k

theorem RoutesFollow.routes_nil (h : RoutesFollow E s) {o id : String}
    (hr : s.db.derived (StorableRule.routes E) o id = []) : s.db.ruleRoutes o id = [] :=
  perm_nil.1 (hr ▸ h.routes o id)

theorem RoutesFollow.inhibitors_nil (h : RoutesFollow E s) {o id : String}
    (hi : s.db.derived (StorableRule.inhibitors E) o id = []) : s.db.ruleInhibitors o id = [] :=
  perm_nil.1 (hi ▸ h.inhibitors o id)

theorem create_routes {orgID id : String} {text : RuleText V} {a : Answers} (h : RoutesFollow E s)
    (hok : (createRule E orgID id text a s).2 = true) : RoutesFollow E (createRule E orgID id text a s).1 := by
  obtain ⟨r, hw, hfresh, hadd⟩ := create_succeeded hok
  have hnone : ∀ {β : Type} (f : StorableRule V → List β) o, s.db.derived f o id = [] := by
    intro β f o
    unfold Database.derived
    rw [hfresh]
    rfl
  refine h.written { id, orgID, data := text } (unmarshal_of_writable hw).1 hadd (fun o k => ?_) (fun o => ?_)
  · split_ifs with hk
    · rw [hk]
      exact h.routes_nil (hnone _ o)
    · rfl
  · exact h.inhibitors_nil (hnone _ o)

theorem edit_routes {orgID id : String} {text : RuleText V} {a : Answers} (h : RoutesFollow E s)
    (hm : Maintained E s (.edit orgID id text a)) (hok : (editRule E orgID id text a s).2 = true) :
    RoutesFollow E (editRule E orgID id text a s).1 := by
  obtain ⟨r, row, hw, hl, hid, hadd⟩ := edit_succeeded h.keyed hok
  obtain ⟨horg, hnoinhibit, hpolicy⟩ := hm row hl r hw
  subst hid horg
  have hderived : ∀ {β : Type} (f : StorableRule V → List β) o, (o = row.orgID → f row = []) →
      s.db.derived f o row.id = [] := by
    intro β f o hf
    unfold Database.derived
    rw [hl, elim_some]
    split_ifs with ho
    · exact hf ho.symm
    · rfl
  refine h.written { row with data := text } (unmarshal_of_writable hw).1 hadd (fun o k => ?_) (fun o => ?_)
  · by_cases hp : r.usePolicy = true
    · rw [if_pos hp]
      split_ifs with hk
      · rw [hk]
        exact h.routes_nil (hderived _ o (fun _ => hpolicy hp))
      · rfl
    · rw [if_neg hp, ofRule_withoutName]
      by_cases hk : k = row.id
      · rw [if_pos hk]
        by_cases ho : o = row.orgID
        · rw [if_pos ⟨ho, hk⟩]
          rfl
        · rw [if_neg (fun hc => ho hc.1), hk]
          exact h.routes_nil (hderived _ o (fun heq => absurd heq ho))
      · rw [if_neg hk, if_neg (fun hc => hk hc.2)]
        rfl
  · exact h.inhibitors_nil (hderived _ o (fun _ => hnoinhibit))

theorem patch_routes {orgID id : String} {patch : PostableRule V → RuleText V} {a : Answers} (h : RoutesFollow E s)
    (hm : Maintained E s (.patch orgID id patch a)) (hok : (patchRule E id patch a s).2 = true) :
    RoutesFollow E (patchRule E id patch a s).1 := by
  obtain ⟨row, r, hl, hid, hp, hdb⟩ := patch_succeeded h.keyed hok
  obtain ⟨hroutes, hinhibitors⟩ := hm row hl r hp
  obtain ⟨x, -, hw⟩ := bind_eq_some_iff.1 hp
  subst hid
  have hread : unmarshalRule E (marshalRule r).1 = some r := unmarshal_marshal hw
  have hstored : ∀ k, (patchRule E row.id patch a s).1.db.stored.lookup k =
      if k = row.id then some { row with data := (marshalRule r).1 } else s.db.stored.lookup k := by
    intro k
    rw [hdb, storeRow_lookup]
  refine ⟨?_, fun o k => ?_, fun o k => ?_⟩
  · rw [hdb]
    exact h.keyed.storeRow _
  · have hsame : (patchRule E row.id patch a s).1.db.ruleRoutes o k = s.db.ruleRoutes o k := by rw [hdb]; rfl
    rw [hsame]
    refine (h.routes o k).trans (derived_perm _ hl hstored rfl ?_ o k)
    unfold StorableRule.routes at hroutes ⊢
    rw [hread]
    exact hroutes
  · have hsame : (patchRule E row.id patch a s).1.db.ruleInhibitors o k = s.db.ruleInhibitors o k := by rw [hdb]; rfl
    rw [hsame]
    refine (h.inhibitors o k).trans (derived_perm _ hl hstored rfl ?_ o k)
    unfold StorableRule.inhibitors at hinhibitors ⊢
    rw [hread]
    exact hinhibitors

theorem contains_of_ofRule {rule : InhibitRule} {id : String} (h : InhibitRule.ofRule id rule = true) :
    rule.containsRuleID id = true := by
  unfold InhibitRule.ofRule at h
  unfold InhibitRule.containsRuleID matcherContainsRuleID
  rw [Bool.or_eq_true, List.any_eq_true, List.any_eq_true]
  rw [Bool.or_eq_true, contains_iff_mem, contains_iff_mem] at h
  rcases h with h | h
  · exact Or.inl ⟨_, h, beq_self_eq_true id⟩
  · exact Or.inr ⟨_, h, beq_self_eq_true id⟩

theorem RoutesFollow.ofRule_unique (h : RoutesFollow E s) {rule : InhibitRule} {o k : String}
    (hrule : rule ∈ s.db.ruleInhibitors o k) (id : String) : InhibitRule.ofRule id rule = true ↔ id = k := by
  rw [(h.inhibitors o k).mem_iff, Database.derived] at hrule
  cases hl : s.db.stored.lookup k with
  | none => rw [hl] at hrule; cases hrule
  | some row =>
    rw [hl, elim_some] at hrule
    split_ifs at hrule
    · unfold StorableRule.inhibitors at hrule
      cases hr : unmarshalRule E row.data with
      | none => rw [hr] at hrule; cases hrule
      | some r =>
        rw [hr] at hrule
        rw [← h.keyed k row hl]
        exact inhibitors_of hrule id
    · cases hrule

theorem delete_routes {orgID id : String} {a : Answers} (h : RoutesFollow E s)
    (hm : Maintained E s (.delete orgID id a)) (hok : (deleteRule orgID id a s).2 = true) :
    RoutesFollow E (deleteRule orgID id a s).1 := by
  obtain ⟨row, hl, hstored, hroutes, hinhibit⟩ := delete_succeeded hok
  obtain ⟨horg, hclean⟩ := hm row hl
  subst horg
  have hother : ∀ {β : Type} (f : StorableRule V → List β) o, o ≠ row.orgID → s.db.derived f o id = [] := by
    intro β f o ho
    unfold Database.derived
    rw [hl, elim_some, if_neg (fun heq => ho heq.symm)]
  refine ⟨?_, fun o k => ?_, fun o k => ?_⟩
  · intro k x hx
    rw [hstored] at hx
    split_ifs at hx
    exact h.keyed k x hx
  · rw [derived_of_lookup _ hstored, Database.ruleRoutes, hroutes, ofRule_withoutName]
    by_cases hk : k = id
    · rw [if_pos hk]
      by_cases ho : o = row.orgID
      · rw [if_pos ⟨ho, hk⟩]
        exact List.Perm.refl _
      · rw [if_neg (fun hc => ho hc.1), hk]
        exact perm_nil.2 (h.routes_nil (hother _ o ho))
    · rw [if_neg hk, if_neg (fun hc => hk hc.2)]
      exact h.routes o k
  · rw [derived_of_lookup _ hstored, Database.ruleInhibitors, hinhibit]
    by_cases ho : o = row.orgID
    · rw [if_pos ho, List.filter_filter]
      by_cases hk : k = id
      · rw [if_pos hk, hk, filter_eq_nil_iff.2]
        · exact List.Perm.refl _
        · intro rule _ hboth
          rw [Bool.and_eq_true] at hboth
          rw [contains_of_ofRule hboth.1] at hboth
          exact absurd hboth.2 (by decide)
      · rw [if_neg hk]
        refine (List.Perm.of_eq ?_).trans (h.inhibitors o k)
        rw [Database.ruleInhibitors, ho]
        refine filter_congr (fun rule hrule => ?_)
        cases hof : InhibitRule.ofRule k rule with
        | false => rfl
        | true =>
          -- an inhibit rule of another rule does not name this one
          have hrec : rule ∈ s.db.ruleInhibitors row.orgID k := mem_filter.2 ⟨hrule, hof⟩
          cases hcontains : rule.containsRuleID id with
          | false => rfl
          | true => exact absurd ((h.ofRule_unique hrec id).1 (hclean rule hrule hcontains)).symm hk
    · rw [if_neg ho]
      by_cases hk : k = id
      · rw [if_pos hk, hk]
        exact perm_nil.2 (h.inhibitors_nil (hother _ o ho))
      · rw [if_neg hk]
        exact h.inhibitors o k

/-! ## Runs -/

theorem step_routes {c : Call V} (h : RoutesFollow E s) (hm : (step E s c).2 = true → Maintained E s c) :
    RoutesFollow E (step E s c).1 := by
  cases hok : (step E s c).2 with
  | false =>
    have hdb : (step E s c).1.db = s.db := step_failed hok
    refine ⟨?_, ?_, ?_⟩ <;> rw [hdb]
    · exact h.keyed
    · exact h.routes
    · exact h.inhibitors
  | true =>
    cases c with
    | create orgID id text a => exact create_routes h hok
    | edit orgID id text a => exact edit_routes h (hm hok) hok
    | patch orgID id patch a => exact patch_routes h (hm hok) hok
    | delete orgID id a => exact delete_routes h (hm hok) hok

/-- **In a run whose successful calls are maintained ones, the routes and inhibit rules of every rule are those of its
stored definition after every call.** -/
theorem routes_run (calls : List (Call V)) (h : RoutesFollow E s)
    (hm : ∀ x ∈ trace (step E) s calls, x.2.2 = true → Maintained E x.1 x.2.1) :
    ∀ pre, pre <+: calls → RoutesFollow E (final (step E) s pre) := by
  intro pre hpre
  have hm' : ∀ x ∈ trace (step E) s calls, (step E x.1 x.2.1).2 = true → Maintained E x.1 x.2.1 := by
    intro x hx hok
    obtain ⟨_, _, _, _, hout⟩ := (mem_trace (step E) calls s x).1 hx
    exact hm x hx (hout.trans hok)
  exact prefix_inv (step E) (RoutesFollow E) (fun s c => (step E s c).2 = true → Maintained E s c)
    (fun _ _ hg hi => step_routes hi hg) hm' h hpre

end

theorem routes_oneChannel : RoutesFollow passing oneChannel := by
  refine ⟨follows_oneChannel.keyed, fun o id => List.Perm.refl _, fun o id => ?_⟩
  have hnone : oneChannel.db.inhibitRules o = [] := by
    by_cases ho : o = "org"
    · rw [ho]
      decide
    · unfold Database.inhibitRules oneChannel
      rw [AList.lookup_insert_ne ho]
      rfl
  rw [Database.ruleInhibitors, hnone]
  exact List.Perm.refl _

def twoLevels (usePolicy : Bool) : PostableRule Int :=
  cpuDefinition false usePolicy [alertAbove "critical" 9, alertAbove "warning" 5]

/-- A rule of one level gets a second, another is patched, and the first is deleted. -/
theorem second_level_added : RoutesFollow passing oneChannel ∧ ∀ pre, pre <+:
      [createCpu false nothingFails, .create "org" "r2" (some (twoLevels false)) nothingFails,
        .edit "org" "r1" (some (twoLevels false)) nothingFails,
        .patch "org" "r2" (fun r => some { r with disabled := true }) nothingFails, .delete "org" "r1" nothingFails] →
    RoutesFollow passing (final (step passing) oneChannel pre) :=
  ⟨routes_oneChannel, routes_run _ routes_oneChannel (by decide)⟩

def editLevels (usePolicy : Bool) : List (Call Int) :=
  [.create "org" "r1" (some (twoLevels false)) nothingFails, .edit "org" "r1" (some (twoLevels usePolicy)) nothingFails]

/-- A rule edited to use notification policies keeps its routes and inhibit rules, and one saved as it is has its
inhibit rules twice. -/
theorem edited_rule_keeps_inhibitors : RoutesFollow passing oneChannel ∧
    (∀ usePolicy, ∀ x ∈ trace (step passing) oneChannel (editLevels usePolicy), x.2.2 = true) ∧
    ¬ RoutesFollow passing (final (step passing) oneChannel (editLevels true)) ∧
    ¬ RoutesFollow passing (final (step passing) oneChannel (editLevels false)) := by
  refine ⟨routes_oneChannel, by decide, fun h => ?_, fun h => ?_⟩
  · have hlength := (h.inhibitors "org" "r1").length_eq
    revert hlength
    decide
  · have hlength := (h.inhibitors "org" "r1").length_eq
    revert hlength
    decide

end Rules
end DsApm
