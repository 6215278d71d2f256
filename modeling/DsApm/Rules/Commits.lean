import DsApm.Rules.Tasks
/-!
# Commits — what a call that succeeds leaves in the database

One inversion a call: the row it writes or removes, the routes and the inhibit rules.  Every write of a configuration
starts from the committed one, so of two writes in one transaction the first is lost.
-/
namespace DsApm
namespace Rules

open Alertmanager Tx

section
variable {V : Type} [Float64 V] (E : Checks V)

def PostableRule.routes (r : PostableRule V) (id : String) : List PostableRoutePolicy :=
  if r.usePolicy then [] else (r.getRuleRouteRequest E id).getD []

def PostableRule.inhibitors (r : PostableRule V) (id : String) : List InhibitRule :=
  if r.usePolicy then [] else (r.getInhibitRules E id).getD []

def Database.inhibitRules (db : Database V) (orgID : String) : List InhibitRule :=
  ((db.configs.lookup orgID).map Config.inhibitRules).getD []

variable {E} {s : ManagerState V}

omit [Float64 V] in
theorem createRoutePolicies_succeeded {orgID : String} {request : Option (List PostableRoutePolicy)} {a : Answers}
    (h : (createRoutePolicies E orgID request a s).2 = true) :
    ∃ routes, request = some routes ∧ (createRoutePolicies E orgID request a s).1 =
      { s with db := { s.db with routes := s.db.routes ++ routes.map (fun p => { p with orgID }) } } := by
  unfold createRoutePolicies at h ⊢
  match request with
  | none => cases h
  | some [] => exact ⟨[], rfl, by simp⟩
  | some (p :: ps) =>
    simp only at h ⊢
    split_ifs at h ⊢
    exact ⟨p :: ps, rfl, rfl⟩

omit [Float64 V] in
theorem rewriteConfig_succeeded {committed : Database V} {orgID : String} {f : Config → Config} {fails : Bool}
    (h : (rewriteConfig committed orgID f fails s).2 = true) :
    ∃ config, committed.configs.lookup orgID = some config ∧ (rewriteConfig committed orgID f fails s).1 =
      { s with db := { s.db with configs := s.db.configs.insert orgID (f config) } } := by
  unfold rewriteConfig at h ⊢
  cases hc : committed.configs.lookup orgID with
  | none => rw [hc] at h; cases h
  | some config =>
    rw [hc] at h
    simp only at h ⊢
    split_ifs at h ⊢
    exact ⟨config, rfl, rfl⟩

omit [Float64 V] in
theorem inhibitRules_insert {db db' : Database V} {orgID : String} {config : Config}
    (h : db'.configs = db.configs.insert orgID config) (o : String) :
    db'.inhibitRules o = if o = orgID then config.inhibitRules else db.inhibitRules o := by
  unfold Database.inhibitRules
  rw [h]
  split_ifs with ho
  · rw [ho, AList.lookup_insert]
    rfl
  · rw [AList.lookup_insert_ne ho]

omit [Float64 V] in
theorem inhibitRules_of_lookup {db : Database V} {orgID : String} {config : Config}
    (h : db.configs.lookup orgID = some config) : db.inhibitRules orgID = config.inhibitRules := by
  unfold Database.inhibitRules
  rw [h]
  rfl

variable (E) in
structure RoutingAdded (db db' : Database V) (kept : List RoutePolicy) (orgID id : String) (r : PostableRule V) : Prop where
  stored : db'.stored = db.stored
  routes : db'.routes = kept ++ (r.routes E id).map (fun p => { p with orgID })
  inhibit : ∀ o, db'.inhibitRules o = if o = orgID then db.inhibitRules orgID ++ r.inhibitors E id else db.inhibitRules o

omit [Float64 V] in
theorem createInhibitRules_succeeded {committed : Database V} {orgID : String} {rules : Option (List InhibitRule)}
    {a : Answers} (h : (createInhibitRules committed orgID rules a s).2 = true) :
    (createInhibitRules committed orgID rules a s).1.db.stored = s.db.stored ∧
      (createInhibitRules committed orgID rules a s).1.db.routes = s.db.routes ∧
      ∀ o, (createInhibitRules committed orgID rules a s).1.db.inhibitRules o =
        if o = orgID then committed.inhibitRules orgID ++ rules.getD [] else s.db.inhibitRules o := by
  cases rules with
  | none => cases h
  | some rules =>
    obtain ⟨config, hconfig, hstate⟩ := rewriteConfig_succeeded h
    refine ⟨by rw [createInhibitRules, hstate], by rw [createInhibitRules, hstate], fun o => ?_⟩
    have hconfigs : (createInhibitRules committed orgID (some rules) a s).1.db.configs =
        s.db.configs.insert orgID (config.addInhibitRules rules) := by rw [createInhibitRules, hstate]
    rw [inhibitRules_insert hconfigs o, inhibitRules_of_lookup hconfig]
    rfl

omit [Float64 V] in
theorem routing_of_usePolicy (db : Database V) (orgID id : String) {r : PostableRule V} (h : r.usePolicy = true) :
    RoutingAdded E db db db.routes orgID id r := by
  have hr : r.routes E id = [] := if_pos h
  have hi : r.inhibitors E id = [] := if_pos h
  refine ⟨rfl, ?_, fun o => ?_⟩
  · rw [hr, List.map_nil, List.append_nil]
  · rw [hi, List.append_nil]
    split_ifs with ho
    · rw [ho]
    · rfl

omit [Float64 V] in
theorem createRouting_succeeded {committed : Database V} {orgID id : String} {r : PostableRule V} {a : Answers}
    (hconfigs : s.db.configs = committed.configs) (h : (runSteps (createRouting E committed orgID id r a) s).2 = true) :
    RoutingAdded E s.db (runSteps (createRouting E committed orgID id r a) s).1.db s.db.routes orgID id r := by
  have hsame : s.db.inhibitRules orgID = committed.inhibitRules orgID := by
    unfold Database.inhibitRules
    rw [hconfigs]
  by_cases hp : r.usePolicy = true
  · have hnone : createRouting E committed orgID id r a = [] := if_pos hp
    rw [hnone]
    exact routing_of_usePolicy s.db orgID id hp
  · have hr : r.routes E id = (r.getRuleRouteRequest E id).getD [] := if_neg hp
    have hi : r.inhibitors E id = (r.getInhibitRules E id).getD [] := if_neg hp
    have hsteps : createRouting E committed orgID id r a = [createRoutePolicies E orgID (r.getRuleRouteRequest E id) a,
      createInhibitRules committed orgID (r.getInhibitRules E id) a] := if_neg hp
    rw [hsteps] at h ⊢
    obtain ⟨hroutes, hrun⟩ := runSteps_cons_succeeded h
    rw [hrun] at h ⊢
    obtain ⟨hinhibit, hrun⟩ := runSteps_cons_succeeded h
    rw [hrun]
    obtain ⟨routes, hreq, hstate⟩ := createRoutePolicies_succeeded hroutes
    obtain ⟨hstored, hkept, hadded⟩ := createInhibitRules_succeeded hinhibit
    refine ⟨?_, ?_, fun o => ?_⟩
    · exact hstored.trans (by rw [hstate])
    · have hget : (r.getRuleRouteRequest E id).getD [] = routes := by rw [hreq]; rfl
      rw [hr, hget]
      exact hkept.trans (by rw [hstate])
    · rw [hi, hsame]
      exact (hadded o).trans (by rw [hstate]; rfl)

def withoutName (routes : List RoutePolicy) (orgID name : String) : List RoutePolicy :=
  routes.filter (fun p => !(p.orgID == orgID && p.name == name))

omit [Float64 V] in
theorem deleteRoutes_succeeded {orgID name : String} {a : Answers} (h : (deleteRoutePoliciesByName orgID name a s).2 = true) :
    (deleteRoutePoliciesByName orgID name a s).1 =
      { s with db := { s.db with routes := withoutName s.db.routes orgID name } } := by
  unfold deleteRoutePoliciesByName at h ⊢
  split_ifs at h ⊢
  rfl

omit [Float64 V] in
theorem updateRouting_succeeded {committed : Database V} {orgID id : String} {r : PostableRule V} {a : Answers}
    (hconfigs : s.db.configs = committed.configs) (h : (runSteps (updateRouting E committed orgID id r a) s).2 = true) :
    RoutingAdded E s.db (runSteps (updateRouting E committed orgID id r a) s).1.db
      (if r.usePolicy then s.db.routes else withoutName s.db.routes orgID id) orgID id r := by
  have hsame : s.db.inhibitRules orgID = committed.inhibitRules orgID := by
    unfold Database.inhibitRules
    rw [hconfigs]
  by_cases hp : r.usePolicy = true
  · have hnone : updateRouting E committed orgID id r a = [] := if_pos hp
    rw [hnone, if_pos hp]
    exact routing_of_usePolicy s.db orgID id hp
  · have hr : r.routes E id = (r.getRuleRouteRequest E id).getD [] := if_neg hp
    have hi : r.inhibitors E id = (r.getInhibitRules E id).getD [] := if_neg hp
    have hsteps : updateRouting E committed orgID id r a = [deleteRoutePoliciesByName orgID id a,
      createRoutePolicies E orgID (r.getRuleRouteRequest E id) a, deleteInhibitRules committed orgID id a,
      createInhibitRules committed orgID (r.getInhibitRules E id) a] := if_neg hp
    rw [hsteps] at h ⊢
    rw [if_neg hp]
    obtain ⟨hdelete, hrun⟩ := runSteps_cons_succeeded h
    rw [hrun] at h ⊢
    rw [deleteRoutes_succeeded hdelete] at h ⊢
    obtain ⟨hroutes, hrun⟩ := runSteps_cons_succeeded h
    rw [hrun] at h ⊢
    obtain ⟨routes, hreq, hstate⟩ := createRoutePolicies_succeeded hroutes
    rw [hstate] at h ⊢
    obtain ⟨hremove, hrun⟩ := runSteps_cons_succeeded h
    rw [hrun] at h ⊢
    obtain ⟨config, hconfig, hremoved⟩ := rewriteConfig_succeeded hremove
    obtain ⟨hinhibit, hrun⟩ := runSteps_cons_succeeded h
    rw [hrun]
    obtain ⟨hstored, hkept, hadded⟩ := createInhibitRules_succeeded hinhibit
    refine ⟨?_, ?_, fun o => ?_⟩
    · exact hstored.trans (by rw [deleteInhibitRules, hremoved])
    · have hget : (r.getRuleRouteRequest E id).getD [] = routes := by rw [hreq]; rfl
      rw [hr, hget]
      exact hkept.trans (by rw [deleteInhibitRules, hremoved])
    · -- what was removed is written over in the organisation, and stays elsewhere
      rw [hi, hsame]
      refine (hadded o).trans ?_
      split_ifs with ho
      · rfl
      · have hother : (deleteInhibitRules committed orgID id a { s with db := { s.db with
            routes := withoutName s.db.routes orgID id ++ routes.map (fun p => { p with orgID }) } }).1.db.configs =
            s.db.configs.insert orgID (config.deleteRuleIDInhibitor id) := by rw [deleteInhibitRules, hremoved]
        rw [inhibitRules_insert hother o, if_neg ho]

omit [Float64 V] in
theorem runSteps_routed {first last : ManagerStep V} {routing : List (ManagerStep V)} {orgID id : String} {r : PostableRule V}
    (hlast : ∀ s, (last s).1.db = s.db)
    (h : (runSteps (first :: (notificationStep orgID id r ++ routing ++ [last])) s).2 = true) :
    (first s).2 = true ∧ ∃ s₁, s₁.db = (first s).1.db ∧ (runSteps routing s₁).2 = true ∧
      (runSteps (first :: (notificationStep orgID id r ++ routing ++ [last])) s).1.db = (runSteps routing s₁).1.db := by
  obtain ⟨hfirst, hrun⟩ := runSteps_cons_succeeded h
  rw [hrun, List.append_assoc] at h ⊢
  obtain ⟨-, hrun⟩ := runSteps_append_succeeded h
  rw [hrun] at h ⊢
  obtain ⟨hrouting, hrun⟩ := runSteps_append_succeeded h
  rw [hrun] at h ⊢
  obtain ⟨-, hrun⟩ := runSteps_cons_succeeded h
  rw [hrun]
  exact ⟨hfirst, _, (runSteps_notification orgID id r (first s).1).2.1, hrouting, hlast _⟩

theorem create_succeeded {orgID id : String} {text : RuleText V} {a : Answers}
    (h : (createRule E orgID id text a s).2 = true) :
    ∃ r, writable E text a = some r ∧ s.db.stored.lookup id = none ∧
      RoutingAdded E (storeRow s { id, orgID, data := text }).db (createRule E orgID id text a s).1.db s.db.routes orgID id r := by
  unfold createRule at h ⊢
  cases hw : writable E text a with
  | none => rw [hw] at h; cases h
  | some r =>
    rw [hw] at h
    simp only at h ⊢
    obtain ⟨-, hok, hstate⟩ := runInTx_of_succeeded h
    obtain ⟨hfirst, s₁, hdb, hrouting, hlast⟩ := runSteps_routed (taskStep_addTask id r).db hok
    rw [insertRule_of_succeeded hfirst] at hdb
    have hfresh : s.db.stored.lookup id = none := by
      unfold insertRule at hfirst
      split_ifs at hfirst with hins
      rw [Bool.or_eq_true, not_or] at hins
      exact Option.not_isSome_iff_eq_none.1 hins.2
    have hadded := createRouting_succeeded (by rw [hdb]; rfl) hrouting
    rw [hdb, ← hlast, ← hstate] at hadded
    exact ⟨r, rfl, hfresh, hadded⟩

omit [Float64 V] in
theorem writes_of_updateRule {row : StorableRule V} {a : Answers} (h : (updateRule row a s).2 = true) :
    a.fails .writeRule = false := by
  unfold updateRule at h
  split_ifs at h with hf
  all_goals exact Bool.eq_false_iff.2 hf

theorem edit_succeeded {orgID id : String} {text : RuleText V} {a : Answers} (hk : Keyed s.db)
    (h : (editRule E orgID id text a s).2 = true) :
    ∃ r row, writable E text a = some r ∧ s.db.stored.lookup id = some row ∧ row.id = id ∧
      RoutingAdded E (storeRow s { row with data := text }).db (editRule E orgID id text a s).1.db
        (if r.usePolicy then s.db.routes else withoutName s.db.routes orgID id) orgID id r := by
  unfold editRule at h ⊢
  cases hw : writable E text a with
  | none => rw [hw] at h; cases h
  | some r =>
    cases hl : s.db.stored.lookup id with
    | none => rw [hw, hl] at h; cases h
    | some row =>
      rw [hw, hl] at h
      simp only at h ⊢
      split_ifs at h ⊢
      obtain ⟨-, hok, hstate⟩ := runInTx_of_succeeded h
      obtain ⟨hfirst, s₁, hdb, hrouting, hlast⟩ := runSteps_routed (taskStep_sync id r).db hok
      have hid : row.id = id := hk id row hl
      have hu : updateRule { row with data := text } a s = (storeRow s { row with data := text }, true) :=
        updateRule_of_stored (writes_of_updateRule hfirst) (by rw [hid, hl]; rfl)
      rw [hu] at hdb
      have hadded := updateRouting_succeeded (by rw [hdb]; rfl) hrouting
      rw [hdb, ← hlast, ← hstate] at hadded
      exact ⟨r, row, rfl, rfl, hid, hadded⟩

theorem patch_succeeded {id : String} {patch : PostableRule V → RuleText V} {a : Answers} (hk : Keyed s.db)
    (h : (patchRule E id patch a s).2 = true) :
    ∃ row r, s.db.stored.lookup id = some row ∧ row.id = id ∧ patched E row patch a = some r ∧
      (patchRule E id patch a s).1.db = (storeRow s { row with data := (marshalRule r).1 }).db := by
  unfold patchRule at h ⊢
  cases hl : s.db.stored.lookup id with
  | none => rw [hl] at h; cases h
  | some row =>
    rw [hl] at h
    simp only at h ⊢
    split_ifs at h ⊢
    cases hp : patched E row patch a with
    | none => rw [hp] at h; cases h
    | some r =>
      rw [hp] at h
      simp only at h ⊢
      split_ifs at h ⊢ with hsync hsaved
      obtain ⟨-, hok, hstate⟩ := runInTx_of_succeeded hsaved
      obtain ⟨hfirst, hrun⟩ := runSteps_cons_succeeded hok
      have hid : row.id = id := hk id row hl
      have hdb : (syncRuleStateWithTask E id r s).1.db = s.db := (taskStep_sync id r).db s
      have hu : updateRule { row with data := (marshalRule r).1 } a (syncRuleStateWithTask E id r s).1 =
          (storeRow (syncRuleStateWithTask E id r s).1 { row with data := (marshalRule r).1 }, true) :=
        updateRule_of_stored (writes_of_updateRule hfirst) (by rw [hdb, hid, hl]; rfl)
      refine ⟨row, r, rfl, hid, hp, ?_⟩
      rw [hstate, hrun, hu]
      unfold storeRow runSteps
      rw [hdb]

omit [Float64 V] in
theorem delete_succeeded {orgID id : String} {a : Answers} (h : (deleteRule orgID id a s).2 = true) :
    ∃ row, s.db.stored.lookup id = some row ∧
      (∀ k, (deleteRule orgID id a s).1.db.stored.lookup k = if k = id then none else s.db.stored.lookup k) ∧
      (deleteRule orgID id a s).1.db.routes = withoutName s.db.routes orgID id ∧
      ∀ o, (deleteRule orgID id a s).1.db.inhibitRules o =
        if o = orgID then (s.db.inhibitRules orgID).filter (fun rule => !rule.containsRuleID id) else s.db.inhibitRules o := by
  unfold deleteRule at h ⊢
  cases hl : s.db.stored.lookup id with
  | none => rw [hl] at h; cases h
  | some row =>
    rw [hl] at h
    simp only at h ⊢
    split_ifs at h ⊢
    obtain ⟨-, hok, hstate⟩ := runInTx_of_succeeded h
    obtain ⟨hfirst, hrun⟩ := runSteps_cons_succeeded hok
    rw [hstate]
    rw [hrun] at hok ⊢
    obtain ⟨hmatcher, hrun⟩ := runSteps_cons_succeeded hok
    rw [hrun] at hok ⊢
    obtain ⟨config, hconfig, hmatched⟩ := rewriteConfig_succeeded hmatcher
    rw [hmatched] at hok ⊢
    obtain ⟨-, hrun⟩ := runSteps_cons_succeeded hok
    rw [hrun] at hok ⊢
    obtain ⟨hroutes, hrun⟩ := runSteps_cons_succeeded hok
    rw [hrun] at hok ⊢
    rw [deleteRoutes_succeeded hroutes] at hok ⊢
    obtain ⟨hinhibit, hrun⟩ := runSteps_cons_succeeded hok
    rw [hrun] at hok ⊢
    obtain ⟨config', hconfig', hremoved⟩ := rewriteConfig_succeeded hinhibit
    unfold deleteInhibitRules at hok ⊢
    rw [hremoved] at hok ⊢
    obtain ⟨-, hrun⟩ := runSteps_cons_succeeded hok
    rw [hrun]
    simp only [runSteps, deleteTask_db]
    have hwr : a.fails .writeRule = false := by
      unfold removeRule at hfirst
      split_ifs at hfirst with hf
      exact Bool.eq_false_iff.2 hf
    have hdb : (removeRule id a s).1.db = { s.db with stored := s.db.stored.erase id } := by
      unfold removeRule
      rw [hwr]
      rfl
    refine ⟨row, rfl, fun k => ?_, ?_, fun o => ?_⟩
    · exact removeRule_lookup hwr k
    · simp only [deleteNotificationConfig, hdb]
    · refine (inhibitRules_insert rfl o).trans ?_
      split_ifs with ho
      · rw [inhibitRules_of_lookup hconfig']
        rfl
      · refine (inhibitRules_insert rfl o).trans ?_
        rw [if_neg ho]
        unfold Database.inhibitRules
        rw [hdb]

theorem step_failed {c : Call V} (h : (step E s c).2 = false) : (step E s c).1.db = s.db := by
  cases c with
  | create orgID id text a =>
    simp only [step, createRule] at h ⊢
    split at h
    · rfl
    · exact db_of_failed h
  | edit orgID id text a =>
    simp only [step, editRule] at h ⊢
    split at h
    · split_ifs at h ⊢
      · rfl
      · exact db_of_failed h
    · rfl
  | patch orgID id patch a =>
    simp only [step, patchRule] at h ⊢
    split at h
    · rfl
    · split_ifs at h ⊢
      · rfl
      · split at h
        · rfl
        · next r _ =>
          have hsync := (taskStep_sync (E := E) id r).db
          split_ifs at h ⊢ with hs hsaved
          · exact hsync s
          · rw [hsaved] at h
            cases h
          · rw [(taskStep_sync (E := E) id _).db, db_of_failed (Bool.eq_false_iff.2 hsaved), hsync]
  | delete orgID id a =>
    simp only [step, deleteRule] at h ⊢
    split at h
    · rfl
    · split_ifs at h ⊢
      · rfl
      · exact db_of_failed h

end

end Rules
end DsApm
