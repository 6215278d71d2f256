import DsApm.Alertmanager.Channels
import DsApm.Rules.Initiate
/-!
# Startup — the configuration an organisation's server starts with

A start reads the stored configuration, builds another one from the channels and from the preferred channels of the rules,
and stores that one where their hashes differ.  The new one has no inhibit rules and only the matchers that follow from the
rules, of whatever organisation; its receivers are those of the stored one, because the operations on channels keep the two
in step.  The server is given the configuration read at first.

The global settings and those of the root route are laid over both configurations and are left out.
-/
namespace DsApm
namespace Alertmanager

open Latest Rules List Option

inductive StartStep where
  | get | getAgain | newServer | listChannels | getMatchers | set | setConfig
  deriving DecidableEq, Repr

structure StartAnswers (V : Type) where
  channels : Visit Channel
  /-- The order in which the map of matchers is gone through. -/
  matchers : Visit (StorableRule V)
  fails : StartStep → Bool

section
variable {V H : Type} [DecidableEq H] (U : Upstream H)

def getConfig (configs : GoMap String Config) (orgID : String) : Option (Config × Option H) :=
  match configs.lookup orgID with
  | none => some (defaultConfig, none)
  | some stored => (stored.mapReceivers U.newReceiver).map (fun c => (c, some (U.hash stored)))

def preferredChannels (row : StorableRule V) : List String := (row.data.map PostableRule.preferredChannels).getD []

def newConfigFromChannels (channels : List Channel) : Option Config :=
  channels.foldlM (fun c ch => (U.newReceiver ch.data).bind (c.createReceiver U)) defaultConfig

def createMatchers (rows : List (StorableRule V)) (c : Config) : Config :=
  rows.foldl (fun c row => c.createRuleIDMatcher row.id (preferredChannels row)) c

def builtConfig (A : StartAnswers V) (channels : List Channel) (rows : List (StorableRule V)) : Option Config :=
  (newConfigFromChannels U (A.channels.order channels)).map (createMatchers (A.matchers.order rows))

/-- `GetMatchers` is given an organisation and does not look at it. -/
def compareAndSelectConfig (A : StartAnswers V) (channels : List Channel) (rows : List (StorableRule V)) (incoming : Config) :
    Option Config :=
  (newConfigFromChannels U (A.channels.order channels)).map (fun c =>
    let config := createMatchers (A.matchers.order rows) c
    if U.hash incoming ≠ U.hash config then config else incoming)

structure System (V : Type) where
  rules : ManagerState V
  channels : List Channel

def System.store (s : System V) : Store := { channels := s.channels, configs := s.rules.db.configs }

def System.withStore (s : System V) (st : Store) : System V :=
  { rules := { s.rules with db := { s.rules.db with configs := st.configs } }, channels := st.channels }

def System.setConfig (s : System V) (orgID : String) (c : Config) : System V :=
  s.withStore { channels := s.channels, configs := s.rules.db.configs.insert orgID c }

def newServer (A : StartAnswers V) (orgID : String) (s : System V) : Option (System V) :=
  if A.fails .getAgain || A.fails .newServer || A.fails .listChannels || A.fails .getMatchers then none
  else (getConfig U s.rules.db.configs orgID).bind (fun p =>
    (compareAndSelectConfig U A (orgChannels s.channels orgID) (GoMap.values s.rules.db.stored) p.1).bind (fun config =>
      if p.2 = some (U.hash config) then some s
      else if A.fails .set then none
      else some (s.setConfig orgID config)))

/-- `SyncServers` for an organisation without a server: the state, and the configuration its server has. -/
def syncServer (A : StartAnswers V) (orgID : String) (s : System V) : System V × Option Config :=
  if A.fails .get then (s, none)
  else match getConfig U s.rules.db.configs orgID with
    | none => (s, none)
    | some p => match newServer U A orgID s with
      | none => (s, none)
      | some s' => (s', if A.fails .setConfig then none else some p.1)

end

/-! ## The configuration that is built -/

section
variable {V H : Type} {U : Upstream H}

theorem foldlM_createReceiver (hU : U.Lawful) : ∀ (channels : List Channel) (c : Config),
    (∀ x ∈ c.receivers, U.resolve x = some x) → (channels.map Channel.name).Nodup →
    (∀ ch ∈ channels, (∃ r, ch.receiver U = some r ∧ r.name = ch.name) ∧ ∀ x ∈ c.receivers, x.name ≠ ch.name) →
    ∃ receivers, receivers.map some = channels.map (Channel.receiver U) ∧
      channels.foldlM (fun c ch => (U.newReceiver ch.data).bind (c.createReceiver U)) c =
        some ⟨c.receivers ++ receivers, c.routes ++ channels.map (fun ch => ⟨ch.name, ["-1"]⟩), c.inhibitRules⟩
  | [], c, _, _, _ => ⟨[], rfl, by simp⟩
  | ch :: channels, c, hres, hnodup, hch => by
    obtain ⟨⟨r', hr', hname⟩, hnew⟩ := hch ch mem_cons_self
    obtain ⟨r, hread, hresolve⟩ := bind_eq_some_iff.1 hr'
    have hrname : r.name = ch.name := (hU.resolve_name _ _ hresolve).symm.trans hname
    rw [map_cons, nodup_cons] at hnodup
    have hstep : (U.newReceiver ch.data).bind (c.createReceiver U) =
        some ⟨c.receivers ++ [r'], c.routes ++ [⟨ch.name, ["-1"]⟩], c.inhibitRules⟩ := by
      rw [hread, bind_some]
      exact (createReceiver_eq_some hres).2 ⟨fun x hx => hrname ▸ hnew x hx, r', hresolve, by rw [hrname]⟩
    obtain ⟨receivers, hrecv, hfold⟩ := foldlM_createReceiver hU channels
      ⟨c.receivers ++ [r'], c.routes ++ [⟨ch.name, ["-1"]⟩], c.inhibitRules⟩
      (fun x hx => by
        rcases mem_append.1 hx with hx | hx
        · exact hres x hx
        · rw [mem_singleton.1 hx]
          exact (settled_of_receiver hU hr').2)
      hnodup.2
      (fun y hy => by
        obtain ⟨hy', hynew⟩ := hch y (mem_cons_of_mem _ hy)
        refine ⟨hy', fun x hx => ?_⟩
        rcases mem_append.1 hx with hx | hx
        · exact hynew x hx
        · rw [mem_singleton.1 hx, hname]
          exact fun heq => hnodup.1 (heq ▸ List.mem_map_of_mem hy))
    refine ⟨r' :: receivers, ?_, ?_⟩
    · rw [map_cons, map_cons, hrecv, hr']
    · rw [foldlM_cons, hstep]
      simp only [bind_eq_bind, bind_some, hfold, List.append_assoc, singleton_append, map_cons]

theorem createRuleIDMatcher_receivers (c : Config) (id : String) (names : List String) :
    (c.createRuleIDMatcher id names).receivers = c.receivers ∧ (c.createRuleIDMatcher id names).inhibitRules = c.inhibitRules ∧
      (c.createRuleIDMatcher id names).routes.map Route.receiver = c.routes.map Route.receiver := by
  refine ⟨rfl, rfl, ?_⟩
  unfold Config.createRuleIDMatcher addRuleIDToRoute
  rw [List.map_map]
  refine map_congr_left (fun route _ => ?_)
  rw [Function.comp_apply]
  split_ifs <;> rfl

theorem createMatchers_receivers (rows : List (StorableRule V)) (c : Config) :
    (createMatchers rows c).receivers = c.receivers ∧ (createMatchers rows c).inhibitRules = c.inhibitRules ∧
      (createMatchers rows c).routes.map Route.receiver = c.routes.map Route.receiver := by
  induction rows generalizing c with
  | nil => exact ⟨rfl, rfl, rfl⟩
  | cons row rows ih =>
    obtain ⟨hrecv, hinhibit, hroutes⟩ := ih (c.createRuleIDMatcher row.id (preferredChannels row))
    obtain ⟨hrecv', hinhibit', hroutes'⟩ := createRuleIDMatcher_receivers c row.id (preferredChannels row)
    exact ⟨hrecv.trans hrecv', hinhibit.trans hinhibit', hroutes.trans hroutes'⟩

def Config.Matches (c : Config) (ruleID name : String) : Prop := ∃ route ∈ c.routes, route.receiver = name ∧ ruleID ∈ route.ruleIDs

theorem mem_addRuleIDToRoute (route : Route) (ruleID k : String) :
    k ∈ (addRuleIDToRoute route ruleID).ruleIDs ↔ k ∈ route.ruleIDs ∨ k = ruleID := by
  unfold addRuleIDToRoute
  split_ifs with h
  · constructor
    · exact Or.inl
    · rintro (hk | rfl)
      · exact hk
      · exact contains_iff_mem.1 h
  · rw [mem_append, mem_singleton]

theorem matches_createRuleIDMatcher (c : Config) (id : String) (names : List String) (k name : String) :
    (c.createRuleIDMatcher id names).Matches k name ↔
      c.Matches k name ∨ k = id ∧ name ∈ names ∧ name ∈ c.routes.map Route.receiver := by
  unfold Config.Matches Config.createRuleIDMatcher
  simp only [List.mem_map, exists_exists_and_eq_and]
  constructor
  · rintro ⟨route, hroute, hname, hk⟩
    split_ifs at hname hk with hc
    · have hrecv : (addRuleIDToRoute route id).receiver = route.receiver := by
        unfold addRuleIDToRoute
        split_ifs <;> rfl
      rw [hrecv] at hname
      rcases (mem_addRuleIDToRoute route id k).1 hk with hk | hk
      · exact Or.inl ⟨route, hroute, hname, hk⟩
      · exact Or.inr ⟨hk, hname ▸ contains_iff_mem.1 hc, route, hroute, hname⟩
    · exact Or.inl ⟨route, hroute, hname, hk⟩
  · have hrecv : ∀ route : Route,
        (if names.contains route.receiver = true then addRuleIDToRoute route id else route).receiver = route.receiver := by
      intro route
      unfold addRuleIDToRoute
      split_ifs <;> rfl
    rintro (⟨route, hroute, hname, hk⟩ | ⟨rfl, hmem, route, hroute, hname⟩)
    · refine ⟨route, hroute, (hrecv route).trans hname, ?_⟩
      split_ifs
      · exact (mem_addRuleIDToRoute route id k).2 (Or.inl hk)
      · exact hk
    · refine ⟨route, hroute, (hrecv route).trans hname, ?_⟩
      rw [if_pos (contains_iff_mem.2 (hname ▸ hmem))]
      exact (mem_addRuleIDToRoute route k k).2 (Or.inr rfl)

theorem matches_createMatchers (rows : List (StorableRule V)) (c : Config) (k name : String) :
    (createMatchers rows c).Matches k name ↔ c.Matches k name ∨
      (∃ row ∈ rows, row.id = k ∧ name ∈ preferredChannels row) ∧ name ∈ c.routes.map Route.receiver := by
  induction rows generalizing c with
  | nil => simp [createMatchers]
  | cons row rows ih =>
    have hroutes := (createRuleIDMatcher_receivers c row.id (preferredChannels row)).2.2
    change (createMatchers rows (c.createRuleIDMatcher row.id (preferredChannels row))).Matches k name ↔ _
    rw [ih, matches_createRuleIDMatcher, hroutes]
    constructor
    · rintro ((h | ⟨rfl, hmem, hroute⟩) | ⟨⟨row', hrow', hid, hmem⟩, hroute⟩)
      · exact Or.inl h
      · exact Or.inr ⟨⟨row, mem_cons_self, rfl, hmem⟩, hroute⟩
      · exact Or.inr ⟨⟨row', mem_cons_of_mem _ hrow', hid, hmem⟩, hroute⟩
    · rintro (h | ⟨⟨row', hrow', hid, hmem⟩, hroute⟩)
      · exact Or.inl (Or.inl h)
      · rcases mem_cons.1 hrow' with rfl | hrow'
        · exact Or.inl (Or.inr ⟨hid.symm, hmem, hroute⟩)
        · exact Or.inr ⟨⟨row', hrow', hid, hmem⟩, hroute⟩

structure Built (U : Upstream H) (channels : List Channel) (rows : List (StorableRule V)) (c : Config) : Prop where
  of : c.Of U channels
  inhibit : c.inhibitRules = []
  matchers : ∀ k name, c.Matches k name ↔
    (k = "-1" ∨ ∃ row ∈ rows, row.id = k ∧ name ∈ preferredChannels row) ∧ name ∈ channels.map Channel.name

variable {st : Store}

/-- **A configuration is always built**, because the channels are in order. -/
theorem built_of_mirrors (hU : U.Lawful) (h : Mirrors U st) (A : StartAnswers V) (orgID : String)
    (rows : List (StorableRule V)) :
    ∃ c, builtConfig U A (orgChannels st.channels orgID) rows = some c ∧ Built U (orgChannels st.channels orgID) rows c := by
  have hperm := A.channels.perm (orgChannels st.channels orgID)
  obtain ⟨receivers, hrecv, hfold⟩ := foldlM_createReceiver hU (A.channels.order (orgChannels st.channels orgID)) defaultConfig
    (fun x hx => by rw [mem_singleton.1 hx]; exact hU.resolve_default)
    ((hperm.map Channel.name).nodup_iff.2 (h.names orgID))
    (fun ch hch => by
      have hof := h.ofOrg (hperm.mem_iff.1 hch)
      refine ⟨hof.2, fun x hx => ?_⟩
      rw [mem_singleton.1 hx]
      exact hof.1.symm)
  refine ⟨_, congrArg (Option.map (createMatchers (A.matchers.order rows))) hfold, ?_⟩
  obtain ⟨hreceivers, hinhibit, hroutes⟩ := createMatchers_receivers (A.matchers.order rows)
    ⟨defaultConfig.receivers ++ receivers, defaultConfig.routes ++
      (A.channels.order (orgChannels st.channels orgID)).map (fun ch => ⟨ch.name, ["-1"]⟩), defaultConfig.inhibitRules⟩
  have hnames : (defaultConfig.routes ++ (A.channels.order (orgChannels st.channels orgID)).map
      (fun ch => (⟨ch.name, ["-1"]⟩ : Route))).map Route.receiver =
      (A.channels.order (orgChannels st.channels orgID)).map Channel.name := by
    rw [map_append, List.map_map]
    rfl
  refine ⟨⟨?_, ?_⟩, hinhibit, fun k name => ?_⟩
  · rw [hreceivers, map_append, hrecv]
    exact (hperm.map (Channel.receiver U)).cons (some defaultReceiver)
  · rw [hroutes, hnames]
    exact hperm.map Channel.name
  · rw [matches_createMatchers, hnames, (hperm.map Channel.name).mem_iff]
    have hnone : Config.Matches ⟨defaultConfig.receivers ++ receivers, defaultConfig.routes ++
        (A.channels.order (orgChannels st.channels orgID)).map (fun ch => ⟨ch.name, ["-1"]⟩), defaultConfig.inhibitRules⟩ k name ↔
        k = "-1" ∧ name ∈ (orgChannels st.channels orgID).map Channel.name := by
      rw [← (hperm.map Channel.name).mem_iff]
      simp only [Config.Matches, defaultConfig, nil_append, List.mem_map, exists_exists_and_eq_and, mem_singleton]
      constructor
      · rintro ⟨ch, hch, hname, hk⟩
        exact ⟨hk, ch, hch, hname⟩
      · rintro ⟨hk, ch, hch, hname⟩
        exact ⟨ch, hch, hname, hk⟩
    have hrows : (∃ row ∈ A.matchers.order rows, row.id = k ∧ name ∈ preferredChannels row) ↔
        ∃ row ∈ rows, row.id = k ∧ name ∈ preferredChannels row := by
      constructor
      · rintro ⟨row, hrow, h⟩
        exact ⟨row, (A.matchers.perm rows).mem_iff.1 hrow, h⟩
      · rintro ⟨row, hrow, h⟩
        exact ⟨row, (A.matchers.perm rows).mem_iff.2 hrow, h⟩
    rw [hnone, hrows, ← or_and_right]

/-! ## What a start does -/

section
variable [DecidableEq H] {s s' : System V} {A : StartAnswers V} {orgID : String} {c : Config}

theorem compareAndSelect_eq (hU : U.Lawful) (h : Mirrors U s.store) (A : StartAnswers V) (orgID : String) (incoming : Config) :
    ∃ built, builtConfig U A (orgChannels s.channels orgID) (GoMap.values s.rules.db.stored) = some built ∧
      Built U (orgChannels s.channels orgID) (GoMap.values s.rules.db.stored) built ∧
      compareAndSelectConfig U A (orgChannels s.channels orgID) (GoMap.values s.rules.db.stored) incoming =
        some (if U.hash incoming ≠ U.hash built then built else incoming) := by
  obtain ⟨built, hconfig, hbuilt⟩ := built_of_mirrors hU h A orgID (GoMap.values s.rules.db.stored)
  obtain ⟨c₀, hc₀, rfl⟩ := map_eq_some_iff.1 hconfig
  refine ⟨_, hconfig, hbuilt, ?_⟩
  unfold compareAndSelectConfig
  rw [show orgChannels s.channels orgID = orgChannels s.store.channels orgID from rfl, hc₀]
  rfl

theorem newServer_eq_some (hn : newServer U A orgID s = some s') :
    ∃ p config, getConfig U s.rules.db.configs orgID = some p ∧
      compareAndSelectConfig U A (orgChannels s.channels orgID) (GoMap.values s.rules.db.stored) p.1 = some config ∧
      s' = if p.2 = some (U.hash config) then s else s.setConfig orgID config := by
  unfold newServer at hn
  by_cases hfails : (A.fails .getAgain || A.fails .newServer || A.fails .listChannels || A.fails .getMatchers) = true
  · rw [if_pos hfails] at hn
    cases hn
  · rw [if_neg hfails] at hn
    obtain ⟨p, hget, hn⟩ := bind_eq_some_iff.1 hn
    obtain ⟨config, hselect, hn⟩ := bind_eq_some_iff.1 hn
    refine ⟨p, config, hget, hselect, ?_⟩
    by_cases hhash : p.2 = some (U.hash config)
    · rw [if_pos hhash, some_inj] at hn
      rw [if_pos hhash, hn]
    · rw [if_neg hhash] at hn ⊢
      split_ifs at hn
      exact (some_inj.1 hn).symm

/-- **A start stores the configuration that was built where its hash is another one**, and changes nothing else. -/
theorem newServer_stored (hU : U.Lawful) (h : Mirrors U s.store) (hl : s.rules.db.configs.lookup orgID = some c)
    (hn : newServer U A orgID s = some s') :
    ∃ built, builtConfig U A (orgChannels s.channels orgID) (GoMap.values s.rules.db.stored) = some built ∧
      Built U (orgChannels s.channels orgID) (GoMap.values s.rules.db.stored) built ∧
      s' = if U.hash c ≠ U.hash built then s.setConfig orgID built else s := by
  have hget : getConfig U s.rules.db.configs orgID = some (c, some (U.hash c)) := by
    unfold getConfig
    rw [hl]
    simp only [(h.configs orgID c hl).read hU, map_some]
  obtain ⟨p, config, hp, hconfig, hs'⟩ := newServer_eq_some hn
  rw [hget, some_inj] at hp
  subst hp
  obtain ⟨built, hgiven, hbuilt, hselect⟩ := compareAndSelect_eq hU h A orgID c
  rw [hselect, some_inj] at hconfig
  refine ⟨built, hgiven, hbuilt, ?_⟩
  rw [hs', ← hconfig]
  by_cases hhash : U.hash c = U.hash built
  · simp [hhash]
  · simp [hhash]

theorem newServer_unset (hU : U.Lawful) (h : Mirrors U s.store) (hl : s.rules.db.configs.lookup orgID = none)
    (hn : newServer U A orgID s = some s') :
    ∃ config, config.Of U (orgChannels s.channels orgID) ∧ s' = s.setConfig orgID config := by
  have hget : getConfig U s.rules.db.configs orgID = some (defaultConfig, none) := by
    unfold getConfig
    rw [hl]
  obtain ⟨p, config, hp, hconfig, hs'⟩ := newServer_eq_some hn
  rw [hget, some_inj] at hp
  subst hp
  obtain ⟨built, -, hbuilt, hselect⟩ := compareAndSelect_eq hU h A orgID defaultConfig
  rw [hselect, some_inj] at hconfig
  refine ⟨config, ?_, by rw [hs']; exact if_neg (by simp)⟩
  rw [← hconfig]
  split_ifs
  · exact hbuilt.of
  · have hnone : orgChannels s.channels orgID = [] := by
      refine filter_eq_nil_iff.2 (fun ch hch horg => ?_)
      have hhome := h.home ch hch
      rw [beq_iff_eq.1 horg] at hhome
      change (s.rules.db.configs.lookup orgID).isSome = true at hhome
      rw [hl] at hhome
      cases hhome
    rw [hnone]
    exact ⟨List.Perm.refl _, List.Perm.refl _⟩

theorem syncServer_fst (A : StartAnswers V) (orgID : String) :
    (syncServer U A orgID s).1 = s ∨ newServer U A orgID s = some (syncServer U A orgID s).1 := by
  unfold syncServer
  by_cases hget : A.fails .get = true
  · rw [if_pos hget]
    exact Or.inl rfl
  · rw [if_neg hget]
    cases getConfig U s.rules.db.configs orgID with
    | none => exact Or.inl rfl
    | some p =>
      cases newServer U A orgID s with
      | none => exact Or.inl rfl
      | some s' => exact Or.inr rfl

theorem syncServer_loaded {A : StartAnswers V} {orgID : String} {loaded : Config}
    (h : (syncServer U A orgID s).2 = some loaded) :
    (∃ p, getConfig U s.rules.db.configs orgID = some p ∧ loaded = p.1) ∧
      newServer U A orgID s = some (syncServer U A orgID s).1 := by
  unfold syncServer at h ⊢
  by_cases hget : A.fails .get = true
  · rw [if_pos hget] at h
    cases h
  · rw [if_neg hget] at h ⊢
    cases hp : getConfig U s.rules.db.configs orgID with
    | none => rw [hp] at h; cases h
    | some p =>
      cases hn : newServer U A orgID s with
      | none => rw [hp, hn] at h; cases h
      | some s' =>
        rw [hp, hn] at h
        simp only at h
        split_ifs at h
        exact ⟨⟨p, rfl, (some_inj.1 h).symm⟩, rfl⟩

end

end

end Alertmanager
end DsApm
