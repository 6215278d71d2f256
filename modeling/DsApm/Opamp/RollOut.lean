import DsApm.Lib.Latest
import DsApm.Opamp.Agents
/-!
# RollOut — a new configuration goes out to the connected agents

`RecommendLatestConfigToAll` goes through the agents in the order the map gives and returns at the first one whose
configuration is the recommended one already.  So the agents reached are those before the first that is not outdated
(`recommend_eq`), and all outdated ones are exactly when that first one has no outdated agent after it
(`outdated_reached_iff`).
-/
namespace DsApm
namespace Opamp

open List

variable {Conn : Type}

/-- `AgentConfigProvider`: the recommended configuration and its id, from an organisation and an effective configuration. -/
structure AgentConfigProvider where
  recommendAgentConfig : UUID → String → Except String (String × String)

def collectorConfigFilename : String := "collector.yaml"

def newRemoteConfig (newConfig confId : String) : AgentRemoteConfig :=
  { configMap := [(collectorConfigFilename, ⟨newConfig, "application/x-yaml"⟩)], configHash := confId }

/-- The agents, the messages handed to their connections with the agent each is for, and the listeners. -/
structure RollOut (Conn : Type) where
  agentsById : GoMap String (Agent Conn)
  sent : List (Agent Conn × Conn × ServerToAgent)
  subscribers : Subscribers

def messageTo (agent : Agent Conn) (newConfig confId : String) : Agent Conn × Conn × ServerToAgent :=
  (agent, sendToAgent agent ⟨some (newRemoteConfig newConfig confId)⟩)

def recommendTo (agent : Agent Conn) (newConfig confId : String) (s : RollOut Conn) : RollOut Conn where
  agentsById := s.agentsById.insert agent.agentID { agent with remoteConfig := some (newRemoteConfig newConfig confId) }
  sent := s.sent ++ [messageTo agent newConfig confId]
  subscribers := listenToConfigUpdate agent.orgID confId .reportConfigDeploymentStatus s.subscribers

def recommendEach (provider : AgentConfigProvider) : List (Agent Conn) → RollOut Conn → RollOut Conn × Except String Unit
  | [], s => (s, .ok ())
  | agent :: rest, s =>
    match provider.recommendAgentConfig agent.orgID agent.config with
    | .error err => (s, .error ("could not generate conf recommendation for " ++ agent.agentID ++ ": " ++ err))
    | .ok (newConfig, confId) =>
      if newConfig = agent.config then (s, .ok ())
      else recommendEach provider rest (recommendTo agent newConfig confId s)

def recommendLatestConfigToAll (provider : AgentConfigProvider) (visit : Latest.Visit (Agent Conn)) (agents : Agents Conn)
    (subscribers : Subscribers) : RollOut Conn × Except String Unit :=
  recommendEach provider (visit.order (GoMap.values agents.agentsById)) ⟨agents.agentsById, [], subscribers⟩

/-! ## Who is reached -/

section
variable (provider : AgentConfigProvider)

def Outdated (agent : Agent Conn) : Prop :=
  ∃ newConfig confId, provider.recommendAgentConfig agent.orgID agent.config = .ok (newConfig, confId) ∧
    newConfig ≠ agent.config

def UpToDate (agent : Agent Conn) : Prop :=
  ∃ confId, provider.recommendAgentConfig agent.orgID agent.config = .ok (agent.config, confId)

/-- **The agent has been sent what is recommended for it and a listener is registered.** -/
def Reached (agent : Agent Conn) (s : RollOut Conn) : Prop :=
  ∀ newConfig confId, provider.recommendAgentConfig agent.orgID agent.config = .ok (newConfig, confId) →
    messageTo agent newConfig confId ∈ s.sent ∧
    Listening s.subscribers agent.orgID confId .reportConfigDeploymentStatus

theorem Reached.recommendTo {provider : AgentConfigProvider} {agent : Agent Conn} {s : RollOut Conn} (h : Reached provider agent s)
    (other : Agent Conn) (newConfig confId : String) : Reached provider agent (recommendTo other newConfig confId s) :=
  fun c id hc => ⟨mem_append_left _ (h c id hc).1, (h c id hc).2.listen _ _ _⟩

theorem reached_recommendTo {agent : Agent Conn} {newConfig confId : String}
    (h : provider.recommendAgentConfig agent.orgID agent.config = .ok (newConfig, confId)) (s : RollOut Conn) :
    Reached provider agent (recommendTo agent newConfig confId s) := by
  intro c id hc
  rw [h, Except.ok.injEq, Prod.mk.injEq] at hc
  obtain ⟨rfl, rfl⟩ := hc
  exact ⟨by simp [Opamp.recommendTo], listening_listen _ _ _ _⟩

theorem recommendEach_outdated {agent : Agent Conn} {newConfig confId : String}
    (h : provider.recommendAgentConfig agent.orgID agent.config = .ok (newConfig, confId)) (hne : newConfig ≠ agent.config)
    (rest : List (Agent Conn)) (s : RollOut Conn) :
    recommendEach provider (agent :: rest) s = recommendEach provider rest (recommendTo agent newConfig confId s) := by
  rw [recommendEach, h]
  exact if_neg hne

/-- **A roll-out goes through the outdated agents in front**, and every one of them is reached. -/
theorem recommendEach_append : ∀ (pre rest : List (Agent Conn)) (s : RollOut Conn), (∀ a ∈ pre, Outdated provider a) →
    ∃ s', recommendEach provider (pre ++ rest) s = recommendEach provider rest s' ∧
      (∀ a, a ∈ pre ∨ Reached provider a s → Reached provider a s') ∧
      ∀ m ∈ s'.sent, m ∈ s.sent ∨ m.1 ∈ pre
  | [], rest, s, _ => ⟨s, rfl, fun a ha => ha.resolve_left not_mem_nil, fun m hm => Or.inl hm⟩
  | agent :: pre, rest, s, h => by
    obtain ⟨newConfig, confId, hrec, hne⟩ := h agent mem_cons_self
    obtain ⟨s', hrun, hreach, hsent⟩ := recommendEach_append pre rest (recommendTo agent newConfig confId s)
      (fun a ha => h a (mem_cons_of_mem _ ha))
    refine ⟨s', ?_, fun a ha => hreach a ?_, fun m hm => ?_⟩
    · rw [cons_append, recommendEach_outdated provider hrec hne]
      exact hrun
    · rcases ha with ha | ha
      · rcases mem_cons.1 ha with rfl | ha
        · exact Or.inr (reached_recommendTo provider hrec s)
        · exact Or.inl ha
      · exact Or.inr (ha.recommendTo _ _ _)
    · rcases hsent m hm with hm | hm
      · rcases mem_append.1 hm with hm | hm
        · exact Or.inl hm
        · rw [mem_singleton] at hm
          exact Or.inr (by rw [hm]; exact mem_cons_self)
      · exact Or.inr (mem_cons_of_mem _ hm)

theorem upToDate_iff_not_outdated {agent : Agent Conn} {newConfig confId : String}
    (h : provider.recommendAgentConfig agent.orgID agent.config = .ok (newConfig, confId)) :
    UpToDate provider agent ↔ ¬ Outdated provider agent := by
  unfold UpToDate Outdated
  rw [h]
  constructor
  · rintro ⟨id, hid⟩ ⟨c, id', hc, hne⟩
    rw [Except.ok.injEq, Prod.mk.injEq] at hid hc
    exact hne (by rw [← hc.1, hid.1])
  · intro hno
    by_contra hup
    exact hno ⟨newConfig, confId, rfl, fun heq => hup ⟨confId, by rw [heq]⟩⟩

end

theorem exists_outdated_front (provider : AgentConfigProvider) : ∀ order : List (Agent Conn),
    ∃ pre rest, order = pre ++ rest ∧ (∀ a ∈ pre, Outdated provider a) ∧ ∀ a ∈ rest.head?, ¬ Outdated provider a
  | [] => ⟨[], [], rfl, fun a ha => (by cases ha), fun a ha => (by cases ha)⟩
  | a :: order => by
    by_cases h : Outdated provider a
    · obtain ⟨pre, rest, rfl, hpre, hrest⟩ := exists_outdated_front provider order
      refine ⟨a :: pre, rest, rfl, fun b hb => ?_, hrest⟩
      rcases mem_cons.1 hb with rfl | hb
      · exact h
      · exact hpre b hb
    · refine ⟨[], a :: order, rfl, fun b hb => (by cases hb), fun b hb => ?_⟩
      rw [List.head?_cons, Option.mem_def, Option.some_inj] at hb
      exact hb ▸ h

theorem recommendEach_upToDate {provider : AgentConfigProvider} {agent : Agent Conn} (h : UpToDate provider agent)
    (rest : List (Agent Conn)) (s : RollOut Conn) : recommendEach provider (agent :: rest) s = (s, .ok ()) := by
  obtain ⟨confId, hrec⟩ := h
  rw [recommendEach, hrec]
  exact if_pos rfl

theorem nodup_agents {agents : Agents Conn} [DecidableEq Conn] (h : WellFormed agents) : (GoMap.values agents.agentsById).Nodup := by
  unfold GoMap.values
  refine List.Nodup.map_on (fun x hx y hy hxy => ?_) (List.Nodup.of_map _ agents.agentsById.nodupKeys)
  obtain ⟨k, a⟩ := x
  obtain ⟨k', a'⟩ := y
  obtain rfl : a = a' := hxy
  have hk : a.agentID = k := h.keyed (AList.mem_lookup_iff.2 hx)
  have hk' : a.agentID = k' := h.keyed (AList.mem_lookup_iff.2 hy)
  rw [← hk, ← hk']

/-- **When a roll-out returns without error, every outdated agent has been reached exactly when no agent that is up to
date is visited after outdated ones only and before another outdated one**: the loop returns at such an agent. -/
theorem outdated_reached_iff [DecidableEq Conn] (provider : AgentConfigProvider) (visit : Latest.Visit (Agent Conn))
    {agents : Agents Conn} (h : WellFormed agents) (subscribers : Subscribers) :
    ((recommendLatestConfigToAll provider visit agents subscribers).2 = .ok () →
      ∀ agent ∈ GoMap.values agents.agentsById, Outdated provider agent →
        Reached provider agent (recommendLatestConfigToAll provider visit agents subscribers).1) ↔
    ∀ pre agent post, visit.order (GoMap.values agents.agentsById) = pre ++ agent :: post →
      (∀ a ∈ pre, Outdated provider a) → UpToDate provider agent → ∀ a ∈ post, ¬ Outdated provider a := by
  have hnd : (visit.order (GoMap.values agents.agentsById)).Nodup := (visit.perm _).nodup_iff.2 (nodup_agents h)
  have hmem : ∀ a, a ∈ GoMap.values agents.agentsById ↔ a ∈ visit.order (GoMap.values agents.agentsById) :=
    fun a => (visit.perm _).mem_iff.symm
  unfold recommendLatestConfigToAll
  simp only [hmem]
  generalize visit.order (GoMap.values agents.agentsById) = order at hnd ⊢
  constructor
  · rintro hreach pre agent post rfl hpre hup a ha hout
    obtain ⟨s', hrun, -, hsent⟩ := recommendEach_append provider pre (agent :: post) ⟨agents.agentsById, [], subscribers⟩ hpre
    rw [hrun, recommendEach_upToDate hup] at hreach
    -- an agent behind the one that is up to date has been sent nothing
    obtain ⟨newConfig, confId, hrec, -⟩ := id hout
    have hin := (hreach rfl a (mem_append_right _ (mem_cons_of_mem _ ha)) hout newConfig confId hrec).1
    have hap : a ∈ pre := (hsent _ hin).resolve_left not_mem_nil
    exact (nodup_append.1 hnd).2.2 a hap a (mem_cons_of_mem _ ha) rfl
  · intro hcond hok a ha hout
    obtain ⟨pre, rest, rfl, hpre, hrest⟩ := exists_outdated_front provider order
    obtain ⟨s', hrun, hreach, -⟩ := recommendEach_append provider pre rest ⟨agents.agentsById, [], subscribers⟩ hpre
    rw [hrun] at hok ⊢
    cases rest with
    | nil =>
      rw [append_nil] at ha
      exact hreach a (Or.inl ha)
    | cons b post =>
      have hb : ¬ Outdated provider b := hrest b rfl
      cases hrec : provider.recommendAgentConfig b.orgID b.config with
      | error err =>
        rw [recommendEach, hrec] at hok
        cases hok
      | ok answer =>
        have hup : UpToDate provider b := (upToDate_iff_not_outdated provider hrec).2 hb
        rw [recommendEach_upToDate hup]
        rcases mem_append.1 ha with ha | ha
        · exact hreach a (Or.inl ha)
        · rcases mem_cons.1 ha with rfl | ha
          · exact absurd hout hb
          · exact absurd hout (hcond pre b post rfl hpre hup a ha)

def sameForAll : AgentConfigProvider := ⟨fun _ _ => .ok ("receivers: 2", "log_pipelines:2")⟩

def agentOn (agentID config : String) : Agent Nat := ⟨⟨7⟩, agentID, .connected, config, none, 0⟩

def currentAndBehind : Agents Nat where
  agentsById := AList.insert "current" (agentOn "current" "receivers: 2") (AList.singleton "behind" (agentOn "behind" "receivers: 1"))
  connections := AList.singleton 0 (AList.insert "current" true (AList.singleton "behind" true))

theorem find_currentAndBehind (id : String) : findAgent currentAndBehind id =
    if id = "current" then some (agentOn "current" "receivers: 2")
    else if id = "behind" then some (agentOn "behind" "receivers: 1") else none := by
  unfold findAgent currentAndBehind
  split_ifs with h h'
  · rw [h, AList.lookup_insert]
  · rw [h', AList.lookup_insert_ne (by decide)]
    decide
  · rw [AList.lookup_insert_ne h, AList.lookup_eq_none, AList.mem_keys, AList.keys_singleton]
    simpa using h'

theorem wellFormed_currentAndBehind : WellFormed currentAndBehind where
  keyed := fun {id agent} h => by
    rw [find_currentAndBehind] at h
    split_ifs at h with hc hb
    · rw [← Option.some_inj.1 h, hc]; rfl
    · rw [← Option.some_inj.1 h, hb]; rfl
  owned := fun id conn => by
    rw [find_currentAndBehind]
    by_cases hconn : conn = 0
    · subst hconn
      have hin : id ∈ currentAndBehind.idsOf 0 ↔ id = "current" ∨ id = "behind" := by
        rw [show currentAndBehind.idsOf 0 = AList.insert "current" true (AList.singleton "behind" true) from rfl,
          AList.mem_insert, AList.mem_keys, AList.keys_singleton, mem_singleton]
      rw [hin]
      split_ifs with hc hb <;> simp [hc, agentOn] <;> assumption
    · have hout : currentAndBehind.idsOf conn = ∅ := by
        unfold Agents.idsOf currentAndBehind
        rw [AList.lookup_eq_none.2 (by simpa [AList.mem_keys, AList.keys_singleton] using hconn), Option.getD_none]
      rw [hout]
      split_ifs <;> simp [agentOn, Ne.symm hconn]

theorem upToDate_current : UpToDate sameForAll (agentOn "current" "receivers: 2") := ⟨_, rfl⟩

theorem outdated_behind : Outdated sameForAll (agentOn "behind" "receivers: 1") := ⟨_, _, rfl, by decide⟩

theorem behind_reached : Reached sameForAll (agentOn "behind" "receivers: 1")
    (recommendLatestConfigToAll sameForAll ⟨List.reverse, reverse_perm⟩ currentAndBehind ∅).1 := by
  have hrun : recommendLatestConfigToAll sameForAll ⟨List.reverse, reverse_perm⟩ currentAndBehind ∅ =
      (recommendTo (agentOn "behind" "receivers: 1") "receivers: 2" "log_pipelines:2" ⟨currentAndBehind.agentsById, [], ∅⟩,
        .ok ()) := by
    refine (recommendEach_outdated sameForAll rfl (by decide) _ _).trans ?_
    exact recommendEach_upToDate upToDate_current _ _
  refine (outdated_reached_iff sameForAll ⟨List.reverse, reverse_perm⟩ wellFormed_currentAndBehind ∅).2 ?_
    (by rw [hrun]) _ (by decide) outdated_behind
  intro pre agent post horder hpre hup a ha hout
  have h2 : [agentOn "behind" "receivers: 1", agentOn "current" "receivers: 2"] = pre ++ agent :: post := horder
  cases pre with
  | nil =>
    rw [nil_append, List.cons.injEq] at h2
    exact (upToDate_iff_not_outdated sameForAll rfl).1 hup (h2.1 ▸ outdated_behind)
  | cons b pre =>
    have hpost : post = [] := by
      have hlen := congrArg List.length h2
      simp at hlen
      exact eq_nil_of_length_eq_zero (by omega)
    rw [hpost] at ha
    cases ha

/-- An agent that is up to date, visited first, keeps the configuration from the one behind it. -/
theorem behind_not_reached : ¬ ∀ (provider : AgentConfigProvider) (visit : Latest.Visit (Agent Nat)) (agents : Agents Nat)
    (subscribers : Subscribers), WellFormed agents →
    (recommendLatestConfigToAll provider visit agents subscribers).2 = .ok () →
    ∀ agent ∈ GoMap.values agents.agentsById, Outdated provider agent →
      Reached provider agent (recommendLatestConfigToAll provider visit agents subscribers).1 := by
  intro h
  have hrun : recommendLatestConfigToAll sameForAll ⟨id, List.Perm.refl⟩ currentAndBehind ∅ =
      (⟨currentAndBehind.agentsById, [], ∅⟩, .ok ()) := recommendEach_upToDate upToDate_current _ _
  have hreached := h sameForAll ⟨id, List.Perm.refl⟩ currentAndBehind ∅ wellFormed_currentAndBehind (by rw [hrun])
    (agentOn "behind" "receivers: 1") (by decide) outdated_behind
  rw [hrun] at hreached
  exact absurd (hreached "receivers: 2" "log_pipelines:2" rfl).1 not_mem_nil

end Opamp
end DsApm
