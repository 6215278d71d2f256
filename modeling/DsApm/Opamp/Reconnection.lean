import DsApm.Opamp.Agents
/-!
# Reconnection — which connection an agent belongs to

The maps agree whatever happens (`wellFormed_run`): an agent is in exactly one connection's set, the one it is registered
over.  That connection is the one the agent was created on, so the registry follows the agents exactly as long as no
registered agent sends over another connection (`registry_follows_iff`).
-/
namespace DsApm
namespace Opamp

open StepRun Option

variable {Conn : Type} [DecidableEq Conn]

theorem wellFormed_init : WellFormed (Agents.init : Agents Conn) where
  keyed := fun h => by simp [findAgent, Agents.init] at h
  owned := fun id conn => by simp [findAgent, Agents.init, Agents.idsOf]

theorem wellFormed_onMessage {agents : Agents Conn} (h : WellFormed agents) (conn : Conn) (uid : UUID)
    (orgs : Except String (List UUID)) (upserts : Except String Unit) (cfg : Option (List String)) :
    WellFormed (onMessage conn uid orgs upserts cfg agents).1 := by
  rcases onMessage_cases conn uid orgs upserts cfg agents with ⟨agent, hfind, heq⟩ | ⟨-, heq⟩ | ⟨hnone, org, byId, heq, hby⟩
  · rw [heq]
    constructor
    · intro id a ha
      by_cases hid : id = uid.text
      · subst hid
        rw [findAgent, AList.lookup_insert, some_inj] at ha
        rw [← ha, agentID_updateEffectiveConfig, h.keyed hfind]
      · rw [findAgent, AList.lookup_insert_ne hid] at ha
        exact h.keyed ha
    · intro id c
      refine (h.owned id c).trans ?_
      by_cases hid : id = uid.text
      · subst hid
        simp [findAgent, AList.lookup_insert, show agents.agentsById.lookup uid.text = some agent from hfind]
      · simp [findAgent, AList.lookup_insert_ne hid]
  · rw [heq]
    exact h
  · rw [heq]
    constructor
    · intro id a ha
      rw [findAgent, hby] at ha
      split_ifs at ha with hid
      · rw [← some_inj.1 ha, hid, agentID_updateEffectiveConfig]
        rfl
      · exact h.keyed ha
    · intro id c
      rw [idsOf_insert, findAgent, hby]
      have hown := h.owned id c
      by_cases hid : id = uid.text
      · -- nobody owned the new agent, and now its connection does
        have hout : id ∉ agents.idsOf c := fun hin => by
          obtain ⟨a, ha, -⟩ := hown.1 hin
          rw [hid, hnone] at ha
          cases ha
        rw [if_pos hid]
        by_cases hc : c = conn
        · simp [hc, hid, AList.mem_insert, Agent.new]
        · simp [hc, hout, Agent.new, Ne.symm hc]
      · rw [if_neg hid]
        by_cases hc : c = conn
        · subst hc
          rw [if_pos rfl, AList.mem_insert, or_iff_right hid]
          exact hown
        · rw [if_neg hc]
          exact hown

theorem wellFormed_removeConnection {agents agents' : Agents Conn} (h : WellFormed agents) {conn : Conn}
    (hr : removeConnection conn agents = some agents') : WellFormed agents' := by
  obtain ⟨_, heq, hconns, hfind⟩ := removeConnection_eq h conn
  rw [hr, some_inj] at heq
  subst heq
  constructor
  · intro id a ha
    rw [hfind] at ha
    split_ifs at ha
    exact h.keyed ha
  · intro id c
    have hids : agents'.idsOf c = if c = conn then ∅ else agents.idsOf c := by
      rw [← idsOf_erase agents conn c agents'.agentsById, ← hconns]
    rw [hids, hfind]
    have hown := h.owned id
    by_cases hc : c = conn
    · subst hc
      rw [if_pos rfl]
      constructor
      · intro hin
        simp at hin
      · rintro ⟨a, ha, rfl⟩
        split_ifs at ha with hin
        exact absurd ((hown a.conn).2 ⟨a, ha, rfl⟩) hin
    · rw [if_neg hc, hown c]
      constructor
      · rintro ⟨a, ha, rfl⟩
        have hout : id ∉ agents.idsOf conn := fun hin => by
          obtain ⟨b, hb, hbc⟩ := (hown conn).1 hin
          rw [ha, some_inj] at hb
          exact hc (by rw [hb, hbc])
        exact ⟨a, by rw [if_neg hout, ha], rfl⟩
      · rintro ⟨a, ha, rfl⟩
        split_ifs at ha
        exact ⟨a, ha, rfl⟩

theorem wellFormed_step {s : Registry Conn} (h : WellFormed s.agents) (e : Event Conn) : WellFormed (step s e).1.agents := by
  cases e with
  | onMessage conn uid orgs upserts cfg =>
    rw [step]
    exact wellFormed_onMessage h conn uid orgs upserts cfg
  | onDisconnect conn =>
    obtain ⟨agents', hr, -⟩ := removeConnection_eq h conn
    rw [step, hr]
    exact wellFormed_removeConnection h hr

/-- **In every run the maps agree**, whatever connections the agents use. -/
theorem wellFormed_run (events : List (Event Conn)) : WellFormed (final step Registry.init events).agents := by
  have hstep : ∀ (s : Registry Conn) (e : Event Conn), True → WellFormed s.agents → WellFormed (step s e).1.agents :=
    fun s e _ h => wellFormed_step h e
  have hinit : WellFormed (Registry.init : Registry Conn).agents := wellFormed_init
  exact final_inv step (fun s => WellFormed s.agents) (fun _ _ => True) hstep events Registry.init (fun _ _ => trivial) hinit

/-! ## Following the agents -/

/-- **The registry follows the agents**: every one belongs to one connection, is sent to on the connection its latest
message came over, and goes when that connection closes. -/
structure Follows (s : Registry Conn) : Prop where
  one : ∀ {agentID agent}, findAgent s.agents agentID = some agent → ∃! conn, agentID ∈ s.agents.idsOf conn
  sends : ∀ {agentID agent}, findAgent s.agents agentID = some agent → ∀ msg,
    s.latestConn agentID = some (sendToAgent agent msg).1
  closes : ∀ {agentID agent}, findAgent s.agents agentID = some agent → ∀ conn,
    findAgent (step s (.onDisconnect conn)).1.agents agentID = none ↔ s.latestConn agentID = some conn

def OnLatest (s : Registry Conn) : Prop :=
  ∀ agentID agent, findAgent s.agents agentID = some agent → s.latestConn agentID = some agent.conn

theorem follows_iff_onLatest {s : Registry Conn} (h : WellFormed s.agents) : Follows s ↔ OnLatest s := by
  constructor
  · exact fun hf agentID agent ha => hf.sends ha ⟨none⟩
  · intro hl
    refine ⟨fun {agentID agent} ha => ?_, fun {agentID agent} ha msg => hl agentID agent ha, fun {agentID agent} ha conn => ?_⟩
    · refine ⟨agent.conn, (h.owned agentID agent.conn).2 ⟨agent, ha, rfl⟩, fun c hc => ?_⟩
      obtain ⟨b, hb, rfl⟩ := (h.owned agentID c).1 hc
      rw [ha, some_inj] at hb
      rw [hb]
    · obtain ⟨agents', hr, -, hfind⟩ := removeConnection_eq h conn
      have hin : agentID ∈ s.agents.idsOf conn ↔ agent.conn = conn := by
        rw [h.owned agentID conn, ha]
        simp
      rw [step, hr, hl agentID agent ha]
      show findAgent agents' agentID = none ↔ some agent.conn = some conn
      rw [hfind, some_inj, ← hin, ha]
      split_ifs with hc <;> simp [hc]

/-- The event is not a message of a registered agent over a connection it is not registered over. -/
def OverOwnConnection (s : Registry Conn) : Event Conn → Prop
  | .onMessage conn uid _ _ _ => ∀ agent, findAgent s.agents uid.text = some agent → agent.conn = conn
  | .onDisconnect _ => True

omit [DecidableEq Conn] in
theorem latestConn_cons (agents agents' : Agents Conn) (heard : List (String × Conn)) (agentID id : String) (conn : Conn) :
    Registry.latestConn ⟨agents, (agentID, conn) :: heard⟩ id =
      if id = agentID then some conn else Registry.latestConn ⟨agents', heard⟩ id := by
  unfold Registry.latestConn
  rw [List.find?_cons]
  by_cases h : id = agentID
  · subst h
    simp
  · have hbeq : (agentID == id) = false := beq_false_of_ne (Ne.symm h)
    simp [h, hbeq]

theorem onLatest_step {s : Registry Conn} (hwf : WellFormed s.agents) (hl : OnLatest s) (e : Event Conn) :
    OnLatest (step s e).1 ↔ OverOwnConnection s e := by
  cases e with
  | onDisconnect conn =>
    obtain ⟨agents', hr, -, hfind⟩ := removeConnection_eq hwf conn
    rw [step, hr]
    refine iff_of_true (fun id a ha => ?_) trivial
    rw [getD_some, hfind] at ha
    split_ifs at ha
    exact hl id a ha
  | onMessage conn uid orgs upserts cfg =>
    have hlatest := fun id => latestConn_cons (onMessage conn uid orgs upserts cfg s.agents).1 s.agents s.heard uid.text id conn
    unfold OnLatest step OverOwnConnection
    simp only [hlatest]
    rcases onMessage_cases conn uid orgs upserts cfg s.agents with ⟨agent, hfind, heq⟩ | ⟨hnone, heq⟩ |
        ⟨hnone, org, byId, heq, hby⟩
    · -- a known agent keeps the connection it has
      rw [heq, hfind]
      constructor
      · intro h b hb
        rw [some_inj] at hb
        subst hb
        have := h uid.text (updateEffectiveConfig cfg agent) (by rw [findAgent, AList.lookup_insert])
        rw [if_pos rfl, conn_updateEffectiveConfig, some_inj] at this
        exact this.symm
      · intro h id a ha
        by_cases hid : id = uid.text
        · subst hid
          rw [findAgent, AList.lookup_insert, some_inj] at ha
          rw [if_pos rfl, ← ha, conn_updateEffectiveConfig, h agent rfl]
        · rw [findAgent, AList.lookup_insert_ne hid] at ha
          rw [if_neg hid]
          exact hl id a ha
    · rw [heq, hnone]
      refine iff_of_true (fun id a ha => ?_) (fun b hb => by cases hb)
      have hid : id ≠ uid.text := fun hid => by
        rw [hid, hnone] at ha
        cases ha
      rw [if_neg hid]
      exact hl id a ha
    · rw [heq, hnone]
      refine iff_of_true (fun id a ha => ?_) (fun b hb => by cases hb)
      rw [findAgent, hby] at ha
      split_ifs with hid
      · rw [if_pos hid, some_inj] at ha
        rw [← ha, conn_updateEffectiveConfig]
        rfl
      · rw [if_neg hid] at ha
        exact hl id a ha

/-- **The registry follows the agents throughout a run exactly when every message of a registered agent comes over the
connection it is registered over**: a message over another one leaves the agent on the old connection. -/
theorem registry_follows_iff (events : List (Event Conn)) :
    (∀ pre, pre <+: events → Follows (final step Registry.init pre)) ↔
      ∀ x ∈ trace step (Registry.init : Registry Conn) events, OverOwnConnection x.1 x.2.1 := by
  have hrun := inv_throughout_iff step (fun s : Registry Conn => WellFormed s.agents ∧ OnLatest s) OverOwnConnection
    (fun _ => True) (fun s e _ h => by
      rw [← onLatest_step h.1 h.2 e]
      exact and_iff_right (wellFormed_step h.1 e)) events Registry.init (fun _ _ => trivial)
    ⟨wellFormed_init, fun id a ha => by simp [findAgent, Registry.init, Agents.init] at ha⟩
  rw [← hrun]
  refine forall₂_congr fun pre _ => ?_
  rw [follows_iff_onLatest (wellFormed_run pre)]
  exact (and_iff_right (wellFormed_run pre)).symm

/-- An agent whose new connection speaks before its old one closes stays on the old one. -/
theorem reconnected_stays_behind : ¬ ∀ events : List (Event Nat), ∀ pre, pre <+: events →
    Follows (final step Registry.init pre) := by
  intro h
  let message : Nat → Event Nat := fun conn => .onMessage conn ⟨1⟩ (.ok [⟨7⟩]) (.ok ()) none
  have hf := h [message 0, message 1] _ List.prefix_rfl
  have hagent : findAgent (final step Registry.init [message 0, message 1]).agents (UUID.text ⟨1⟩) =
      some (Agent.new ⟨7⟩ (UUID.text ⟨1⟩) 0) := by
    simp [-AList.insert_empty, message, step, onMessage, findOrCreateAgent, findAgent, ownedOrg, UUID.isZero, UUID.text_ne_empty,
      Registry.init, Agents.init, updateEffectiveConfig]
  have hsent := hf.sends hagent ⟨none⟩
  simp [message, step, Registry.latestConn, Registry.init, sendToAgent, Agent.new] at hsent

end Opamp
end DsApm
