import DsApm.Lib.GoMap
import DsApm.Lib.StepRun
import DsApm.Lib.Uuid
/-!
# Agents — the agents that are connected, and over which connection

`agentsById` holds the agents that have sent a message and `connections` the ids that came over each connection first.
`FindOrCreateAgent` writes both when it creates an agent and neither when it finds one; `RemoveConnection` deletes the
agents in a connection's set.  The agents' table is not read here, so only the outcome of its writes is kept.

A listener waits under the organisation and the configuration's id.  The first answer for that key is given to every
listener under it, and the key is dropped.
-/
namespace DsApm
namespace Opamp

open StepRun

variable {Conn : Type} [DecidableEq Conn]

inductive AgentStatus
  | unknown
  | connected
  | disconnected
  deriving DecidableEq

structure AgentConfigFile where
  body : String
  contentType : String
  deriving DecidableEq

structure AgentRemoteConfig where
  configMap : List (String × AgentConfigFile)
  configHash : String
  deriving DecidableEq

structure Agent (Conn : Type) where
  orgID : UUID
  agentID : String
  status : AgentStatus
  config : String
  remoteConfig : Option AgentRemoteConfig
  conn : Conn
  deriving DecidableEq

def Agent.new (orgID : UUID) (agentID : String) (conn : Conn) : Agent Conn :=
  { orgID := orgID, agentID := agentID, status := .connected, config := "", remoteConfig := none, conn := conn }

structure Agents (Conn : Type) where
  agentsById : GoMap String (Agent Conn)
  connections : GoMap Conn (GoMap String Bool)

def Agents.init : Agents Conn := ⟨∅, ∅⟩

def Agents.idsOf (agents : Agents Conn) (conn : Conn) : GoMap String Bool := (agents.connections.lookup conn).getD ∅

/-- The body of the loop in `RemoveConnection`; nothing where `agents.agentsById[instanceId]` is nil. -/
def disconnect (agentsById : GoMap String (Agent Conn)) (instanceId : String) : Option (GoMap String (Agent Conn)) :=
  match agentsById.lookup instanceId with
  | none => none
  | some _ => some (agentsById.erase instanceId)

/-- `RemoveConnection`; nothing where it dereferences nil. -/
def removeConnection (conn : Conn) (agents : Agents Conn) : Option (Agents Conn) :=
  ((agents.idsOf conn).keys.foldlM disconnect agents.agentsById).map fun agentsById =>
    ⟨agentsById, agents.connections.erase conn⟩

def findAgent (agents : Agents Conn) (agentID : String) : Option (Agent Conn) := agents.agentsById.lookup agentID

/-- `FindOrCreateAgent`: the agent, and whether it was created.  `upserts` is the outcome of `agent.Upsert()`. -/
def findOrCreateAgent (upserts : Except String Unit) (agentID : String) (conn : Conn) (orgID : UUID) (agents : Agents Conn) :
    Agents Conn × Except String (Agent Conn × Bool) :=
  if agentID = "" then (agents, .error "cannot create agent without agentID")
  else match findAgent agents agentID with
    | some agent => (agents, .ok (agent, false))
    | none =>
      if orgID.isZero then (agents, .error "cannot create agent without orgId")
      else match upserts with
        | .error err => (agents, .error err)
        | .ok _ =>
          let agent := Agent.new orgID agentID conn
          ({ agentsById := agents.agentsById.insert agentID agent
             connections := agents.connections.insert conn ((agents.idsOf conn).insert agentID true) }, .ok (agent, true))

/-- `updateEffectiveConfig`, with the bodies of the reported config map in the order they are visited. -/
def updateEffectiveConfig (bodies : Option (List String)) (agent : Agent Conn) : Agent Conn :=
  match bodies with
  | none => agent
  | some bodies => { agent with config := bodies.getLast?.getD "" }

/-- `protobufs.ServerToAgent`, as far as it carries a configuration. -/
structure ServerToAgent where
  remoteConfig : Option AgentRemoteConfig
  deriving DecidableEq

def sendToAgent (agent : Agent Conn) (msg : ServerToAgent) : Conn × ServerToAgent := (agent.conn, msg)

/-- What the server is called with: a message of an agent over a connection, with the organisations the server finds and
the outcome of the agent's write, or a connection that closes. -/
inductive Event (Conn : Type)
  | onMessage (conn : Conn) (instanceUid : UUID) (orgs : Except String (List UUID)) (upserts : Except String Unit)
      (effectiveConfig : Option (List String))
  | onDisconnect (conn : Conn)

/-- What `OnMessage` answers: an error with the delay to retry after, or the agent's instance. -/
inductive Response
  | unavailable (retryAfterNanoseconds : Nat)
  | accepted (instanceUid : UUID)
  | none
  deriving DecidableEq

def ownedOrg : Except String (List UUID) → UUID
  | .ok [org] => org
  | _ => ⟨0⟩

def onMessage (conn : Conn) (instanceUid : UUID) (orgs : Except String (List UUID)) (upserts : Except String Unit)
    (effectiveConfig : Option (List String)) (agents : Agents Conn) : Agents Conn × Response :=
  match findOrCreateAgent upserts instanceUid.text conn (ownedOrg orgs) agents with
  | (agents, .error _) => (agents, .unavailable 5000000000)
  | (agents, .ok (agent, _)) =>
    ({ agents with agentsById := agents.agentsById.insert instanceUid.text (updateEffectiveConfig effectiveConfig agent) },
      .accepted instanceUid)

/-- The registry with the messages that have arrived, the latest first; a nil dereference leaves it as it was. -/
structure Registry (Conn : Type) where
  agents : Agents Conn
  heard : List (String × Conn)

def Registry.init : Registry Conn := ⟨Agents.init, []⟩

def step (s : Registry Conn) : Event Conn → Registry Conn × Response
  | .onMessage conn uid orgs upserts cfg =>
    let r := onMessage conn uid orgs upserts cfg s.agents
    (⟨r.1, (uid.text, conn) :: s.heard⟩, r.2)
  | .onDisconnect conn => (⟨(removeConnection conn s.agents).getD s.agents, s.heard⟩, .none)

def Registry.latestConn (s : Registry Conn) (agentID : String) : Option Conn :=
  (s.heard.find? (fun m => m.1 == agentID)).map Prod.snd

/-! ## The two maps -/

/-- **The maps agree**: an agent is kept under its id, and a connection's set holds the agents registered over it. -/
structure WellFormed (agents : Agents Conn) : Prop where
  keyed : ∀ {agentID agent}, findAgent agents agentID = some agent → agent.agentID = agentID
  owned : ∀ agentID conn, agentID ∈ agents.idsOf conn ↔ ∃ agent, findAgent agents agentID = some agent ∧ agent.conn = conn

theorem idsOf_insert (agents : Agents Conn) (conn c : Conn) (ids : GoMap String Bool) (byId : GoMap String (Agent Conn)) :
    Agents.idsOf ⟨byId, agents.connections.insert conn ids⟩ c = if c = conn then ids else agents.idsOf c := by
  unfold Agents.idsOf
  split_ifs with h
  · rw [h, AList.lookup_insert, Option.getD_some]
  · rw [AList.lookup_insert_ne h]

theorem idsOf_erase (agents : Agents Conn) (conn c : Conn) (byId : GoMap String (Agent Conn)) :
    Agents.idsOf ⟨byId, agents.connections.erase conn⟩ c = if c = conn then ∅ else agents.idsOf c := by
  unfold Agents.idsOf
  split_ifs with h
  · rw [h, AList.lookup_erase, Option.getD_none]
  · rw [AList.lookup_erase_ne h]

omit [DecidableEq Conn] in
theorem foldlM_disconnect : ∀ (ids : List String) (byId : GoMap String (Agent Conn)), ids.Nodup →
    (∀ id ∈ ids, byId.lookup id ≠ none) → ∃ byId', ids.foldlM disconnect byId = some byId' ∧
      ∀ id, byId'.lookup id = if id ∈ ids then none else byId.lookup id
  | [], byId, _, _ => ⟨byId, rfl, fun id => by simp⟩
  | id :: ids, byId, hnd, hall => by
    rw [List.nodup_cons] at hnd
    obtain ⟨agent, hagent⟩ := Option.ne_none_iff_exists'.1 (hall id List.mem_cons_self)
    have hrest : ∀ id' ∈ ids, (byId.erase id).lookup id' ≠ none := fun id' hid' => by
      have hne : id' ≠ id := fun h => hnd.1 (h ▸ hid')
      rw [AList.lookup_erase_ne hne]
      exact hall id' (List.mem_cons_of_mem _ hid')
    obtain ⟨byId', hrun, hlookup⟩ := foldlM_disconnect ids (byId.erase id) hnd.2 hrest
    refine ⟨byId', ?_, fun id' => ?_⟩
    · rw [List.foldlM_cons, disconnect, hagent]
      exact hrun
    · rw [hlookup]
      by_cases hid : id' = id
      · subst hid
        simp [AList.lookup_erase]
      · simp [hid, AList.lookup_erase_ne hid]

/-- **A connection that closes takes the agents of its set with it**, and no other; nil is never dereferenced. -/
theorem removeConnection_eq {agents : Agents Conn} (h : WellFormed agents) (conn : Conn) : ∃ agents',
    removeConnection conn agents = some agents' ∧ agents'.connections = agents.connections.erase conn ∧
      ∀ id, findAgent agents' id = if id ∈ agents.idsOf conn then none else findAgent agents id := by
  have hthere : ∀ id ∈ (agents.idsOf conn).keys, agents.agentsById.lookup id ≠ none := fun id hid => by
    obtain ⟨agent, hagent, -⟩ := (h.owned id conn).1 (AList.mem_keys.2 hid)
    rw [show agents.agentsById.lookup id = some agent from hagent]
    exact Option.some_ne_none agent
  obtain ⟨byId, hrun, hlookup⟩ := foldlM_disconnect (agents.idsOf conn).keys agents.agentsById (agents.idsOf conn).nodupKeys hthere
  refine ⟨⟨byId, agents.connections.erase conn⟩, ?_, rfl, fun id => ?_⟩
  · rw [removeConnection, hrun]
    rfl
  · refine (hlookup id).trans ?_
    simp only [AList.mem_keys]
    rfl

/-- **What a message does**: it updates the agent it is from, creates that agent on its connection, or is refused where
the agent is unknown. -/
theorem onMessage_cases (conn : Conn) (uid : UUID) (orgs : Except String (List UUID)) (upserts : Except String Unit)
    (cfg : Option (List String)) (agents : Agents Conn) :
    (∃ agent, findAgent agents uid.text = some agent ∧ (onMessage conn uid orgs upserts cfg agents).1 =
      { agents with agentsById := agents.agentsById.insert uid.text (updateEffectiveConfig cfg agent) }) ∨
    (findAgent agents uid.text = none ∧ (onMessage conn uid orgs upserts cfg agents).1 = agents) ∨
    (findAgent agents uid.text = none ∧ ∃ org byId, (onMessage conn uid orgs upserts cfg agents).1 =
      { agentsById := byId
        connections := agents.connections.insert conn ((agents.idsOf conn).insert uid.text true) } ∧
      ∀ id, byId.lookup id = if id = uid.text then some (updateEffectiveConfig cfg (Agent.new org uid.text conn))
        else agents.agentsById.lookup id) := by
  have hne : uid.text ≠ "" := uid.text_ne_empty
  unfold onMessage findOrCreateAgent
  rw [if_neg hne]
  cases hfind : findAgent agents uid.text with
  | some agent => exact Or.inl ⟨agent, rfl, rfl⟩
  | none =>
    refine Or.inr ?_
    by_cases hzero : (ownedOrg orgs).isZero = true
    · exact Or.inl ⟨rfl, by simp [hzero]⟩
    · cases upserts with
      | error err => exact Or.inl ⟨rfl, by simp [hzero]⟩
      | ok u =>
        refine Or.inr ⟨rfl, ownedOrg orgs, _, by simp only [hzero]; rfl, fun id => ?_⟩
        split_ifs with hid
        · rw [hid, AList.lookup_insert]
        · rw [AList.lookup_insert_ne hid, AList.lookup_insert_ne hid]

omit [DecidableEq Conn] in
@[simp] theorem conn_updateEffectiveConfig (cfg : Option (List String)) (agent : Agent Conn) :
    (updateEffectiveConfig cfg agent).conn = agent.conn := by
  cases cfg <;> rfl

omit [DecidableEq Conn] in
@[simp] theorem agentID_updateEffectiveConfig (cfg : Option (List String)) (agent : Agent Conn) :
    (updateEffectiveConfig cfg agent).agentID = agent.agentID := by
  cases cfg <;> rfl

/-! ## Who is told how a configuration fared -/

inductive OnChangeCallback
  | reportConfigDeploymentStatus
  | onConfigUpdate
  deriving DecidableEq

abbrev Subscribers := GoMap String (List OnChangeCallback)

def getSubscriberKey (orgId : UUID) (hash : String) : String := orgId.text ++ hash

/-- `ListenToConfigUpdate`; the agent is not part of the key. -/
def listenToConfigUpdate (orgId : UUID) (hash : String) (ss : OnChangeCallback) (subscribers : Subscribers) : Subscribers :=
  let key := getSubscriberKey orgId hash
  match subscribers.lookup key with
  | some subs => subscribers.insert key (subs ++ [ss])
  | none => subscribers.insert key [ss]

abbrev Called (σ : Type) := OnChangeCallback → UUID → String → String → Option String → σ → σ

def notifySubscribers {σ : Type} (called : Called σ) (orgId : UUID) (agentId key : String) (err : Option String)
    (subscribers : Subscribers) (s : σ) : Subscribers × σ :=
  match subscribers.lookup key with
  | none => (subscribers, s)
  | some subs => (subscribers.erase key, subs.foldl (fun s cb => called cb orgId agentId key err s) s)

def onConfigSuccess {σ : Type} (called : Called σ) (orgId : UUID) (agentId hash : String) (subscribers : Subscribers) (s : σ) :
    Subscribers × σ :=
  notifySubscribers called orgId agentId (getSubscriberKey orgId hash) none subscribers s

def onConfigFailure {σ : Type} (called : Called σ) (orgId : UUID) (agentId hash errorMessage : String)
    (subscribers : Subscribers) (s : σ) : Subscribers × σ :=
  notifySubscribers called orgId agentId (getSubscriberKey orgId hash) (some errorMessage) subscribers s

def Listening (subscribers : Subscribers) (orgId : UUID) (hash : String) (ss : OnChangeCallback) : Prop :=
  ∃ subs, subscribers.lookup (getSubscriberKey orgId hash) = some subs ∧ ss ∈ subs

theorem lookup_listen (orgId : UUID) (hash : String) (ss : OnChangeCallback) (subscribers : Subscribers) (key : String) :
    (listenToConfigUpdate orgId hash ss subscribers).lookup key =
      if key = getSubscriberKey orgId hash then some ((subscribers.lookup key).getD [] ++ [ss])
      else subscribers.lookup key := by
  unfold listenToConfigUpdate
  by_cases h : key = getSubscriberKey orgId hash
  · rw [if_pos h, h]
    cases hl : subscribers.lookup (getSubscriberKey orgId hash) with
    | none => simp only [hl, AList.lookup_insert, Option.getD_none, List.nil_append]
    | some subs => simp only [hl, AList.lookup_insert, Option.getD_some]
  · rw [if_neg h]
    cases hl : subscribers.lookup (getSubscriberKey orgId hash) with
    | none => simp only [hl, AList.lookup_insert_ne h]
    | some subs => simp only [hl, AList.lookup_insert_ne h]

theorem listening_listen (orgId : UUID) (hash : String) (ss : OnChangeCallback) (subscribers : Subscribers) :
    Listening (listenToConfigUpdate orgId hash ss subscribers) orgId hash ss :=
  ⟨_, by rw [lookup_listen, if_pos rfl], by simp⟩

theorem Listening.listen {subscribers : Subscribers} {orgId : UUID} {hash : String} {ss : OnChangeCallback}
    (h : Listening subscribers orgId hash ss) (orgId' : UUID) (hash' : String) (ss' : OnChangeCallback) :
    Listening (listenToConfigUpdate orgId' hash' ss' subscribers) orgId hash ss := by
  obtain ⟨subs, hl, hin⟩ := h
  unfold Listening
  rw [lookup_listen, hl]
  split_ifs
  · exact ⟨_, rfl, List.mem_append_left _ hin⟩
  · exact ⟨subs, rfl, hin⟩

end Opamp
end DsApm
