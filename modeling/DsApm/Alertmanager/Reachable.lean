import DsApm.Alertmanager.Startup
import DsApm.Rules.Commits
/-!
# Reachable — the states that rules, channels and starts lead to

The rule table, the channel table and the configurations under the operations that write them.  A rule operation leaves
the receivers of a configuration alone, a channel operation keeps them those of the channels, and a start rebuilds them
from the channels, so in every reachable state they agree.
-/
namespace DsApm
namespace Alertmanager

open Rules StepRun Tx List Option

section
variable {V H : Type} [DecidableEq H] (U : Upstream H)

/-! ## Operations -/

inductive Op (V : Type) where
  | rule (c : Call V)
  | createChannel (orgID id : String) (body : Receiver) (fails : Bool)
  | updateChannel (orgID id : String) (body : Receiver) (fails : Bool)
  | deleteChannel (orgID id : String) (fails : Bool)
  | start (orgID : String) (A : StartAnswers V)

def System.used (s : System V) (orgID : String) : List String :=
  (s.rules.db.routes.filter (fun p => p.orgID == orgID)).flatMap (fun p => p.channels)

def System.channelOp (s : System V) (result : Option Store) : System V × Bool :=
  match result with
  | none => (s, false)
  | some st => (s.withStore st, true)

def System.step [Float64 V] (E : Checks V) (s : System V) : Op V → System V × Bool
  | .rule c => ({ s with rules := (Rules.step E s.rules c).1 }, (Rules.step E s.rules c).2)
  | .createChannel orgID id body fails => s.channelOp (Alertmanager.createChannel U s.store orgID id body fails)
  | .updateChannel orgID id body fails => s.channelOp (updateChannelByReceiverAndID U s.store orgID id body fails)
  | .deleteChannel orgID id fails => s.channelOp (deleteChannelByID U s.store orgID id (s.used orgID) fails)
  | .start orgID A => ((syncServer U A orgID s).1, (syncServer U A orgID s).2.isSome)

def initial (orgs : List String) : System V :=
  { channels := []
    rules := { db := { stored := ∅, routes := [], configs := orgs.foldl (fun m orgID => m.insert orgID defaultConfig) ∅ }
               mem := { tasks := ∅, rules := ∅, notifications := ∅ } } }

def Op.Issued : Op V → Prop
  | .rule (.create _ id _ _) => id ≠ "-1"
  | _ => True

end

/-! ## Rule operations leave the receivers alone -/

section
variable {V : Type}

def Config.shape (c : Config) : List Receiver × List String := (c.receivers, c.routes.map Route.receiver)

def SameShape (db db' : Database V) : Prop := ∀ orgID, (db'.configs.lookup orgID).map Config.shape = (db.configs.lookup orgID).map Config.shape

def KeepsShape (db : Database V) (f : ManagerStep V) : Prop := ∀ s, SameShape db s.db → SameShape db (f s).1.db

variable {db : Database V}

theorem keepsShape_of_configs {f : ManagerStep V} (h : ∀ s, (f s).1.db.configs = s.db.configs) : KeepsShape db f := by
  intro s hs
  unfold SameShape
  rw [h]
  exact hs

theorem keepsShape_rewriteConfig (orgID : String) {f : Config → Config} (hf : ∀ c, (f c).shape = c.shape) (fails : Bool) :
    KeepsShape db (rewriteConfig db orgID f fails) := by
  intro s hs o
  unfold rewriteConfig
  cases hc : db.configs.lookup orgID with
  | none => exact hs o
  | some config =>
    simp only
    split_ifs
    · exact hs o
    · by_cases ho : o = orgID
      · subst ho
        rw [AList.lookup_insert, hc, map_some, map_some, hf]
      · rw [AList.lookup_insert_ne ho]
        exact hs o

theorem shape_deleteRuleIDMatcher (c : Config) (id : String) : (c.deleteRuleIDMatcher id).shape = c.shape := by
  unfold Config.shape Config.deleteRuleIDMatcher removeRuleIDFromRoute
  rw [List.map_map]
  rfl

theorem runInTx_shape {commits : Bool} {steps : List (ManagerStep V)} {s : ManagerState V}
    (h : ∀ f ∈ steps, KeepsShape s.db f) : SameShape s.db (runInTx commits steps s).1.db := by
  unfold runInTx
  split_ifs
  · exact runSteps_inv (fun s' => SameShape s.db s'.db) steps s h (fun _ => rfl)
  · exact fun _ => rfl

variable [Float64 V] {E : Checks V}

omit [Float64 V] in
theorem keepsShape_addTask (id : String) (r : PostableRule V) : KeepsShape db (addTask E id r) :=
  keepsShape_of_configs (fun s => by rw [(taskStep_addTask id r).db])

omit [Float64 V] in
theorem keepsShape_sync (id : String) (r : PostableRule V) : KeepsShape db (syncRuleStateWithTask E id r) :=
  keepsShape_of_configs (fun s => by rw [(taskStep_sync id r).db])

omit [Float64 V] in
theorem keepsShape_notification (orgID id : String) (r : PostableRule V) :
    ∀ f ∈ notificationStep orgID id r, KeepsShape db f := by
  intro f hf
  unfold notificationStep at hf
  cases hn : r.notificationSettings with
  | none => rw [hn] at hf; cases hf
  | some n =>
    rw [hn] at hf
    rw [mem_singleton.1 hf]
    exact keepsShape_of_configs (fun s => rfl)

omit [Float64 V] in
theorem keepsShape_createRoutePolicies (orgID : String) (request : Option (List PostableRoutePolicy)) (a : Answers) :
    KeepsShape db (createRoutePolicies E orgID request a) := by
  refine keepsShape_of_configs (fun s => ?_)
  unfold createRoutePolicies
  split
  · rfl
  · rfl
  · split_ifs <;> rfl

omit [Float64 V] in
theorem keepsShape_createInhibitRules (orgID : String) (rules : Option (List InhibitRule)) (a : Answers) :
    KeepsShape db (createInhibitRules db orgID rules a) := by
  unfold createInhibitRules
  cases rules with
  | none => exact keepsShape_of_configs (fun s => rfl)
  | some rules => exact keepsShape_rewriteConfig (f := fun c => c.addInhibitRules rules) orgID (fun _ => rfl) _

omit [Float64 V] in
theorem keepsShape_deleteRoutes (orgID name : String) (a : Answers) :
    KeepsShape db (deleteRoutePoliciesByName (V := V) orgID name a) := by
  refine keepsShape_of_configs (fun s => ?_)
  unfold deleteRoutePoliciesByName
  split_ifs <;> rfl

omit [Float64 V] in
theorem keepsShape_updateRule (row : StorableRule V) (a : Answers) : KeepsShape db (updateRule row a) := by
  refine keepsShape_of_configs (fun s => ?_)
  unfold updateRule
  split_ifs <;> rfl

omit [Float64 V] in
theorem keepsShape_createRouting (orgID id : String) (r : PostableRule V) (a : Answers) :
    ∀ f ∈ createRouting E db orgID id r a, KeepsShape db f := by
  unfold createRouting
  split_ifs
  · exact fun f hf => by cases hf
  · rw [forall_mem_cons, forall_mem_singleton]
    exact ⟨keepsShape_createRoutePolicies _ _ _, keepsShape_createInhibitRules _ _ _⟩

omit [Float64 V] in
theorem keepsShape_updateRouting (orgID id : String) (r : PostableRule V) (a : Answers) :
    ∀ f ∈ updateRouting E db orgID id r a, KeepsShape db f := by
  unfold updateRouting
  split_ifs
  · exact fun f hf => by cases hf
  · rw [forall_mem_cons, forall_mem_cons, forall_mem_cons, forall_mem_singleton]
    exact ⟨keepsShape_deleteRoutes _ _ _, keepsShape_createRoutePolicies _ _ _,
      keepsShape_rewriteConfig (f := fun c => c.deleteRuleIDInhibitor id) _ (fun _ => rfl) _,
      keepsShape_createInhibitRules _ _ _⟩

theorem create_shape (orgID id : String) (text : RuleText V) (a : Answers) (s : ManagerState V) :
    SameShape s.db (createRule E orgID id text a s).1.db := by
  unfold createRule
  split
  · exact fun _ => rfl
  · refine runInTx_shape ?_
    rw [forall_mem_cons, forall_mem_append, forall_mem_append, forall_mem_singleton]
    refine ⟨keepsShape_of_configs (fun s => ?_), ⟨keepsShape_notification _ _ _, keepsShape_createRouting _ _ _ _⟩,
      keepsShape_addTask _ _⟩
    unfold insertRule
    split_ifs <;> rfl

theorem edit_shape (orgID id : String) (text : RuleText V) (a : Answers) (s : ManagerState V) :
    SameShape s.db (editRule E orgID id text a s).1.db := by
  unfold editRule
  split
  · split_ifs
    · exact fun _ => rfl
    · refine runInTx_shape ?_
      rw [forall_mem_cons, forall_mem_append, forall_mem_append, forall_mem_singleton]
      exact ⟨keepsShape_updateRule _ _, ⟨keepsShape_notification _ _ _, keepsShape_updateRouting _ _ _ _⟩,
        keepsShape_sync _ _⟩
  · exact fun _ => rfl

omit [Float64 V] in
theorem delete_shape (orgID id : String) (a : Answers) (s : ManagerState V) :
    SameShape s.db (deleteRule orgID id a s).1.db := by
  unfold deleteRule
  split
  · exact fun _ => rfl
  · split_ifs
    · exact fun _ => rfl
    · refine runInTx_shape ?_
      rw [forall_mem_cons, forall_mem_cons, forall_mem_cons, forall_mem_cons, forall_mem_cons,
        forall_mem_singleton]
      refine ⟨keepsShape_of_configs (fun s => ?_), keepsShape_rewriteConfig _ (fun c => shape_deleteRuleIDMatcher c id) _,
        keepsShape_of_configs (fun s => rfl), keepsShape_deleteRoutes _ _ _,
        keepsShape_rewriteConfig (f := fun c => c.deleteRuleIDInhibitor id) _ (fun _ => rfl) _,
        keepsShape_of_configs (fun s => by rw [deleteTask_db])⟩
      unfold removeRule
      split_ifs <;> rfl

/-- **No rule operation changes a receiver or the receiver of a route.** -/
theorem step_shape {s : ManagerState V} (hk : Keyed s.db) (c : Call V) : SameShape s.db (Rules.step E s c).1.db := by
  cases c with
  | create orgID id text a => exact create_shape orgID id text a s
  | edit orgID id text a => exact edit_shape orgID id text a s
  | delete orgID id a => exact delete_shape orgID id a s
  | patch orgID id patch a =>
    cases hok : (Rules.step E s (.patch orgID id patch a)).2 with
    | false =>
      rw [step_failed hok]
      exact fun _ => rfl
    | true =>
      obtain ⟨row, r, -, -, -, hdb⟩ := patch_succeeded hk hok
      change SameShape s.db (patchRule E id patch a s).1.db
      rw [hdb]
      exact fun _ => rfl

def RuleIDs (db : Database V) : Prop := ∀ id row, db.stored.lookup id = some row → row.id = id ∧ id ≠ "-1"

omit [Float64 V] in
theorem ruleIDs_storeRow {s : ManagerState V} (hk : RuleIDs s.db) (row : StorableRule V) (hid : row.id ≠ "-1") :
    RuleIDs (storeRow s row).db := by
  intro k x hx
  rw [storeRow_lookup] at hx
  split_ifs at hx with heq
  · rw [heq, ← some_inj.1 hx]
    exact ⟨rfl, hid⟩
  · exact hk k x hx

theorem step_ruleIDs {s : ManagerState V} (hk : RuleIDs s.db) {c : Call V} (hc : Op.Issued (.rule c)) :
    RuleIDs (Rules.step E s c).1.db := by
  have hkeyed : Keyed s.db := fun id row h => (hk id row h).1
  cases hok : (Rules.step E s c).2 with
  | false =>
    rw [step_failed hok]
    exact hk
  | true =>
    cases c with
    | create orgID id text a =>
      obtain ⟨r, -, -, hadd⟩ := create_succeeded hok
      have hstored := ruleIDs_storeRow hk { id, orgID, data := text } hc
      unfold RuleIDs at hstored ⊢
      rw [← hadd.stored] at hstored
      exact hstored
    | edit orgID id text a =>
      obtain ⟨r, row, -, hl, hid, hadd⟩ := edit_succeeded hkeyed hok
      have hstored := ruleIDs_storeRow hk { row with data := text } (hid ▸ (hk id row hl).2)
      unfold RuleIDs at hstored ⊢
      rw [← hadd.stored] at hstored
      exact hstored
    | patch orgID id patch a =>
      obtain ⟨row, r, hl, hid, -, hdb⟩ := patch_succeeded hkeyed hok
      change RuleIDs (patchRule E id patch a s).1.db
      rw [hdb]
      exact ruleIDs_storeRow hk _ (hid ▸ (hk id row hl).2)
    | delete orgID id a =>
      obtain ⟨row, -, hstored, -⟩ := delete_succeeded hok
      intro k x hx
      change (deleteRule orgID id a s).1.db.stored.lookup k = some x at hx
      rw [hstored] at hx
      split_ifs at hx
      exact hk k x hx

end

/-! ## Every reachable state -/

section
variable {V H : Type} {U : Upstream H} {s : System V}

variable (U) in
structure Sound (s : System V) : Prop where
  mirrors : Mirrors U s.store
  ids : RuleIDs s.rules.db

theorem Config.Of.of_shape {c c' : Config} {channels : List Channel} (h : c.Of U channels) (hs : c'.shape = c.shape) :
    c'.Of U channels := by
  have hreceivers : c'.receivers = c.receivers := congrArg Prod.fst hs
  have hroutes : c'.routes.map Route.receiver = c.routes.map Route.receiver := congrArg Prod.snd hs
  constructor
  · rw [hreceivers]
    exact h.receivers
  · rw [hroutes]
    exact h.routes

theorem Mirrors.of_shape {st st' : Store} (h : Mirrors U st) (hch : st'.channels = st.channels)
    (hs : ∀ orgID, (st'.configs.lookup orgID).map Config.shape = (st.configs.lookup orgID).map Config.shape) :
    Mirrors U st' := by
  refine ⟨hch ▸ h.ids, hch ▸ h.names, hch ▸ h.named, fun ch hmem => ?_, fun orgID c hc => ?_⟩
  · rw [hch] at hmem
    have hhome := h.home ch hmem
    rw [← isSome_map (f := Config.shape), ← hs, isSome_map] at hhome
    exact hhome
  · have hshape := hs orgID
    rw [hc, map_some] at hshape
    obtain ⟨c₀, hc₀, heq⟩ := map_eq_some_iff.1 hshape.symm
    rw [hch]
    exact (h.configs orgID c₀ hc₀).of_shape heq.symm

theorem Mirrors.setConfig (h : Mirrors U s.store) {orgID : String} {c : Config} (hc : c.Of U (orgChannels s.channels orgID)) :
    Mirrors U (s.setConfig orgID c).store :=
  ⟨h.ids, h.names, h.named, fun ch hch => isSome_insert orgID (h.home ch hch),
    configs_insert (P := fun o c => c.Of U (orgChannels s.channels o)) (fun o c _ hl => h.configs o c hl) hc⟩

theorem lookup_initial (orgs : List String) {orgID : String} {c : Config}
    (h : (initial (V := V) orgs).rules.db.configs.lookup orgID = some c) : c = defaultConfig := by
  have hgen : ∀ (orgs : List String) (m : GoMap String Config), (∀ o c, m.lookup o = some c → c = defaultConfig) →
      ∀ o c, (orgs.foldl (fun m orgID => m.insert orgID defaultConfig) m).lookup o = some c → c = defaultConfig := by
    intro orgs
    induction orgs with
    | nil => exact fun m hm => hm
    | cons org orgs ih =>
      intro m hm
      exact ih _ (configs_insert (fun o c _ hl => hm o c hl) rfl)
  exact hgen orgs ∅ (fun o c hl => by rw [AList.lookup_empty] at hl; cases hl) orgID c h

theorem sound_initial (orgs : List String) : Sound U (initial (V := V) orgs) := by
  constructor
  · refine ⟨nodup_nil, fun _ => nodup_nil, fun ch h => absurd h not_mem_nil,
      fun ch h => absurd h not_mem_nil, fun orgID c hc => ?_⟩
    rw [lookup_initial (V := V) orgs hc]
    exact ⟨List.Perm.refl _, List.Perm.refl _⟩
  · intro id row h
    cases h

variable [DecidableEq H]

theorem syncServer_sound (hU : U.Lawful) (h : Sound U s) (A : StartAnswers V) (orgID : String) :
    Sound U (syncServer U A orgID s).1 := by
  rcases syncServer_fst (U := U) (s := s) A orgID with hsame | hn
  · rw [hsame]
    exact h
  · generalize (syncServer U A orgID s).1 = s' at hn ⊢
    cases hl : s.rules.db.configs.lookup orgID with
    | none =>
      obtain ⟨config, hof, rfl⟩ := newServer_unset hU h.mirrors hl hn
      exact ⟨h.mirrors.setConfig hof, h.ids⟩
    | some c =>
      obtain ⟨built, -, hbuilt, rfl⟩ := newServer_stored hU h.mirrors hl hn
      split_ifs
      · exact ⟨h.mirrors.setConfig hbuilt.of, h.ids⟩
      · exact h

omit [DecidableEq H] in
theorem channelOp_sound (h : Sound U s) {result : Option Store} (hr : ∀ st, result = some st → Mirrors U st) :
    Sound U (s.channelOp result).1 := by
  unfold System.channelOp
  cases result with
  | none => exact h
  | some st => exact ⟨hr st rfl, h.ids⟩

variable [Float64 V] {E : Checks V}

theorem step_sound (hU : U.Lawful) (h : Sound U s) {op : Op V} (hop : op.Issued) : Sound U (s.step U E op).1 := by
  cases op with
  | rule c =>
    have hkeyed : Keyed s.rules.db := fun id row hl => (h.ids id row hl).1
    exact ⟨h.mirrors.of_shape rfl (step_shape hkeyed c), step_ruleIDs h.ids hop⟩
  | createChannel orgID id body fails => exact channelOp_sound h (fun st hst => h.mirrors.create hU hst)
  | updateChannel orgID id body fails => exact channelOp_sound h (fun st hst => h.mirrors.update hU hst)
  | deleteChannel orgID id fails => exact channelOp_sound h (fun st hst => h.mirrors.delete hU hst)
  | start orgID A => exact syncServer_sound hU h A orgID

/-- **In every reachable state the receivers of a configuration are those of its organisation's channels.** -/
theorem sound_run (hU : U.Lawful) (orgs : List String) (ops : List (Op V)) (hops : ∀ op ∈ ops, op.Issued) :
    Sound U (final (System.step U E) (initial orgs) ops) := by
  refine final_inv (System.step U E) (Sound U) (fun _ op => op.Issued) (fun _ _ hop h => step_sound hU h hop) ops _
    (fun x hx => ?_) (sound_initial orgs)
  obtain ⟨pre, post, hsplit, -, -⟩ := (mem_trace _ _ _ _).1 hx
  rw [hsplit] at hops
  exact hops _ (mem_append_right _ mem_cons_self)

end

end Alertmanager
end DsApm
