import DsApm.Lib.Tx
import DsApm.Rules.Definition
/-!
# Manager — creating, editing, patching and deleting rules

The four operations of the rule manager over the rule table, the route policies, the alertmanager configurations, and
what is kept in memory: the tasks, the rules and the notification settings.  A task's name is the rule's id with a suffix,
so tasks are kept under the id.  A configuration is read outside the transaction that writes it.
-/
namespace DsApm
namespace Rules

open Alertmanager Tx

structure StorableRule (V : Type) where
  id : String
  orgID : String
  data : RuleText V
  deriving DecidableEq, Repr

structure RoutePolicy extends PostableRoutePolicy where
  orgID : String
  deriving DecidableEq, Repr

structure Database (V : Type) where
  stored : GoMap String (StorableRule V)
  routes : List RoutePolicy
  configs : GoMap String Config

structure Memory (V : Type) where
  tasks : GoMap String (PostableRule V)
  rules : GoMap String (PostableRule V)
  notifications : GoMap (String × String) NotificationConfig

abbrev ManagerState (V : Type) := Tx.State (Database V) (Memory V)

abbrev ManagerStep (V : Type) := Tx.Step (Database V) (Memory V)

/-- The steps of a call that a store or the alertmanager may fail. -/
inductive Failure where
  | listChannels | getRule | writeRule | getConfig | setConfig | deleteRoutes | createRoutes
  | readInhibitors | deleteInhibitors | rereadInhibitors | createInhibitors | commit
  deriving DecidableEq, Repr

structure Answers where
  channels : List String
  fails : Failure → Bool

inductive Call (V : Type) where
  | create (orgID id : String) (text : RuleText V) (a : Answers)
  | edit (orgID id : String) (text : RuleText V) (a : Answers)
  /-- `patch` is the text of the request read into a rule. -/
  | patch (orgID id : String) (patch : PostableRule V → RuleText V) (a : Answers)
  | delete (orgID id : String) (a : Answers)

section
variable {V : Type}

/-! ## Tasks -/

def setTask (s : ManagerState V) (id : String) (r : PostableRule V) : ManagerState V :=
  { s with mem := { s.mem with tasks := s.mem.tasks.insert id r, rules := s.mem.rules.insert id r } }

def deleteTask (s : ManagerState V) (id : String) : ManagerState V :=
  if (s.mem.tasks.lookup id).isSome then
    { s with mem := { s.mem with tasks := s.mem.tasks.erase id, rules := s.mem.rules.erase id } }
  else s

variable (E : Checks V)

/-- A task that is there already is an error, after the rule has been replaced. -/
def addTask (id : String) (r : PostableRule V) : ManagerStep V := fun s =>
  if !E.prepares r then (s, false)
  else if (s.mem.tasks.lookup id).isSome then ({ s with mem := { s.mem with rules := s.mem.rules.insert id r } }, false)
  else (setTask s id r, true)

def editTask (id : String) (r : PostableRule V) : ManagerStep V := fun s =>
  if !E.prepares r then (s, false) else (setTask s id r, true)

def syncRuleStateWithTask (id : String) (r : PostableRule V) : ManagerStep V := fun s =>
  if r.disabled then (deleteTask s id, true)
  else if (s.mem.tasks.lookup id).isSome then editTask E id r s
  else addTask E id r s

/-! ## Steps of the transactions -/

def insertRule (row : StorableRule V) (a : Answers) : ManagerStep V := fun s =>
  if a.fails .writeRule || (s.db.stored.lookup row.id).isSome then (s, false)
  else ({ s with db := { s.db with stored := s.db.stored.insert row.id row } }, true)

def updateRule (row : StorableRule V) (a : Answers) : ManagerStep V := fun s =>
  if a.fails .writeRule then (s, false)
  else if (s.db.stored.lookup row.id).isSome then
    ({ s with db := { s.db with stored := s.db.stored.insert row.id row } }, true)
  else (s, true)

def removeRule (id : String) (a : Answers) : ManagerStep V := fun s =>
  if a.fails .writeRule then (s, false)
  else ({ s with db := { s.db with stored := s.db.stored.erase id } }, true)

def setNotificationConfig (orgID id : String) (config : NotificationConfig) : ManagerStep V := fun s =>
  ({ s with mem := { s.mem with notifications := s.mem.notifications.insert (orgID, id) config } }, true)

def deleteNotificationConfig (orgID id : String) : ManagerStep V := fun s =>
  ({ s with mem := { s.mem with notifications := s.mem.notifications.erase (orgID, id) } }, true)

def createRoutePolicies (orgID : String) (request : Option (List PostableRoutePolicy)) (a : Answers) : ManagerStep V :=
  fun s =>
  match request with
  | none => (s, false)
  | some [] => (s, true)
  | some routes =>
    if routes.all (PostableRoutePolicy.validate E) && !a.fails .createRoutes then
      ({ s with db := { s.db with routes := s.db.routes ++ routes.map (fun p => { p with orgID }) } }, true)
    else (s, false)

def deleteRoutePoliciesByName (orgID name : String) (a : Answers) : ManagerStep V := fun s =>
  if a.fails .deleteRoutes then (s, false)
  else ({ s with db := { s.db with
    routes := s.db.routes.filter (fun p => !(p.orgID == orgID && p.name == name)) } }, true)

/-- A configuration read from the committed database, changed, and written into the transaction. -/
def rewriteConfig (committed : Database V) (orgID : String) (f : Config → Config) (fails : Bool) : ManagerStep V :=
  fun s =>
  match committed.configs.lookup orgID with
  | none => (s, false)
  | some config =>
    if fails then (s, false)
    else ({ s with db := { s.db with configs := s.db.configs.insert orgID (f config) } }, true)

def createInhibitRules (committed : Database V) (orgID : String) (rules : Option (List InhibitRule)) (a : Answers) :
    ManagerStep V := fun s =>
  match rules with
  | none => (s, false)
  | some rules =>
    rewriteConfig committed orgID (fun c => c.addInhibitRules rules)
      (a.fails .rereadInhibitors || a.fails .createInhibitors) s

def deleteInhibitRules (committed : Database V) (orgID ruleID : String) (a : Answers) : ManagerStep V :=
  rewriteConfig committed orgID (fun c => c.deleteRuleIDInhibitor ruleID)
    (a.fails .readInhibitors || a.fails .deleteInhibitors)

end

section
variable {V : Type} [Float64 V] (E : Checks V)

/-! ## The operations -/

/-- A text that parses, passes `Validate` and names channels that exist. -/
def writable (text : RuleText V) (a : Answers) : Option (PostableRule V) :=
  (unmarshalRule E text).filter (fun r => validateRule E r &&
    ((r.channels E).isEmpty || (!a.fails .listChannels && (r.channels E).all (fun c => a.channels.contains c))))

/-- The route policies and inhibit rules of a rule that uses no notification policies. -/
def createRouting (committed : Database V) (orgID id : String) (r : PostableRule V) (a : Answers) : List (ManagerStep V) :=
  if r.usePolicy then []
  else [createRoutePolicies E orgID (r.getRuleRouteRequest E id) a,
    createInhibitRules committed orgID (r.getInhibitRules E id) a]

def updateRouting (committed : Database V) (orgID id : String) (r : PostableRule V) (a : Answers) : List (ManagerStep V) :=
  if r.usePolicy then []
  else [deleteRoutePoliciesByName orgID id a, createRoutePolicies E orgID (r.getRuleRouteRequest E id) a,
    deleteInhibitRules committed orgID id a, createInhibitRules committed orgID (r.getInhibitRules E id) a]

def notificationStep (orgID id : String) (r : PostableRule V) : List (ManagerStep V) :=
  match r.notificationSettings with
  | none => []
  | some n => [setNotificationConfig orgID id n.getAlertManagerNotificationConfig]

def createRule (orgID id : String) (text : RuleText V) (a : Answers) (s : ManagerState V) : ManagerState V × Bool :=
  match writable E text a with
  | none => (s, false)
  | some r =>
    runInTx (!a.fails .commit)
      (insertRule { id, orgID, data := text } a :: (notificationStep orgID id r ++ createRouting E s.db orgID id r a ++
        [addTask E id r])) s

def editRule (orgID id : String) (text : RuleText V) (a : Answers) (s : ManagerState V) : ManagerState V × Bool :=
  match writable E text a, s.db.stored.lookup id with
  | some r, some row =>
    if a.fails .getRule then (s, false)
    else runInTx (!a.fails .commit)
      (updateRule { row with data := text } a :: (notificationStep orgID id r ++ updateRouting E s.db orgID id r a ++
        [syncRuleStateWithTask E id r])) s
  | _, _ => (s, false)

/-- The stored rule with the request read into it, as far as it may be written. -/
def patched (row : StorableRule V) (patch : PostableRule V → RuleText V) (a : Answers) : Option (PostableRule V) :=
  (unmarshalRule E row.data).bind (fun r => writable E (patch r) a)

/-- The task is changed first; where the store then refuses the rule, the task is set to the same rule once more. -/
def patchRule (id : String) (patch : PostableRule V → RuleText V) (a : Answers) (s : ManagerState V) :
    ManagerState V × Bool :=
  match s.db.stored.lookup id with
  | none => (s, false)
  | some row =>
    if a.fails .getRule then (s, false)
    else match patched E row patch a with
      | none => (s, false)
      | some r =>
        let synced := syncRuleStateWithTask E id r s
        if !synced.2 then (synced.1, false)
        else
          let saved := runInTx (!a.fails .commit) [updateRule { row with data := (marshalRule r).1 } a] synced.1
          if saved.2 then saved else ((syncRuleStateWithTask E id (marshalRule r).2 saved.1).1, false)

def deleteRule (orgID id : String) (a : Answers) (s : ManagerState V) : ManagerState V × Bool :=
  match s.db.stored.lookup id with
  | none => (s, false)
  | some _ =>
    if a.fails .getRule then (s, false)
    else runInTx (!a.fails .commit)
      [removeRule id a, rewriteConfig s.db orgID (fun c => c.deleteRuleIDMatcher id) (a.fails .getConfig || a.fails .setConfig),
        deleteNotificationConfig orgID id, deleteRoutePoliciesByName orgID id a, deleteInhibitRules s.db orgID id a,
        fun s => (deleteTask s id, true)] s

/-- **One call**, and whether it returns without an error. -/
def step (s : ManagerState V) : Call V → ManagerState V × Bool
  | .create orgID id text a => createRule E orgID id text a s
  | .edit orgID id text a => editRule E orgID id text a s
  | .patch _ id patch a => patchRule E id patch a s
  | .delete orgID id a => deleteRule orgID id a s

end

end Rules
end DsApm
