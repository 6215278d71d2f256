import DsApm.Lib.GoMap
import DsApm.Lib.GoStd
import DsApm.Lib.StepRun
/-!
# Dispatcher — alerts in groups

The dispatcher puts an alert into the group of its route that has the alert's labels by which its rule groups; a group that
is not there is made, within a limit.  Each group flushes by itself, on copies: what was resolved is deleted after the
notification, unless it has been updated since.  Groups without alerts are cleaned up, and counted down.

A flush is two steps, the copies and the end of the notification, and anything may come between.  When the timer of a group
fires is left open, and the configurations may change at any time.
-/
namespace DsApm
namespace Dispatch

open GoStd (Time Duration)

abbrev LabelSet := String → Option String

def NoDataLabel : String := "nodata"

/-- `types.Alert`, without what is only notified; no end is the zero time. -/
structure Alert where
  labels : LabelSet
  startsAt : Time
  endsAt : Option Time
  updatedAt : Time

def Alert.resolvedAt (a : Alert) (ts : Time) : Bool :=
  match a.endsAt with
  | none => false
  | some endsAt => !decide (ts < endsAt)

structure NotificationConfig where
  notificationGroup : List String
  groupByAll : Bool
  renotifyInterval : Duration
  noDataInterval : Duration

/-- What the dispatcher is made with: how labels are fingerprinted, the repeat interval of a route, and how many groups
there may be, where 0 is no limit. -/
structure Options (Route Fingerprint : Type) where
  fingerprint : LabelSet → Fingerprint
  repeatInterval : Route → Duration
  maxNumberOfAggregationGroups : Nat

/-- `aggrGroup`, and while it flushes the copies it took of what was resolved, and when. -/
structure AggrGroup (Fingerprint : Type) where
  labels : LabelSet
  repeatInterval : Duration
  alerts : GoMap Fingerprint Alert
  flushing : Option (Time × List Alert)

structure Dispatcher (Route Fingerprint : Type) where
  aggrGroupsPerRoute : GoMap Route (GoMap Fingerprint (AggrGroup Fingerprint))
  aggrGroupsNum : Int

structure System (Route Fingerprint : Type) where
  dispatcher : Dispatcher Route Fingerprint
  getNotificationConfig : String → Option NotificationConfig

/-! ## The alert store -/

section
variable {Route Fingerprint : Type} [DecidableEq Route] [DecidableEq Fingerprint] (O : Options Route Fingerprint)

def set (alerts : GoMap Fingerprint Alert) (alert : Alert) : GoMap Fingerprint Alert := alerts.insert (O.fingerprint alert.labels) alert

def deleteIfNotModified (alerts : GoMap Fingerprint Alert) (slice : List Alert) : GoMap Fingerprint Alert :=
  slice.foldl (fun m alert => match m.lookup (O.fingerprint alert.labels) with
    | some other => if alert.updatedAt = other.updatedAt then m.erase (O.fingerprint alert.labels) else m
    | none => m) alerts

/-! ## A group -/

/-- `newAggrGroup`, with the interval of `deepCopyRouteOpts`. -/
def newAggrGroup (labels : LabelSet) (route : Route) (renotify : Duration) : AggrGroup Fingerprint where
  labels := labels
  repeatInterval := if 0 < renotify then renotify else O.repeatInterval route
  alerts := ∅
  flushing := none

def AggrGroup.fingerprint (ag : AggrGroup Fingerprint) : Fingerprint := O.fingerprint ag.labels

def AggrGroup.insert (ag : AggrGroup Fingerprint) (alert : Alert) : AggrGroup Fingerprint :=
  { ag with alerts := set O ag.alerts alert }

def AggrGroup.empty (ag : AggrGroup Fingerprint) : Bool := ag.alerts.entries.isEmpty

/-- The first part of `flush`: the copies, as they are notified, in no order. -/
def AggrGroup.copies (ag : AggrGroup Fingerprint) (now : Time) : List Alert :=
  (GoMap.values ag.alerts).map fun a => if a.resolvedAt now then a else { a with endsAt := none }

/-- The first part of `flush`: nothing without alerts, and one at a time. -/
def AggrGroup.flush (ag : AggrGroup Fingerprint) (now : Time) : AggrGroup Fingerprint × List Alert :=
  if ag.empty || ag.flushing.isSome then (ag, [])
  else ({ ag with flushing := some (now, (GoMap.values ag.alerts).filter (Alert.resolvedAt · now)) }, ag.copies now)

/-- The second part of `flush`, after the notification. -/
def AggrGroup.flushed (ag : AggrGroup Fingerprint) (ok : Bool) : AggrGroup Fingerprint :=
  match ag.flushing with
  | none => ag
  | some (_, resolvedSlice) =>
    { ag with alerts := if ok then deleteIfNotModified O ag.alerts resolvedSlice else ag.alerts, flushing := none }

/-! ## The dispatcher -/

def getRuleIDFromAlert (alert : Alert) : String := (alert.labels "ruleId").getD ""

def noDataAlert (alert : Alert) : Bool := (alert.labels NoDataLabel).isSome

def getGroupLabels (alert : Alert) (groups : List String) (groupByAll : Bool) : LabelSet :=
  fun ln => if ln ∈ groups ∨ groupByAll = true then alert.labels ln else none

def groupLabels (alert : Alert) (config : NotificationConfig) : LabelSet :=
  let groupLabels := getGroupLabels alert config.notificationGroup config.groupByAll
  if noDataAlert alert then fun ln => if ln = NoDataLabel then alert.labels NoDataLabel else groupLabels ln else groupLabels

def renotifyInterval (alert : Alert) (config : NotificationConfig) : Duration :=
  if noDataAlert alert then config.noDataInterval else config.renotifyInterval

def processAlert (d : Dispatcher Route Fingerprint) (config : NotificationConfig) (alert : Alert) (route : Route) :
    Dispatcher Route Fingerprint :=
  let groupLabels := groupLabels alert config
  let fp := O.fingerprint groupLabels
  let routeGroups := (d.aggrGroupsPerRoute.lookup route).getD ∅
  match routeGroups.lookup fp with
  | some ag => { d with aggrGroupsPerRoute := d.aggrGroupsPerRoute.insert route (routeGroups.insert fp (ag.insert O alert)) }
  | none =>
    if 0 < O.maxNumberOfAggregationGroups ∧ (O.maxNumberOfAggregationGroups : Int) ≤ d.aggrGroupsNum then
      { d with aggrGroupsPerRoute := d.aggrGroupsPerRoute.insert route routeGroups }
    else
      let ag := newAggrGroup O groupLabels route (renotifyInterval alert config)
      { aggrGroupsPerRoute := d.aggrGroupsPerRoute.insert route (routeGroups.insert fp (ag.insert O alert)),
        aggrGroupsNum := d.aggrGroupsNum + 1 }

def maintainGroups (groups : GoMap Fingerprint (AggrGroup Fingerprint)) (num : Int) : GoMap Fingerprint (AggrGroup Fingerprint) × Int :=
  groups.entries.foldl (fun acc e => if e.2.empty then (acc.1.erase (e.2.fingerprint O), acc.2 - 1) else acc) (groups, num)

def doMaintenance (d : Dispatcher Route Fingerprint) : Dispatcher Route Fingerprint :=
  d.aggrGroupsPerRoute.entries.foldl (fun d e =>
    let (groups, num) := maintainGroups O e.2 d.aggrGroupsNum
    ⟨d.aggrGroupsPerRoute.insert e.1 groups, num⟩) d

def Dispatcher.modify (d : Dispatcher Route Fingerprint) (route : Route) (fp : Fingerprint)
    (f : AggrGroup Fingerprint → AggrGroup Fingerprint) : Dispatcher Route Fingerprint :=
  match d.aggrGroupsPerRoute.lookup route with
  | none => d
  | some groups =>
    match groups.lookup fp with
    | none => d
    | some ag => { d with aggrGroupsPerRoute := d.aggrGroupsPerRoute.insert route (groups.insert fp (f ag)) }

def Dispatcher.group (d : Dispatcher Route Fingerprint) (route : Route) (fp : Fingerprint) : Option (AggrGroup Fingerprint) :=
  (d.aggrGroupsPerRoute.lookup route).bind (·.lookup fp)

/-! ## Runs -/

inductive Step (Route Fingerprint : Type)
  | processAlert (alert : Alert) (route : Route)
  | flush (route : Route) (fp : Fingerprint) (now : Time)
  | flushed (route : Route) (fp : Fingerprint) (ok : Bool)
  | doMaintenance
  | configure (getNotificationConfig : String → Option NotificationConfig)

def step (s : System Route Fingerprint) : Step Route Fingerprint → System Route Fingerprint × List Alert
  | .processAlert alert route =>
    match s.getNotificationConfig (getRuleIDFromAlert alert) with
    | none => (s, [])
    | some config => ({ s with dispatcher := processAlert O s.dispatcher config alert route }, [])
  | .flush route fp now =>
    ({ s with dispatcher := s.dispatcher.modify route fp fun ag => (ag.flush now).1 },
      ((s.dispatcher.group route fp).map fun ag => (ag.flush now).2).getD [])
  | .flushed route fp ok => ({ s with dispatcher := s.dispatcher.modify route fp fun ag => ag.flushed O ok }, [])
  | .doMaintenance => ({ s with dispatcher := doMaintenance O s.dispatcher }, [])
  | .configure getConfig => ({ s with getNotificationConfig := getConfig }, [])

def start (getNotificationConfig : String → Option NotificationConfig) : System Route Fingerprint :=
  ⟨⟨∅, 0⟩, getNotificationConfig⟩

end

end Dispatch
end DsApm
