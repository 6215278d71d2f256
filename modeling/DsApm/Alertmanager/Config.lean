import Mathlib.Data.Finset.Basic
/-!
# Config — the alertmanager configuration of an organisation

The parts of `config.go` and `matcher.go` that rules and channels change: the receivers, the routes to them with the rule
ids each route matches, and the inhibit rules.
-/
namespace DsApm
namespace Alertmanager

structure Matcher where
  name : String
  value : String
  deriving DecidableEq, Repr

/-- `Equal` is read as a set of label names. -/
structure InhibitRule where
  sourceMatchers : List Matcher
  targetMatchers : List Matcher
  equal : Finset String
  deriving DecidableEq

structure Receiver where
  name : String
  body : String
  deriving DecidableEq, Repr

/-- A route to a receiver.  `ruleIDs` are the alternatives of its `ruleId` matcher; without any the matcher is gone. -/
structure Route where
  receiver : String
  ruleIDs : List String
  deriving DecidableEq, Repr

structure Config where
  receivers : List Receiver
  routes : List Route
  inhibitRules : List InhibitRule
  deriving DecidableEq

def matcherContainsRuleID (matchers : List Matcher) (ruleID : String) : Bool := matchers.any (fun m => m.value == ruleID)

def InhibitRule.containsRuleID (rule : InhibitRule) (ruleID : String) : Bool :=
  matcherContainsRuleID rule.sourceMatchers ruleID || matcherContainsRuleID rule.targetMatchers ruleID

def Config.addInhibitRules (c : Config) (rules : List InhibitRule) : Config :=
  { c with inhibitRules := c.inhibitRules ++ rules }

def Config.deleteRuleIDInhibitor (c : Config) (ruleID : String) : Config :=
  { c with inhibitRules := c.inhibitRules.filter (fun rule => !rule.containsRuleID ruleID) }

def addRuleIDToRoute (route : Route) (ruleID : String) : Route :=
  if route.ruleIDs.contains ruleID then route else { route with ruleIDs := route.ruleIDs ++ [ruleID] }

def removeRuleIDFromRoute (route : Route) (ruleID : String) : Route :=
  { route with ruleIDs := route.ruleIDs.erase ruleID }

def Config.createRuleIDMatcher (c : Config) (ruleID : String) (receiverNames : List String) : Config :=
  { c with routes := c.routes.map (fun route =>
      if receiverNames.contains route.receiver then addRuleIDToRoute route ruleID else route) }

def Config.deleteRuleIDMatcher (c : Config) (ruleID : String) : Config :=
  { c with routes := c.routes.map (fun route => removeRuleIDFromRoute route ruleID) }

end Alertmanager
end DsApm
