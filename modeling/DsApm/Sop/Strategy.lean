import DsApm.Lib.GoMap
import DsApm.Lib.GoStd
import Mathlib.Data.List.MinMax
import Mathlib.Data.Prod.Lex
import Mathlib.Data.String.Basic
/-!
# Strategy — AI strategies and their history

A strategy is written into the annotations of its alert, and kept in a table of one row for each organization and
incident.  The latest is looked up by the incident, and by the fingerprint only without one.
-/
namespace DsApm
namespace Sop

open GoStd

abbrev Annotations := GoMap String String

structure AIStrategy where
  strategyID : String
  incidentID : String
  alertFingerprint : String
  status : String
  sopID : String
  sopVersion : String
  headline : String
  firstActions : List String
  customerUpdateDraft : String
  notificationBody : String
  vendorRequestDraft : String
  confidence : String
  evidenceRefs : List String
  limitations : List String
  model : String
  generatedAt : String
  deriving DecidableEq, Repr

def AIStrategy.isDeterministicLocal (s : AIStrategy) : Bool := trimSpace s.model == "deterministic-local"

def trimmed (texts : List String) : List String := (texts.map trimSpace).filter (· ≠ "")

/-- `AIStrategyIncidentAnnotations`: what says nothing is not set. -/
def aiStrategyIncidentAnnotations (s : AIStrategy) : Annotations :=
  let set (m : Annotations) (e : String × String) : Annotations := if trimSpace e.2 = "" then m else m.insert e.1 (trimSpace e.2)
  [("ai_strategy_id", s.strategyID),
    ("ai_strategy_status", s.status),
    ("ai_headline", s.headline),
    ("ai_confidence", s.confidence),
    ("customer_update", s.customerUpdateDraft),
    ("notification_body", s.notificationBody),
    ("vendor_request", s.vendorRequestDraft),
    ("ai_first_actions", String.intercalate "\n" (trimmed s.firstActions)),
    ("ai_limitations", String.intercalate "\n" s.limitations),
    ("ai_evidence_refs", String.intercalate ", " (trimmed s.evidenceRefs))].foldl set ∅

/-- `mergeAnnotations`: an override that is empty does not override. -/
def mergeAnnotations (base overrides : Annotations) : Annotations :=
  (GoMap.filterMapVal (fun _ v => if v = "" then none else some v) overrides).copyInto base

/-! ## The history -/

structure HistoryRow where
  alertFingerprint : String
  generatedAt : String
  strategy : AIStrategy
  deriving DecidableEq

abbrev HistoryStore := GoMap (String × String) HistoryRow

def AIStrategy.incident (s : AIStrategy) : String := trimSpace s.incidentID

def HistoryStore.upsert (h : HistoryStore) (orgID : String) (s : AIStrategy) : HistoryStore :=
  GoMap.put (fun old => ⟨trimSpace s.alertFingerprint, (old.map HistoryRow.generatedAt).getD (trimSpace s.generatedAt), s⟩) h
    (orgID, s.incident)

/-- `GetLatest`; a lookup without a key is an error. -/
def HistoryStore.getLatest (h : HistoryStore) (orgID incidentID alertFingerprint : String) : Option AIStrategy :=
  if !isBlank incidentID then (h.lookup (orgID, trimSpace incidentID)).map HistoryRow.strategy
  else if !isBlank alertFingerprint then
    let rows := h.entries.filter fun e => decide (e.1.1 = orgID ∧ e.2.alertFingerprint = trimSpace alertFingerprint)
    (rows.argmax fun e => toLex (e.2.generatedAt, e.1.2)).map fun e => e.2.strategy
  else none

end Sop
end DsApm
