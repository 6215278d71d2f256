import DsApm.Lib.Calendar
import DsApm.Lib.Latest
import Mathlib.Data.String.Basic
/-!
# Document — SOP documents, their tenants and their tags

The parts of `sop_document.go`, `tenant_policy.go` and `sop_match.go` that look at one document: whether it is approved,
whom its scope admits, whether it is stale, and which label dimensions of an alert it matches.  `fold` is the simple case
folding of Unicode that `strings.EqualFold` compares under, as a representative of each character's class.
-/
namespace DsApm
namespace Sop

open GoStd

abbrev Labels := List (String × String)

def label (labels : Labels) (key : String) : String := (labels.lookup key).getD ""

structure PilotTenantScope where
  projectIDs : List String
  environments : List String
  deriving DecidableEq, Repr

structure PilotAuditTenant where
  projectID : String
  environment : String
  deriving DecidableEq, Repr

structure SOPDocument where
  sopID : String
  title : String
  version : String
  sourceID : String
  ownerTeam : String
  approvalStatus : String
  tenantScope : PilotTenantScope
  tags : List String
  updatedAt : String
  deriving DecidableEq, Repr

/-! ## Tenants -/

def pilotTenantFromLabels (labels : Labels) : PilotAuditTenant :=
  { projectID := trimSpace (label labels "project_id"), environment := trimSpace (label labels "environment") }

def pilotTenantIsComplete (tenant : PilotAuditTenant) : Bool := !isBlank tenant.projectID && !isBlank tenant.environment

def pilotTenantScopeContains (values : List String) (value : String) : Bool :=
  values.any (fun candidate => trimSpace candidate == "*" || trimSpace candidate == trimSpace value)

def pilotTenantScopeAllows (scope : PilotTenantScope) (tenant : PilotAuditTenant) : Bool :=
  pilotTenantIsComplete tenant && pilotTenantScopeContains scope.projectIDs tenant.projectID
    && pilotTenantScopeContains scope.environments tenant.environment

/-! ## Approval, age and versions -/

def isSOPApproved (doc : SOPDocument) : Bool := trimSpace doc.approvalStatus == "approved"

def sopStalenessMaxAge : Duration := 90 * Calendar.day

def sopIsStale (doc : SOPDocument) (now : Time) : Bool :=
  if isBlank doc.updatedAt then false
  else match Calendar.parseRFC3339 (trimSpace doc.updatedAt) with
    | none => false
    | some updated => decide (sopStalenessMaxAge < now - updated)

def SOPDocument.id (doc : SOPDocument) : String := trimSpace doc.sopID

def SOPDocument.ver (doc : SOPDocument) : String := trimSpace doc.version

/-- The body of the loops that look for a latest document: `latest, found`. -/
def pickLatest (p : SOPDocument → Bool) (latest : Option SOPDocument) (doc : SOPDocument) : Option SOPDocument :=
  if !p doc then latest
  else match latest with
    | none => some doc
    | some cur => if cur.ver < doc.ver then some doc else some cur

def latestSOPDocumentByID (docs : List SOPDocument) (sopID : String) : Option SOPDocument :=
  docs.foldl (pickLatest (fun doc => doc.id == trimSpace sopID)) none

def latestApprovedSOPDocumentByID (docs : List SOPDocument) (sopID : String) : Option SOPDocument :=
  docs.foldl (pickLatest (fun doc => doc.id == trimSpace sopID && isSOPApproved doc)) none

theorem foldl_pickLatest (p : SOPDocument → Bool) (docs : List SOPDocument) :
    docs.foldl (pickLatest p) none = (docs.filter p).argmax SOPDocument.ver := by
  induction docs using List.reverseRecOn with
  | nil => rfl
  | append_singleton docs doc ih =>
    rw [List.foldl_append, ih, List.foldl_cons, List.foldl_nil, List.filter_append]
    cases hp : p doc with
    | false => simp [pickLatest, hp]
    | true =>
      simp only [pickLatest, hp, Bool.not_true, Bool.false_eq_true, if_false]
      rw [List.filter_cons_of_pos hp, List.filter_nil, List.argmax_concat]
      cases (docs.filter p).argmax SOPDocument.ver <;> rfl

/-! ## Label dimensions -/

/-- The label keys of `sopMatchDimensions`, in its order. -/
inductive Dimension where
  | ownerTeam | serviceName | severity
  deriving DecidableEq, Repr

def Dimension.key : Dimension → String
  | .ownerTeam => "owner_team"
  | .serviceName => "service.name"
  | .severity => "severity"

def sopMatchDimensions : List Dimension := [.ownerTeam, .serviceName, .severity]

def sopDimensionPriority : Dimension → Nat
  | .ownerTeam => 4
  | .serviceName => 2
  | .severity => 1

def cutTag (tag : String) (sep : Char) : Option (String × String) :=
  match tag.toList.takeWhile (fun c => c != sep), tag.toList.dropWhile (fun c => c != sep) with
  | k :: ks, _ :: v :: vs => some (trimSpace (String.ofList (k :: ks)), trimSpace (String.ofList (v :: vs)))
  | _, _ => none

def splitTagKeyValue (tag : String) : Option (String × String) := (cutTag tag ':').or (cutTag tag '=')

def tagKeyMatchesDimension (key : String) (dim : Dimension) : Bool :=
  let key := String.ofList ((trimSpace key).toList.map GoStd.toLower)
  match dim with
  | .serviceName => key == "service" || key == "service.name" || key == "service_name"
  | .severity => key == "severity" || key == "sev"
  | .ownerTeam => false

section
variable (fold : Char → Char)

def sopTagsMatch (tags : List String) (dim : Dimension) (value : String) : Bool :=
  !isBlank value && tags.any (fun tag =>
    !isBlank tag && (equalFold fold (trimSpace tag) (trimSpace value) ||
      match splitTagKeyValue (trimSpace tag) with
      | some (key, val) => equalFold fold val (trimSpace value) && tagKeyMatchesDimension key dim
      | none => false))

def sopMatchesDimension (doc : SOPDocument) (dim : Dimension) (value : String) : Bool :=
  match dim with
  | .ownerTeam => equalFold fold (trimSpace doc.ownerTeam) value
  | .serviceName => sopTagsMatch fold doc.tags dim value
  | .severity => sopTagsMatch fold doc.tags dim value

def presentMatchDimensions (labels : Labels) : List Dimension :=
  sopMatchDimensions.filter (fun dim => !isBlank (label labels dim.key))

def matchedDimensions (doc : SOPDocument) (labels : Labels) : List Dimension :=
  (presentMatchDimensions labels).filter (fun dim => sopMatchesDimension fold doc dim (trimSpace (label labels dim.key)))

end

end Sop
end DsApm
