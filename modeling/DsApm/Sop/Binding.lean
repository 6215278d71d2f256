import DsApm.Remediation.Execution
import DsApm.Sop.Document
import Mathlib.Data.Prod.Lex
/-!
# Binding — the SOP document of an alert

`previewSOPDocumentBindingAt`: an alert that names an SOP gets the latest approved version of it; without a name the
documents are ranked by the label dimensions they match, and one that matches every present dimension binds.  `visit` is
the order in which Go ranges over the map of latest documents.
-/
namespace DsApm
namespace Sop

open GoStd Remediation Latest

inductive BindingStatus where
  | bound | missing | disabled | forbidden
  deriving DecidableEq, Repr

inductive BindingResolution where
  | explicitLabel | noMatch | labelMatch | fallback
  deriving DecidableEq, Repr

structure SOPBindingCandidate where
  sopID : String
  version : String
  title : String
  sourceID : String
  ownerTeam : String
  score : Nat
  matchedOn : List Dimension
  deriving DecidableEq, Repr

structure SOPBindingPreviewResponse where
  contractVersion : String := "ds.sop_binding.v1"
  status : BindingStatus
  resolution : BindingResolution
  sopID : String := ""
  version : String := ""
  title : String := ""
  sourceID : String := ""
  warnings : List String := []
  candidates : List SOPBindingCandidate := []
  deriving DecidableEq, Repr

def pilotRequireContractVersion (field got want : String) : List String :=
  if trimSpace got == want then [] else [field ++ ": expected " ++ quote want ++ ", got " ++ quote got]

def indexed (field : String) (i : Nat) (rest : String) : String := field ++ "[" ++ toString i ++ "]" ++ rest

/-- The errors of `ValidateSOPBindingPreviewResponse`; the status and the resolution are allowed ones by their type. -/
def validateSOPBindingPreviewResponse (resp : SOPBindingPreviewResponse) : List String :=
  pilotRequireContractVersion "contractVersion" resp.contractVersion "ds.sop_binding.v1" ++
  (if resp.status = .bound ∨ resp.status = .disabled then
    pilotRequireNonEmpty "sopId" resp.sopID ++ pilotRequireNonEmpty "version" resp.version ++
    pilotRequireNonEmpty "title" resp.title ++ pilotRequireNonEmpty "sourceId" resp.sourceID else []) ++
  (if resp.status = .forbidden then pilotRequireNonEmpty "sopId" resp.sopID else []) ++
  pilotAppendSecretLikeStringErrors "sopId" resp.sopID ++
  pilotAppendSecretLikeStringErrors "version" resp.version ++
  pilotAppendSecretLikeStringErrors "title" resp.title ++
  pilotAppendSecretLikeStringErrors "sourceId" resp.sourceID ++
  (resp.warnings.zipIdx.flatMap (fun w => pilotAppendSecretLikeStringErrors (indexed "warnings" w.2 "") w.1)) ++
  resp.candidates.zipIdx.flatMap (fun c =>
    pilotAppendSecretLikeStringErrors (indexed "candidates" c.2 ".sopId") c.1.sopID ++
    pilotAppendSecretLikeStringErrors (indexed "candidates" c.2 ".version") c.1.version ++
    pilotAppendSecretLikeStringErrors (indexed "candidates" c.2 ".title") c.1.title ++
    pilotAppendSecretLikeStringErrors (indexed "candidates" c.2 ".sourceId") c.1.sourceID ++
    pilotAppendSecretLikeStringErrors (indexed "candidates" c.2 ".ownerTeam") c.1.ownerTeam)

/-! ## The explicit label -/

def previewExplicitSOPBinding (docs : List SOPDocument) (labels : Labels) (now : Time) :
    SOPBindingPreviewResponse × List String :=
  let sopID := trimSpace (label labels "sop_id")
  let approved := latestApprovedSOPDocumentByID docs sopID
  match approved.or (latestSOPDocumentByID docs sopID) with
  | none =>
    ({ status := .missing, resolution := .explicitLabel, sopID := sopID, warnings := ["sop document was not found"] }, [])
  | some doc =>
    let tenant := pilotTenantFromLabels labels
    if !pilotTenantIsComplete tenant then
      ({ status := .missing, resolution := .explicitLabel, sopID := sopID
         warnings := ["project_id and environment labels are required for SOP tenant policy"] }, [])
    else if !pilotTenantScopeAllows doc.tenantScope tenant then
      ({ status := .forbidden, resolution := .explicitLabel, sopID := sopID
         warnings := ["sop document is outside requested tenant scope"] }, [])
    else
      let resp : SOPBindingPreviewResponse :=
        if approved.isNone then
          { status := if doc.approvalStatus = "disabled" then .disabled else .missing, resolution := .explicitLabel
            sopID := doc.sopID, version := doc.version, title := doc.title, sourceID := doc.sourceID
            warnings := [if doc.approvalStatus = "disabled" then "sop document is disabled"
              else "sop document is not approved"] }
        else
          { status := .bound, resolution := .explicitLabel
            sopID := doc.sopID, version := doc.version, title := doc.title, sourceID := doc.sourceID
            warnings := if sopIsStale doc now then ["sop document was not updated within 90 days"] else [] }
      (resp, validateSOPBindingPreviewResponse resp)

/-! ## The label combination -/

structure SOPMatchEntry where
  doc : SOPDocument
  matchedOn : List Dimension
  score : Nat
  priority : Nat
  deriving DecidableEq, Repr

def eligible (tenant : PilotAuditTenant) (now : Time) (doc : SOPDocument) : Bool :=
  !isBlank doc.sopID && isSOPApproved doc && pilotTenantScopeAllows doc.tenantScope tenant && !sopIsStale doc now

section
variable (fold : Char → Char)

def matchEntry (labels : Labels) (doc : SOPDocument) : Option SOPMatchEntry :=
  let matched := matchedDimensions fold doc labels
  if matched.length = 0 then none
  else some { doc, matchedOn := matched, score := matched.length, priority := (matched.map sopDimensionPriority).sum }

def collectSOPMatches (visit : Visit SOPDocument) (docs : List SOPDocument) (labels : Labels) (tenant : PilotAuditTenant)
    (now : Time) : List SOPMatchEntry :=
  let latest := docs.foldl (fun m doc => if eligible tenant now doc then put SOPDocument.id SOPDocument.ver m doc else m) []
  (visit.order latest).filterMap (matchEntry fold labels)

def lessSOPMatch (a b : SOPMatchEntry) : Bool :=
  if a.score ≠ b.score then decide (b.score < a.score)
  else if a.priority ≠ b.priority then decide (b.priority < a.priority)
  else if a.doc.ver ≠ b.doc.ver then decide (b.doc.ver < a.doc.ver)
  else decide (a.doc.id < b.doc.id)

def sortSOPMatches (entries : List SOPMatchEntry) : List SOPMatchEntry :=
  entries.insertionSort (fun a b => lessSOPMatch b a = false)

def firstExactMatch (entries : List SOPMatchEntry) (presentDimCount : Nat) : Option SOPMatchEntry :=
  entries.find? (fun e => decide (e.score = presentDimCount))

def sopCandidatesFromEntries (entries : List SOPMatchEntry) : List SOPBindingCandidate :=
  (entries.take 5).map (fun e =>
    { sopID := e.doc.sopID, version := e.doc.version, title := e.doc.title, sourceID := e.doc.sourceID
      ownerTeam := e.doc.ownerTeam, score := e.score, matchedOn := e.matchedOn })

def previewLabelComboBinding (visit : Visit SOPDocument) (docs : List SOPDocument) (labels : Labels) (now : Time) :
    SOPBindingPreviewResponse × List String :=
  let tenant := pilotTenantFromLabels labels
  if !pilotTenantIsComplete tenant then
    ({ status := .missing, resolution := .noMatch
       warnings := ["project_id and environment labels are required for SOP tenant policy"] }, [])
  else
    let present := presentMatchDimensions labels
    if present.length = 0 then
      ({ status := .missing, resolution := .noMatch, warnings := ["sop_id label is not set"] }, [])
    else
      let entries := collectSOPMatches fold visit docs labels tenant now
      if entries.length = 0 then
        ({ status := .missing, resolution := .noMatch, warnings := ["no SOP document matched the alert labels"] }, [])
      else
        let entries := sortSOPMatches entries
        let candidates := sopCandidatesFromEntries entries
        let resp : SOPBindingPreviewResponse :=
          match firstExactMatch entries present.length with
          | some top =>
            { status := .bound, resolution := .labelMatch, sopID := top.doc.sopID, version := top.doc.version
              title := top.doc.title, sourceID := top.doc.sourceID, candidates }
          | none =>
            { status := .missing, resolution := .fallback
              warnings := ["no exact SOP match for alert labels; surfacing approximate candidates"], candidates }
        (resp, validateSOPBindingPreviewResponse resp)

def previewSOPDocumentBindingAt (visit : Visit SOPDocument) (docs : List SOPDocument) (labels : Labels) (now : Time) :
    SOPBindingPreviewResponse × List String :=
  if !isBlank (label labels "sop_id") then previewExplicitSOPBinding docs labels now
  else previewLabelComboBinding fold visit docs labels now

end

end Sop
end DsApm
