import DsApm.Lib.GoStd
import DsApm.Lib.SqlTable
import DsApm.Lib.Uuid
/-!
# Repo — the stored configuration versions of the agent features

A version belongs to an organisation and an element type, and the three together are unique.  The subquery of
`GetLatestVersion` names the row outside it (`acv`) and not its own, so it is the greatest version of the whole table.
-/
namespace DsApm
namespace AgentConf

open SqlTable

abbrev ElementType := String

def elementTypeSamplingRules : ElementType := "sampling_rules"
def elementTypeDropRules : ElementType := "drop_rules"
def elementTypeLogPipelines : ElementType := "log_pipelines"
def elementTypeLbExporter : ElementType := "lb_exporter"

@[irreducible] def newElementType (value : String) : ElementType :=
  let value := String.ofList ((GoStd.trimSpace value).toList.map GoStd.toLower)
  if value ∈ [elementTypeSamplingRules, elementTypeDropRules, elementTypeLogPipelines, elementTypeLbExporter] then value else ""

inductive DeployStatus
  | pendingDeploy
  | deploying
  | deployed
  | deployInitiated
  | deployFailed
  | deployStatusUnknown
  deriving DecidableEq

structure AgentConfigVersion where
  id : Nat
  orgID : UUID
  version : Int
  elementType : ElementType
  deployStatus : DeployStatus
  deployResult : String
  hash : String
  config : String
  deriving DecidableEq

abbrev AgentConfigVersion.key (r : AgentConfigVersion) : UUID × Int × ElementType := (r.orgID, r.version, r.elementType)

structure AgentConfigElement where
  elementID : String
  elementType : ElementType
  versionID : Nat
  deriving DecidableEq

abbrev AgentConfigElement.key (r : AgentConfigElement) : String × ElementType × Nat := (r.elementID, r.elementType, r.versionID)

abbrev Versions := Table (UUID × Int × ElementType) AgentConfigVersion AgentConfigVersion.key

abbrev Elements := Table (String × ElementType × Nat) AgentConfigElement AgentConfigElement.key

structure Repo where
  versions : Versions
  elements : Elements

def Repo.empty : Repo := ⟨Table.empty, Table.empty⟩

def newAgentConfigVersion (id : Nat) (orgId : UUID) (elementType : ElementType) : AgentConfigVersion where
  id := id
  orgID := orgId
  version := 0
  elementType := elementType
  deployStatus := .pendingDeploy
  deployResult := ""
  hash := ""
  config := "{}"

/-- `SELECT MAX(version) FROM agent_config_version WHERE acv.element_type = ?`, for a row `acv` of the query around it. -/
def maxVersion (versions : Versions) (acv : AgentConfigVersion) (typ : ElementType) : Option Int :=
  ((versions.rows.filter (fun _ => acv.elementType == typ)).map (·.version)).max?

/-- `GetLatestVersion`; nothing is its not-found error. -/
def getLatestVersion (orgId : UUID) (typ : ElementType) (versions : Versions) : Option AgentConfigVersion :=
  versions.rows.find? fun acv =>
    acv.elementType == typ && acv.orgID == orgId && decide (some acv.version = maxVersion versions acv typ)

structure Faults where
  fetch : Bool
  insertVersion : Bool
  insertElement : Nat → Bool
  deleteElements : Bool
  deleteVersion : Bool

def Faults.none : Faults := ⟨false, false, fun _ => false, false, false⟩

/-- The loop of `insertConfig` over the elements, with whether it came to its end. -/
def insertElements (fails : Nat → Bool) (c : AgentConfigVersion) : Nat → List String → Elements → Elements × Bool
  | _, [], t => (t, true)
  | i, e :: es, t =>
    if fails i then (t, false)
    else match t.insert? ⟨e, c.elementType, c.id⟩ with
      | none => (t, false)
      | some t => insertElements fails c (i + 1) es t

def cleanup (faults : Faults) (orgId : UUID) (c : AgentConfigVersion) (repo : Repo) : Repo where
  elements := if faults.deleteElements then repo.elements else repo.elements.delete (fun e => e.versionID == c.id)
  versions := if faults.deleteVersion then repo.versions else repo.versions.delete (fun v => v.id == c.id && v.orgID == orgId)

def nextVersion (orgId : UUID) (typ : ElementType) (versions : Versions) : Int :=
  match getLatestVersion orgId typ versions with
  | some configVersion => configVersion.version + 1
  | none => 1

/-- `insertConfig` from its first write on. -/
def storeConfig (faults : Faults) (orgId : UUID) (c : AgentConfigVersion) (elements : List String) (repo : Repo) :
    Repo × Except String AgentConfigVersion :=
  match (if faults.insertVersion then none else repo.versions.insert? c) with
  | none => (cleanup faults orgId c repo, .error "failed to insert config version")
  | some versions =>
    let inserted := insertElements faults.insertElement c 0 elements repo.elements
    if inserted.2 then (⟨versions, inserted.1⟩, .ok c)
    else (cleanup faults orgId c ⟨versions, inserted.1⟩, .error "failed to insert config element")

def insertConfig (faults : Faults) (orgId : UUID) (c : AgentConfigVersion) (elements : List String) (repo : Repo) :
    Repo × Except String AgentConfigVersion :=
  if c.elementType = "" then (repo, .error "element type is required for creating agent config version")
  else if elements = [] ∧ c.elementType ≠ elementTypeLogPipelines then (repo, .error "config must have atleast one element")
  else if c.version ≠ 0 then (repo, .error "user defined versions are not supported in the agent config")
  else if faults.fetch then (repo, .error "failed to get latest config version")
  else storeConfig faults orgId { c with version := nextVersion orgId c.elementType repo.versions } elements repo

/-- `StartNewVersion`, with the id drawn for the new version. -/
def startNewVersion (faults : Faults) (id : Nat) (orgId : UUID) (eleType : ElementType) (elementIds : List String) (repo : Repo) :
    Repo × Except String AgentConfigVersion :=
  insertConfig faults orgId (newAgentConfigVersion id orgId eleType) elementIds repo

/-- `strings.HasPrefix(lastHash, orgId.String())`, and the hash with the organisation before it where it is not. -/
def withOrg (orgId : UUID) (lastHash : String) : String :=
  if orgId.text.toList.isPrefixOf lastHash.toList then lastHash else orgId.text ++ lastHash

def setDeployment (status : DeployStatus) (result hash conf : String) (r : AgentConfigVersion) : AgentConfigVersion :=
  { r with deployStatus := status, deployResult := result, hash := hash, config := conf }

def setOutcome (status : DeployStatus) (result : String) (r : AgentConfigVersion) : AgentConfigVersion :=
  { r with deployStatus := status, deployResult := result }

def updateDeployStatus (orgId : UUID) (elementType : ElementType) (version : Int) (status : DeployStatus)
    (result lastHash lastconf : String) (versions : Versions) : Versions :=
  versions.update (fun r => r.version == version && r.elementType == elementType && r.orgID == orgId)
    (setDeployment status result (withOrg orgId lastHash) lastconf) (fun _ => rfl)

@[simp] theorem rows_updateDeployStatus (orgId : UUID) (elementType : ElementType) (version : Int) (status : DeployStatus)
    (result lastHash lastconf : String) (versions : Versions) :
    (updateDeployStatus orgId elementType version status result lastHash lastconf versions).rows =
      versions.rows.map (Table.setWhere (fun r => r.version == version && r.elementType == elementType && r.orgID == orgId)
        (setDeployment status result (withOrg orgId lastHash) lastconf)) := rfl

def updateDeployStatusByHash (orgId : UUID) (confighash : String) (status : DeployStatus) (result : String)
    (versions : Versions) : Versions :=
  versions.update (fun r => r.hash == confighash && r.orgID == orgId) (setOutcome status result) (fun _ => rfl)

@[simp] theorem rows_updateDeployStatusByHash (orgId : UUID) (confighash : String) (status : DeployStatus) (result : String)
    (versions : Versions) : (updateDeployStatusByHash orgId confighash status result versions).rows =
      versions.rows.map (Table.setWhere (fun r => r.hash == confighash && r.orgID == orgId) (setOutcome status result)) := rfl

end AgentConf
end DsApm
