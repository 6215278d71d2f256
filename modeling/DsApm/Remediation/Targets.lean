import DsApm.Lib.Separated
import DsApm.Remediation.Proposal
import DsApm.Remediation.Store
import DsApm.Sop.Document
/-!
# Targets — the registered remediation targets

`sqlremediationtargetstore/store.go`: a target is a row whose selectors are one text, a line for each.  What is read back is
what was written exactly when no selector holds a line break and one of them says something (`stored_iff`); a selector of two
lines names two services.
-/
namespace DsApm
namespace RemediationTargets

open GoStd SqlTable SqlTable.Table Separated Remediation Regex

structure Target extends RemediationTarget where
  orgID : String
  credentialKind : String
  serviceSelectors : List String
  createdAt : String
  updatedAt : String
  deriving DecidableEq, Repr

/-- `ValidateRemediationTarget`: the texts it joins. -/
def validateRemediationTarget (t : Target) : List String :=
  (if matchString uuidV4Pattern (trimSpace t.id) then [] else ["id: must be UUID v4 (got " ++ quote t.id ++ ")"]) ++
  pilotRequireNonEmpty "orgId" t.orgID ++
  pilotRequireNonEmpty "name" t.name ++
  pilotRequireNonEmpty "host" t.host ++
  pilotRequireNonEmpty "user" t.user ++
  pilotRequireNonEmpty "hostKeyFingerprint" t.hostKeyFingerprint ++
  pilotRequireNonEmpty "sealedCredential" t.sealedCredential ++
  (if t.port < 1 ∨ 65535 < t.port then ["port: must be 1..65535 (got " ++ toString t.port ++ ")"] else []) ++
  (if trimSpace t.credentialKind = "private_key" then []
  else ["credentialKind: v1 supports only " ++ quote "private_key" ++ " (got " ++ quote t.credentialKind ++ ")"]) ++
  (if t.serviceSelectors = [] then ["serviceSelectors: at least one required"] else []) ++
  pilotAppendSecretLikeStringErrors "name" t.name

structure TargetRow extends RemediationTarget where
  orgID : String
  credentialKind : String
  serviceSelectors : String
  createdAt : String
  updatedAt : String
  deriving DecidableEq, Repr

def rowFromDomain (t : Target) : TargetRow :=
  { toRemediationTarget := t.toRemediationTarget, orgID := t.orgID, credentialKind := t.credentialKind,
    serviceSelectors := join '\n' t.serviceSelectors, createdAt := t.createdAt, updatedAt := t.updatedAt }

def TargetRow.toDomain (r : TargetRow) : Target :=
  { toRemediationTarget := r.toRemediationTarget, orgID := r.orgID, credentialKind := r.credentialKind,
    serviceSelectors := if isBlank r.serviceSelectors then [] else split '\n' r.serviceSelectors,
    createdAt := r.createdAt, updatedAt := r.updatedAt }

abbrev Targets := Table (String × String) TargetRow (fun r => (r.orgID, r.id))

def create (db : Targets) (orgID : String) (t : Target) : Targets × Option CreateError :=
  let t := { t with orgID := orgID }
  if validateRemediationTarget t = [] then match db.insert? (rowFromDomain t) with
    | some db' => (db', none)
    | none => (db, some .duplicateKey)
  else (db, some (.invalid (validateRemediationTarget t)))

/-- All columns but the two that the `WHERE` of `Update` compares. -/
def TargetRow.setColumns (row r : TargetRow) : TargetRow := { row with orgID := r.orgID, id := r.id }

theorem key_setColumns (row r : TargetRow) : ((row.setColumns r).orgID, (row.setColumns r).id) = (r.orgID, r.id) := rfl

theorem setColumns_of_key {row r : TargetRow} (h : (r.orgID, r.id) = (row.orgID, row.id)) : row.setColumns r = row := by
  obtain ⟨horg, hid⟩ := Prod.mk.inj h
  unfold TargetRow.setColumns
  rw [horg, hid]

/-- `Store.Update`; a target that is not there stays away. -/
def update (db : Targets) (orgID : String) (t : Target) : Targets × Option CreateError :=
  let t := { t with orgID := orgID }
  if validateRemediationTarget t = [] then
    (db.update (fun r => decide ((r.orgID, r.id) = (orgID, t.id)) && true) (rowFromDomain t).setColumns (key_setColumns _), none)
  else (db, some (.invalid (validateRemediationTarget t)))

def get (db : Targets) (orgID id : String) : Option Target := (db.find? (orgID, id)).map TargetRow.toDomain

def list (db : Targets) (orgID : String) : List Target :=
  ((db.rows.filter (fun r => decide (r.orgID = orgID))).insertionSort (fun a b => a.name ≤ b.name)).map TargetRow.toDomain

section
variable (fold : Char → Char)

def Target.selects (t : Target) (service : String) : Bool := t.serviceSelectors.any fun sel => equalFold fold (trimSpace sel) service

def resolve (db : Targets) (orgID : String) (labels : Sop.Labels) : Option Target :=
  let service := trimSpace (Sop.label labels "service.name")
  if service = "" then none else (list db orgID).find? (·.selects fold service)

end

/-! ## What is read back -/

/-- **Plain selectors**: none holds a line break, and one says something. -/
def Plain (selectors : List String) : Prop := (∀ sel ∈ selectors, '\n' ∉ sel.toList) ∧ ∃ sel ∈ selectors, isBlank sel = false

theorem isBlank_join (selectors : List String) : isBlank (join '\n' selectors) = selectors.all isBlank := by
  unfold isBlank join
  rw [String.toList_ofList, all_intercalate (by decide), List.all_map]
  rfl

theorem serviceSelectors_toDomain {t : Target} (h : t.serviceSelectors ≠ []) :
    (rowFromDomain t).toDomain.serviceSelectors =
      if t.serviceSelectors.all isBlank then [] else t.serviceSelectors.flatMap (split '\n') := by
  unfold TargetRow.toDomain rowFromDomain
  dsimp only
  rw [isBlank_join, split_join '\n' h]

theorem toDomain_rowFromDomain_iff {t : Target} (h : t.serviceSelectors ≠ []) :
    (rowFromDomain t).toDomain = t ↔ Plain t.serviceSelectors := by
  have hsel : (rowFromDomain t).toDomain = t ↔ (rowFromDomain t).toDomain.serviceSelectors = t.serviceSelectors := by
    constructor
    · exact congrArg Target.serviceSelectors
    · intro hs
      cases t
      simpa [TargetRow.toDomain, rowFromDomain] using hs
  rw [hsel, serviceSelectors_toDomain h, ← split_join '\n' h]
  unfold Plain
  rw [← split_join_iff h]
  cases hall : t.serviceSelectors.all isBlank with
  | true =>
    have hblank : ¬∃ sel ∈ t.serviceSelectors, isBlank sel = false := by
      rintro ⟨sel, hmem, hsel⟩
      rw [List.all_eq_true.1 hall sel hmem] at hsel
      cases hsel
    rw [if_pos rfl]
    exact ⟨fun he => absurd he.symm h, fun hp => absurd hp.2 hblank⟩
  | false =>
    have hsome : ∃ sel ∈ t.serviceSelectors, isBlank sel = false := by simpa using List.all_eq_false.1 hall
    rw [if_neg Bool.false_ne_true]
    exact ⟨fun he => ⟨he, hsome⟩, And.left⟩

theorem get_create {db : Targets} {orgID : String} {t : Target} (hvalid : validateRemediationTarget { t with orgID := orgID } = [])
    (hnew : db.find? (orgID, t.id) = none) :
    get (create db orgID t).1 orgID t.id = some (rowFromDomain { t with orgID := orgID }).toDomain := by
  obtain ⟨db', hdb'⟩ : ∃ db', db.insert? (rowFromDomain { t with orgID := orgID }) = some db' := by
    rw [← Option.ne_none_iff_exists']
    intro hn
    obtain ⟨q, hq⟩ := (insert?_eq_none db _).1 hn
    cases hnew.symm.trans hq
  unfold get create
  dsimp only
  rw [if_pos hvalid, hdb']
  dsimp only
  rw [find?_insert hdb']
  exact congrArg (Option.map TargetRow.toDomain) (if_pos rfl)

theorem get_update {db : Targets} {orgID : String} {t : Target} {row : TargetRow}
    (hvalid : validateRemediationTarget { t with orgID := orgID } = []) (hrow : db.find? (orgID, t.id) = some row) :
    get (update db orgID t).1 orgID t.id = some (rowFromDomain { t with orgID := orgID }).toDomain := by
  have hkey := ((find?_eq_some db _ _).1 hrow).2
  unfold get update
  dsimp only
  rw [if_pos hvalid, (replaced_update db (orgID, t.id) (fun _ => true) _ (key_setColumns _) hrow rfl).find, if_pos rfl,
    setColumns_of_key hkey, Option.map_some]

/-- **A target is read back as it was written**, created or updated in any store, exactly when its selectors are plain. -/
theorem stored_iff (orgID : String) (t : Target) (hvalid : validateRemediationTarget { t with orgID := orgID } = []) :
    (∀ db : Targets,
      (db.find? (orgID, t.id) = none → get (create db orgID t).1 orgID t.id = some { t with orgID := orgID }) ∧
      (db.find? (orgID, t.id) ≠ none → get (update db orgID t).1 orgID t.id = some { t with orgID := orgID })) ↔
      Plain t.serviceSelectors := by
  have hne : t.serviceSelectors ≠ [] := by
    intro h
    simp [validateRemediationTarget, h] at hvalid
  have hplain := toDomain_rowFromDomain_iff (t := { t with orgID := orgID }) hne
  constructor
  · intro h
    have hcreate := (h .empty).1 (find?_empty _)
    rw [get_create hvalid (find?_empty _)] at hcreate
    exact hplain.1 (Option.some.inj hcreate)
  · intro hp db
    refine ⟨fun hnew => ?_, fun hold => ?_⟩
    · rw [get_create hvalid hnew, hplain.2 hp]
    · obtain ⟨row, hrow⟩ := Option.ne_none_iff_exists'.1 hold
      rw [get_update hvalid hrow, hplain.2 hp]

def webTarget (selectors : List String) : Target :=
  ⟨{ id := "3f2504e0-4f89-41d3-9a0c-0305e82c3301", name := "prod-web-01", host := "10.0.0.5", port := 22, user := "deploy",
     sealedCredential := "c2VhbGVk", hostKeyFingerprint := "SHA256:abc" },
    "org-1", "private_key", selectors, "2026-07-01T00:00:00Z", "2026-07-01T00:00:00Z"⟩

theorem webTarget_stored : get (create .empty "org-1" (webTarget ["payment", "cart"])).1 "org-1" (webTarget []).id =
    some (webTarget ["payment", "cart"]) :=
  (((stored_iff "org-1" (webTarget ["payment", "cart"]) (by decide)).2 ⟨by decide, "payment", by decide, by decide⟩)
    .empty).1 rfl

/-- A selector of two lines is accepted, and names two services where it is read. -/
theorem selector_splits :
    validateRemediationTarget (webTarget ["payment\ncart"]) = [] ∧
    get (create .empty "org-1" (webTarget ["payment\ncart"])).1 "org-1" (webTarget []).id ≠ some (webTarget ["payment\ncart"]) ∧
    ((resolve toLower (create .empty "org-1" (webTarget ["payment\ncart"])).1 "org-1" [("service.name", "cart")]).map (·.id)) =
      some (webTarget []).id := by
  decide

end RemediationTargets
end DsApm
