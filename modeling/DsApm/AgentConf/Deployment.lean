import DsApm.AgentConf.Versions
import DsApm.Opamp.Agents
/-!
# Deployment — a recommended configuration and how it fared

`RecommendAgentConfig` writes into each feature's row a hash of its own, the organisation before the feature's part of the
id; the coordinator puts the organisation once before the whole id, and `ReportConfigDeploymentStatus` splits that.  So
only the first part finds a row.
-/
namespace DsApm
namespace AgentConf

open SqlTable Opamp List

def join (parts : List String) : String := String.ofList ([','].intercalate (parts.map String.toList))

def split (s : String) : List String := (s.toList.splitOn ',').map String.ofList

structure AgentFeature where
  agentFeatureType : String
  recommendAgentConfig : UUID → String → Option AgentConfigVersion → Except String (String × String)

def configIdOf (p : ElementType × Int) : String := p.1 ++ ":" ++ toString p.2

/-- The version of a feature's settings, or -1 where none is found. -/
def configVersion (latestConfig : Option AgentConfigVersion) : Int := (latestConfig.map (·.version)).getD (-1)

/-- The type and the version of a feature's settings, which its part of the id names. -/
def namedOf (orgId : UUID) (versions : Versions) (feature : AgentFeature) : ElementType × Int :=
  let featureType := newElementType feature.agentFeatureType
  (featureType, configVersion (getLatestVersion orgId featureType versions))

/-- The loop of `RecommendAgentConfig`: the recommendation and the ids of the versions used, or a feature's error with what
is added to it. -/
def recommendFeatures (orgId : UUID) : List AgentFeature → String → List String → Versions →
    Versions × Except (String × String) (String × List String)
  | [], recommendation, used, versions => (versions, .ok (recommendation, used))
  | feature :: features, recommendation, used, versions =>
    let featureType := newElementType feature.agentFeatureType
    match feature.recommendAgentConfig orgId recommendation (getLatestVersion orgId featureType versions) with
    | .error err => (versions, .error (err, "agent config recommendation for " ++ featureType ++ " failed"))
    | .ok (updatedConf, serializedSettingsUsed) =>
      let p := namedOf orgId versions feature
      recommendFeatures orgId features updatedConf (used ++ [configIdOf p])
        (updateDeployStatus orgId p.1 p.2 .deployInitiated "Deployment has started" (configIdOf p) serializedSettingsUsed versions)

/-- `RecommendAgentConfig`: the recommendation and its id, which is the digest of the recommendation without features. -/
def recommendAgentConfig (sum256 : String → String) (features : List AgentFeature) (orgId : UUID) (currentConfYaml : String)
    (versions : Versions) : Versions × Except (String × String) (String × String) :=
  match recommendFeatures orgId features currentConfYaml [] versions with
  | (versions, .error err) => (versions, .error err)
  | (versions, .ok (recommendation, used)) =>
    (versions, .ok (recommendation, if used = [] then sum256 recommendation else join used))

def outcome (agentId : String) (err : Option String) : DeployStatus × String :=
  match err with
  | none => (.deployed, "Deployment was successful")
  | some err => (.deployFailed, agentId ++ ": " ++ err)

def reportConfigDeploymentStatus (orgId : UUID) (agentId configId : String) (err : Option String) (versions : Versions) :
    Versions :=
  (split configId).foldl (fun versions featureConfId =>
    updateDeployStatusByHash orgId featureConfId (outcome agentId err).1 (outcome agentId err).2 versions) versions

def onConfigUpdate (orgId : UUID) (agentId hash : String) (err : Option String) (versions : Versions) : Versions :=
  updateDeployStatusByHash orgId hash (outcome agentId err).1 (outcome agentId err).2 versions

def called : Called Versions
  | .reportConfigDeploymentStatus => reportConfigDeploymentStatus
  | .onConfigUpdate => onConfigUpdate

inductive RemoteConfigStatuses
  | unset
  | applied
  | applying
  | failed
  deriving DecidableEq

structure RemoteConfigStatus where
  lastRemoteConfigHash : String
  status : RemoteConfigStatuses
  errorMessage : String
  deriving DecidableEq

/-- `updateRemoteConfigStatus`, with the status the agent reported before. -/
def updateRemoteConfigStatus (orgId : UUID) (agentId : String) (old new : Option RemoteConfigStatus) (subscribers : Subscribers)
    (versions : Versions) : Subscribers × Versions :=
  match new with
  | none => (subscribers, versions)
  | some status =>
    if old = some status then (subscribers, versions)
    else match status.status with
      | .applied => onConfigSuccess called orgId agentId status.lastRemoteConfigHash subscribers versions
      | .failed =>
        onConfigFailure called orgId agentId status.lastRemoteConfigHash status.errorMessage subscribers versions
      | _ => (subscribers, versions)

/-- What an agent says of a configuration in the end: that it applied it, or why not. -/
def terminal (hash : String) : Option String → RemoteConfigStatus
  | none => ⟨hash, .applied, ""⟩
  | some err => ⟨hash, .failed, err⟩

/-- What is stored after an agent's answer to a configuration it was sent, with a listener registered for it. -/
def answer (orgId : UUID) (agentId confId : String) (old : Option RemoteConfigStatus) (err : Option String)
    (subscribers : Subscribers) (versions : Versions) : Versions :=
  (updateRemoteConfigStatus orgId agentId old (some (terminal confId err))
    (listenToConfigUpdate orgId confId .reportConfigDeploymentStatus subscribers) versions).2

/-! ## The parts of an id -/

def Known (typ : ElementType) : Prop := ∃ value, newElementType value = typ

theorem Known.cases {typ : ElementType} (h : Known typ) :
    typ ∈ [elementTypeSamplingRules, elementTypeDropRules, elementTypeLogPipelines, elementTypeLbExporter, ""] := by
  obtain ⟨value, rfl⟩ := h
  unfold newElementType
  dsimp only
  split_ifs with h
  · exact mem_append_left [""] h
  · simp

theorem Known.chars {typ : ElementType} (h : Known typ) : typ.toList.length < 36 ∧ ',' ∉ typ.toList ∧ ':' ∉ typ.toList := by
  have hall : ∀ t ∈ [elementTypeSamplingRules, elementTypeDropRules, elementTypeLogPipelines, elementTypeLbExporter, ""],
      t.toList.length < 36 ∧ ',' ∉ t.toList ∧ ':' ∉ t.toList := by decide
  exact hall typ h.cases

theorem toList_toString (v : Int) : (toString v).toList =
    if v < 0 then '-' :: Nat.toDigits 10 v.natAbs else Nat.toDigits 10 v.natAbs := by
  cases v with
  | ofNat n =>
    rw [if_neg (by simp)]
    exact Nat.toList_repr
  | negSucc n =>
    rw [if_pos (Int.negSucc_lt_zero n)]
    show ("-" ++ Nat.repr (n + 1)).toList = _
    rw [String.toList_append, Nat.toList_repr]
    rfl

theorem not_mem_toString (v : Int) : ',' ∉ (toString v).toList := by
  have hdigits : ',' ∉ Nat.toDigits 10 v.natAbs := GoStd.not_mem_toDigits (by decide) _
  rw [toList_toString]
  split_ifs
  · simpa using hdigits
  · exact hdigits

theorem toString_inj {v w : Int} (h : toString v = toString w) : v = w := by
  have hchars := congrArg String.toList h
  have hhead : ∀ n : Nat, ∀ r, Nat.toDigits 10 n ≠ '-' :: r := fun n r hn =>
    GoStd.not_mem_toDigits (c := '-') (by decide) n (hn ▸ mem_cons_self)
  rw [toList_toString, toList_toString] at hchars
  split_ifs at hchars with hv hw hw
  · have := GoStd.toDigits_inj (List.cons.inj hchars).2
    omega
  · exact absurd hchars.symm (hhead _ _)
  · exact absurd hchars (hhead _ _)
  · have := GoStd.toDigits_inj hchars
    omega

theorem toList_configIdOf (p : ElementType × Int) : (configIdOf p).toList = p.1.toList ++ ':' :: (toString p.2).toList := by
  simp [configIdOf]

theorem comma_not_mem_configIdOf {p : ElementType × Int} (h : Known p.1) : ',' ∉ (configIdOf p).toList := by
  rw [toList_configIdOf, mem_append, mem_cons, not_or, not_or]
  exact ⟨h.chars.2.1, by decide, not_mem_toString p.2⟩

theorem configIdOf_inj {p q : ElementType × Int} (hp : Known p.1) (hq : Known q.1) (h : configIdOf p = configIdOf q) : p = q := by
  have hchars := congrArg String.toList h
  rw [toList_configIdOf, toList_configIdOf] at hchars
  -- the types end at the first colon
  have htake := congrArg (List.takeWhile (· ≠ ':')) hchars
  have hstop : ∀ (t r : List Char), ':' ∉ t → (t ++ ':' :: r).takeWhile (· ≠ ':') = t := fun t r ht => by
    rw [takeWhile_append_of_pos (fun c hc => by simpa using fun heq : c = ':' => ht (heq ▸ hc))]
    simp
  rw [hstop _ _ hp.chars.2.2, hstop _ _ hq.chars.2.2] at htake
  rw [htake, append_cancel_left_eq, List.cons.injEq] at hchars
  exact Prod.ext (String.toList_injective htake) (toString_inj (String.toList_injective hchars.2))

theorem split_ofList_intercalate {parts : List String} (hne : parts ≠ []) (h : ∀ p ∈ parts, ',' ∉ p.toList) : split (join parts) = parts := by
  unfold split join
  rw [String.toList_ofList, splitOn_intercalate]
  · simp [Function.comp_def]
  · simpa using h
  · simpa using hne

/-! ## The hashes -/

abbrev AgentConfigVersion.pair (r : AgentConfigVersion) : ElementType × Int := (r.elementType, r.version)

/-- **A hash begins with its row's organisation, and one that reads as an id names its row.** -/
structure Hashed (versions : Versions) : Prop where
  prefixed : ∀ r ∈ versions.rows, r.hash = "" ∨ ∃ rest, r.hash = r.orgID.text ++ rest
  own : ∀ r ∈ versions.rows, ∀ l : List (ElementType × Int), l ≠ [] → (∀ p ∈ l, Known p.1) →
    r.hash = r.orgID.text ++ join (l.map configIdOf) → l = [r.pair]

theorem split_orgId (orgId : UUID) (p : String) (parts : List String) (h : ∀ q ∈ p :: parts, ',' ∉ q.toList) :
    split (orgId.text ++ join (p :: parts)) = (orgId.text ++ p) :: parts := by
  have hjoin : orgId.text ++ join (p :: parts) = join ((orgId.text ++ p) :: parts) := by
    refine String.toList_injective ?_
    cases parts <;> simp [join]
  have horg : ',' ∉ orgId.text.toList := fun hin => by
    rw [UUID.toList_text] at hin
    exact absurd (UUID.isDigit_of_mem_chars hin) (by decide)
  rw [hjoin]
  refine split_ofList_intercalate (cons_ne_nil _ _) fun q hq => ?_
  rcases mem_cons.1 hq with rfl | hq
  · rw [String.toList_append, mem_append, not_or]
    exact ⟨horg, h p mem_cons_self⟩
  · exact h q (mem_cons_of_mem _ hq)

theorem configIdOf_ne_append (orgId : UUID) {p : ElementType × Int} (h : Known p.1) (rest : String) :
    configIdOf p ≠ orgId.text ++ rest := fun heq => by
  have hchars := congrArg String.toList heq
  rw [toList_configIdOf, String.toList_append, UUID.toList_text] at hchars
  have hfront : p.1.toList ++ [':'] <+: orgId.chars ++ rest.toList := by
    rw [← hchars]
    exact ⟨_, by rw [List.append_assoc]; rfl⟩
  have hcolon : p.1.toList ++ [':'] <+: orgId.chars := by
    refine prefix_of_prefix_length_le hfront (prefix_append _ _) ?_
    rw [List.length_append, UUID.length_chars]
    exact h.chars.1
  have hin : ':' ∈ orgId.chars := hcolon.subset (mem_append_right _ (mem_singleton_self _))
  exact absurd (UUID.isDigit_of_mem_chars hin) (by decide)

theorem configIdOf_ne_empty (p : ElementType × Int) : configIdOf p ≠ "" := fun h => by
  have hchars := congrArg String.toList h
  rw [toList_configIdOf] at hchars
  simp at hchars

theorem withOrg_configIdOf (orgId : UUID) {p : ElementType × Int} (h : Known p.1) :
    withOrg orgId (configIdOf p) = orgId.text ++ configIdOf p := by
  unfold withOrg
  rw [if_neg]
  intro hp
  obtain ⟨rest, hrest⟩ := isPrefixOf_iff_prefix.1 hp
  refine configIdOf_ne_append orgId h (String.ofList rest) (String.toList_injective ?_)
  rw [String.toList_append, String.toList_ofList, hrest]

/-! ## What a recommendation writes -/

def namedBy (orgId : UUID) (features : List AgentFeature) (versions : Versions) : List (ElementType × Int) :=
  features.map (namedOf orgId versions)

theorem known_of_mem_namedBy {orgId : UUID} {features : List AgentFeature} {versions : Versions} {p : ElementType × Int}
    (h : p ∈ namedBy orgId features versions) : Known p.1 := by
  obtain ⟨feature, -, rfl⟩ := List.mem_map.1 h
  exact ⟨feature.agentFeatureType, rfl⟩

theorem latest_of_keys {t t' : Versions} (h : t'.rows.map AgentConfigVersion.key = t.rows.map AgentConfigVersion.key)
    (orgId : UUID) (typ : ElementType) :
    (getLatestVersion orgId typ t').map (·.version) = (getLatestVersion orgId typ t).map (·.version) := by
  have hmem : ∀ (t : Versions) v, v ∈ versionsOf orgId typ t.rows ↔ (orgId, v, typ) ∈ t.rows.map AgentConfigVersion.key :=
    fun t v => by
      rw [mem_versionsOf, List.mem_map]
      simp only [AgentConfigVersion.key, Prod.mk.injEq]
      exact exists_congr fun r => by tauto
  have hle : ∀ (t : Versions) v, (∀ r ∈ t.rows, r.version ≤ v) ↔ ∀ k ∈ t.rows.map AgentConfigVersion.key, k.2.1 ≤ v :=
    fun t v => by simp
  refine Option.ext fun v => ?_
  rw [getLatestVersion_eq_some, getLatestVersion_eq_some, hmem, hmem, hle, hle, h]

theorem namedBy_of_keys {t t' : Versions} (h : t'.rows.map AgentConfigVersion.key = t.rows.map AgentConfigVersion.key)
    (orgId : UUID) (features : List AgentFeature) : namedBy orgId features t' = namedBy orgId features t := by
  unfold namedBy
  refine map_congr_left fun feature _ => ?_
  simp only [namedOf, configVersion, latest_of_keys h]

/-- **Rows of the named versions are started under a hash of their own**, and no other row changes. -/
structure Starts (orgId : UUID) (named : List (ElementType × Int)) (g : AgentConfigVersion → AgentConfigVersion) : Prop where
  key : ∀ r, (g r).key = r.key
  others : ∀ r, ¬ (r.orgID = orgId ∧ r.pair ∈ named) → g r = r
  started : ∀ r, r.orgID = orgId → r.pair ∈ named →
    (g r).hash = orgId.text ++ configIdOf r.pair ∧ (g r).deployStatus = .deployInitiated

theorem starts_cons {orgId : UUID} {p : ElementType × Int} {named : List (ElementType × Int)}
    {g : AgentConfigVersion → AgentConfigVersion} (hp : Known p.1) (h : Starts orgId named g) (conf : String) :
    Starts orgId (p :: named) (g ∘ Table.setWhere (fun r => r.version == p.2 && r.elementType == p.1 && r.orgID == orgId)
      (setDeployment .deployInitiated "Deployment has started" (withOrg orgId (configIdOf p)) conf)) := by
  have hcond : ∀ r : AgentConfigVersion,
      (r.version == p.2 && r.elementType == p.1 && r.orgID == orgId) = true ↔ r.orgID = orgId ∧ r.pair = p := fun r => by
    simp only [Bool.and_eq_true, beq_iff_eq, AgentConfigVersion.pair, Prod.ext_iff]
    tauto
  refine ⟨fun r => ?_, fun r hr => ?_, fun r horg hr => ?_⟩
  · rw [Function.comp_apply, h.key]
    unfold Table.setWhere
    split_ifs <;> rfl
  · have hne : ¬ (r.orgID = orgId ∧ r.pair = p) := fun hr' => hr ⟨hr'.1, by rw [hr'.2]; exact mem_cons_self⟩
    rw [Function.comp_apply, Table.setWhere, if_neg (fun hc => hne ((hcond r).1 hc))]
    exact h.others r fun hr' => hr ⟨hr'.1, mem_cons_of_mem _ hr'.2⟩
  · rw [Function.comp_apply, Table.setWhere]
    by_cases hlater : r.pair ∈ named
    · split_ifs
      · exact h.started _ horg hlater
      · exact h.started r horg hlater
    · have hpair : r.pair = p := (mem_cons.1 hr).resolve_right hlater
      have hsame : g (setDeployment .deployInitiated "Deployment has started" (withOrg orgId (configIdOf p)) conf r) =
          setDeployment .deployInitiated "Deployment has started" (withOrg orgId (configIdOf p)) conf r :=
        h.others _ fun hr' => hlater hr'.2
      rw [if_pos ((hcond r).2 ⟨horg, hpair⟩), hsame, hpair]
      exact ⟨withOrg_configIdOf orgId hp, rfl⟩

theorem recommendFeatures_spec (orgId : UUID) : ∀ (features : List AgentFeature) (conf : String) (used : List String)
    (t t' : Versions) (conf' : String) (used' : List String),
    recommendFeatures orgId features conf used t = (t', .ok (conf', used')) →
      used' = used ++ (namedBy orgId features t).map configIdOf ∧
      ∃ g, t'.rows = t.rows.map g ∧ Starts orgId (namedBy orgId features t) g
  | [], conf, used, t, t', conf', used', h => by
    simp only [recommendFeatures, Prod.mk.injEq, Except.ok.injEq] at h
    obtain ⟨rfl, rfl, rfl⟩ := h
    exact ⟨(append_nil _).symm, id, (List.map_id _).symm, fun _ => rfl, fun _ _ => rfl, fun r _ hr => by cases hr⟩
  | feature :: features, conf, used, t, t', conf', used', h => by
    rw [recommendFeatures] at h
    dsimp only at h
    have hknown : Known (namedOf orgId t feature).1 := ⟨feature.agentFeatureType, rfl⟩
    have hnamed : namedBy orgId (feature :: features) t = namedOf orgId t feature :: namedBy orgId features t := rfl
    rw [hnamed]
    generalize namedOf orgId t feature = p at h hknown
    cases hrec : feature.recommendAgentConfig orgId conf (getLatestVersion orgId (newElementType feature.agentFeatureType) t) with
    | error err =>
      rw [hrec] at h
      cases h
    | ok answer =>
      rw [hrec] at h
      dsimp only at h
      have hkeys : (updateDeployStatus orgId p.1 p.2 .deployInitiated "Deployment has started" (configIdOf p) answer.2 t).rows.map
          AgentConfigVersion.key = t.rows.map AgentConfigVersion.key := Table.map_update _ _ _ _ _ (fun _ => rfl)
      obtain ⟨hused, g, hrows, hstarts⟩ := recommendFeatures_spec orgId features _ _ _ _ _ _ h
      rw [namedBy_of_keys hkeys] at hused hstarts
      rw [rows_updateDeployStatus, List.map_map] at hrows
      refine ⟨by rw [hused, List.append_assoc]; rfl, _, hrows, starts_cons hknown hstarts _⟩

/-- **A recommendation starts the rows of the versions its id names.** -/
theorem recommendAgentConfig_spec {sum256 : String → String} {features : List AgentFeature} {orgId : UUID} {conf conf' confId : String}
    {t t' : Versions} (h : recommendAgentConfig sum256 features orgId conf t = (t', .ok (conf', confId))) :
    (∃ g, t'.rows = t.rows.map g ∧ Starts orgId (namedBy orgId features t) g) ∧
    ((namedBy orgId features t = [] ∧ conf' = conf ∧ confId = sum256 conf) ∨
      (namedBy orgId features t ≠ [] ∧ confId = join ((namedBy orgId features t).map configIdOf))) := by
  unfold recommendAgentConfig at h
  cases hloop : recommendFeatures orgId features conf [] t with
  | mk t₁ result =>
    rw [hloop] at h
    cases result with
    | error err => cases h
    | ok answer =>
      simp only [Prod.mk.injEq, Except.ok.injEq] at h
      obtain ⟨rfl, rfl, rfl⟩ := h
      obtain ⟨hused, hstarts⟩ := recommendFeatures_spec orgId features conf [] t t₁ answer.1 answer.2 hloop
      refine ⟨hstarts, ?_⟩
      rw [hused, nil_append]
      by_cases hnil : namedBy orgId features t = []
      · have hfeatures : features = [] := map_eq_nil_iff.1 hnil
        subst hfeatures
        simp only [recommendFeatures, Prod.mk.injEq, Except.ok.injEq] at hloop
        exact Or.inl ⟨hnil, by rw [← hloop.2], by rw [hnil, map_nil, if_pos rfl, ← hloop.2]⟩
      · exact Or.inr ⟨hnil, by rw [if_neg (by simpa using hnil)]⟩

/-! ## What a report writes -/

def mark (orgId : UUID) (p : Option (ElementType × Int)) (agentId : String) (err : Option String) (r : AgentConfigVersion) :
    AgentConfigVersion :=
  if r.orgID = orgId ∧ p = some r.pair then setOutcome (outcome agentId err).1 (outcome agentId err).2 r else r

/-- **What the listeners' key finds**: its first part the row of one version at most, the others none, and the whole of it
that row or none. -/
structure Finds (orgId : UUID) (key : String) (p : Option (ElementType × Int)) (t : Versions) : Prop where
  parts : ∃ h rest, split key = h :: rest ∧ ∀ r ∈ t.rows, r.orgID = orgId → (r.hash = h ↔ p = some r.pair) ∧ r.hash ∉ rest
  whole : (∀ r ∈ t.rows, r.orgID = orgId → (r.hash = key ↔ p = some r.pair)) ∨ ∀ r ∈ t.rows, r.orgID = orgId → r.hash ≠ key

section
variable {orgId : UUID} {key : String} {p : Option (ElementType × Int)} {agentId : String} {err : Option String}

theorem mark_mark (r : AgentConfigVersion) : mark orgId p agentId err (mark orgId p agentId err r) = mark orgId p agentId err r := by
  unfold mark
  by_cases h : r.orgID = orgId ∧ p = some r.pair
  · rw [if_pos h]
    exact if_pos h
  · rw [if_neg h, if_neg h]

theorem Finds.of_marked {t t' : Versions} (h : Finds orgId key p t) (hrows : t'.rows = t.rows.map (mark orgId p agentId err)) :
    Finds orgId key p t' := by
  have hcols : ∀ r, (mark orgId p agentId err r).hash = r.hash ∧ (mark orgId p agentId err r).orgID = r.orgID ∧
      (mark orgId p agentId err r).pair = r.pair := fun r => by
    unfold mark
    split_ifs <;> exact ⟨rfl, rfl, rfl⟩
  obtain ⟨head, rest, hsplit, hparts⟩ := h.parts
  refine ⟨⟨head, rest, hsplit, fun r hr horg => ?_⟩, h.whole.imp (fun hw r hr horg => ?_) (fun hw r hr horg => ?_)⟩
  all_goals
    rw [hrows] at hr
    obtain ⟨q, hq, rfl⟩ := List.mem_map.1 hr
    rw [(hcols q).2.1] at horg
    rw [(hcols q).1]
  · rw [(hcols q).2.2]
    exact hparts q hq horg
  · rw [(hcols q).2.2]
    exact hw q hq horg
  · exact hw q hq horg

theorem rows_update_found (agentId : String) (err : Option String) {t : Versions} {h : String} (hf : ∀ r ∈ t.rows, r.orgID = orgId → (r.hash = h ↔ p = some r.pair)) :
    (updateDeployStatusByHash orgId h (outcome agentId err).1 (outcome agentId err).2 t).rows =
      t.rows.map (mark orgId p agentId err) := by
  rw [rows_updateDeployStatusByHash]
  refine map_congr_left fun r hr => ?_
  unfold Table.setWhere mark
  by_cases horg : r.orgID = orgId
  · by_cases hh : r.hash = h
    · rw [if_pos (by simp [horg, hh]), if_pos ⟨horg, (hf r hr horg).1 hh⟩]
    · rw [if_neg (by simp [hh]), if_neg (fun hc => hh ((hf r hr horg).2 hc.2))]
  · rw [if_neg (by simp [horg]), if_neg (fun hc => horg hc.1)]

theorem rows_update_missed {t : Versions} {h : String} {status : DeployStatus} {result : String}
    (hf : ∀ r ∈ t.rows, r.orgID = orgId → r.hash ≠ h) : (updateDeployStatusByHash orgId h status result t).rows = t.rows := by
  rw [rows_updateDeployStatusByHash]
  refine (map_congr_left fun r hr => ?_).trans (List.map_id _)
  unfold Table.setWhere
  rw [if_neg]
  · rfl
  · simp only [Bool.and_eq_true, beq_iff_eq, not_and]
    exact fun hh horg => hf r hr horg hh

theorem rows_foldl_missed (status : DeployStatus) (result : String) : ∀ (rest : List String) (t : Versions),
    (∀ r ∈ t.rows, r.orgID = orgId → r.hash ∉ rest) →
      (rest.foldl (fun t h => updateDeployStatusByHash orgId h status result t) t).rows = t.rows
  | [], _, _ => rfl
  | h :: rest, t, hf => by
    have hmissed : (updateDeployStatusByHash orgId h status result t).rows = t.rows :=
      rows_update_missed fun r hr horg heq => hf r hr horg (heq ▸ mem_cons_self)
    rw [foldl_cons, rows_foldl_missed status result rest _ (fun r hr horg hin => by
      rw [hmissed] at hr
      exact hf r hr horg (mem_cons_of_mem _ hin)), hmissed]

theorem rows_report {t : Versions} (h : Finds orgId key p t) :
    (reportConfigDeploymentStatus orgId agentId key err t).rows = t.rows.map (mark orgId p agentId err) := by
  obtain ⟨head, rest, hsplit, hparts⟩ := h.parts
  have hfound := rows_update_found agentId err (fun r hr horg => (hparts r hr horg).1)
  unfold reportConfigDeploymentStatus
  rw [hsplit, foldl_cons, rows_foldl_missed, hfound]
  intro r hr horg
  rw [hfound] at hr
  obtain ⟨q, hq, rfl⟩ := List.mem_map.1 hr
  unfold mark at horg ⊢
  split_ifs at horg ⊢ with hc
  · exact (hparts q hq hc.1).2
  · exact (hparts q hq horg).2

/-- **The listeners under a key mark the version it finds**, each as often as it is called. -/
theorem rows_called (agentId : String) (err : Option String) : ∀ (subs : List OnChangeCallback) {t : Versions}, Finds orgId key p t →
    let t' := subs.foldl (fun t cb => called cb orgId agentId key err t) t
    (t'.rows = t.rows ∧ .reportConfigDeploymentStatus ∉ subs) ∨ t'.rows = t.rows.map (mark orgId p agentId err)
  | [], _, _ => Or.inl ⟨rfl, not_mem_nil⟩
  | cb :: subs, t, h => by
    have hone : (called cb orgId agentId key err t).rows = t.rows.map (mark orgId p agentId err) ∨
        ((called cb orgId agentId key err t).rows = t.rows ∧ cb ≠ .reportConfigDeploymentStatus) := by
      cases cb with
      | reportConfigDeploymentStatus => exact Or.inl (rows_report h)
      | onConfigUpdate =>
        rcases h.whole with hw | hw
        · exact Or.inl (rows_update_found agentId err hw)
        · exact Or.inr ⟨rows_update_missed hw, by decide⟩
    dsimp only
    rw [foldl_cons]
    rcases hone with hone | ⟨hone, hcb⟩
    · right
      have hmm : (t.rows.map (mark orgId p agentId err)).map (mark orgId p agentId err) = t.rows.map (mark orgId p agentId err) := by
        rw [List.map_map]
        exact map_congr_left fun r _ => mark_mark r
      rcases rows_called agentId err subs (h.of_marked hone) with ⟨hrest, -⟩ | hrest
      · exact hrest.trans hone
      · exact hrest.trans (by rw [hone, hmm])
    · have hsame : called cb orgId agentId key err t = t := Table.ext_rows hone
      rw [hsame]
      rcases rows_called agentId err subs h with ⟨hrest, hnot⟩ | hrest
      · exact Or.inl ⟨hrest, by rw [mem_cons, not_or]; exact ⟨hcb.symm, hnot⟩⟩
      · exact Or.inr hrest

theorem rows_answer {confId : String} {t : Versions} (h : Finds orgId (getSubscriberKey orgId confId) p t)
    (old : Option RemoteConfigStatus) (subscribers : Subscribers) :
    (answer orgId agentId confId old err subscribers t).rows =
      if old = some (terminal confId err) then t.rows else t.rows.map (mark orgId p agentId err) := by
  have hlisten : ∃ subs, (listenToConfigUpdate orgId confId .reportConfigDeploymentStatus subscribers).lookup
      (getSubscriberKey orgId confId) = some subs ∧ .reportConfigDeploymentStatus ∈ subs := listening_listen _ _ _ _
  obtain ⟨subs, hlookup, hin⟩ := hlisten
  have hmarked := (rows_called agentId err subs h).resolve_left fun hn => hn.2 hin
  unfold answer updateRemoteConfigStatus
  by_cases hold : old = some (terminal confId err)
  · simp only [if_pos hold]
  · simp only [if_neg hold]
    cases err with
    | none =>
      simp only [terminal, onConfigSuccess, notifySubscribers, hlookup]
      exact hmarked
    | some e =>
      simp only [terminal, onConfigFailure, notifySubscribers, hlookup]
      exact hmarked

end

/-- **After a recommendation, the key of its id finds the first version the id names.** -/
theorem finds_started {orgId : UUID} {features : List AgentFeature} {t t₁ : Versions} (h : Hashed t)
    {g : AgentConfigVersion → AgentConfigVersion} (hrows : t₁.rows = t.rows.map g)
    (hstarts : Starts orgId (namedBy orgId features t) g) (hne : namedBy orgId features t ≠ []) :
    Finds orgId (getSubscriberKey orgId (join ((namedBy orgId features t).map configIdOf))) (namedBy orgId features t).head? t₁ := by
  have hknown : ∀ p ∈ namedBy orgId features t, Known p.1 := fun p hp => known_of_mem_namedBy hp
  generalize namedBy orgId features t = named at hstarts hne hknown ⊢
  obtain ⟨p, ps, rfl⟩ := exists_cons_of_ne_nil hne
  have hparts : ∀ q ∈ configIdOf p :: ps.map configIdOf, ',' ∉ q.toList := fun q hq => by
    obtain ⟨x, hx, rfl⟩ := List.mem_map.1 (show q ∈ (p :: ps).map configIdOf from hq)
    exact comma_not_mem_configIdOf (hknown x hx)
  have hp := hknown p mem_cons_self
  -- a row of the organisation has its own hash, or none of the named ones
  have hhash : ∀ r ∈ t₁.rows, r.orgID = orgId →
      (r.pair ∈ p :: ps ∧ r.hash = orgId.text ++ configIdOf r.pair) ∨
      (r.pair ∉ p :: ps ∧ r ∈ t.rows) := fun r hr horg => by
    rw [hrows] at hr
    obtain ⟨q, hq, rfl⟩ := List.mem_map.1 hr
    have hkey := hstarts.key q
    simp only [AgentConfigVersion.key, Prod.mk.injEq] at hkey
    have hpair : (g q).pair = q.pair := Prod.ext hkey.2.2 hkey.2.1
    rw [hkey.1] at horg
    rw [hpair]
    by_cases hin : q.pair ∈ p :: ps
    · exact Or.inl ⟨hin, (hstarts.started q horg hin).1⟩
    · rw [hstarts.others q fun hc => hin hc.2]
      exact Or.inr ⟨hin, hq⟩
  have hfirst : ∀ r ∈ t₁.rows, r.orgID = orgId → (r.hash = orgId.text ++ configIdOf p ↔ some p = some r.pair) := fun r hr horg => by
    rw [Option.some_inj]
    rcases hhash r hr horg with ⟨hin, hash⟩ | ⟨hout, hrt⟩
    · rw [hash]
      exact ⟨fun heq => (configIdOf_inj (hknown _ hin) hp ((String.append_right_inj _).1 heq)).symm, fun heq => by rw [heq]⟩
    · have hno : p ≠ r.pair := fun heq => hout (heq ▸ mem_cons_self)
      refine iff_of_false (fun heq => ?_) hno
      have hown := h.own r hrt [p] (cons_ne_nil _ _) (by simpa using hp) (by
        rw [heq, horg]
        simp [join])
      exact hno (List.cons.inj hown).1
  constructor
  · refine ⟨orgId.text ++ configIdOf p, ps.map configIdOf, split_orgId orgId _ _ hparts, fun r hr horg => ⟨hfirst r hr horg, ?_⟩⟩
    intro hin
    obtain ⟨x, hx, heq⟩ := List.mem_map.1 hin
    have hx' := hknown x (mem_cons_of_mem _ hx)
    rcases hhash r hr horg with ⟨-, hash⟩ | ⟨-, hrt⟩
    · exact configIdOf_ne_append orgId hx' _ (heq.trans hash)
    · rcases h.prefixed r hrt with hnil | ⟨rest, hrest⟩
      · exact configIdOf_ne_empty x (heq.trans hnil)
      · exact configIdOf_ne_append _ hx' rest (heq.trans hrest)
  · by_cases hps : ps = []
    · subst hps
      have hkey : getSubscriberKey orgId (join ([p].map configIdOf)) = orgId.text ++ configIdOf p := by
        simp [getSubscriberKey, join]
      rw [hkey]
      exact Or.inl hfirst
    · refine Or.inr fun r hr horg heq => hps ?_
      rcases hhash r hr horg with ⟨hin, hash⟩ | ⟨-, hrt⟩
      · -- one part is not several
        rw [hash, getSubscriberKey, String.append_right_inj] at heq
        have hone : split (configIdOf r.pair) = [configIdOf r.pair] := by
          have := split_ofList_intercalate (cons_ne_nil (configIdOf r.pair) [])
            (by simpa using comma_not_mem_configIdOf (hknown _ hin))
          simpa [join] using this
        rw [heq, map_cons, split_ofList_intercalate (cons_ne_nil _ _) hparts, List.cons.injEq] at hone
        exact map_eq_nil_iff.1 hone.2
      · have hown := h.own r hrt (p :: ps) (cons_ne_nil _ _) hknown (by rw [heq, horg]; rfl)
        exact (List.cons.inj hown).2

/-! ## The report -/

/-- **Every named version's row has the reported status, and no other row is changed.** -/
structure Reported (orgId : UUID) (named : List (ElementType × Int)) (status : DeployStatus) (t t' : Versions) : Prop where
  keys : t'.rows.map AgentConfigVersion.key = t.rows.map AgentConfigVersion.key
  reached : ∀ r ∈ t'.rows, r.orgID = orgId → r.pair ∈ named → r.deployStatus = status
  others : ∀ r ∈ t.rows, ¬ (r.orgID = orgId ∧ r.pair ∈ named) → r ∈ t'.rows

theorem outcome_ne_initiated (agentId : String) (err : Option String) : DeployStatus.deployInitiated ≠ (outcome agentId err).1 := by
  cases err <;> exact DeployStatus.noConfusion

def answered (orgId : UUID) (agentId confId : String) (old : Option RemoteConfigStatus) (err : Option String)
    (first : Option (ElementType × Int)) (g : AgentConfigVersion → AgentConfigVersion) (r : AgentConfigVersion) :
    AgentConfigVersion :=
  if old = some (terminal confId err) then g r else mark orgId first agentId err (g r)

section
variable {sum256 : String → String} {t t₁ : Versions} {features : List AgentFeature} {orgId : UUID}
  {conf conf' confId : String}

/-- **What a deployment does to the rows**: those that are named are started, and a report that is news marks the first. -/
theorem rows_deployed (agentId : String) (h : Hashed t)
    (hdigest : features = [] → ∀ r ∈ t.rows, r.orgID = orgId →
      r.hash ≠ orgId.text ++ sum256 conf ∧ r.hash ∉ split (orgId.text ++ sum256 conf))
    (hrec : recommendAgentConfig sum256 features orgId conf t = (t₁, .ok (conf', confId)))
    (old : Option RemoteConfigStatus) (err : Option String) (subscribers : Subscribers) :
    ∃ g, Starts orgId (namedBy orgId features t) g ∧ (answer orgId agentId confId old err subscribers t₁).rows =
      t.rows.map (answered orgId agentId confId old err (namedBy orgId features t).head? g) := by
  obtain ⟨⟨g, hrows, hstarts⟩, hid⟩ := recommendAgentConfig_spec hrec
  have hfinds : Finds orgId (getSubscriberKey orgId confId) (namedBy orgId features t).head? t₁ := by
    rcases hid with ⟨hnil, -, rfl⟩ | ⟨hne, rfl⟩
    · have hsame : t₁.rows = t.rows := by
        rw [hrows]
        exact (map_congr_left fun r _ => hstarts.others r fun hc => by
          rw [hnil] at hc
          cases hc.2).trans (List.map_id _)
      have hno := hdigest (map_eq_nil_iff.1 hnil)
      rw [← hsame] at hno
      rw [hnil]
      refine ⟨?_, Or.inr fun r hr horg => (hno r hr horg).1⟩
      have hsplit : split (getSubscriberKey orgId (sum256 conf)) ≠ [] := by
        unfold split
        rw [Ne, map_eq_nil_iff]
        exact splitOnP_ne_nil _ _
      obtain ⟨head, rest, heq⟩ := exists_cons_of_ne_nil hsplit
      refine ⟨head, rest, heq, fun r hr horg => ?_⟩
      have hout : r.hash ∉ head :: rest := heq ▸ (hno r hr horg).2
      rw [mem_cons, not_or] at hout
      exact ⟨iff_of_false hout.1 (by simp), hout.2⟩
    · exact finds_started h hrows hstarts hne
  refine ⟨g, hstarts, ?_⟩
  rw [rows_answer hfinds, hrows]
  unfold answered
  split_ifs
  · rfl
  · rw [List.map_map]
    rfl

end

section
variable {orgId : UUID} {named : List (ElementType × Int)} {g : AgentConfigVersion → AgentConfigVersion} {agentId confId : String}
  {old : Option RemoteConfigStatus} {err : Option String}

theorem key_answered (agentId confId : String) (old : Option RemoteConfigStatus) (err : Option String) (h : Starts orgId named g)
    (r : AgentConfigVersion) :
    (answered orgId agentId confId old err named.head? g r).key = r.key := by
  unfold answered mark
  split_ifs <;> exact h.key r

theorem pair_of_key {r q : AgentConfigVersion} (h : q.key = r.key) : q.orgID = r.orgID ∧ q.pair = r.pair := by
  simp only [AgentConfigVersion.key, Prod.mk.injEq] at h
  exact ⟨h.1, Prod.ext h.2.2 h.2.1⟩

theorem deployStatus_answered (h : Starts orgId named g) {r : AgentConfigVersion} (horg : r.orgID = orgId) (hin : r.pair ∈ named) :
    (answered orgId agentId confId old err named.head? g r).deployStatus = (outcome agentId err).1 ↔
      old ≠ some (terminal confId err) ∧ named.head? = some r.pair := by
  have hinit := (h.started r horg hin).2
  have hkey := pair_of_key (h.key r)
  unfold answered
  by_cases hold : old = some (terminal confId err)
  · rw [if_pos hold, hinit]
    exact iff_of_false (outcome_ne_initiated agentId err) fun hc => hc.1 hold
  · rw [if_neg hold, and_iff_right hold, mark, hkey.1, hkey.2]
    split_ifs with hhead
    · exact iff_of_true rfl hhead.2
    · rw [hinit]
      exact iff_of_false (outcome_ne_initiated agentId err) fun hc => hhead ⟨horg, hc⟩

theorem answered_others (h : Starts orgId named g) {r : AgentConfigVersion} (hout : ¬ (r.orgID = orgId ∧ r.pair ∈ named)) :
    answered orgId agentId confId old err named.head? g r = r := by
  unfold answered
  rw [h.others r hout]
  split_ifs
  · rfl
  · exact if_neg fun hc => hout ⟨hc.1, mem_of_mem_head? hc.2⟩

end

/-- **The report reaches every named row exactly when the agent's answer is news and only the first part of the id names a
stored row.** -/
theorem deployment_reported_iff (sum256 : String → String) {t t₁ : Versions} (h : Hashed t) (features : List AgentFeature)
    (orgId : UUID) (agentId conf conf' confId : String)
    (hdigest : features = [] → ∀ r ∈ t.rows, r.orgID = orgId →
      r.hash ≠ orgId.text ++ sum256 conf ∧ r.hash ∉ split (orgId.text ++ sum256 conf))
    (hrec : recommendAgentConfig sum256 features orgId conf t = (t₁, .ok (conf', confId)))
    (old : Option RemoteConfigStatus) (err : Option String) (subscribers : Subscribers) :
    Reported orgId (namedBy orgId features t) (outcome agentId err).1 t (answer orgId agentId confId old err subscribers t₁) ↔
      ∀ r ∈ t.rows, r.orgID = orgId → r.pair ∈ namedBy orgId features t →
        old ≠ some (terminal confId err) ∧ (namedBy orgId features t).head? = some r.pair := by
  obtain ⟨g, hstarts, hrows⟩ := rows_deployed agentId h hdigest hrec old err subscribers
  constructor
  · intro hreported r hr horg hin
    have hkey := pair_of_key (key_answered agentId confId old err hstarts r)
    have hmem := List.mem_map_of_mem (f := answered orgId agentId confId old err (namedBy orgId features t).head? g) hr
    rw [← hrows] at hmem
    exact (deployStatus_answered hstarts horg hin).1 (hreported.reached _ hmem (hkey.1.trans horg) (by rw [hkey.2]; exact hin))
  · intro hcond
    refine ⟨?_, fun r hr horg hin => ?_, fun r hr hout => ?_⟩
    · rw [hrows, List.map_map]
      exact map_congr_left fun r _ => key_answered agentId confId old err hstarts r
    · rw [hrows] at hr
      obtain ⟨q, hq, rfl⟩ := List.mem_map.1 hr
      have hkey := pair_of_key (key_answered agentId confId old err hstarts q)
      rw [hkey.1] at horg
      rw [hkey.2] at hin
      exact (deployStatus_answered hstarts horg hin).2 (hcond q hq horg hin)
    · rw [hrows]
      exact List.mem_map.2 ⟨r, hr, answered_others hstarts hout⟩

/-! ## The hashes stay as they are -/

theorem hashed_empty : Hashed Table.empty := ⟨fun r hr => (by cases hr), fun r hr => (by cases hr)⟩

theorem hashed_updateDeployStatus {t : Versions} (h : Hashed t) (orgId : UUID) {p : ElementType × Int} (hp : Known p.1)
    (status : DeployStatus) (result conf : String) :
    Hashed (updateDeployStatus orgId p.1 p.2 status result (configIdOf p) conf t) := by
  have hrow : ∀ r ∈ (updateDeployStatus orgId p.1 p.2 status result (configIdOf p) conf t).rows, r ∈ t.rows ∨
      (r.hash = r.orgID.text ++ configIdOf p ∧ r.pair = p) := fun r hr => by
    rw [rows_updateDeployStatus] at hr
    obtain ⟨q, hq, rfl⟩ := List.mem_map.1 hr
    unfold Table.setWhere
    split_ifs with hc
    · simp only [Bool.and_eq_true, beq_iff_eq] at hc
      refine Or.inr ⟨?_, Prod.ext hc.1.2 hc.1.1⟩
      show withOrg orgId (configIdOf p) = q.orgID.text ++ configIdOf p
      rw [withOrg_configIdOf orgId hp, hc.2]
    · exact Or.inl hq
  refine ⟨fun r hr => ?_, fun r hr l hne hl heq => ?_⟩
  · rcases hrow r hr with hr | ⟨hash, -⟩
    · exact h.prefixed r hr
    · exact Or.inr ⟨_, hash⟩
  · rcases hrow r hr with hr | ⟨hash, hpair⟩
    · exact h.own r hr l hne hl heq
    · rw [hash, String.append_right_inj] at heq
      have hone : split (join [configIdOf p]) = [configIdOf p] :=
        split_ofList_intercalate (cons_ne_nil _ _) (by simpa using comma_not_mem_configIdOf hp)
      have hparts : split (join (l.map configIdOf)) = l.map configIdOf :=
        split_ofList_intercalate (by simpa using hne) fun q hq => by
          obtain ⟨x, hx, rfl⟩ := List.mem_map.1 hq
          exact comma_not_mem_configIdOf (hl x hx)
      have hjoin : join [configIdOf p] = configIdOf p := by simp [join]
      rw [hjoin, heq, hparts] at hone
      obtain ⟨q, rfl, hq⟩ := map_eq_singleton_iff.1 (hone.trans (by rw [← heq]))
      rw [hpair, configIdOf_inj (hl q (mem_singleton_self _)) hp hq]

theorem hashed_recommendFeatures (orgId : UUID) : ∀ (features : List AgentFeature) (conf : String) (used : List String)
    (t : Versions), Hashed t → Hashed (recommendFeatures orgId features conf used t).1
  | [], _, _, _, h => h
  | feature :: features, conf, used, t, h => by
    rw [recommendFeatures]
    dsimp only
    cases feature.recommendAgentConfig orgId conf (getLatestVersion orgId (newElementType feature.agentFeatureType) t) with
    | error err => exact h
    | ok answer =>
      have hknown : Known (namedOf orgId t feature).1 := ⟨feature.agentFeatureType, rfl⟩
      exact hashed_recommendFeatures orgId features _ _ _ (hashed_updateDeployStatus h orgId hknown _ _ _)

theorem hashed_recommendAgentConfig (sum256 : String → String) (features : List AgentFeature) (orgId : UUID) (conf : String)
    {t : Versions} (h : Hashed t) : Hashed (recommendAgentConfig sum256 features orgId conf t).1 := by
  have hloop := hashed_recommendFeatures orgId features conf [] t h
  unfold recommendAgentConfig
  cases hrun : recommendFeatures orgId features conf [] t with
  | mk t₁ result =>
    rw [hrun] at hloop
    cases result <;> exact hloop

theorem hashed_updateDeployStatusByHash {t : Versions} (h : Hashed t) (orgId : UUID) (confighash : String) (status : DeployStatus)
    (result : String) : Hashed (updateDeployStatusByHash orgId confighash status result t) := by
  have hrow : ∀ r ∈ (updateDeployStatusByHash orgId confighash status result t).rows, ∃ q ∈ t.rows,
      r.hash = q.hash ∧ r.orgID = q.orgID ∧ r.pair = q.pair := fun r hr => by
    rw [rows_updateDeployStatusByHash] at hr
    obtain ⟨q, hq, rfl⟩ := List.mem_map.1 hr
    refine ⟨q, hq, ?_⟩
    unfold Table.setWhere
    split_ifs <;> exact ⟨rfl, rfl, rfl⟩
  refine ⟨fun r hr => ?_, fun r hr l hne hl heq => ?_⟩
  · obtain ⟨q, hq, hash, horg, -⟩ := hrow r hr
    rw [hash, horg]
    exact h.prefixed q hq
  · obtain ⟨q, hq, hash, horg, hpair⟩ := hrow r hr
    rw [hash, horg] at heq
    rw [hpair]
    exact h.own q hq l hne hl heq

theorem hashed_report {t : Versions} (h : Hashed t) (orgId : UUID) (agentId configId : String) (err : Option String) :
    Hashed (reportConfigDeploymentStatus orgId agentId configId err t) := by
  unfold reportConfigDeploymentStatus
  generalize split configId = parts
  induction parts generalizing t with
  | nil => exact h
  | cons part parts ih => exact ih (hashed_updateDeployStatusByHash h orgId part _ _)

theorem hashed_startNewVersion {repo : Repo} (h : Hashed repo.versions) (faults : Faults) (id : Nat) (orgId : UUID)
    (eleType : ElementType) (elementIds : List String) :
    Hashed (startNewVersion faults id orgId eleType elementIds repo).1.versions := by
  have hrow : ∀ c : AgentConfigVersion, c.hash = "" →
      ∀ r ∈ (storeConfig faults orgId c elementIds repo).1.versions.rows, r ∈ repo.versions.rows ∨ r.hash = "" :=
    fun c hc r hr => by
      rcases mem_storeConfig_versions faults orgId c elementIds repo r hr with hr | rfl
      · exact Or.inl hr
      · exact Or.inr hc
  have hkeep : ∀ t : Versions, (∀ r ∈ t.rows, r ∈ repo.versions.rows ∨ r.hash = "") → Hashed t := fun t ht =>
    ⟨fun r hr => (ht r hr).elim (h.prefixed r) Or.inl, fun r hr l hne hl heq => (ht r hr).elim
      (fun hr => h.own r hr l hne hl heq) (fun hash => by
        rw [hash] at heq
        have hlen := congrArg (fun s => s.toList.length) heq
        simp [UUID.toList_text] at hlen
        omega)⟩
  unfold startNewVersion insertConfig
  split_ifs
  · exact h
  · exact h
  · exact h
  · exact h
  · exact hkeep _ (hrow _ rfl)

/-- What writes into the versions: a call for a new one, a recommendation, a report. -/
inductive Write
  | startNewVersion (faults : Faults) (id : Nat) (orgId : UUID) (eleType : ElementType) (elementIds : List String)
  | recommend (features : List AgentFeature) (orgId : UUID) (conf : String)
  | report (orgId : UUID) (agentId configId : String) (err : Option String)

def write (sum256 : String → String) (repo : Repo) : Write → Repo
  | .startNewVersion faults id orgId eleType elementIds => (startNewVersion faults id orgId eleType elementIds repo).1
  | .recommend features orgId conf =>
    { repo with versions := (recommendAgentConfig sum256 features orgId conf repo.versions).1 }
  | .report orgId agentId configId err =>
    { repo with versions := reportConfigDeploymentStatus orgId agentId configId err repo.versions }

/-- **The hashes are as they should be after any writes.** -/
theorem hashed_run (sum256 : String → String) (writes : List Write) :
    Hashed (writes.foldl (write sum256) Repo.empty).versions := by
  have hrun : ∀ (writes : List Write) (repo : Repo), Hashed repo.versions → Hashed (writes.foldl (write sum256) repo).versions := by
    intro writes
    induction writes with
    | nil => exact fun _ h => h
    | cons w writes ih =>
      intro repo h
      refine ih _ ?_
      cases w with
      | startNewVersion faults id orgId eleType elementIds => exact hashed_startNewVersion h faults id orgId eleType elementIds
      | recommend features orgId conf => exact hashed_recommendAgentConfig sum256 features orgId conf h
      | report orgId agentId configId err => exact hashed_report h orgId agentId configId err
  exact hrun writes Repo.empty hashed_empty

/-! ## One feature and two -/

def featureOf (typ : ElementType) : AgentFeature := ⟨typ, fun _ conf _ => .ok (conf, "{}")⟩

def firstVersions (types : List ElementType) : Repo :=
  (types.zipIdx.map fun x => Write.startNewVersion Faults.none x.2 ⟨7⟩ x.1 ["rule"]).foldl (write id) Repo.empty

theorem newElementType_logPipelines : newElementType "log_pipelines" = "log_pipelines" := by
  unfold newElementType
  decide

theorem newElementType_dropRules : newElementType "drop_rules" = "drop_rules" := by
  unfold newElementType
  decide

theorem namedBy_logPipelines :
    namedBy ⟨7⟩ [featureOf "log_pipelines"] (firstVersions ["log_pipelines"]).versions = [("log_pipelines", 1)] := by
  simp only [namedBy, namedOf, featureOf, map_cons, map_nil, newElementType_logPipelines]
  decide

theorem one_feature_reported : ∃ t₁ confId,
    recommendAgentConfig id [featureOf "log_pipelines"] ⟨7⟩ "receivers:" (firstVersions ["log_pipelines"]).versions =
      (t₁, .ok ("receivers:", confId)) ∧
    Reported ⟨7⟩ [("log_pipelines", 1)] .deployed (firstVersions ["log_pipelines"]).versions
      (answer ⟨7⟩ "agent" confId none none ∅ t₁) := by
  have hrec : ∃ t₁ confId, recommendAgentConfig id [featureOf "log_pipelines"] ⟨7⟩ "receivers:"
      (firstVersions ["log_pipelines"]).versions = (t₁, .ok ("receivers:", confId)) := ⟨_, _, rfl⟩
  have hhashed : Hashed (firstVersions ["log_pipelines"]).versions := hashed_run id _
  obtain ⟨t₁, confId, hrec⟩ := hrec
  refine ⟨t₁, confId, hrec, ?_⟩
  rw [← namedBy_logPipelines]
  refine (deployment_reported_iff id hhashed [featureOf "log_pipelines"] ⟨7⟩ "agent" "receivers:" "receivers:" confId
    (by simp) hrec none none ∅).2 fun r _ _ hin => ⟨by simp, ?_⟩
  rw [namedBy_logPipelines, mem_singleton] at hin
  rw [namedBy_logPipelines, hin]
  rfl

/-- The second of two features is never reported. -/
theorem second_feature_not_reported : ¬ ∀ (sum256 : String → String) (t t₁ : Versions), Hashed t →
    ∀ (features : List AgentFeature) (orgId : UUID) (agentId conf conf' confId : String), features ≠ [] →
      recommendAgentConfig sum256 features orgId conf t = (t₁, .ok (conf', confId)) →
      ∀ (err : Option String) (subscribers : Subscribers),
        Reported orgId (namedBy orgId features t) (outcome agentId err).1 t (answer orgId agentId confId none err subscribers t₁) := by
  intro h
  have hnamed : namedBy ⟨7⟩ [featureOf "log_pipelines", featureOf "drop_rules"]
      (firstVersions ["log_pipelines", "drop_rules"]).versions = [("log_pipelines", 1), ("drop_rules", 1)] := by
    simp only [namedBy, namedOf, featureOf, map_cons, map_nil, newElementType_logPipelines, newElementType_dropRules]
    decide
  have hhashed : Hashed (firstVersions ["log_pipelines", "drop_rules"]).versions := hashed_run id _
  have hrec : ∃ t₁ confId, recommendAgentConfig id [featureOf "log_pipelines", featureOf "drop_rules"] ⟨7⟩ "receivers:"
      (firstVersions ["log_pipelines", "drop_rules"]).versions = (t₁, .ok ("receivers:", confId)) := ⟨_, _, rfl⟩
  obtain ⟨t₁, confId, hrec⟩ := hrec
  have hreported := h id _ t₁ hhashed _ ⟨7⟩ "agent" _ _ confId (by simp) hrec none ∅
  obtain ⟨g, hstarts, hrows⟩ := rows_deployed "agent" hhashed (by simp) hrec none none ∅
  rw [hnamed] at hreported hstarts hrows
  have hrow : ∃ r ∈ (firstVersions ["log_pipelines", "drop_rules"]).versions.rows, r.orgID = ⟨7⟩ ∧ r.pair = ("drop_rules", 1) := by
    decide
  obtain ⟨r, hr, horg, hpair⟩ := hrow
  have hin : r.pair ∈ [("log_pipelines", (1 : Int)), ("drop_rules", 1)] := by simp [hpair]
  have hkey := pair_of_key (key_answered "agent" confId none none hstarts r)
  have hmem := List.mem_map_of_mem (f := answered ⟨7⟩ "agent" confId none none (some ("log_pipelines", 1)) g) hr
  have hdeployed := hreported.reached _ (by rw [hrows]; exact hmem) (hkey.1.trans horg) (by rw [hkey.2]; exact hin)
  have hfirst := ((deployStatus_answered hstarts horg hin).1 hdeployed).2
  rw [hpair] at hfirst
  exact absurd hfirst (by decide)

end AgentConf
end DsApm
