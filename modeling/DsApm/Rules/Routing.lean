import DsApm.Lib.PathMap
import DsApm.Lib.Quoted
import DsApm.Rules.Tasks
import Mathlib.Data.List.Flatten
/-!
# Routing — which channels an alert is sent to

`Match` of the rule based notification manager: the expressions of a rule's route policies are evaluated over the alert's
labels, which `convertLabelSetToEnv` turns into nested maps.  The expression language is a parameter with the few rules of
it that the policies of a rule use.

An alert reaches the channels of the threshold it names as long as the name, written between double quotes, stands for
itself and no other label comes to lie on or below the two labels that the expression reads (`match_iff`).
-/
namespace DsApm
namespace Rules

open Latest List Option

/-! ## The environment -/

abbrev Env := PathMap.Children String String

/-- Where a label is put: a name with dots is split at them. -/
def labelPath (name : String) : List String :=
  let key := GoStd.trimSpace name
  if '.' ∈ key.toList then (key.toList.splitOn '.').map (fun part => GoStd.trimSpace (String.ofList part)) else [key]

/-- The order is that in which the map of labels is ranged over. -/
def convertLabelSetToEnv (visit : Visit (String × String)) (labelSet : Labels) : Env :=
  PathMap.build ((visit.order labelSet).map (fun l => (labelPath l.1, l.2)))

/-! ## Expressions -/

inductive Output where
  | bool (b : Bool)
  | other
  deriving DecidableEq, Repr

/-- `expr`: a text is compiled against an environment and run in it. -/
structure ExprLang where
  Program : Type
  compile : String → Env → Option Program
  run : Program → Env → Option Output

def evaluateExpr (X : ExprLang) (visit : Visit (String × String)) (expression : String) (labelSet : Labels) : Option Bool :=
  let env := convertLabelSetToEnv visit labelSet
  match X.compile expression env with
  | none => none
  | some program =>
    match X.run program env with
    | some (.bool b) => some b
    | _ => none

def denotes (text : String) : Option String :=
  match Quoted.literal (text.toList ++ ['"']) with
  | some (cs, []) => some (String.ofList cs)
  | _ => none

def routeExpression (name ruleID : String) : String :=
  "threshold.name == \"" ++ name ++ "\" && ruleId == \"" ++ ruleID ++ "\""

/-- Comparisons of strings, conjunctions, literals and dots have their usual meaning. -/
def ExprLang.Usual (X : ExprLang) : Prop :=
  ∀ (name ruleID n id : String) (env : Env), denotes name = some n → denotes ruleID = some id →
    ((∃ program, X.compile (routeExpression name ruleID) env = some program ∧
        X.run program env = some (.bool true)) ↔
      PathMap.read ["threshold", "name"] env = some n ∧ PathMap.read ["ruleId"] env = some id)

def parseRoute (text : String) : Option (String × String) :=
  match text.toList.dropPrefix? "threshold.name == \"".toList with
  | none => none
  | some text =>
    match Quoted.literal text with
    | none => none
    | some (name, text) =>
      match text.dropPrefix? " && ruleId == \"".toList with
      | none => none
      | some text =>
        match Quoted.literal text with
        | some (id, []) => some (String.ofList name, String.ofList id)
        | _ => none

/-- A language of which nothing is known but the expressions of the routes: everything else has one value. -/
def ExprLang.routesOr (otherwise : Bool) : ExprLang where
  Program := Option (String × String)
  compile text _ := some (parseRoute text)
  run program env := match program with
    | some (name, id) =>
      some (.bool (PathMap.read ["threshold", "name"] env == some name && PathMap.read ["ruleId"] env == some id))
    | none => some (.bool otherwise)

theorem denotes_eq_some {text value : String} (h : denotes text = some value) :
    Quoted.Shut text.toList ∧ ∀ more, Quoted.literal (text.toList ++ '"' :: more) = some (value.toList, more) := by
  unfold denotes at h
  split at h
  · rename_i cs hl
    obtain ⟨body, hbody, hshut, hmore⟩ := Quoted.literal_body hl
    rw [append_cancel_right hbody, ← Option.some.inj h, String.toList_ofList]
    exact ⟨hshut, hmore⟩
  · cases h

theorem routeExpression_toList (name ruleID : String) : (routeExpression name ruleID).toList =
    "threshold.name == \"".toList ++
      (name.toList ++ '"' :: (" && ruleId == \"".toList ++ (ruleID.toList ++ ['"']))) := by
  have h₁ : "\" && ruleId == \"".toList = '"' :: " && ruleId == \"".toList := by decide
  have h₂ : "\"".toList = ['"'] := by decide
  unfold routeExpression
  simp only [String.toList_append, h₁, h₂, List.append_assoc, cons_append]

theorem parseRoute_routeExpression {name ruleID n id : String} (hname : denotes name = some n)
    (hid : denotes ruleID = some id) : parseRoute (routeExpression name ruleID) = some (n, id) := by
  unfold parseRoute
  rw [routeExpression_toList, List.dropPrefix?_append_of_beq _ (beq_self_eq_true _)]
  simp only [(denotes_eq_some hname).2]
  rw [List.dropPrefix?_append_of_beq _ (beq_self_eq_true _)]
  simp only [(denotes_eq_some hid).2, String.ofList_toList]

theorem denotes_of_parseRoute {name ruleID id : String} (hid : denotes ruleID = some id)
    (h : (parseRoute (routeExpression name ruleID)).isSome = true) : (denotes name).isSome = true := by
  unfold parseRoute at h
  rw [routeExpression_toList, List.dropPrefix?_append_of_beq _ (beq_self_eq_true _)] at h
  simp only at h
  split at h
  · cases h
  · rename_i n rest hn
    split at h
    · cases h
    · rename_i rest' hrest
      split at h
      · rename_i i hi
        obtain ⟨body, hbody, _, hmore⟩ := Quoted.literal_body hn
        obtain ⟨body', hbody', hshut, _⟩ := Quoted.literal_body hi
        obtain ⟨sep, rfl, hsep⟩ := List.dropPrefix?_eq_some_iff.1 hrest
        rw [eq_of_beq hsep, hbody'] at hbody
        have hquote : '"' :: " && ruleId == \"".toList = "\" && ruleId ==".toList ++ [' ', '"'] := by decide
        have hcut : name.toList ++ ('"' :: " && ruleId == \"".toList) ++ ruleID.toList ++ ['"'] =
            body ++ ('"' :: " && ruleId == \"".toList) ++ body' ++ ['"'] := by simpa using hbody
        have hcut := append_cancel_right hcut
        rw [hquote] at hcut
        have hinj := Quoted.append_inj_of_shut "\" && ruleId ==".toList (denotes_eq_some hid).1 hshut hcut
        unfold denotes
        rw [hinj.1, hmore]
        rfl
      · cases h

theorem ExprLang.usual_routesOr (otherwise : Bool) : (ExprLang.routesOr otherwise).Usual := by
  intro name ruleID n id env hname hid
  simp [ExprLang.routesOr, parseRoute_routeExpression hname hid]

/-! ## Matching -/

def getAllByName (routes : List RoutePolicy) (orgID name : String) : List RoutePolicy :=
  routes.filter (fun p => p.orgID == orgID && p.name == name)

def getAllByKind (routes : List RoutePolicy) (orgID : String) (kind : ExpressionKind) : List RoutePolicy :=
  routes.filter (fun p => p.orgID == orgID && p.expressionKind == kind)

def getDefaultNotificationConfig : NotificationConfig :=
  { notificationGroup := {alertRuleIDLabel}, renotifyInterval := 4 * Calendar.hour, noDataInterval := 4 * Calendar.hour
    usePolicy := false, groupByAll := false }

def getNotificationConfig (notifications : GoMap (String × String) NotificationConfig) (orgID ruleID : String) :
    NotificationConfig :=
  let default := getDefaultNotificationConfig
  if orgID = "" ∨ ruleID = "" then default
  else match notifications.lookup (orgID, ruleID) with
    | none => default
    | some config =>
      { notificationGroup := default.notificationGroup ∪ config.notificationGroup
        renotifyInterval := if config.renotifyInterval ≠ 0 then config.renotifyInterval else default.renotifyInterval
        noDataInterval := if config.noDataInterval ≠ 0 then config.noDataInterval else default.noDataInterval
        usePolicy := config.usePolicy, groupByAll := config.groupByAll }

/-- The loop over the policies; each evaluation ranges over the labels anew. -/
def matchedChannels (X : ExprLang) (visit : Nat → Visit (String × String)) (set : Labels) :
    Nat → List RoutePolicy → List String
  | _, [] => []
  | n, route :: rest =>
    (if evaluateExpr X (visit n) route.expression set = some true then route.channels else []) ++
      matchedChannels X visit set (n + 1) rest

section
variable {V : Type}

def matchPolicies (X : ExprLang) (visit : Nat → Visit (String × String)) (s : ManagerState V) (storeFails : Bool)
    (orgID ruleID : String) (set : Labels) : Option (List String) :=
  let config := getNotificationConfig s.mem.notifications orgID ruleID
  if storeFails then none
  else
    let expressionRoutes := if config.usePolicy then getAllByKind s.db.routes orgID .policyBased
      else getAllByName s.db.routes orgID ruleID
    if noDataLabel ∈ set.map Prod.fst ∧ config.usePolicy = false then
      some (expressionRoutes.flatMap (fun route => route.channels))
    else some (matchedChannels X visit set 0 expressionRoutes)

end

/-! ## What an expression reads -/

def thresholdPath : List String := ["threshold", "name"]
def ruleIDPath : List String := ["ruleId"]

theorem labelPath_thresholdName : labelPath labelThresholdName = thresholdPath := by decide

theorem labelPath_ruleID : labelPath alertRuleIDLabel = ruleIDPath := by decide

attribute [irreducible] labelPath

def lastOn (visit : Visit (String × String)) (set : Labels) (path : List String) : Option (String × String) :=
  (visit.order set).reverse.find? (fun l => labelPath l.1 == path)

def Shadowed (set : Labels) : Prop :=
  ∃ l ∈ set, PathMap.Below thresholdPath (labelPath l.1) ∨ PathMap.Below ruleIDPath (labelPath l.1)

instance (set : Labels) : Decidable (Shadowed set) :=
  inferInstanceAs (Decidable (∃ l ∈ set, PathMap.Below thresholdPath (labelPath l.1) ∨
    PathMap.Below ruleIDPath (labelPath l.1)))

theorem read_env {path : List String} (hp : path ≠ []) (visit : Visit (String × String)) (set : Labels) :
    PathMap.read path (convertLabelSetToEnv visit set) =
      if ∃ l ∈ set, PathMap.Below path (labelPath l.1) then none else (lastOn visit set path).map Prod.snd := by
  unfold convertLabelSetToEnv lastOn
  generalize labelPath = at_
  have hexists : (∃ x ∈ (visit.order set).map (fun l => (at_ l.1, l.2)), PathMap.Below path x.1) ↔
      ∃ l ∈ set, PathMap.Below path (at_ l.1) := by
    constructor
    · rintro ⟨x, hx, hb⟩
      obtain ⟨l, hl, rfl⟩ := List.mem_map.1 hx
      exact ⟨l, (visit.perm set).mem_iff.1 hl, hb⟩
    · rintro ⟨l, hl, hb⟩
      exact ⟨_, List.mem_map_of_mem ((visit.perm set).mem_iff.2 hl), hb⟩
  rw [PathMap.read_build hp]
  refine if_congr hexists rfl ?_
  rw [← map_reverse, List.find?_map, Option.map_map]
  rfl

theorem lastOn_mem {visit : Visit (String × String)} {set : Labels} {path : List String} {l : String × String}
    (h : lastOn visit set path = some l) : l ∈ set ∧ labelPath l.1 = path := by
  refine ⟨(visit.perm set).mem_iff.1 (mem_reverse.1 (mem_of_find?_eq_some h)), ?_⟩
  simpa using List.find?_some h

theorem exists_lastOn (visit : Visit (String × String)) {set : Labels} {l : String × String} (hl : l ∈ set) :
    ∃ l', lastOn visit set (labelPath l.1) = some l' := by
  cases h : lastOn visit set (labelPath l.1) with
  | some l' => exact ⟨l', rfl⟩
  | none =>
    have hin : l ∈ (visit.order set).reverse := mem_reverse.2 ((visit.perm set).mem_iff.2 hl)
    exact absurd (beq_self_eq_true _) (List.find?_eq_none.1 h l hin)

theorem exists_visit {set : Labels} {l l' : String × String} (hl : l ∈ set) (hl' : l' ∈ set)
    (hne : labelPath l.1 ≠ labelPath l'.1) :
    ∃ visit : Visit (String × String), lastOn visit set (labelPath l.1) = some l ∧
      lastOn visit set (labelPath l'.1) = some l' := by
  have hll : l' ≠ l := fun h => hne (by rw [h])
  have hl'' : l' ∈ set.erase l := (mem_erase_of_ne hll).2 hl'
  have hperm : ((set.erase l).erase l' ++ [l', l]).Perm set := by
    have h₁ : ((set.erase l).erase l' ++ [l']).Perm (set.erase l) :=
      (perm_append_singleton _ _).trans (perm_cons_erase hl'').symm
    have h₂ : (set.erase l ++ [l]).Perm set := (perm_append_singleton _ _).trans (perm_cons_erase hl).symm
    have h₃ := (h₁.append_right [l]).trans h₂
    rwa [List.append_assoc] at h₃
  refine ⟨⟨fun x => if x = set then (set.erase l).erase l' ++ [l', l] else x, fun x => ?_⟩, ?_, ?_⟩
  · by_cases hx : x = set
    · rw [if_pos hx, hx]; exact hperm
    · rw [if_neg hx]
  · unfold lastOn
    simp
  · unfold lastOn
    have hne' : (labelPath l.1 == labelPath l'.1) = false := by simpa using hne
    simp [hne']

/-! ## One policy -/

theorem ruleRoute_expression (ruleID : String) (x : RuleReceivers) :
    (ruleRoute ruleID x).expression = routeExpression x.name ruleID := by
  have h₁ : "threshold.name == \"" = labelThresholdName ++ " == \"" := by decide
  have h₂ : "\" && ruleId == \"" = "\" && " ++ (alertRuleIDLabel ++ " == \"") := by decide
  unfold ruleRoute routeExpression
  rw [h₁, h₂]
  simp only [String.append_assoc]

section
variable {X : ExprLang} {set : Labels} {id : String}

theorem evaluateExpr_iff (hX : X.Usual) (hid : denotes id = some id) {x : RuleReceivers} {name : String}
    (hx : denotes x.name = some name) (visit : Visit (String × String)) :
    evaluateExpr X visit (ruleRoute id x).expression set = some true ↔ ¬ Shadowed set ∧
      (lastOn visit set thresholdPath).map Prod.snd = some name ∧ (lastOn visit set ruleIDPath).map Prod.snd = some id := by
  have husual := hX x.name id name id (convertLabelSetToEnv visit set) hx hid
  have heval : evaluateExpr X visit (ruleRoute id x).expression set = some true ↔
      ∃ program, X.compile (routeExpression x.name id) (convertLabelSetToEnv visit set) = some program ∧
        X.run program (convertLabelSetToEnv visit set) = some (.bool true) := by
    rw [ruleRoute_expression]
    unfold evaluateExpr
    cases hcompile : X.compile (routeExpression x.name id) (convertLabelSetToEnv visit set) with
    | none => simp [hcompile]
    | some program =>
      cases hrun : X.run program (convertLabelSetToEnv visit set) with
      | none => simp [hcompile, hrun]
      | some o =>
        cases o with
        | bool b => simp [hcompile, hrun]
        | other => simp [hcompile, hrun]
  have hread : ∀ path : List String, path ≠ [] → ∀ v, PathMap.read path (convertLabelSetToEnv visit set) = some v ↔
      (¬ ∃ l ∈ set, PathMap.Below path (labelPath l.1)) ∧ (lastOn visit set path).map Prod.snd = some v := by
    intro path hp v
    rw [read_env hp]
    by_cases hb : ∃ l ∈ set, PathMap.Below path (labelPath l.1)
    · rw [if_pos hb]
      exact iff_of_false (some_ne_none v).symm (fun h => h.1 hb)
    · rw [if_neg hb]
      exact ⟨fun h => ⟨hb, h⟩, And.right⟩
  have hT := hread thresholdPath (cons_ne_nil _ _) name
  have hI := hread ruleIDPath (cons_ne_nil _ _) id
  rw [heval]
  refine husual.trans ((and_congr hT hI).trans ?_)
  constructor
  · rintro ⟨⟨hbT, hlT⟩, hbI, hlI⟩
    refine ⟨?_, hlT, hlI⟩
    rintro ⟨l, hl, hb | hb⟩
    · exact hbT ⟨l, hl, hb⟩
    · exact hbI ⟨l, hl, hb⟩
  · rintro ⟨hs, hlT, hlI⟩
    exact ⟨⟨fun ⟨l, hl, hb⟩ => hs ⟨l, hl, Or.inl hb⟩, hlT⟩, fun ⟨l, hl, hb⟩ => hs ⟨l, hl, Or.inr hb⟩, hlI⟩

/-! ## All policies of a rule -/

def storedRoutes (orgID id : String) (receivers : List RuleReceivers) : List RoutePolicy :=
  (receivers.map (ruleRoute id)).map (fun p => { p with orgID })

def channelsOf (p : RuleReceivers → Bool) (receivers : List RuleReceivers) : List String :=
  (receivers.filter p).flatMap RuleReceivers.channels

theorem matchedChannels_append (visit : Nat → Visit (String × String)) (n : Nat) (a b : List RoutePolicy) :
    matchedChannels X visit set n (a ++ b) =
      matchedChannels X visit set n a ++ matchedChannels X visit set (n + a.length) b := by
  induction a generalizing n with
  | nil => rfl
  | cons route a ih =>
    rw [cons_append, matchedChannels, matchedChannels, ih, List.append_assoc, length_cons]
    congr 3
    omega

theorem matchedChannels_congr {visit visit' : Nat → Visit (String × String)} (l : List RoutePolicy) (n : Nat)
    (h : ∀ k, n ≤ k → k < n + l.length → visit k = visit' k) :
    matchedChannels X visit set n l = matchedChannels X visit' set n l := by
  induction l generalizing n with
  | nil => rfl
  | cons route l ih =>
    rw [length_cons] at h
    rw [matchedChannels, matchedChannels, h n (Nat.le_refl _) (by omega), ih (n + 1) (fun k hk hk' => h k (by omega) (by omega))]

theorem matchedChannels_eq {visit : Nat → Visit (String × String)} {orgID : String} (p : RuleReceivers → Bool)
    (receivers : List RuleReceivers) (n : Nat)
    (h : ∀ k, ∀ x ∈ receivers, x.channels ≠ [] →
      (evaluateExpr X (visit k) (ruleRoute id x).expression set = some true ↔ p x = true)) :
    matchedChannels X visit set n (storedRoutes orgID id receivers) = channelsOf p receivers := by
  induction receivers generalizing n with
  | nil => rfl
  | cons x receivers ih =>
    have hrest := ih (n + 1) (fun k y hy => h k y (mem_cons_of_mem _ hy))
    have hroute : storedRoutes orgID id (x :: receivers) =
        { ruleRoute id x with orgID } :: storedRoutes orgID id receivers := rfl
    have hchannels : (ruleRoute id x).channels = x.channels := rfl
    rw [hroute, matchedChannels, hrest]
    unfold channelsOf
    by_cases hempty : x.channels = []
    · rw [hchannels, hempty, ite_self, nil_append, filter_cons]
      split
      · rw [flatMap_cons, hempty, nil_append]
      · rfl
    · by_cases hp : p x = true
      · rw [if_pos ((h n x mem_cons_self hempty).2 hp), filter_cons_of_pos hp, flatMap_cons, hchannels]
      · rw [if_neg (fun he => hp ((h n x mem_cons_self hempty).1 he)), filter_cons_of_neg hp, nil_append]

end

/-! ## When an alert is routed right -/

/-- Nothing but the labels of the alert itself decides what is read.  `name` is the threshold's name that the alert
carries. -/
structure Routed (id : String) (receivers : List RuleReceivers) (set : Labels) (name : String) : Prop where
  /-- A label `nodata` of its own sends an alert to all channels. -/
  noData : noDataLabel ∈ set.map Prod.fst → ∀ x ∈ receivers, x.name ≠ name → x.channels = []
  /-- Every name stands for something between double quotes. -/
  literals : noDataLabel ∉ set.map Prod.fst → ∀ x ∈ receivers, x.channels ≠ [] → (denotes x.name).isSome = true
  /-- A label below the threshold's name or the rule's id, or another rule's id on the same path, stops it. -/
  clear : noDataLabel ∉ set.map Prod.fst → channelsOf (fun x => x.name == name) receivers ≠ [] →
    ¬ Shadowed set ∧ ∀ l ∈ set, labelPath l.1 = ruleIDPath → l.2 = id
  /-- The literals that stand for the name are those of the thresholds of that name. -/
  names : noDataLabel ∉ set.map Prod.fst → ¬ Shadowed set →
    channelsOf (fun x => denotes x.name == some name) receivers = channelsOf (fun x => x.name == name) receivers
  /-- Another label on the path of the threshold's name stands for the same thresholds. -/
  values : noDataLabel ∉ set.map Prod.fst → ¬ Shadowed set → ∀ l ∈ set, labelPath l.1 = thresholdPath →
    ∀ x ∈ receivers, x.channels ≠ [] → (denotes x.name = some l.2 ↔ denotes x.name = some name)

theorem channelsOf_eq_iff (receivers : List RuleReceivers) {p q : RuleReceivers → Bool}
    (h : ∀ x, p x = true → q x = true) :
    channelsOf q receivers = channelsOf p receivers ↔ ∀ x ∈ receivers, q x = true → p x = false → x.channels = [] := by
  induction receivers with
  | nil => simp [channelsOf]
  | cons x receivers ih =>
    have hcons : ∀ f : RuleReceivers → Bool, channelsOf f (x :: receivers) =
        (if f x = true then x.channels else []) ++ channelsOf f receivers := by
      intro f
      unfold channelsOf
      by_cases hf : f x = true
      · rw [filter_cons_of_pos hf, flatMap_cons, if_pos hf]
      · rw [filter_cons_of_neg hf, if_neg hf, nil_append]
    rw [hcons, hcons, forall_mem_cons, ← ih]
    by_cases hp : p x = true
    · rw [if_pos hp, if_pos (h x hp), append_cancel_left_eq]
      simp [hp]
    · have hfalse : p x = false := by simpa using hp
      rw [if_neg hp, nil_append]
      by_cases hq : q x = true
      · rw [if_pos hq]
        have hle : (channelsOf p receivers).length ≤ (channelsOf q receivers).length :=
          ((monotone_filter_right receivers h).flatMap _).length_le
        constructor
        · intro heq
          have hlen := congrArg List.length heq
          rw [List.length_append] at hlen
          have hx : x.channels = [] := List.length_eq_zero_iff.1 (by omega)
          rw [hx, nil_append] at heq
          exact ⟨fun _ _ => hx, heq⟩
        · rintro ⟨hx, heq⟩
          rw [hx hq hfalse, nil_append, heq]
      · rw [if_neg hq, nil_append]
        exact ⟨fun heq => ⟨fun h => absurd h hq, heq⟩, And.right⟩

section
variable {X : ExprLang} {id orgID name : String} {receivers : List RuleReceivers} {set : Labels}

section
variable (hX : X.Usual) (hid : denotes id = some id) (hnames : ∀ x ∈ receivers, x.channels ≠ [] → (denotes x.name).isSome = true)

include hX hid hnames

theorem evaluateExpr_receiver {x : RuleReceivers} (hx : x ∈ receivers) (hchannels : x.channels ≠ []) (visit : Visit (String × String)) :
    evaluateExpr X visit (ruleRoute id x).expression set = some true ↔ ¬ Shadowed set ∧
      (∃ l, lastOn visit set thresholdPath = some l ∧ denotes x.name = some l.2) ∧
      (lastOn visit set ruleIDPath).map Prod.snd = some id := by
  obtain ⟨n, hn⟩ := isSome_iff_exists.1 (hnames x hx hchannels)
  rw [evaluateExpr_iff hX hid hn, hn]
  refine and_congr_right (fun _ => and_congr_left (fun _ => ?_))
  rw [map_eq_some_iff]
  refine exists_congr (fun l => and_congr_right (fun _ => ?_))
  rw [Option.some.injEq]
  exact eq_comm

theorem matchedChannels_of_last {visit : Visit (String × String)} {l : String × String} (hs : ¬ Shadowed set)
    (hl : lastOn visit set thresholdPath = some l)
    (hi : (lastOn visit set ruleIDPath).map Prod.snd = some id) :
    matchedChannels X (fun _ => visit) set 0 (storedRoutes orgID id receivers) =
      channelsOf (fun x => denotes x.name == some l.2) receivers := by
  refine matchedChannels_eq _ receivers 0 (fun _ x hx hchannels => ?_)
  rw [evaluateExpr_receiver hX hid hnames hx hchannels, hl, hi]
  simp [hs]

theorem matchedChannels_eq_nil {visit : Nat → Visit (String × String)}
    (h : Shadowed set ∨ ∀ k, (lastOn (visit k) set ruleIDPath).map Prod.snd ≠ some id) :
    matchedChannels X visit set 0 (storedRoutes orgID id receivers) = [] := by
  have hnone : matchedChannels X visit set 0 (storedRoutes orgID id receivers) = channelsOf (fun _ => false) receivers := by
    refine matchedChannels_eq _ receivers 0 (fun k x hx hchannels => ?_)
    rw [evaluateExpr_receiver hX hid hnames hx hchannels]
    refine iff_of_false (fun he => ?_) Bool.false_ne_true
    rcases h with h | h
    · exact he.1 h
    · exact h k he.2.2
  rw [hnone]
  unfold channelsOf
  simp

variable (hname : (labelThresholdName, name) ∈ set) (hruleID : (alertRuleIDLabel, id) ∈ set)

include hname hruleID

theorem matchedChannels_of_routed (hnd : noDataLabel ∉ set.map Prod.fst) (h : Routed id receivers set name)
    (visit : Nat → Visit (String × String)) :
    matchedChannels X visit set 0 (storedRoutes orgID id receivers) = channelsOf (fun x => x.name == name) receivers := by
  by_cases hs : Shadowed set
  · have hempty : channelsOf (fun x => x.name == name) receivers = [] := by
      by_contra hne
      exact (h.clear hnd hne).1 hs
    rw [hempty]
    exact matchedChannels_eq_nil hX hid hnames (Or.inl hs)
  · rw [← h.names hnd hs]
    refine matchedChannels_eq _ receivers 0 (fun k x hx hchannels => ?_)
    rw [evaluateExpr_receiver hX hid hnames hx hchannels, beq_iff_eq]
    obtain ⟨l, hl⟩ : ∃ l, lastOn (visit k) set thresholdPath = some l := by
      rw [← labelPath_thresholdName]; exact exists_lastOn (visit k) hname
    obtain ⟨l', hl'⟩ : ∃ l', lastOn (visit k) set ruleIDPath = some l' := by
      rw [← labelPath_ruleID]; exact exists_lastOn (visit k) hruleID
    have hvalue := h.values hnd hs l (lastOn_mem hl).1 (lastOn_mem hl).2 x hx hchannels
    constructor
    · rintro ⟨_, ⟨m, hm, hden⟩, _⟩
      rw [hl] at hm
      rw [← Option.some.inj hm] at hden
      exact hvalue.1 hden
    · intro hden
      refine ⟨hs, ⟨l, hl, hvalue.2 hden⟩, ?_⟩
      -- the threshold has channels, so every label on the path of the rule's id carries the id
      have hne : channelsOf (fun x => x.name == name) receivers ≠ [] := by
        rw [← h.names hnd hs]
        unfold channelsOf
        rw [Ne, flatMap_eq_nil_iff, not_forall]
        exact ⟨x, fun hall => hchannels (hall (mem_filter.2 ⟨hx, by simpa using hden⟩))⟩
      rw [hl', map_some, (h.clear hnd hne).2 l' (lastOn_mem hl').1 (lastOn_mem hl').2]

theorem routed_of_matchedChannels (hnd : noDataLabel ∉ set.map Prod.fst)
    (h : ∀ visit : Nat → Visit (String × String), matchedChannels X visit set 0 (storedRoutes orgID id receivers) =
      channelsOf (fun x => x.name == name) receivers) : Routed id receivers set name := by
  have hpaths : ∀ {l l' : String × String}, labelPath l.1 = thresholdPath → labelPath l'.1 = ruleIDPath →
      labelPath l.1 ≠ labelPath l'.1 := by
    intro l l' hl hl' heq
    rw [hl, hl'] at heq
    exact absurd heq (by decide)
  -- any label on the path of the threshold's name may come last, with the id of the rule
  have hvisit : ∀ l ∈ set, labelPath l.1 = thresholdPath → ∃ visit : Visit (String × String),
      lastOn visit set thresholdPath = some l ∧ (lastOn visit set ruleIDPath).map Prod.snd = some id := by
    intro l hl hpath
    obtain ⟨visit, hlast, hlast'⟩ := exists_visit hl hruleID (hpaths hpath labelPath_ruleID)
    rw [hpath] at hlast
    rw [labelPath_ruleID] at hlast'
    exact ⟨visit, hlast, by rw [hlast']; rfl⟩
  obtain ⟨own, hown, hownID⟩ := hvisit _ hname labelPath_thresholdName
  refine ⟨fun hn => absurd hn hnd, fun _ => hnames, fun _ hne => ⟨fun hs => ?_, fun l hl hpath => ?_⟩, fun _ hs => ?_,
    fun _ hs l hl hpath x hx hchannels => ?_⟩
  · rw [← h (fun _ => own)] at hne
    exact hne (matchedChannels_eq_nil hX hid hnames (Or.inl hs))
  · by_contra hother
    obtain ⟨visit, _, hlast⟩ := exists_visit hname hl (hpaths labelPath_thresholdName hpath)
    rw [hpath] at hlast
    rw [← h (fun _ => visit)] at hne
    refine hne (matchedChannels_eq_nil hX hid hnames (Or.inr (fun _ => ?_)))
    rw [hlast, map_some]
    exact fun hc => hother (Option.some.inj hc)
  · rw [← h (fun _ => own)]
    exact (matchedChannels_of_last hX hid hnames hs hown hownID).symm
  · obtain ⟨other, hother, hotherID⟩ := hvisit l hl hpath
    obtain ⟨before, after, rfl⟩ := append_of_mem hx
    -- one policy's evaluation ranges over the labels in another order than those of the others
    have hsame := h (fun _ => own)
    have hchanged := h (Function.update (fun _ => own) (storedRoutes orgID id before).length other)
    have hroutes : storedRoutes orgID id (before ++ x :: after) =
        storedRoutes orgID id before ++ { ruleRoute id x with orgID } :: storedRoutes orgID id after := by
      unfold storedRoutes
      simp only [map_append, map_cons]
    rw [hroutes, matchedChannels_append, matchedChannels] at hsame hchanged
    have hbefore : matchedChannels X (Function.update (fun _ => own) (storedRoutes orgID id before).length other) set 0
        (storedRoutes orgID id before) = matchedChannels X (fun _ => own) set 0 (storedRoutes orgID id before) :=
      matchedChannels_congr _ 0 (fun k _ hk => by rw [Function.update_of_ne (by omega)])
    have hafter : matchedChannels X (Function.update (fun _ => own) (storedRoutes orgID id before).length other) set
        (0 + (storedRoutes orgID id before).length + 1) (storedRoutes orgID id after) =
          matchedChannels X (fun _ => own) set (0 + (storedRoutes orgID id before).length + 1)
            (storedRoutes orgID id after) :=
      matchedChannels_congr _ _ (fun k hk _ => by rw [Function.update_of_ne (by omega)])
    rw [hbefore, hafter, ← hsame, append_cancel_left_eq, append_cancel_right_eq, Nat.zero_add,
      Function.update_self] at hchanged
    have heval : ∀ {visit : Visit (String × String)} {m : String × String}, lastOn visit set thresholdPath = some m →
        (lastOn visit set ruleIDPath).map Prod.snd = some id →
        (evaluateExpr X visit (ruleRoute id x).expression set = some true ↔ denotes x.name = some m.2) := by
      intro visit m hm hmID
      rw [evaluateExpr_receiver hX hid hnames hx hchannels, hm, hmID]
      simp [hs]
    rw [← heval hother hotherID]
    refine Iff.trans ?_ (heval hown hownID)
    constructor
    · intro ht
      by_contra hf
      rw [if_pos ht, if_neg hf] at hchanged
      exact hchannels hchanged
    · intro ht
      by_contra hf
      rw [if_neg hf, if_pos ht] at hchanged
      exact hchannels hchanged.symm

end

theorem literals_of_forall {visit : Visit (String × String)} {channels : List String} (hid : denotes id = some id)
    (h : ∀ X : ExprLang, X.Usual → matchedChannels X (fun _ => visit) set 0 (storedRoutes orgID id receivers) = channels) :
    ∀ x ∈ receivers, x.channels ≠ [] → (denotes x.name).isSome = true := by
  intro x hx hchannels
  by_contra hname
  -- the two languages differ on what is not a route's expression
  let chosen (b : Bool) (y : RuleReceivers) : Bool :=
    evaluateExpr (.routesOr b) visit (ruleRoute id y).expression set == some true
  have hmatched : ∀ b, channelsOf (chosen b) receivers = channels := by
    intro b
    rw [← h (.routesOr b) (ExprLang.usual_routesOr b)]
    refine (matchedChannels_eq (chosen b) receivers 0 (fun _ y _ _ => ?_)).symm
    exact beq_iff_eq.symm
  have heval : ∀ b y, chosen b y = match parseRoute (ruleRoute id y).expression with
      | some (n, i) => PathMap.read thresholdPath (convertLabelSetToEnv visit set) == some n &&
          PathMap.read ruleIDPath (convertLabelSetToEnv visit set) == some i
      | none => b := by
    intro b y
    change (evaluateExpr (.routesOr b) visit (ruleRoute id y).expression set == some true) = _
    unfold evaluateExpr ExprLang.routesOr
    simp only
    cases parseRoute (ruleRoute id y).expression with
    | none => simp
    | some p => simp [thresholdPath, ruleIDPath]
  have hle : ∀ y, chosen false y = true → chosen true y = true := by
    intro y hy
    rw [heval] at hy ⊢
    split at hy
    · exact hy
    · cases hy
  have hparse : parseRoute (ruleRoute id x).expression = none := by
    rw [ruleRoute_expression, ← not_isSome_iff_eq_none]
    exact fun hsome => hname (denotes_of_parseRoute hid hsome)
  refine hchannels ((channelsOf_eq_iff receivers hle).1 ((hmatched true).trans (hmatched false).symm) x hx ?_ ?_)
  · rw [heval, hparse]
  · rw [heval, hparse]

end

/-! ## The alerts of an evaluation -/

section
variable {V : Type} [Float64 V] {W : World V} {r : Rule V}

def Alert.thresholdName (a : Alert V) : String := (labelValue a.labels labelThresholdName).getD ""

def expectedChannels (receivers : List RuleReceivers) (a : Alert V) : List String :=
  if a.missing then receivers.flatMap RuleReceivers.channels else channelsOf (fun x => x.name == a.thresholdName) receivers

theorem eval_metric {b : BasicRuleThreshold V} {series : TimeSeries V} {unit : String} {evalData : EvalData}
    {smpl : Sample V} (h : b.eval W series unit evalData = some smpl) :
    smpl.metric = prepareSampleLabelsForRule W series.labels b.name := by
  unfold BasicRuleThreshold.eval at h
  split at h
  · rw [← Option.some.inj h]; rfl
  · split at h
    · obtain ⟨_, _, rfl⟩ := map_eq_some_iff.1 h; rfl
    · split at h
      · cases h
      · split at h
        · obtain ⟨_, _, rfl⟩ := map_eq_some_iff.1 h; rfl
        · cases h

theorem mem_thresholdName {st : RuleState V} {i : EvalInput V} {samples : List (Sample V)}
    (hq : (buildAndRunQuery W r st i).2 = some samples) {smpl : Sample V} (hs : smpl ∈ samples)
    (hmissing : smpl.isMissing = false) (receivers : List RuleReceivers) :
    (labelThresholdName, (newAlert W r receivers i.ts smpl).thresholdName) ∈ alertLabels W r smpl := by
  obtain hm | ⟨series, _, b, _, heval⟩ := mem_samples hq hs
  · rw [hmissing] at hm; cases hm
  · have hkept : labelThresholdName ∉ droppedNames r.kind := by
      cases r.kind <;> decide
    have hmetric : labelThresholdName ∈ smpl.metric.map Prod.fst := by
      rw [eval_metric heval, mem_names_prepareSampleLabels]
      exact Or.inr (Or.inl rfl)
    obtain ⟨l, hl, hname⟩ := List.mem_map.1 (mem_names_alertLabels W r hmetric hkept)
    have hfind : ∃ l', (alertLabels W r smpl).reverse.find? (fun l => l.1 == labelThresholdName) = some l' := by
      cases hf : (alertLabels W r smpl).reverse.find? (fun l => l.1 == labelThresholdName) with
      | some l' => exact ⟨l', rfl⟩
      | none => exact absurd (by simpa using hname) (List.find?_eq_none.1 hf l (mem_reverse.2 hl))
    obtain ⟨l', hl'⟩ := hfind
    have hvalue : (newAlert W r receivers i.ts smpl).thresholdName = l'.2 := by
      unfold Alert.thresholdName labelValue newAlert
      simp only [hl']; rfl
    have hkey : l'.1 = labelThresholdName := by simpa using List.find?_some hl'
    rw [hvalue, ← hkey]
    exact mem_reverse.1 (mem_of_find?_eq_some hl')

/-- The policies and settings of a rule that uses no notification policies, as the manager keeps them. -/
structure Serves (E : Checks V) (s : ManagerState V) (orgID id : String) (d : PostableRule V)
    (thresholds : List (ThresholdSpec V)) : Prop where
  thresholds : d.ruleThresholds = some thresholds
  usePolicy : d.usePolicy = false
  config : s.mem.notifications.lookup (orgID, id) =
    d.notificationSettings.map NotificationSettings.getAlertManagerNotificationConfig
  routes : ∀ routes, d.getRuleRouteRequest E id = some routes →
    getAllByName s.db.routes orgID id = routes.map (fun p => { p with orgID })

omit [Float64 V] in
theorem Serves.noPolicy {E : Checks V} {s : ManagerState V} {orgID id : String} {d : PostableRule V}
    {thresholds : List (ThresholdSpec V)} (h : Serves E s orgID id d thresholds) :
    (getNotificationConfig s.mem.notifications orgID id).usePolicy = false := by
  unfold getNotificationConfig
  simp only
  split
  · rfl
  · rw [h.config]
    have hpolicy := h.usePolicy
    unfold PostableRule.usePolicy at hpolicy
    cases hn : d.notificationSettings with
    | none => rfl
    | some n =>
      rw [hn] at hpolicy
      exact hpolicy

omit [Float64 V] in
theorem Serves.matchPolicies {E : Checks V} {s : ManagerState V} {orgID id : String} {d : PostableRule V}
    {thresholds : List (ThresholdSpec V)} (h : Serves E s orgID id d thresholds) (X : ExprLang)
    (visit : Nat → Visit (String × String)) (set : Labels) :
    Rules.matchPolicies X visit s false orgID id set =
      if noDataLabel ∈ set.map Prod.fst then some ((specReceivers E thresholds).flatMap RuleReceivers.channels)
      else some (matchedChannels X visit set 0 (storedRoutes orgID id (specReceivers E thresholds))) := by
  have hroutes : getAllByName s.db.routes orgID id = storedRoutes orgID id (specReceivers E thresholds) := by
    refine h.routes _ ?_
    unfold PostableRule.getRuleRouteRequest
    rw [h.thresholds]; rfl
  have hall : (storedRoutes orgID id (specReceivers E thresholds)).flatMap (fun route => route.channels) =
      (specReceivers E thresholds).flatMap RuleReceivers.channels := by
    unfold storedRoutes
    rw [flatMap_map, flatMap_map]
    rfl
  unfold Rules.matchPolicies
  simp only [h.noPolicy, Bool.false_eq_true, if_false, and_true, hroutes, hall]

/-- **When an alert reaches the channels it is to go to**, whatever the orders in which its labels are ranged over, in
every language in which the expressions of routes have their usual meaning. -/
theorem match_iff {E : Checks V} {s : ManagerState V} {orgID : String} {d : PostableRule V}
    {thresholds : List (ThresholdSpec V)} (hserves : Serves E s orgID r.id d thresholds) (hid : denotes r.id = some r.id)
    {st : RuleState V} {i : EvalInput V} {samples : List (Sample V)} (hq : (buildAndRunQuery W r st i).2 = some samples)
    {alerts : List (Nat × Alert V)}
    (halerts : newAlerts W r (getRuleReceivers i.order r.thresholds) i.ts samples = some alerts) {fp : Nat} {a : Alert V}
    (ha : (fp, a) ∈ alerts) :
    (∀ X : ExprLang, X.Usual → ∀ visit, matchPolicies X visit s false orgID r.id a.labels =
        some (expectedChannels (specReceivers E thresholds) a)) ↔
      (a.missing = false → Routed r.id (specReceivers E thresholds) a.labels a.thresholdName) := by
  obtain ⟨smpl, hs, rfl⟩ : ∃ smpl ∈ samples, newAlert W r (getRuleReceivers i.order r.thresholds) i.ts smpl = a := by
    unfold newAlerts at halerts
    split at halerts
    · rw [← Option.some.inj halerts] at ha
      obtain ⟨smpl, hs, heq⟩ := List.mem_map.1 ha
      exact ⟨smpl, hs, (Prod.mk.inj heq).2⟩
    · cases halerts
  have hlabels : (newAlert W r (getRuleReceivers i.order r.thresholds) i.ts smpl).labels = alertLabels W r smpl := rfl
  have hmissing : (newAlert W r (getRuleReceivers i.order r.thresholds) i.ts smpl).missing = smpl.isMissing := rfl
  have hmatch := fun X visit => hserves.matchPolicies X visit (alertLabels W r smpl)
  unfold expectedChannels
  rw [hlabels, hmissing]
  cases hm : smpl.isMissing with
  | true =>
    constructor
    · intro _ h
      cases h
    · intro _ X _ visit
      rw [hmatch, if_pos (alertLabels_noData W r hm), if_pos rfl]
  | false =>
    have hname := mem_thresholdName hq hs hm (getRuleReceivers i.order r.thresholds)
    have hruleID := alertLabels_ruleID W r smpl
    generalize (newAlert W r (getRuleReceivers i.order r.thresholds) i.ts smpl).thresholdName = name at hname
    rw [if_neg Bool.false_ne_true]
    by_cases hnd : noDataLabel ∈ (alertLabels W r smpl).map Prod.fst
    · have hall : (specReceivers E thresholds).flatMap RuleReceivers.channels =
          channelsOf (fun x => x.name == name) (specReceivers E thresholds) ↔
            ∀ x ∈ specReceivers E thresholds, x.name ≠ name → x.channels = [] := by
        have hle : ∀ x : RuleReceivers, (x.name == name) = true → (fun _ : RuleReceivers => true) x = true := fun _ _ => rfl
        simpa [channelsOf] using channelsOf_eq_iff (specReceivers E thresholds) hle
      constructor
      · intro h _
        have heq := h (.routesOr true) (ExprLang.usual_routesOr true) (fun _ => ⟨id, fun _ => List.Perm.refl _⟩)
        rw [hmatch, if_pos hnd] at heq
        exact ⟨fun _ => hall.1 (Option.some.inj heq), fun hn => absurd hnd hn, fun hn => absurd hnd hn,
          fun hn => absurd hnd hn, fun hn => absurd hnd hn⟩
      · intro h X _ visit
        rw [hmatch, if_pos hnd, hall.2 ((h rfl).noData hnd)]
    · constructor
      · intro h _
        have hmatched : ∀ X : ExprLang, X.Usual → ∀ visit, matchedChannels X visit (alertLabels W r smpl) 0
            (storedRoutes orgID r.id (specReceivers E thresholds)) =
              channelsOf (fun x => x.name == name) (specReceivers E thresholds) := by
          intro X hX visit
          have heq := h X hX visit
          rw [hmatch, if_neg hnd] at heq
          exact Option.some.inj heq
        have hnames := literals_of_forall hid
          (fun X hX => hmatched X hX (fun _ => ⟨id, fun _ => List.Perm.refl _⟩))
        exact routed_of_matchedChannels (ExprLang.usual_routesOr true) hid hnames hname hruleID hnd
          (hmatched _ (ExprLang.usual_routesOr true))
      · intro h X hX visit
        rw [hmatch, if_neg hnd]
        exact congrArg some
          (matchedChannels_of_routed hX hid ((h rfl).literals hnd) hname hruleID hnd (h rfl) visit)

end

/-! ## Two names -/

theorem denotes_plain {name : String} (h : ∀ c ∈ name.toList, c ≠ '"' ∧ c ≠ '\\' ∧ c ≠ '\n') : denotes name = some name := by
  unfold denotes
  rw [Quoted.literal_plain h]
  simp only [String.ofList_toList]

theorem routed_of_denotes {id name : String} {receivers : List RuleReceivers} {set : Labels}
    (hnames : ∀ x ∈ receivers, denotes x.name = some x.name) (hnd : noDataLabel ∉ set.map Prod.fst) (hs : ¬ Shadowed set)
    (hT : ∀ l ∈ set, labelPath l.1 = thresholdPath → l.2 = name) (hI : ∀ l ∈ set, labelPath l.1 = ruleIDPath → l.2 = id) :
    Routed id receivers set name := by
  refine ⟨fun h => absurd h hnd, fun _ x hx _ => by rw [hnames x hx]; rfl, fun _ _ => ⟨hs, hI⟩, fun _ _ => ?_,
    fun _ _ l hl hpath x _ _ => by rw [hT l hl hpath]⟩
  unfold channelsOf
  rw [filter_congr (fun x hx => ?_)]
  rw [hnames x hx]
  simp

def namedDefinition (name : String) : PostableRule Int := cpuDefinition false false [alertAbove name 5]

def namedRule (name : String) : Rule Int :=
  { cpuRule .threshold with
    thresholds := [{ criticalAboveFive with name, recoveryTarget := none, channels := ["ops"] }] }

def tenFound : EvalInput Int := evalAt 0 [("pod", "a")] 10

def namedAlerts (name : String) : Option (List (Nat × Alert Int)) :=
  (buildAndRunQuery plainWorld (namedRule name) (RuleState.init Int) tenFound).2.bind
    (newAlerts plainWorld (namedRule name) (getRuleReceivers tenFound.order (namedRule name).thresholds) tenFound.ts)

def createNamed (name : String) : Call Int := .create "org" "r1" (some (namedDefinition name)) nothingFails

def managerOf (name : String) : ManagerState Int := (step passing oneChannel (createNamed name)).1

theorem serves_named {name : String}
    (hconfig : (managerOf name).mem.notifications.lookup ("org", "r1") =
      (namedDefinition name).notificationSettings.map NotificationSettings.getAlertManagerNotificationConfig)
    (hroutes : (managerOf name).db.routes = storedRoutes "org" "r1" (specReceivers passing [alertAbove name 5])) :
    Serves passing (managerOf name) "org" "r1" (namedDefinition name) [alertAbove name 5] := by
  refine ⟨rfl, rfl, hconfig, fun routes h => ?_⟩
  have hrequest : (namedDefinition name).getRuleRouteRequest passing "r1" =
      some ((specReceivers passing [alertAbove name 5]).map (ruleRoute "r1")) := rfl
  rw [hrequest] at h
  rw [← Option.some.inj h, hroutes]
  rfl

theorem serves_critical :
    Serves passing (managerOf "critical") "org" "r1" (namedDefinition "critical") [alertAbove "critical" 5] :=
  serves_named (by decide) (by decide)

theorem serves_temp :
    Serves passing (managerOf "C:\\temp") "org" "r1" (namedDefinition "C:\\temp") [alertAbove "C:\\temp" 5] :=
  serves_named (by decide) (by decide)

/-- The alert of a threshold named `critical` goes to its channel. -/
theorem critical_reaches_ops : (step passing oneChannel (createNamed "critical")).2 = true ∧
    ∃ x ∈ (namedAlerts "critical").getD [], x.2.missing = false ∧ ∀ X : ExprLang, X.Usual → ∀ visit,
      matchPolicies X visit (managerOf "critical") false "org" "r1" x.2.labels = some ["ops"] := by
  have hall : ∀ x ∈ (namedAlerts "critical").getD [], x.2.missing = false ∧ noDataLabel ∉ x.2.labels.map Prod.fst ∧
      ¬ Shadowed x.2.labels ∧ (∀ l ∈ x.2.labels, labelPath l.1 = thresholdPath → l.2 = x.2.thresholdName) ∧
      (∀ l ∈ x.2.labels, labelPath l.1 = ruleIDPath → l.2 = "r1") ∧
      expectedChannels (specReceivers passing [alertAbove "critical" 5]) x.2 = ["ops"] := by decide +kernel
  have hnames : ∀ x ∈ specReceivers passing [alertAbove "critical" 5], x.name = "critical" := by decide
  have hplain : ∀ x ∈ specReceivers passing [alertAbove "critical" 5], ∀ c ∈ x.name.toList, c ≠ '"' ∧ c ≠ '\\' ∧ c ≠ '\n' := by
    intro x hx
    rw [hnames x hx]
    simp
  obtain ⟨x, hx⟩ := exists_mem_of_ne_nil ((namedAlerts "critical").getD []) (by decide)
  obtain ⟨hmissing, hnd, hs, hT, hI, hexpected⟩ := hall x hx
  obtain ⟨alerts, halerts, hin⟩ : ∃ alerts, namedAlerts "critical" = some alerts ∧ x ∈ alerts := by
    cases h : namedAlerts "critical" with
    | none => rw [h] at hx; cases hx
    | some alerts => rw [h] at hx; exact ⟨alerts, rfl, hx⟩
  obtain ⟨samples, hq, hnew⟩ := bind_eq_some_iff.1 halerts
  have hmatch := (match_iff serves_critical (by decide) hq hnew hin).2
    (fun _ => routed_of_denotes (fun x hx => denotes_plain (hplain x hx)) hnd hs hT hI)
  rw [hexpected] at hmatch
  exact ⟨by decide, x, hx, hmissing, hmatch⟩

/-- The name `C:\temp` is taken for one with a tab in it, and its alert goes nowhere. -/
theorem temp_reaches_nothing : (step passing oneChannel (createNamed "C:\\temp")).2 = true ∧
    ∃ x ∈ (namedAlerts "C:\\temp").getD [], x.2.missing = false ∧ x.2.thresholdName = "C:\\temp" ∧
      expectedChannels (specReceivers passing [alertAbove "C:\\temp" 5]) x.2 = ["ops"] ∧
      ∀ X : ExprLang, X.Usual → ∀ visit,
        matchPolicies X visit (managerOf "C:\\temp") false "org" "r1" x.2.labels = some [] := by
  have hall : ∀ x ∈ (namedAlerts "C:\\temp").getD [], x.2.missing = false ∧ x.2.thresholdName = "C:\\temp" ∧
      expectedChannels (specReceivers passing [alertAbove "C:\\temp" 5]) x.2 = ["ops"] ∧
      noDataLabel ∉ x.2.labels.map Prod.fst ∧
      ∀ l ∈ x.2.labels, labelPath l.1 = thresholdPath → l.2 = "C:\\temp" := by decide +kernel
  have hdenotes : ∀ x ∈ specReceivers passing [alertAbove "C:\\temp" 5], denotes x.name = some "C:\temp" := by
    decide
  obtain ⟨x, hx⟩ := exists_mem_of_ne_nil ((namedAlerts "C:\\temp").getD []) (by decide)
  obtain ⟨hmissing, hname, hexpected, hnd, hT⟩ := hall x hx
  refine ⟨by decide, x, hx, hmissing, hname, hexpected, fun X hX visit => ?_⟩
  rw [serves_temp.matchPolicies, if_neg hnd, matchedChannels_eq (fun _ => false)]
  · rfl
  · intro k y hy _
    rw [evaluateExpr_iff hX (by decide) (hdenotes y hy)]
    refine iff_of_false ?_ Bool.false_ne_true
    rintro ⟨_, hlast, _⟩
    obtain ⟨l, hl, hvalue⟩ := map_eq_some_iff.1 hlast
    rw [hT l (lastOn_mem hl).1 (lastOn_mem hl).2] at hvalue
    exact absurd hvalue (by decide)

end Rules
end DsApm
