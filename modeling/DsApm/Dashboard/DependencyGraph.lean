import DsApm.Lib.Kahn
/-!
# DependencyGraph — which dashboard variable refers to which

`DashboardVariablesSelection/util.ts` and `dashboardVariablesStoreUtils.ts`: an edge goes from a variable to every query
variable whose query refers to it.  Whether a text refers to a name is a regular expression's business and is a function
here.  Every variable has a name.  The search for a cycle to show to the user is left out: on a graph without cycles it
finds none, and nothing else reads it.
-/
namespace DsApm
namespace Dashboard

open List

inductive TVariableQueryType where
  | query | textbox | custom | dynamic
  deriving DecidableEq, Repr

structure DashboardVariable where
  name : String
  type : TVariableQueryType
  queryValue : String := ""
  deriving DecidableEq, Repr

/-! ## Records -/

/-- A record: its keys in the order they were set first, and what they hold. -/
structure Record (β : Type) where
  keys : List String := []
  get : String → Option β := fun _ => none

def Record.set {β : Type} (r : Record β) (key : String) (value : β) : Record β :=
  { keys := if key ∈ r.keys then r.keys else r.keys ++ [key], get := Function.update r.get key (some value) }

def arrayIndex? (key : String) : Option Nat :=
  if key.toList ≠ [] ∧ key.toList.all Char.isDigit = true ∧ (key = "0" ∨ key.toList.head? ≠ some '0') then
    let n := key.toList.foldl (fun n c => 10 * n + (c.toNat - '0'.toNat)) 0
    if n < 2 ^ 32 - 1 then some n else none
  else none

/-- `Object.keys`: the array indices in their order, then the other keys in the order they were set. -/
def objectKeys (keys : List String) : List String :=
  (keys.filter (fun key => (arrayIndex? key).isSome)).insertionSort
      (fun a b => (arrayIndex? a).getD 0 ≤ (arrayIndex? b).getD 0) ++
    keys.filter (fun key => !(arrayIndex? key).isSome)

theorem objectKeys_perm (keys : List String) : (objectKeys keys).Perm keys :=
  ((perm_insertionSort _ _).append_right _).trans (filter_append_perm _ keys)

/-! ## The graph -/

abbrev VariableGraph := String → List String

structure DependencyData where
  order : List String
  graph : VariableGraph
  parentDependencyGraph : VariableGraph
  transitiveDescendants : VariableGraph

section
variable (textContainsVariableReference : String → String → Bool)

def getDependentVariablesBasedOnVariableName (variableName : String) (vars : List DashboardVariable) : List String :=
  (vars.filter (fun v => decide (v.type = .query) && textContainsVariableReference v.queryValue variableName)).map
    DashboardVariable.name

def buildDependencies (vars : List DashboardVariable) : VariableGraph := fun node =>
  if node ∈ vars.map DashboardVariable.name then
    getDependentVariablesBasedOnVariableName textContainsVariableReference node vars
  else []

end

def buildParentDependencyGraph (keys : List String) (graph : VariableGraph) : VariableGraph :=
  keys.foldl (fun parentGraph node =>
    (graph node).foldl (fun parentGraph child => Function.update parentGraph child (parentGraph child ++ [node])) parentGraph)
    (fun _ => [])

/-- `buildDependencyGraph`, over the keys of the dependencies; the adjacency list is a copy of these. -/
def buildDependencyGraph (keys : List String) (dependencies : VariableGraph) : DependencyData :=
  let inDegreeKeys := objectKeys (keys.flatMap (fun node => node :: dependencies node)).eraseDups
  let topologicalOrder := Kahn.kahn dependencies keys inDegreeKeys
  { order := topologicalOrder
    graph := dependencies
    parentDependencyGraph := buildParentDependencyGraph keys dependencies
    transitiveDescendants := Kahn.descendants dependencies topologicalOrder }

/-- `buildDependencyData`, the order with the query variables only.  Of no variables there is none in the source; what is
built here has empty lists. -/
def buildDependencyData (textContainsVariableReference : String → String → Bool) (vars : List DashboardVariable) :
    DependencyData :=
  let data := buildDependencyGraph (objectKeys (vars.map DashboardVariable.name))
    (buildDependencies textContainsVariableReference vars)
  { data with order := data.order.filter (fun name =>
      decide ((vars.find? (fun v => decide (v.name = name))).map DashboardVariable.type = some .query)) }

def buildVariableTypesMap (vars : List DashboardVariable) : Record TVariableQueryType :=
  vars.foldl (fun types v => types.set v.name v.type) {}

def buildDynamicVariableOrder (vars : List DashboardVariable) : List String :=
  (vars.filter (fun v => decide (v.type = .dynamic))).map DashboardVariable.name

/-! ## What the graph says -/

theorem inDegreeKeys_perm {keys : List String} {dependencies : VariableGraph} (hnodup : keys.Nodup)
    (hclosed : ∀ u ∈ keys, ∀ v ∈ dependencies u, v ∈ keys) :
    (objectKeys (keys.flatMap (fun node => node :: dependencies node)).eraseDups).Perm keys := by
  refine (objectKeys_perm _).trans ((perm_ext_iff_of_nodup (Dedup.nodup_eraseDups _) hnodup).2 (fun v => ?_))
  rw [mem_eraseDups, mem_flatMap]
  constructor
  · rintro ⟨u, hu, hv⟩
    rcases mem_cons.1 hv with rfl | hv
    · exact hu
    · exact hclosed u hu v hv
  · exact fun hv => ⟨v, hv, mem_cons_self⟩

theorem mem_buildParentDependencyGraph {keys : List String} {graph : VariableGraph} {p v : String} :
    p ∈ buildParentDependencyGraph keys graph v ↔ p ∈ keys ∧ v ∈ graph p := by
  have hchildren : ∀ (node : String) (l : List String) (parentGraph : VariableGraph),
      p ∈ l.foldl (fun parentGraph child => Function.update parentGraph child (parentGraph child ++ [node])) parentGraph v ↔
        p ∈ parentGraph v ∨ (p = node ∧ v ∈ l) := by
    intro node l
    induction l with
    | nil => simp
    | cons c l ih =>
      intro parentGraph
      rw [foldl_cons, ih]
      by_cases hvc : v = c
      · subst hvc
        rw [Function.update_self]
        simp only [mem_append, mem_cons, true_or, and_true]
        tauto
      · rw [Function.update_of_ne hvc]
        simp only [mem_cons, hvc, false_or]
  have hnodes : ∀ (l : List String) (parentGraph : VariableGraph),
      p ∈ l.foldl (fun parentGraph node => (graph node).foldl
        (fun parentGraph child => Function.update parentGraph child (parentGraph child ++ [node])) parentGraph) parentGraph v ↔
        p ∈ parentGraph v ∨ (p ∈ l ∧ v ∈ graph p) := by
    intro l
    induction l with
    | nil => simp
    | cons n l ih =>
      intro parentGraph
      rw [foldl_cons, ih, hchildren, mem_cons]
      constructor
      · rintro ((h | ⟨rfl, h⟩) | ⟨h, h'⟩)
        · exact .inl h
        · exact .inr ⟨.inl rfl, h⟩
        · exact .inr ⟨.inr h, h'⟩
      · rintro (h | ⟨rfl | h, h'⟩)
        · exact .inl (.inl h)
        · exact .inl (.inr ⟨rfl, h'⟩)
        · exact .inr ⟨h, h'⟩
  rw [buildParentDependencyGraph, hnodes]
  simp

end Dashboard
end DsApm
