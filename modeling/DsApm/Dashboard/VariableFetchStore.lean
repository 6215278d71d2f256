import DsApm.Dashboard.DependencyGraph
/-!
# VariableFetchStore — `variableFetchStore.ts`

The fetch state of every dashboard variable, and the actions on it.  An action updates a draft variable by variable, so a
later turn of a loop sees what an earlier one set.
-/
namespace DsApm
namespace Dashboard

inductive VariableFetchState where
  | idle | loading | revalidating | waiting | error
  deriving DecidableEq, Repr

structure VariableFetchStore where
  states : String → Option VariableFetchState := fun _ => none
  lastUpdated : String → Nat := fun _ => 0
  cycleIds : String → Nat := fun _ => 0

structure VariableFetchContext where
  dependencyData : DependencyData
  variableTypes : Record TVariableQueryType
  dynamicVariableOrder : List String

/-- `getVariableDependencyContext`, apart from the values that are selected. -/
def getVariableDependencyContext (textContainsVariableReference : String → String → Bool) (vars : List DashboardVariable) :
    VariableFetchContext where
  dependencyData := buildDependencyData textContainsVariableReference vars
  variableTypes := buildVariableTypesMap vars
  dynamicVariableOrder := buildDynamicVariableOrder vars

/-- Every query variable has a value selected; `hasValue` tells which variables have one. -/
def doAllQueryVariablesHaveValuesSelected (types : Record TVariableQueryType) (hasValue : String → Bool) : Bool :=
  types.keys.all (fun name => decide (types.get name ≠ some .query) || hasValue name)

namespace VariableFetchStore

def setState (draft : VariableFetchStore) (name : String) (state : VariableFetchState) : VariableFetchStore :=
  { draft with states := Function.update draft.states name (some state) }

def bumpCycle (draft : VariableFetchStore) (name : String) : VariableFetchStore :=
  { draft with cycleIds := Function.update draft.cycleIds name (draft.cycleIds name + 1) }

end VariableFetchStore

def isSettled (state : Option VariableFetchState) : Bool := decide (state = some .idle) || decide (state = some .error)

/-- The next fetch state: whether the variable has been fetched before. -/
def resolveFetchState (draft : VariableFetchStore) (name : String) : VariableFetchState :=
  if draft.lastUpdated name > 0 then .revalidating else .loading

def areAllQueryVariablesSettled (states : String → Option VariableFetchState) (types : Record TVariableQueryType) : Bool :=
  (types.keys.filter (fun name => decide (types.get name = some .query))).all (fun name => isSettled (states name))

def unlockWaitingDynamicVariables (draft : VariableFetchStore) (dynamicVariableOrder : List String) : VariableFetchStore :=
  dynamicVariableOrder.foldl (fun draft dynName =>
    if draft.states dynName = some .waiting then draft.setState dynName (resolveFetchState draft dynName) else draft) draft

def initializeVariableFetchStore (variableNames : List String) : VariableFetchStore :=
  variableNames.foldl (fun draft name => if draft.states name = none then draft.setState name .idle else draft) {}

def enqueueFetchOfAllVariables (ctx : VariableFetchContext) (hasValue : String → Bool) (draft : VariableFetchStore) :
    VariableFetchStore :=
  let draft := ctx.dependencyData.order.foldl (fun draft name =>
    let draft := draft.bumpCycle name
    let hasQueryParents := (ctx.dependencyData.parentDependencyGraph name).any
      (fun p => decide (ctx.variableTypes.get p = some .query))
    draft.setState name (if hasQueryParents then .waiting else resolveFetchState draft name)) draft
  ctx.dynamicVariableOrder.foldl (fun draft name =>
    let draft := draft.bumpCycle name
    draft.setState name (if doAllQueryVariablesHaveValuesSelected ctx.variableTypes hasValue then resolveFetchState draft name
      else .waiting)) draft

/-- If a query variable is done and all are settled, the waiting dynamic variables are unlocked. -/
def unlockIfSettled (ctx : VariableFetchContext) (name : String) (draft : VariableFetchStore) : VariableFetchStore :=
  if ctx.variableTypes.get name = some .query ∧ areAllQueryVariablesSettled draft.states ctx.variableTypes = true then
    unlockWaitingDynamicVariables draft ctx.dynamicVariableOrder
  else draft

def onVariableFetchComplete (ctx : VariableFetchContext) (name : String) (now : Nat) (draft : VariableFetchStore) :
    VariableFetchStore :=
  let draft := draft.setState name .idle
  let draft := { draft with lastUpdated := Function.update draft.lastUpdated name now }
  let draft := (ctx.dependencyData.graph name).foldl (fun draft child =>
    if ctx.variableTypes.get child = some .query ∧ draft.states child = some .waiting then
      draft.setState child (resolveFetchState draft child)
    else draft) draft
  unlockIfSettled ctx name draft

def onVariableFetchFailure (ctx : VariableFetchContext) (name : String) (draft : VariableFetchStore) :
    VariableFetchStore :=
  let draft := draft.setState name .error
  let draft := (ctx.dependencyData.transitiveDescendants name).foldl (fun draft desc =>
    if ctx.variableTypes.get desc = some .query then draft.setState desc .idle else draft) draft
  unlockIfSettled ctx name draft

def enqueueDescendantsOfVariable (ctx : VariableFetchContext) (name : String) (draft : VariableFetchStore) :
    VariableFetchStore :=
  let queryDescendants := (ctx.dependencyData.transitiveDescendants name).filter
    (fun desc => decide (ctx.variableTypes.get desc = some .query))
  let draft := queryDescendants.foldl (fun draft desc =>
    let draft := draft.bumpCycle desc
    let allParentsSettled := (ctx.dependencyData.parentDependencyGraph desc).all (fun p => isSettled (draft.states p))
    draft.setState desc (if allParentsSettled then resolveFetchState draft desc else .waiting)) draft
  ctx.dynamicVariableOrder.foldl (fun draft dynName =>
    let draft := draft.bumpCycle dynName
    draft.setState dynName (if areAllQueryVariablesSettled draft.states ctx.variableTypes then resolveFetchState draft dynName
      else .waiting)) draft

/-! ## Runs -/

/-- What happens: a time range changes, a value changes, a request comes back. -/
inductive FetchAction where
  | enqueueFetchOfAllVariables (hasValue : String → Bool)
  | enqueueDescendantsOfVariable (name : String)
  | onVariableFetchComplete (name : String) (now : Nat)
  | onVariableFetchFailure (name : String)

def fetchStep (ctx : VariableFetchContext) (store : VariableFetchStore) : FetchAction → VariableFetchStore × Unit
  | .enqueueFetchOfAllVariables hasValue => (Dashboard.enqueueFetchOfAllVariables ctx hasValue store, ())
  | .enqueueDescendantsOfVariable name => (Dashboard.enqueueDescendantsOfVariable ctx name store, ())
  | .onVariableFetchComplete name now => (Dashboard.onVariableFetchComplete ctx name now store, ())
  | .onVariableFetchFailure name => (Dashboard.onVariableFetchFailure ctx name store, ())

def Fetching (store : VariableFetchStore) (name : String) : Prop :=
  store.states name = some .loading ∨ store.states name = some .revalidating

def Allowed (store : VariableFetchStore) : FetchAction → Prop
  | .onVariableFetchComplete name _ | .onVariableFetchFailure name => Fetching store name
  | _ => True

end Dashboard
end DsApm
