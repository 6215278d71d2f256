import DsApm.Lib.GoMap
import DsApm.Lib.Rose
import Mathlib.Data.Finset.Basic
import Mathlib.Data.Prod.Lex
import Mathlib.Data.String.Basic
/-!
# Trace — the waterfall of a trace, from its spans to a page

The spans go into a map by their ids, and a loop over the map hangs each under its parent.  A parent that is not there gets
a placeholder, which goes into the map under the loop: whether the loop comes to it as well is not determined.  From the
roots on the nodes are trees, which the recursions walk.
-/
namespace DsApm
namespace Waterfall

structure StorableSpan where
  startTime : Int64
  durationNano : UInt64
  spanID : String
  traceID : String
  hasError : Bool
  serviceName : String
  name : String
  parentSpanID : String
  deriving DecidableEq

structure WaterfallSpan where
  durationNano : UInt64
  hasError : Bool
  name : String
  parentSpanID : String
  spanID : String
  timeUnixNano : UInt64
  traceID : String
  serviceName : String
  subTreeNodeCount : Nat
  hasChildren : Bool
  level : Nat
  deriving DecidableEq

def StorableSpan.toWaterfallSpan (item : StorableSpan) : WaterfallSpan where
  durationNano := item.durationNano
  hasError := item.hasError
  name := item.name
  parentSpanID := item.parentSpanID
  spanID := item.spanID
  timeUnixNano := item.startTime.toUInt64
  traceID := item.traceID
  serviceName := item.serviceName
  subTreeNodeCount := 0
  hasChildren := false
  level := 0

section
variable (item : StorableSpan)

@[simp] theorem spanID_toWaterfallSpan : item.toWaterfallSpan.spanID = item.spanID := rfl
@[simp] theorem parentSpanID_toWaterfallSpan : item.toWaterfallSpan.parentSpanID = item.parentSpanID := rfl
@[simp] theorem name_toWaterfallSpan : item.toWaterfallSpan.name = item.name := rfl
@[simp] theorem traceID_toWaterfallSpan : item.toWaterfallSpan.traceID = item.traceID := rfl
@[simp] theorem timeUnixNano_toWaterfallSpan : item.toWaterfallSpan.timeUnixNano = item.startTime.toUInt64 := rfl
@[simp] theorem durationNano_toWaterfallSpan : item.toWaterfallSpan.durationNano = item.durationNano := rfl

end

def newMissingWaterfallSpan (spanID traceID : String) (timeUnixNano durationNano : UInt64) : WaterfallSpan where
  durationNano := durationNano
  hasError := false
  name := "Missing Span"
  parentSpanID := ""
  spanID := spanID
  timeUnixNano := timeUnixNano
  traceID := traceID
  serviceName := ""
  subTreeNodeCount := 0
  hasChildren := false
  level := 0

/-- What spans are ordered by: `TimeUnixNano`, and then `Name`. -/
abbrev Key := Nat ×ₗ String

def WaterfallSpan.key (ws : WaterfallSpan) : Key := toLex (ws.timeUnixNano.toNat, ws.name)

/-- `sort.Slice`: some order in which no later entry is less than an earlier one. -/
structure SortSlice where
  sort : {α : Type} → (α → Key) → List α → List α
  perm : ∀ {α : Type} (key : α → Key) (l : List α), (sort key l).Perm l
  sorted : ∀ {α : Type} (key : α → Key) (l : List α), (sort key l).Pairwise (fun a b => key a ≤ key b)

/-! ## Linking -/

structure SpanNode where
  span : WaterfallSpan
  children : List String
  deriving DecidableEq

structure Links where
  spanIDToSpanNodeMap : GoMap String SpanNode
  traceRoots : List String
  hasMissingSpans : Bool

def spanNodes (spans : List StorableSpan) : GoMap String SpanNode :=
  spans.foldl (fun m item => m.insert item.spanID ⟨item.toWaterfallSpan, []⟩) ∅

def link (s : Links) (spanID : String) : Links :=
  match s.spanIDToSpanNodeMap.lookup spanID with
  | none => s
  | some spanNode =>
    if spanNode.span.parentSpanID ≠ "" then
      match s.spanIDToSpanNodeMap.lookup spanNode.span.parentSpanID with
      | some parentNode =>
        let parentNode := { parentNode with children := parentNode.children ++ [spanID] }
        { s with spanIDToSpanNodeMap := s.spanIDToSpanNodeMap.insert spanNode.span.parentSpanID parentNode }
      | none =>
        let missingSpan := newMissingWaterfallSpan spanNode.span.parentSpanID spanNode.span.traceID spanNode.span.timeUnixNano
          spanNode.span.durationNano
        { spanIDToSpanNodeMap := s.spanIDToSpanNodeMap.insert spanNode.span.parentSpanID ⟨missingSpan, [spanID]⟩
          traceRoots := s.traceRoots ++ [spanNode.span.parentSpanID]
          hasMissingSpans := true }
    else if spanID ∈ s.traceRoots then s
    else { s with traceRoots := s.traceRoots ++ [spanID] }

/-- One run over the spans: the keys the loop over the map comes to, every span's once and any others, and the two sorts. -/
structure Run (spans : List StorableSpan) where
  order : List String
  visits : (order.filter (fun id => decide (id ∈ spans.map (·.spanID)))).Perm (spans.map (·.spanID))
  children : SortSlice
  roots : SortSlice

def linked (spans : List StorableSpan) (order : List String) : Links := order.foldl link ⟨spanNodes spans, [], false⟩

/-! ## The trees -/

mutual
/-- `SortChildren`; sorting under a child changes nothing that the child is sorted by. -/
def sortChildren (S : SortSlice) : Rose WaterfallSpan → Rose WaterfallSpan
  | .node ws children => .node ws (S.sort (fun c => c.value.key) (sortChildrenEach S children))

def sortChildrenEach (S : SortSlice) : List (Rose WaterfallSpan) → List (Rose WaterfallSpan)
  | [] => []
  | c :: cs => sortChildren S c :: sortChildrenEach S cs
end

mutual
def getSubtreeNodeCount : Rose WaterfallSpan → Rose WaterfallSpan
  | .node ws children =>
    let counted := getSubtreeNodeCountEach children
    .node { ws with subTreeNodeCount := 1 + (counted.map (fun c => c.value.subTreeNodeCount)).sum } counted

def getSubtreeNodeCountEach : List (Rose WaterfallSpan) → List (Rose WaterfallSpan)
  | [] => []
  | c :: cs => getSubtreeNodeCount c :: getSubtreeNodeCountEach cs
end

def getWithoutChildren (ws : WaterfallSpan) (children : List (Rose WaterfallSpan)) (level : Nat) : WaterfallSpan :=
  { ws with level := level, hasChildren := !children.isEmpty }

mutual
def getPreOrderedSpans (uncollapsedSpanIDs : Finset String) (selectAll : Bool) : Nat → Rose WaterfallSpan → List WaterfallSpan
  | level, .node ws children =>
    getWithoutChildren ws children level ::
      if selectAll || ws.spanID ∈ uncollapsedSpanIDs then getPreOrderedSpansEach uncollapsedSpanIDs selectAll (level + 1) children
      else []

def getPreOrderedSpansEach (uncollapsedSpanIDs : Finset String) (selectAll : Bool) :
    Nat → List (Rose WaterfallSpan) → List WaterfallSpan
  | _, [] => []
  | level, c :: cs =>
    getPreOrderedSpans uncollapsedSpanIDs selectAll level c ++ getPreOrderedSpansEach uncollapsedSpanIDs selectAll level cs
end

mutual
def getPathToSelectedSpanID (selectedSpanID : String) : Rose WaterfallSpan → Option (List String)
  | .node ws children =>
    if ws.spanID = selectedSpanID then some [ws.spanID]
    else (getPathFromRoot selectedSpanID children).map (ws.spanID :: ·)

def getPathFromRoot (selectedSpanID : String) : List (Rose WaterfallSpan) → Option (List String)
  | [] => none
  | c :: cs =>
    match getPathToSelectedSpanID selectedSpanID c with
    | some path => some path
    | none => getPathFromRoot selectedSpanID cs
end

/-! ## The trace -/

structure WaterfallTrace where
  startTime : UInt64
  endTime : UInt64
  totalSpans : Nat
  totalErrorSpans : Nat
  spanIDToSpanNodeMap : GoMap String SpanNode
  traceRoots : List (Rose WaterfallSpan)
  hasMissingSpans : Bool

def widen (bounds : UInt64 × UInt64) (item : StorableSpan) : UInt64 × UInt64 :=
  let startTimeUnixNano := item.startTime.toUInt64
  (if bounds.1 = 0 ∨ startTimeUnixNano < bounds.1 then startTimeUnixNano else bounds.1,
    max bounds.2 (startTimeUnixNano + item.durationNano))

def nodeOf (nodes : GoMap String SpanNode) (spanID : String) : Option (WaterfallSpan × List String) :=
  (nodes.lookup spanID).map fun n => (n.span, n.children)

/-- `NewWaterfallTraceFromSpans`; nothing without enough fuel for the recursions. -/
def newWaterfallTraceFromSpans (fuel : Nat) (spans : List StorableSpan) (run : Run spans) : Option WaterfallTrace :=
  let links := linked spans run.order
  (links.traceRoots.mapM (Rose.grow (nodeOf links.spanIDToSpanNodeMap) fuel)).map fun trees =>
    { startTime := (spans.foldl widen (0, 0)).1
      endTime := (spans.foldl widen (0, 0)).2
      totalSpans := spans.length
      totalErrorSpans := spans.countP (·.hasError)
      spanIDToSpanNodeMap := links.spanIDToSpanNodeMap
      traceRoots := run.roots.sort (fun t => t.value.key) (trees.map fun t => getSubtreeNodeCount (sortChildren run.children t))
      hasMissingSpans := links.hasMissingSpans }

def WaterfallTrace.getAllSpans (wt : WaterfallTrace) : List WaterfallSpan :=
  wt.traceRoots.flatMap (getPreOrderedSpans ∅ true 0)

def autoExpandDescendants (nodes : GoMap String SpanNode) : Nat → String → Finset String → Finset String
  | 0, _, uncollapsed => uncollapsed
  | remainingDepth + 1, spanID, uncollapsed =>
    match nodes.lookup spanID with
    | none => uncollapsed
    | some node =>
      if node.children = [] then uncollapsed
      else node.children.foldl (fun u c => autoExpandDescendants nodes remainingDepth c u) (insert spanID uncollapsed)

def WaterfallTrace.calculateUncollapsedSpanIDs (wt : WaterfallTrace) (uncollapsedSpanIDs : List String) (selectedSpanID : String)
    (maxDepthForSelectedChildren : Nat) : Finset String :=
  let path := (getPathFromRoot selectedSpanID wt.traceRoots).getD []
  let uncollapsed := uncollapsedSpanIDs.toFinset ∪ (path.filter (fun id => decide (id ≠ selectedSpanID))).toFinset
  if selectedSpanID ∈ uncollapsed then
    autoExpandDescendants wt.spanIDToSpanNodeMap maxDepthForSelectedChildren selectedSpanID uncollapsed
  else uncollapsed

/-- `int(spanLimitPerRequest*0.4)` and `int(spanLimitPerRequest*0.6)`. -/
structure PageSize where
  before : Int
  after : Int

def pageOf500 : PageSize := ⟨200, 300⟩

def windowAroundIndex (selectedIndex total : Int) (page : PageSize) : Int × Int :=
  let selectedIndex := max selectedIndex 0
  let start := selectedIndex - page.before
  let stop := selectedIndex + page.after
  let (start, stop) := if start < 0 then (0, stop - start) else (start, stop)
  let (start, stop) := if stop > total then (start - (stop - total), total) else (start, stop)
  (max start 0, stop)

def getSpanIndex (spans : List WaterfallSpan) (targetSpanID : String) : Option Nat :=
  spans.findIdx? (fun s => s.spanID == targetSpanID)

/-- One root in the loop of `GetSelectedSpans`: its spans go behind the others, and the selected one's index is noted. -/
def addRoot (selectedSpanID : String) (acc : List WaterfallSpan × Option Nat) (spans : List WaterfallSpan) :
    List WaterfallSpan × Option Nat :=
  (acc.1 ++ spans, ((getSpanIndex spans selectedSpanID).map (· + acc.1.length)).or acc.2)

def WaterfallTrace.getSelectedSpans (wt : WaterfallTrace) (uncollapsedSpanIDs : List String) (selectedSpanID : String) (page : PageSize)
    (maxDepthForSelectedChildren : Nat) : List WaterfallSpan × Finset String :=
  let uncollapsed := wt.calculateUncollapsedSpanIDs uncollapsedSpanIDs selectedSpanID maxDepthForSelectedChildren
  let (spans, selected) := (wt.traceRoots.map (getPreOrderedSpans uncollapsed false 0)).foldl (addRoot selectedSpanID) ([], none)
  let (start, stop) := windowAroundIndex ((selected.map (fun i => (i : Int))).getD (-1)) spans.length page
  ((spans.take stop.toNat).drop start.toNat, uncollapsed)

end Waterfall
end DsApm
