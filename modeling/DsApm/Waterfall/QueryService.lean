import DsApm.Waterfall.Trace
/-!
# QueryService — the waterfall of the query service

The older waterfall sorts a node's children when it comes to the node, decides on the way down which spans are shown, and
hands down how many more levels under the selected span are expanded.  The spans expanded so go into the map of uncollapsed
spans behind each root.
-/
namespace DsApm
namespace Waterfall
namespace QueryService

structure Span where
  timeUnixNano : UInt64
  durationNano : UInt64
  spanID : String
  traceID : String
  hasError : Bool
  serviceName : String
  name : String
  subTreeNodeCount : Nat
  hasChildren : Bool
  hasSiblings : Bool
  level : Nat
  deriving DecidableEq

def Span.key (span : Span) : Key := toLex (span.timeUnixNano.toNat, span.name)

def SPAN_LIMIT_PER_REQUEST_FOR_WATERFALL : PageSize := pageOf500

def maxDepthForSelectedSpanChildren : Nat := 5

mutual
def getPathFromRootToSelectedSpanId (selectedSpanId : String) : Rose Span → Bool × List String
  | .node node children =>
    if node.spanID = selectedSpanId then (true, [node.spanID])
    else
      let (isPresent, rest) := pathUnderChildren selectedSpanId children
      (isPresent, node.spanID :: rest)

def pathUnderChildren (selectedSpanId : String) : List (Rose Span) → Bool × List String
  | [] => (false, [])
  | c :: cs =>
    let (isPresent, spansFromRootToNode) := getPathFromRootToSelectedSpanId selectedSpanId c
    if isPresent then (true, spansFromRootToNode) else pathUnderChildren selectedSpanId cs
end

structure TraverseOpts where
  uncollapsedSpans : Finset String
  selectedSpanID : String
  isSelectedSpanUncollapsed : Bool
  selectAll : Bool

structure Call where
  level : Nat
  isPartOfPreOrder : Bool
  hasSibling : Bool
  autoExpandDepth : Nat

structure Traversal where
  preOrderTraversal : List Span
  autoExpandedSpans : List String
  subTreeNodeCount : Nat

def TraverseOpts.remaining (opts : TraverseOpts) (spanID : String) (autoExpandDepth : Nat) : Nat :=
  if spanID = opts.selectedSpanID ∧ opts.isSelectedSpanUncollapsed then maxDepthForSelectedSpanChildren
  else if autoExpandDepth > 0 then autoExpandDepth - 1
  else 0

def eachChild (opts : TraverseOpts) (spanID : String) (call : Call) : List (Span × (Call → Traversal)) → Traversal → Traversal
  | [], acc => acc
  | (_, traverse) :: rest, acc =>
    let remainingAutoExpandDepth := opts.remaining spanID call.autoExpandDepth
    let isAlreadyUncollapsed := decide (spanID ∈ opts.uncollapsedSpans)
    let isChildWithinMaxDepth := decide (remainingAutoExpandDepth > 0)
    let childIsPartOfPreOrder := opts.selectAll || (call.isPartOfPreOrder && (isAlreadyUncollapsed || isChildWithinMaxDepth))
    let autoExpandedSpans :=
      if call.isPartOfPreOrder && isChildWithinMaxDepth && !isAlreadyUncollapsed && !decide (spanID ∈ acc.autoExpandedSpans) then
        acc.autoExpandedSpans ++ [spanID]
      else acc.autoExpandedSpans
    let child := traverse ⟨call.level + 1, childIsPartOfPreOrder, !rest.isEmpty, remainingAutoExpandDepth⟩
    eachChild opts spanID call rest
      { preOrderTraversal := acc.preOrderTraversal ++ child.preOrderTraversal
        autoExpandedSpans := autoExpandedSpans ++ child.autoExpandedSpans
        subTreeNodeCount := acc.subTreeNodeCount + (child.subTreeNodeCount + 1) }

def nodeWithoutChildren (span : Span) (hasChildren : Bool) (call : Call) (subTreeNodeCount : Nat) : Span :=
  { span with hasChildren := hasChildren, level := call.level, hasSiblings := call.hasSibling, subTreeNodeCount := subTreeNodeCount }

mutual
def traverseTrace (S : SortSlice) (opts : TraverseOpts) : Rose Span → Call → Traversal
  | .node span children, call =>
    let sorted := S.sort (fun e => e.1.key) (traverseEach S opts children)
    let below := eachChild opts span.spanID call sorted ⟨[], [], 0⟩
    { below with preOrderTraversal :=
        (if call.isPartOfPreOrder then [nodeWithoutChildren span (!sorted.isEmpty) call (below.subTreeNodeCount + 1)] else [])
          ++ below.preOrderTraversal }

def traverseEach (S : SortSlice) (opts : TraverseOpts) : List (Rose Span) → List (Span × (Call → Traversal))
  | [] => []
  | c :: cs => (c.value, traverseTrace S opts c) :: traverseEach S opts cs
end

structure Loop where
  uncollapsedSpanMap : Finset String
  preOrderTraversal : List Span
  selectedSpanIndex : Option Nat

def findIndexForSelectedSpanFromPreOrder (spans : List Span) (selectedSpanId : String) : Option Nat :=
  spans.findIdx? (fun span => span.spanID == selectedSpanId)

def eachRoot (S : SortSlice) (selectedSpanID : String) (spanIdToSpanNodeMap : GoMap String (Rose Span))
    (isSelectedSpanIDUnCollapsed : Bool) (s : Loop) (root : Rose Span) : Loop :=
  match spanIdToSpanNodeMap.lookup root.value.spanID with
  | none => s
  | some rootNode =>
    let (present, spansFromRootToNode) := getPathFromRootToSelectedSpanId selectedSpanID rootNode
    let opened := if present then
        (spansFromRootToNode.filter (fun id => !(decide (selectedSpanID = id) && !isSelectedSpanIDUnCollapsed))).toFinset
      else ∅
    let uncollapsedSpanMap := s.uncollapsedSpanMap ∪ opened
    let traversal := traverseTrace S ⟨uncollapsedSpanMap, selectedSpanID, isSelectedSpanIDUnCollapsed, false⟩ rootNode ⟨0, true, false, 0⟩
    { uncollapsedSpanMap := uncollapsedSpanMap ∪ traversal.autoExpandedSpans.toFinset
      preOrderTraversal := s.preOrderTraversal ++ traversal.preOrderTraversal
      selectedSpanIndex := ((findIndexForSelectedSpanFromPreOrder traversal.preOrderTraversal selectedSpanID).map
        (· + s.preOrderTraversal.length)).or s.selectedSpanIndex }

def window (selectedSpanIndex total : Int) (page : PageSize) : Int × Int :=
  let startIndex := selectedSpanIndex - page.before
  let endIndex := selectedSpanIndex + page.after
  let (startIndex, endIndex) := if startIndex < 0 then (0, endIndex - startIndex) else (startIndex, endIndex)
  let (startIndex, endIndex) := if endIndex > total then (startIndex - (endIndex - total), total) else (startIndex, endIndex)
  (if startIndex < 0 then 0 else startIndex, endIndex)

/-- `GetSelectedSpans`: the page, and the uncollapsed ids. -/
def getSelectedSpans (S : SortSlice) (uncollapsedSpans : List String) (selectedSpanID : String) (traceRoots : List (Rose Span))
    (spanIdToSpanNodeMap : GoMap String (Rose Span)) (isSelectedSpanIDUnCollapsed : Bool) : List Span × Finset String :=
  let s := traceRoots.foldl (eachRoot S selectedSpanID spanIdToSpanNodeMap isSelectedSpanIDUnCollapsed)
    ⟨uncollapsedSpans.toFinset, [], none⟩
  let selectedSpanIndex : Int := (s.selectedSpanIndex.map (fun i => (i : Int))).getD (-1)
  let selectedSpanIndex := if selectedSpanIndex = -1 ∧ selectedSpanID ≠ "" then 0 else selectedSpanIndex
  let (startIndex, endIndex) := window selectedSpanIndex s.preOrderTraversal.length SPAN_LIMIT_PER_REQUEST_FOR_WATERFALL
  ((s.preOrderTraversal.take endIndex.toNat).drop startIndex.toNat, s.uncollapsedSpanMap)

end QueryService
end Waterfall
end DsApm
