import DsApm.Waterfall.Completeness
import DsApm.Waterfall.Places
import DsApm.Waterfall.QueryService
/-!
# Selection — the older waterfall and the newer one show the same page

The newer one fixes the set of expanded ids before it walks: the list, the way to the selected span, and, if that is in the
list, the spans with children less than five levels under it (`mem_calculateUncollapsedSpanIDs`).  The older one decides as
it goes.  Its remaining depth at a span counts the levels to the selected one (`left_child`), so it goes on under exactly the
spans of the set (`traverseTrace_spec`), and what it adds to its map behind the roots is the rest of the set.
-/
namespace DsApm
namespace Waterfall

open Rose List

def WaterfallSpan.old (ws : WaterfallSpan) : QueryService.Span where
  timeUnixNano := ws.timeUnixNano
  durationNano := ws.durationNano
  spanID := ws.spanID
  traceID := ws.traceID
  hasError := ws.hasError
  serviceName := ws.serviceName
  name := ws.name
  subTreeNodeCount := 0
  hasChildren := false
  hasSiblings := false
  level := 0

@[simp] theorem spanID_old (ws : WaterfallSpan) : ws.old.spanID = ws.spanID := rfl
@[simp] theorem key_old (ws : WaterfallSpan) : ws.old.key = ws.key := rfl

/-- What both show of a span: its id, its level, whether it has children, and the size of its subtree. -/
def WaterfallSpan.seen (ws : WaterfallSpan) : String × Nat × Bool × Nat := (ws.spanID, ws.level, ws.hasChildren, ws.subTreeNodeCount)

def QueryService.Span.seen (span : QueryService.Span) : String × Nat × Bool × Nat :=
  (span.spanID, span.level, span.hasChildren, span.subTreeNodeCount)

def mapOf {α : Type} (l : List (String × α)) : GoMap String α := l.foldl (fun m e => GoMap.put (fun _ => e.2) m e.1) ∅

def nodeMap (forest : List (Rose WaterfallSpan)) : GoMap String SpanNode :=
  mapOf ((forest.flatMap subtrees).map fun s => (s.value.spanID, ⟨s.value, s.children.map (fun c => c.value.spanID)⟩))

def oldNodeMap (forest : List (Rose QueryService.Span)) : GoMap String (Rose QueryService.Span) :=
  mapOf ((forest.flatMap subtrees).map fun s => (s.value.spanID, s))

def WaterfallTrace.ofForest (wt : WaterfallTrace) (S : SortSlice) (forest : List (Rose WaterfallSpan)) : WaterfallTrace :=
  { wt with
    traceRoots := forest.map fun t => getSubtreeNodeCount (sortChildren S t)
    spanIDToSpanNodeMap := nodeMap forest }

def SiblingsDiffer (t : Rose WaterfallSpan) : Prop := ∀ s ∈ t.subtrees, (s.children.map fun c => c.value.key).Nodup

/-! ## The maps of a forest -/

theorem lookup_mapOf {α : Type} {l : List (String × α)} (hnd : (l.map Prod.fst).Nodup) {k : String} {a : α} (h : (k, a) ∈ l) :
    (mapOf l).lookup k = some a :=
  GoMap.lookup_foldl_put_of_mem (fun b _ => b) l ∅ hnd h

theorem lookup_mapOf_of_not_mem {α : Type} {l : List (String × α)} {k : String} (h : k ∉ l.map Prod.fst) : (mapOf l).lookup k = none := by
  rw [mapOf, GoMap.lookup_foldl_put_of_not_mem (fun b _ => b) l ∅ h]
  rfl

section
variable {forest : List (Rose WaterfallSpan)} (hnd : ((forest.flatMap values).map (·.spanID)).Nodup)
include hnd

theorem nodup_idTrees : ((forest.map idTree).flatMap values).Nodup := by
  have hids : (forest.map idTree).flatMap values = (forest.flatMap values).map (·.spanID) := by
    rw [flatMap_map, map_flatMap]
    exact flatMap_congr fun t _ => values_map _ t
  rw [hids]
  exact hnd

omit hnd in
theorem keys_nodes {α : Type} (g : Rose WaterfallSpan → α) :
    ((forest.flatMap subtrees).map fun s => (s.value.spanID, g s)).map Prod.fst = (forest.flatMap values).map (·.spanID) := by
  rw [List.map_map, map_flatMap, map_flatMap]
  exact flatMap_congr fun t _ => by rw [← map_value_subtrees, List.map_map]; rfl

theorem childrenOf_nodeMap (id : String) : childrenOf (nodeMap forest) id = kidsIn (forest.map idTree) id := by
  have hkeys : ((forest.flatMap subtrees).map fun s =>
      (s.value.spanID, (⟨s.value, s.children.map (fun c => c.value.spanID)⟩ : SpanNode))).map Prod.fst = _ := keys_nodes _
  by_cases hin : id ∈ (forest.flatMap values).map (·.spanID)
  · rw [← hkeys] at hin
    obtain ⟨e, he, rfl⟩ := List.mem_map.1 hin
    obtain ⟨s, hs, rfl⟩ := List.mem_map.1 he
    have hs' : idTree s ∈ (forest.map idTree).flatMap subtrees := by
      obtain ⟨t, ht, hst⟩ := mem_flatMap.1 hs
      rw [flatMap_map]
      exact mem_flatMap.2 ⟨t, ht, by rw [subtrees_map]; exact List.mem_map_of_mem hst⟩
    have hkids := kidsIn_value (nodup_idTrees hnd) hs'
    rw [value_map] at hkids
    rw [childrenOf, nodeMap, lookup_mapOf (hkeys ▸ hnd) he, hkids]
    obtain ⟨ws, cs⟩ := s
    rw [idTree_node]
    simp [Function.comp_def]
  · rw [childrenOf, nodeMap, lookup_mapOf_of_not_mem (hkeys ▸ hin)]
    refine (eq_nil_iff_forall_not_mem.2 fun x hx => ?_).symm
    obtain ⟨s, hs, rfl, -⟩ := mem_subtrees_of_mem_kidsIn hx
    refine hin ?_
    rw [flatMap_map] at hs
    obtain ⟨t, ht, hs⟩ := mem_flatMap.1 hs
    rw [subtrees_map] at hs
    obtain ⟨u, hu, rfl⟩ := List.mem_map.1 hs
    rw [value_map]
    refine List.mem_map_of_mem (mem_flatMap.2 ⟨t, ht, ?_⟩)
    rw [← map_value_subtrees]
    exact List.mem_map_of_mem hu

theorem lookup_oldNodeMap {t : Rose WaterfallSpan} (ht : t ∈ forest) :
    (oldNodeMap (forest.map (Rose.map WaterfallSpan.old))).lookup t.value.spanID = some (t.map WaterfallSpan.old) := by
  have hl : ((forest.map (Rose.map WaterfallSpan.old)).flatMap subtrees).map (fun s => (s.value.spanID, s)) =
      (forest.flatMap subtrees).map fun s => (s.value.spanID, s.map WaterfallSpan.old) := by
    rw [flatMap_map, map_flatMap, map_flatMap]
    refine flatMap_congr fun u _ => ?_
    rw [subtrees_map, List.map_map]
    exact map_congr_left fun s _ => by simp
  rw [oldNodeMap, hl]
  refine lookup_mapOf ?_ (List.mem_map.2 ⟨t, mem_flatMap.2 ⟨t, ht, self_mem_subtrees t⟩, rfl⟩)
  rw [keys_nodes]
  exact hnd

end

/-! ## Steps under the selected span -/

section
variable {parent : String → Option String} {kids : String → List String} (hkids : ∀ p x, x ∈ kids p ↔ parent x = some p)
include hkids

theorem reaches_succ {k : Nat} {a x : String} : Reaches kids (k + 1) a x ↔ ∃ p, parent x = some p ∧ Reaches kids k a p := by
  induction k generalizing a with
  | zero =>
    constructor
    · rintro ⟨c, hc, hr⟩
      rw [Reaches] at hr
      subst hr
      exact ⟨a, (hkids a c).1 hc, rfl⟩
    · rintro ⟨p, hp, hr⟩
      rw [Reaches] at hr
      subst hr
      exact ⟨x, (hkids a x).2 hp, rfl⟩
  | succ k ih =>
    constructor
    · rintro ⟨c, hc, hr⟩
      obtain ⟨p, hp, hr⟩ := ih.1 hr
      exact ⟨p, hp, c, hc, hr⟩
    · rintro ⟨p, hp, c, hc, hr⟩
      exact ⟨c, hc, ih.2 ⟨p, hp, hr⟩⟩

omit hkids in
theorem remaining_eq (opts : QueryService.TraverseOpts) (x : String) (depth : Nat) : opts.remaining x depth =
    if x = opts.selectedSpanID ∧ opts.isSelectedSpanUncollapsed = true then QueryService.maxDepthForSelectedSpanChildren else depth - 1 := by
  unfold QueryService.TraverseOpts.remaining
  split_ifs <;> omega

omit hkids in
/-- So many levels are left at a span as the selected one is less than five levels above it. -/
def Left (kids : String → List String) (opts : QueryService.TraverseOpts) (depth : Nat) (x : String) : Prop :=
  ∀ j, j < opts.remaining x depth ↔
    opts.isSelectedSpanUncollapsed = true ∧ ∃ k, Reaches kids k opts.selectedSpanID x ∧ j + k < QueryService.maxDepthForSelectedSpanChildren

theorem left_root (opts : QueryService.TraverseOpts) {x : String} (hx : parent x = none) : Left kids opts 0 x := by
  have hroot : ∀ k, Reaches kids k opts.selectedSpanID x ↔ k = 0 ∧ x = opts.selectedSpanID := fun k => by
    cases k with
    | zero => simp [Reaches, eq_comm]
    | succ k =>
      rw [reaches_succ hkids]
      simp [hx]
  intro j
  simp only [remaining_eq, hroot]
  split_ifs with h
  · simp [h]
  · constructor
    · intro hj
      omega
    · rintro ⟨hon, k, ⟨-, hsel⟩, -⟩
      exact absurd ⟨hsel, hon⟩ h

theorem left_child (opts : QueryService.TraverseOpts) {depth : Nat} {x c : String} (hleft : Left kids opts depth x)
    (hc : parent c = some x) : Left kids opts (opts.remaining x depth) c := by
  intro j
  have hstep : (∃ k, Reaches kids k opts.selectedSpanID c ∧ j + k < QueryService.maxDepthForSelectedSpanChildren) ↔
      (c = opts.selectedSpanID ∧ j < QueryService.maxDepthForSelectedSpanChildren) ∨
        ∃ k, Reaches kids k opts.selectedSpanID x ∧ j + 1 + k < QueryService.maxDepthForSelectedSpanChildren := by
    constructor
    · rintro ⟨k, hr, hk⟩
      cases k with
      | zero =>
        rw [Reaches] at hr
        exact Or.inl ⟨hr.symm, by omega⟩
      | succ k =>
        obtain ⟨p, hp, hr⟩ := (reaches_succ hkids).1 hr
        rw [hc, Option.some_inj] at hp
        exact Or.inr ⟨k, hp ▸ hr, by omega⟩
    · rintro (⟨rfl, hj⟩ | ⟨k, hr, hk⟩)
      · exact ⟨0, rfl, by omega⟩
      · exact ⟨k + 1, (reaches_succ hkids).2 ⟨x, hc, hr⟩, by omega⟩
  have hbelow := hleft (j + 1)
  generalize opts.remaining x depth = left at hbelow ⊢
  rw [hstep, remaining_eq]
  split_ifs with h
  · constructor
    · exact fun hj => ⟨h.2, Or.inl ⟨h.1, hj⟩⟩
    · rintro ⟨-, ⟨-, hj⟩ | ⟨k, -, hk⟩⟩
      · exact hj
      · omega
  · rw [show j < left - 1 ↔ j + 1 < left by omega, hbelow]
    constructor
    · exact fun hr => ⟨hr.1, Or.inr hr.2⟩
    · rintro ⟨hon, ⟨hsel, -⟩ | hr⟩
      · exact absurd ⟨hsel, hon⟩ h
      · exact ⟨hon, hr⟩

/-! ## The way to the selected span -/

omit hkids in
theorem below_antisymm {x y : String} {d : Nat} (hd : At parent x d) (h : Below parent x y) (h' : Below parent y x) : x = y := by
  obtain ⟨k, hk⟩ := hd.under h
  obtain ⟨k', hk'⟩ := hk.under h'
  have := hd.unique hk'
  exact hd.eq_of_below (by rwa [show k = 0 by omega, Nat.add_zero] at hk) h

/-- **The path is the spans between the root and the selected one**, and there is none if it is not under the root. -/
theorem getPathToSelectedSpanID_spec (selectedSpanID : String) (t : Rose WaterfallSpan) : ∀ {d : Nat}, Built kids (idTree t) →
    At parent t.value.spanID d →
      match getPathToSelectedSpanID selectedSpanID t with
      | none => ¬ Below parent t.value.spanID selectedSpanID
      | some path => Below parent t.value.spanID selectedSpanID ∧
          ∀ x, x ∈ path ↔ Below parent t.value.spanID x ∧ Below parent x selectedSpanID := by
  induction t using ind with
  | h ws cs ih =>
    intro d hbuilt hd
    rw [value_node] at hd ⊢
    rw [idTree_node] at hbuilt
    cases hbuilt with
    | node hroots hcs =>
    have hchild : ∀ c ∈ cs, Built kids (idTree c) ∧ parent c.value.spanID = some ws.spanID := fun c hc => by
      refine ⟨hcs _ (List.mem_map_of_mem hc), (hkids _ _).1 (hroots.mem_iff.1 (List.mem_map.2 ⟨_, List.mem_map_of_mem hc, ?_⟩))⟩
      rw [value_map]
    -- whoever is under the root is the root, or under a child
    have hunder : ∀ x, Below parent ws.spanID x → x = ws.spanID ∨ ∃ c ∈ cs, Below parent c.value.spanID x := fun x hx => by
      rcases Relation.ReflTransGen.cases_head hx with rfl | ⟨y, hy, hyx⟩
      · exact Or.inl rfl
      · obtain ⟨v, hv, rfl⟩ := List.mem_map.1 (hroots.mem_iff.2 ((hkids _ _).2 hy))
        obtain ⟨c, hc, rfl⟩ := List.mem_map.1 hv
        rw [value_map] at hyx
        exact Or.inr ⟨c, hc, hyx⟩
    rw [getPathToSelectedSpanID_node]
    split_ifs with hsel
    · subst hsel
      refine ⟨Relation.ReflTransGen.refl, fun x => ?_⟩
      rw [mem_singleton]
      exact ⟨fun h => h ▸ ⟨Relation.ReflTransGen.refl, Relation.ReflTransGen.refl⟩, fun h => (below_antisymm hd h.1 h.2).symm⟩
    · cases hfind : cs.findSome? (getPathToSelectedSpanID selectedSpanID) with
      | none =>
        intro hbelow
        rcases hunder _ hbelow with heq | ⟨c, hc, hbelow⟩
        · exact hsel heq.symm
        · have hc' := ih c hc (hchild c hc).1 (At.child (hchild c hc).2 hd)
          rw [List.findSome?_eq_none_iff.1 hfind c hc] at hc'
          exact hc' hbelow
      | some path =>
        obtain ⟨c, hc, hpath⟩ := exists_of_findSome?_eq_some hfind
        have hc' := ih c hc (hchild c hc).1 (At.child (hchild c hc).2 hd)
        rw [hpath] at hc'
        obtain ⟨hbelow, hmem⟩ := hc'
        have hroot : Below parent ws.spanID selectedSpanID := hbelow.head (hchild c hc).2
        refine ⟨hroot, fun x => ?_⟩
        rw [mem_cons, hmem]
        constructor
        · rintro (rfl | ⟨h, h'⟩)
          · exact ⟨Relation.ReflTransGen.refl, hroot⟩
          · exact ⟨h.head (hchild c hc).2, h'⟩
        · rintro ⟨h, h'⟩
          rcases hunder x h with heq | ⟨c', hc', hx⟩
          · exact Or.inl heq
          · -- the selected span is under one child only
            have hat := At.child (hchild c hc).2 hd
            have hat' := At.child (hchild c' hc').2 hd
            have hsame : c.value.spanID = c'.value.spanID := by
              rcases below_or_below hbelow (hx.trans h') with hb | hb
              · exact hat.eq_of_below hat' hb
              · exact (hat'.eq_of_below hat hb).symm
            exact Or.inr ⟨hsame ▸ hx, h'⟩

omit hkids in
theorem getPathFromRootToSelectedSpanId_old (selectedSpanID : String) (t : Rose WaterfallSpan) :
    (QueryService.getPathFromRootToSelectedSpanId selectedSpanID (t.map WaterfallSpan.old)).1 =
        (getPathToSelectedSpanID selectedSpanID t).isSome ∧
      ∀ path, getPathToSelectedSpanID selectedSpanID t = some path →
        (QueryService.getPathFromRootToSelectedSpanId selectedSpanID (t.map WaterfallSpan.old)).2 = path := by
  induction t using ind with
  | h ws cs ih =>
    have hchildren : (QueryService.pathUnderChildren selectedSpanID (cs.map (Rose.map WaterfallSpan.old))).1 =
          (cs.findSome? (getPathToSelectedSpanID selectedSpanID)).isSome ∧
        ∀ path, cs.findSome? (getPathToSelectedSpanID selectedSpanID) = some path →
          (QueryService.pathUnderChildren selectedSpanID (cs.map (Rose.map WaterfallSpan.old))).2 = path := by
      induction cs with
      | nil => exact ⟨rfl, fun path h => by cases h⟩
      | cons c cs ihs =>
        obtain ⟨hpresent, hpath⟩ := ih c mem_cons_self
        obtain ⟨hrest, hrestpath⟩ := ihs fun d hd => ih d (mem_cons_of_mem _ hd)
        rw [map_cons, QueryService.pathUnderChildren, List.findSome?_cons]
        cases hc : getPathToSelectedSpanID selectedSpanID c with
        | none =>
          rw [hc, Option.isSome_none] at hpresent
          simp only [hpresent, Bool.false_eq_true, if_false]
          exact ⟨hrest, hrestpath⟩
        | some p =>
          rw [hc, Option.isSome_some] at hpresent
          simp only [hpresent, if_true]
          exact ⟨rfl, fun path h => (hpath p hc).trans (Option.some_inj.1 h)⟩
    rw [map_node, QueryService.getPathFromRootToSelectedSpanId, getPathToSelectedSpanID_node, spanID_old]
    split_ifs with hsel
    · exact ⟨rfl, fun path h => Option.some_inj.1 h⟩
    · refine ⟨by rw [Option.isSome_map]; exact hchildren.1, fun path h => ?_⟩
      obtain ⟨p, hp, rfl⟩ := Option.map_eq_some_iff.1 h
      exact congrArg _ (hchildren.2 p hp)

end

/-! ## Sorting where siblings differ -/

theorem sort_unique {α : Type} (S : SortSlice) (key : α → Key) {l l' : List α} (hperm : l'.Perm l)
    (hsorted : l'.Pairwise (fun a b => key a ≤ key b)) (hnd : (l.map key).Nodup) : S.sort key l = l' := by
  have hboth := (S.perm key l).trans hperm.symm
  refine hboth.eq_of_pairwise (fun a b ha hb hab hba => ?_) (S.sorted key l) hsorted
  exact inj_on_of_nodup_map hnd ((S.perm key l).mem_iff.1 ha) (hperm.mem_iff.1 hb) (le_antisymm hab hba)

theorem sort_map {α β : Type} (S S' : SortSlice) (key : α → Key) (key' : β → Key) (g : α → β) (hg : ∀ a, key' (g a) = key a)
    {l : List α} (hnd : (l.map key).Nodup) : S.sort key' (l.map g) = (S'.sort key l).map g := by
  have hkeys : key' ∘ g = key := funext hg
  refine sort_unique S key' ((S'.perm key l).map g) ?_ (by rw [List.map_map, hkeys]; exact hnd)
  rw [pairwise_map]
  simpa only [hg] using S'.sorted key l

/-! ## The older walk -/

section
open QueryService

theorem traverseEach_eq (S : SortSlice) (opts : TraverseOpts) : ∀ cs,
    traverseEach S opts cs = cs.map fun c => (c.value, traverseTrace S opts c)
  | [] => rfl
  | c :: cs => by rw [traverseEach, traverseEach_eq S opts cs, map_cons]

theorem traverseTrace_node (S : SortSlice) (opts : TraverseOpts) (span : Span) (cs : List (Rose Span)) (call : Call) :
    traverseTrace S opts (.node span cs) call =
      let sorted := S.sort (fun e => e.1.key) (cs.map fun c => (c.value, traverseTrace S opts c))
      let below := eachChild opts span.spanID call sorted ⟨[], [], 0⟩
      { below with preOrderTraversal :=
          (if call.isPartOfPreOrder then [nodeWithoutChildren span (!sorted.isEmpty) call (below.subTreeNodeCount + 1)] else [])
            ++ below.preOrderTraversal } := by
  rw [traverseTrace, traverseEach_eq]

def shows (opts : TraverseOpts) (spanID : String) (call : Call) : Bool :=
  call.isPartOfPreOrder && (decide (spanID ∈ opts.uncollapsedSpans) || decide (opts.remaining spanID call.autoExpandDepth > 0))

theorem eachChild_spec {ι : Type} {opts : TraverseOpts} (hall : opts.selectAll = false) (spanID : String) (call : Call)
    {g : ι → Span × (Call → Traversal)} {B : ι → List (String × Nat × Bool × Nat)} {A : ι → String → Prop} {n : ι → Nat} :
    ∀ (cs : List ι) (acc : Traversal), (∀ c ∈ cs, ∀ hasSibling,
      ((g c).2 ⟨call.level + 1, shows opts spanID call, hasSibling, opts.remaining spanID call.autoExpandDepth⟩).preOrderTraversal.map
          QueryService.Span.seen = B c ∧
        (∀ x, x ∈ ((g c).2 ⟨call.level + 1, shows opts spanID call, hasSibling,
          opts.remaining spanID call.autoExpandDepth⟩).autoExpandedSpans ↔ A c x) ∧
        ((g c).2 ⟨call.level + 1, shows opts spanID call, hasSibling,
          opts.remaining spanID call.autoExpandDepth⟩).subTreeNodeCount + 1 = n c) →
      (eachChild opts spanID call (cs.map g) acc).preOrderTraversal.map QueryService.Span.seen =
          acc.preOrderTraversal.map QueryService.Span.seen ++ cs.flatMap B ∧
        (∀ x, x ∈ (eachChild opts spanID call (cs.map g) acc).autoExpandedSpans ↔ x ∈ acc.autoExpandedSpans ∨
          (cs ≠ [] ∧ call.isPartOfPreOrder = true ∧ opts.remaining spanID call.autoExpandDepth > 0 ∧
            spanID ∉ opts.uncollapsedSpans ∧ x = spanID) ∨ ∃ c ∈ cs, A c x) ∧
        (eachChild opts spanID call (cs.map g) acc).subTreeNodeCount = acc.subTreeNodeCount + (cs.map n).sum
  | [], acc, _ => by simp [eachChild]
  | c :: cs, acc, hc => by
    obtain ⟨hpre, hauto, hcount⟩ := hc c mem_cons_self !(cs.map g).isEmpty
    have hshows : (opts.selectAll || (call.isPartOfPreOrder && (decide (spanID ∈ opts.uncollapsedSpans) ||
        decide (opts.remaining spanID call.autoExpandDepth > 0)))) = shows opts spanID call := by rw [hall, Bool.false_or, shows]
    rw [map_cons, eachChild, hshows]
    have hrest := fun acc => eachChild_spec hall spanID call cs acc fun c' hc' => hc c' (mem_cons_of_mem _ hc')
    obtain ⟨hpre', hauto', hcount'⟩ := hrest _
    refine ⟨?_, fun x => ?_, ?_⟩
    · rw [hpre', map_append, hpre, List.append_assoc, flatMap_cons]
    · rw [hauto' x, mem_append, hauto x]
      -- the span is noted before the first child, and no child notes it again
      have hnote : x ∈ (if (call.isPartOfPreOrder && decide (opts.remaining spanID call.autoExpandDepth > 0) &&
            !decide (spanID ∈ opts.uncollapsedSpans) && !decide (spanID ∈ acc.autoExpandedSpans)) = true then
            acc.autoExpandedSpans ++ [spanID] else acc.autoExpandedSpans) ↔ x ∈ acc.autoExpandedSpans ∨
          (call.isPartOfPreOrder = true ∧ opts.remaining spanID call.autoExpandDepth > 0 ∧
            spanID ∉ opts.uncollapsedSpans ∧ x = spanID) := by
        simp only [Bool.and_eq_true, decide_eq_true_eq, Bool.not_eq_true', decide_eq_false_iff_not]
        split_ifs with h
        · rw [mem_append, mem_singleton]
          exact or_congr Iff.rfl ⟨fun hx => ⟨h.1.1.1, h.1.1.2, h.1.2, hx⟩, fun hx => hx.2.2.2⟩
        · refine ⟨Or.inl, fun hx => hx.elim id fun hx => ?_⟩
          by_contra hout
          exact h ⟨⟨⟨hx.1, hx.2.1⟩, hx.2.2.1⟩, fun hin => hout (hx.2.2.2 ▸ hin)⟩
      rw [hnote]
      constructor
      · rintro (((h | h) | h) | ⟨-, h⟩ | ⟨c', hc', h⟩)
        · exact Or.inl h
        · exact Or.inr (Or.inl ⟨cons_ne_nil _ _, h⟩)
        · exact Or.inr (Or.inr ⟨c, mem_cons_self, h⟩)
        · exact Or.inr (Or.inl ⟨cons_ne_nil _ _, h⟩)
        · exact Or.inr (Or.inr ⟨c', mem_cons_of_mem _ hc', h⟩)
      · rintro (h | ⟨-, h⟩ | ⟨c', hc', h⟩)
        · exact Or.inl (Or.inl (Or.inl h))
        · exact Or.inl (Or.inl (Or.inr h))
        · rcases mem_cons.1 hc' with rfl | hc'
          · exact Or.inl (Or.inr h)
          · exact Or.inr (Or.inr ⟨c', hc', h⟩)
    · rw [hcount', map_cons, sum_cons]
      dsimp only
      rw [← hcount]
      omega

section
variable {parent : String → Option String} {kids : String → List String} (hkids : ∀ p x, x ∈ kids p ↔ parent x = some p)

def Expanded (kids : String → List String) (opts : TraverseOpts) (x : String) : Prop :=
  opts.isSelectedSpanUncollapsed = true ∧ ∃ k < maxDepthForSelectedSpanChildren, Reaches kids k opts.selectedSpanID x

theorem expanded_iff_left {opts : TraverseOpts} {depth : Nat} {x : String} (hleft : Left kids opts depth x) :
    Expanded kids opts x ↔ opts.remaining x depth > 0 := by
  unfold Expanded
  rw [gt_iff_lt, hleft 0]
  refine and_congr Iff.rfl (exists_congr fun k => ?_)
  rw [Nat.zero_add, and_comm]

def outs (S : SortSlice) (u : Finset String) (level : Nat) (t : Rose WaterfallSpan) : List (String × Nat × Bool × Nat) :=
  (getPreOrderedSpans u false level (getSubtreeNodeCount (sortChildren S t))).map WaterfallSpan.seen

theorem outs_node (S : SortSlice) (u : Finset String) (level : Nat) (ws : WaterfallSpan) (cs : List (Rose WaterfallSpan))
    (hnd : (cs.map fun c => c.value.key).Nodup) : outs S u level (.node ws cs) =
      (ws.spanID, level, !cs.isEmpty, (Rose.node ws cs).values.length) ::
        if ws.spanID ∈ u then (S.sort (fun c => c.value.key) cs).flatMap (outs S u (level + 1)) else [] := by
  have hsorted : S.sort (fun c : Rose WaterfallSpan => c.value.key) (cs.map (sortChildren S)) =
      (S.sort (fun c => c.value.key) cs).map (sortChildren S) :=
    sort_map S S (fun c : Rose WaterfallSpan => c.value.key) (fun c => c.value.key) (sortChildren S) (fun c => by rw [value_sortChildren]) hnd
  have hcount := subTreeNodeCount_eq (sortChildren S (.node ws cs))
  rw [(values_sortChildren S (.node ws cs)).length_eq] at hcount
  have hempty : (S.sort (fun c : Rose WaterfallSpan => c.value.key) cs).isEmpty = cs.isEmpty := by
    rw [Bool.eq_iff_iff, List.isEmpty_iff, List.isEmpty_iff, ← List.length_eq_zero_iff, ← List.length_eq_zero_iff,
      (S.perm _ cs).length_eq]
  unfold outs
  rw [sortChildren_node, hsorted] at hcount ⊢
  rw [getSubtreeNodeCount_node, value_node] at hcount
  dsimp only at hcount
  rw [getSubtreeNodeCount_node, getPreOrderedSpans_node, map_cons]
  congr 1
  · simp only [getWithoutChildren, WaterfallSpan.seen]
    rw [hcount, isEmpty_map, isEmpty_map, hempty]
  · simp only [Bool.false_or, decide_eq_true_eq]
    split_ifs
    · rw [List.map_map, map_flatMap, flatMap_map]
      rfl
    · rfl

include hkids

theorem expanded_up {opts : TraverseOpts} {x : String} (h : Expanded kids opts x) :
    x = opts.selectedSpanID ∨ ∃ p, parent x = some p ∧ Expanded kids opts p := by
  obtain ⟨hon, k, hk, hr⟩ := h
  cases k with
  | zero => exact Or.inl hr.symm
  | succ k =>
    obtain ⟨p, hp, hr⟩ := (reaches_succ hkids).1 hr
    exact Or.inr ⟨p, hp, hon, k, by omega, hr⟩

theorem not_expanded_under {opts : TraverseOpts} {a x : String} (ha : ¬ Expanded kids opts a)
    (hsel : ∀ c, parent c = some a → ¬ Below parent c opts.selectedSpanID) {c : String} (hc : parent c = some a)
    (h : Below parent c x) : ¬ Expanded kids opts x := by
  induction h with
  | refl =>
    intro hex
    rcases expanded_up hkids hex with heq | ⟨p, hp, hex⟩
    · exact hsel c hc (heq ▸ Relation.ReflTransGen.refl)
    · rw [hc, Option.some_inj] at hp
      exact ha (hp ▸ hex)
  | @tail y z hy hyz ih =>
    intro hex
    rcases expanded_up hkids hex with heq | ⟨p, hp, hex⟩
    · exact hsel c hc (heq ▸ hy.tail hyz)
    · rw [hyz, Option.some_inj] at hp
      exact ih (hp ▸ hex)

/-- **The older walk and the newer one show a subtree alike**, if the set of the newer one is what the map of the older
one and its expanding come to, and the way to the selected span is in the map. -/
theorem traverseTrace_spec (S S' : SortSlice) (opts : TraverseOpts) (hall : opts.selectAll = false) {u : Finset String}
    (t : Rose WaterfallSpan) : ∀ (call : Call) {d : Nat}, Built kids (idTree t) → At parent t.value.spanID d → SiblingsDiffer t →
      (∀ x, Below parent t.value.spanID x → Below parent x opts.selectedSpanID → x ≠ opts.selectedSpanID → x ∈ opts.uncollapsedSpans) →
      (∀ x, Below parent t.value.spanID x → kids x ≠ [] → (x ∈ opts.uncollapsedSpans ∨ Expanded kids opts x ↔ x ∈ u)) →
      Left kids opts call.autoExpandDepth t.value.spanID →
      (call.isPartOfPreOrder = true ∨ ∀ x, Below parent t.value.spanID x → ¬ Expanded kids opts x) →
      (traverseTrace S opts (t.map WaterfallSpan.old) call).preOrderTraversal.map QueryService.Span.seen =
          (if call.isPartOfPreOrder then outs S' u call.level t else []) ∧
        (∀ x, x ∈ (traverseTrace S opts (t.map WaterfallSpan.old) call).autoExpandedSpans ↔
          Below parent t.value.spanID x ∧ kids x ≠ [] ∧ x ∉ opts.uncollapsedSpans ∧ Expanded kids opts x) ∧
        (traverseTrace S opts (t.map WaterfallSpan.old) call).subTreeNodeCount + 1 = t.values.length := by
  induction t using ind with
  | h ws cs ih =>
    intro call d hbuilt hd hdiffer hpath hset hleft hpart
    rw [value_node] at hd hpath hset hleft hpart ⊢
    rw [idTree_node] at hbuilt
    cases hbuilt with
    | node hroots hcs =>
    have hparent : ∀ c ∈ cs, parent c.value.spanID = some ws.spanID := fun c hc => by
      refine (hkids _ _).1 (hroots.mem_iff.1 (List.mem_map.2 ⟨_, List.mem_map_of_mem hc, ?_⟩))
      rw [value_map]
    have hnd : (cs.map fun c => c.value.key).Nodup := hdiffer (.node ws cs) (self_mem_subtrees _)
    have hempty : kids ws.spanID ≠ [] ↔ cs ≠ [] := by
      have hlen := hroots.length_eq
      rw [List.length_map, List.length_map] at hlen
      rw [← length_pos_iff, ← length_pos_iff, hlen]
    have hex := expanded_iff_left hleft
    -- the children in their order, each with its walk
    let order := S'.sort (fun c : Rose WaterfallSpan => c.value.key) cs
    have hmem : ∀ c ∈ order, c ∈ cs := fun c hc => (S'.perm _ _).mem_iff.1 hc
    have hsorted : S.sort (fun e : Span × (Call → Traversal) => e.1.key)
        ((cs.map (Rose.map WaterfallSpan.old)).map fun c => (c.value, traverseTrace S opts c)) =
          order.map fun c => ((c.map WaterfallSpan.old).value, traverseTrace S opts (c.map WaterfallSpan.old)) := by
      rw [List.map_map]
      exact sort_map S S' (fun c : Rose WaterfallSpan => c.value.key) (fun e : Span × (Call → Traversal) => e.1.key) _
        (fun c => by simp) hnd
    have hshown : ∀ c ∈ cs, shows opts ws.spanID call = true ∨ ∀ x, Below parent c.value.spanID x → ¬ Expanded kids opts x := fun c hc => by
      by_cases hshow : shows opts ws.spanID call = true
      · exact Or.inl hshow
      · refine Or.inr fun x hx => ?_
        rcases hpart with hpart | hpart
        · have hnot : ws.spanID ∉ opts.uncollapsedSpans ∧ ¬ Expanded kids opts ws.spanID := by
            rw [shows, hpart, Bool.true_and, Bool.or_eq_true, decide_eq_true_eq, decide_eq_true_eq, not_or, ← hex] at hshow
            exact hshow
          -- the selected span is not under here, or its way would be in the map
          have hsel : ∀ c, parent c = some ws.spanID → ¬ Below parent c opts.selectedSpanID := fun c hc hb => by
            refine hnot.1 (hpath _ Relation.ReflTransGen.refl (hb.head hc) fun heq => ?_)
            obtain ⟨k, hk⟩ := (At.child hc hd).under hb
            have := hk.unique (heq ▸ hd)
            omega
          exact not_expanded_under hkids hnot.2 hsel (hparent c hc) hx
        · exact hpart x (hx.head (hparent c hc))
    obtain ⟨hpre, hauto, hcount⟩ := eachChild_spec hall ws.spanID call
      (g := fun c : Rose WaterfallSpan => ((c.map WaterfallSpan.old).value, traverseTrace S opts (c.map WaterfallSpan.old)))
      (B := fun c => if shows opts ws.spanID call then outs S' u (call.level + 1) c else [])
      (A := fun c x => Below parent c.value.spanID x ∧ kids x ≠ [] ∧ x ∉ opts.uncollapsedSpans ∧ Expanded kids opts x)
      (n := fun c => c.values.length) order ⟨[], [], 0⟩ fun c hc hasSibling =>
        ih c (hmem c hc) _ (hcs _ (List.mem_map_of_mem (hmem c hc))) (At.child (hparent c (hmem c hc)) hd)
          (fun s hs => hdiffer s (by
            rw [subtrees_node]
            exact mem_cons_of_mem _ (mem_flatMap.2 ⟨c, hmem c hc, hs⟩)))
          (fun x hx => hpath x (hx.head (hparent c (hmem c hc)))) (fun x hx => hset x (hx.head (hparent c (hmem c hc))))
          (left_child hkids opts hleft (hparent c (hmem c hc))) (hshown c (hmem c hc))
    rw [map_node, traverseTrace_node]
    dsimp only
    rw [hsorted, spanID_old]
    have hlen : (Rose.node ws cs).values.length = (order.map fun c => c.values.length).sum + 1 := by
      rw [values_node, length_cons, length_flatMap, ((S'.perm (fun c : Rose WaterfallSpan => c.value.key) cs).map _).sum_nat]
    refine ⟨?_, fun x => ?_, by rw [hcount, hlen, Nat.zero_add]⟩
    · rw [map_append, hpre, map_nil, nil_append, hcount, isEmpty_map]
      have hisEmpty : order.isEmpty = cs.isEmpty := by
        rw [Bool.eq_iff_iff, List.isEmpty_iff, List.isEmpty_iff, ← List.length_eq_zero_iff, ← List.length_eq_zero_iff,
          (S'.perm _ cs).length_eq]
      by_cases hcall : call.isPartOfPreOrder = true
      · -- its children are shown by both, or by neither
        have hopen : order.flatMap (fun c => if shows opts ws.spanID call = true then outs S' u (call.level + 1) c else []) =
            if ws.spanID ∈ u then order.flatMap (outs S' u (call.level + 1)) else [] := by
          by_cases hcs : cs = []
          · have hnil : order = [] := perm_nil.1 (hcs ▸ S'.perm _ cs)
            rw [hnil]
            simp
          · have hiff : shows opts ws.spanID call = true ↔ ws.spanID ∈ u := by
              rw [← hset ws.spanID Relation.ReflTransGen.refl (hempty.2 hcs), hex, shows, hcall, Bool.true_and, Bool.or_eq_true,
                decide_eq_true_eq, decide_eq_true_eq]
            simp only [hiff]
            split_ifs
            · rfl
            · simp
        rw [if_pos hcall, if_pos hcall, hopen, outs_node S' u call.level ws cs hnd, hlen]
        simp only [nodeWithoutChildren, QueryService.Span.seen, spanID_old, map_cons, map_nil, singleton_append,
          hisEmpty, Nat.zero_add]
        rfl
      · have hshow : shows opts ws.spanID call = false := by
          rw [shows, Bool.eq_false_iff.2 hcall, Bool.false_and]
        rw [if_neg hcall, if_neg hcall, hshow]
        simp
    · rw [hauto x]
      constructor
      · rintro (h | ⟨hne, -, hrem, hout, rfl⟩ | ⟨c, hc, hbelow, h⟩)
        · cases h
        · refine ⟨Relation.ReflTransGen.refl, hempty.2 fun hnil => hne ?_, hout, hex.2 hrem⟩
          exact perm_nil.1 (hnil ▸ S'.perm _ cs)
        · exact ⟨hbelow.head (hparent c (hmem c hc)), h⟩
      · rintro ⟨hbelow, hne, hout, hexp⟩
        rcases Relation.ReflTransGen.cases_head hbelow with rfl | ⟨y, hy, hyx⟩
        · refine Or.inr (Or.inl ⟨fun hnil => hempty.1 hne ?_, ?_, hex.1 hexp, hout, rfl⟩)
          · exact perm_nil.1 (hnil ▸ (S'.perm _ cs).symm)
          · exact hpart.resolve_right fun hno => hno _ Relation.ReflTransGen.refl hexp
        · obtain ⟨v, hv, rfl⟩ := List.mem_map.1 (hroots.mem_iff.2 ((hkids _ _).2 hy))
          obtain ⟨c, hc, rfl⟩ := List.mem_map.1 hv
          rw [value_map] at hyx
          exact Or.inr (Or.inr ⟨c, (S'.perm _ cs).mem_iff.2 hc, hyx, hne, hout, hexp⟩)

end

/-! ## What is expanded in a forest -/

section
variable {forest : List (Rose WaterfallSpan)} (hnd : ((forest.flatMap values).map (·.spanID)).Nodup)
include hnd

theorem mem_kids_forest (p x : String) : x ∈ kidsIn (forest.map idTree) p ↔ parentIn (forest.map idTree) x = some p :=
  mem_kidsIn (nodup_idTrees hnd) p x

theorem built_forest {t : Rose WaterfallSpan} (ht : t ∈ forest) : Built (kidsIn (forest.map idTree)) (idTree t) :=
  built_kidsIn (nodup_idTrees hnd) _ (mem_flatMap.2 ⟨_, List.mem_map_of_mem ht, self_mem_subtrees _⟩)

theorem root_forest {t : Rose WaterfallSpan} (ht : t ∈ forest) : parentIn (forest.map idTree) t.value.spanID = none := by
  have hroot := parentIn_root (nodup_idTrees hnd) (List.mem_map_of_mem (f := idTree) ht)
  rwa [value_map] at hroot

theorem under_root {s : Rose String} (hs : s ∈ (forest.map idTree).flatMap subtrees) :
    ∃ t ∈ forest, Below (parentIn (forest.map idTree)) t.value.spanID s.value := by
  rw [flatMap_map] at hs
  obtain ⟨t, ht, hs⟩ := mem_flatMap.1 hs
  have hbelow := (mem_values (mem_kids_forest hnd) (built_forest hnd ht) s.value).1 (by
    rw [← map_value_subtrees]
    exact List.mem_map_of_mem hs)
  rw [value_map] at hbelow
  exact ⟨t, ht, hbelow⟩

theorem parent_under_root {x : String} (hx : kidsIn (forest.map idTree) x ≠ []) :
    ∃ t ∈ forest, Below (parentIn (forest.map idTree)) t.value.spanID x := by
  obtain ⟨c, hc⟩ := exists_mem_of_ne_nil _ hx
  obtain ⟨s, hs, rfl, -⟩ := mem_subtrees_of_mem_kidsIn hc
  exact under_root hnd hs

theorem child_under_root {x p : String} (hx : parentIn (forest.map idTree) x = some p) :
    ∃ t ∈ forest, Below (parentIn (forest.map idTree)) t.value.spanID x := by
  obtain ⟨t, ht, hb⟩ := parent_under_root hnd (ne_nil_of_mem ((mem_kids_forest hnd p x).2 hx))
  exact ⟨t, ht, hb.tail hx⟩

theorem mem_getPathFromRoot (S : SortSlice) (selectedSpanID x : String) :
    x ∈ ((getPathFromRoot selectedSpanID (forest.map fun t => getSubtreeNodeCount (sortChildren S t))).getD []).filter
        (fun id => decide (id ≠ selectedSpanID)) ↔
      Below (parentIn (forest.map idTree)) x selectedSpanID ∧ x ≠ selectedSpanID := by
  have hspec : ∀ t ∈ forest, match getPathToSelectedSpanID selectedSpanID (getSubtreeNodeCount (sortChildren S t)) with
      | none => ¬ Below (parentIn (forest.map idTree)) t.value.spanID selectedSpanID
      | some path => Below (parentIn (forest.map idTree)) t.value.spanID selectedSpanID ∧ ∀ x, x ∈ path ↔
          Below (parentIn (forest.map idTree)) t.value.spanID x ∧ Below (parentIn (forest.map idTree)) x selectedSpanID := fun t ht => by
    have hid : (getSubtreeNodeCount (sortChildren S t)).value.spanID = t.value.spanID := by
      rw [value_getSubtreeNodeCount (f := fun ws => ws.spanID) (fun _ _ => rfl), value_sortChildren]
    rw [← hid]
    refine getPathToSelectedSpanID_spec (mem_kids_forest hnd) selectedSpanID _ ?_ (At.root (hid ▸ root_forest hnd ht))
    rw [idTree, map_getSubtreeNodeCount (f := fun ws => ws.spanID) (fun _ _ => rfl)]
    exact built_sortChildren S (built_forest hnd ht)
  rw [getPathFromRoot_eq, List.findSome?_map, mem_filter, decide_eq_true_eq]
  refine and_congr_left fun hne => ?_
  cases hfind : forest.findSome? (getPathToSelectedSpanID selectedSpanID ∘ fun t => getSubtreeNodeCount (sortChildren S t)) with
  | none =>
    refine ⟨fun h => (by cases h), fun hb => ?_⟩
    rcases Relation.ReflTransGen.cases_tail hb with heq | ⟨p, -, hp⟩
    · exact absurd heq.symm hne
    · obtain ⟨t, ht, hb⟩ := child_under_root hnd hp
      have := hspec t ht
      rw [show getPathToSelectedSpanID selectedSpanID (getSubtreeNodeCount (sortChildren S t)) = none from
        List.findSome?_eq_none_iff.1 hfind t ht] at this
      exact absurd hb this
  | some path =>
    obtain ⟨t, ht, hpath⟩ := exists_of_findSome?_eq_some hfind
    have hmem := hspec t ht
    rw [show getPathToSelectedSpanID selectedSpanID (getSubtreeNodeCount (sortChildren S t)) = some path from hpath] at hmem
    rw [Option.getD_some, hmem.2]
    refine ⟨fun h => h.2, fun hb => ⟨?_, hb⟩⟩
    rcases below_or_below hmem.1 hb with h | h
    · exact h
    · rcases Relation.ReflTransGen.cases_tail h with heq | ⟨p, -, hp⟩
      · exact heq ▸ Relation.ReflTransGen.refl
      · rw [root_forest hnd ht] at hp
        cases hp

/-- **The set that the newer walk fixes beforehand.** -/
theorem mem_calculateUncollapsedSpanIDs (wt : WaterfallTrace) (S : SortSlice) (uncollapsedSpanIDs : List String)
    (selectedSpanID : String) (depth : Nat) (x : String) :
    x ∈ (wt.ofForest S forest).calculateUncollapsedSpanIDs uncollapsedSpanIDs selectedSpanID depth ↔ x ∈ uncollapsedSpanIDs ∨
      (Below (parentIn (forest.map idTree)) x selectedSpanID ∧ x ≠ selectedSpanID) ∨
        ((selectedSpanID ∈ uncollapsedSpanIDs ∧ ∃ k < depth, Reaches (kidsIn (forest.map idTree)) k selectedSpanID x) ∧
          kidsIn (forest.map idTree) x ≠ []) := by
  have hkids : childrenOf (nodeMap forest) = kidsIn (forest.map idTree) := funext fun id => childrenOf_nodeMap hnd id
  have hbase : ∀ y, y ∈ uncollapsedSpanIDs.toFinset ∪ (((getPathFromRoot selectedSpanID
      (forest.map fun t => getSubtreeNodeCount (sortChildren S t))).getD []).filter (fun id => decide (id ≠ selectedSpanID))).toFinset ↔
        y ∈ uncollapsedSpanIDs ∨ (Below (parentIn (forest.map idTree)) y selectedSpanID ∧ y ≠ selectedSpanID) := fun y => by
    rw [Finset.mem_union, List.mem_toFinset, List.mem_toFinset, mem_getPathFromRoot hnd]
  unfold WaterfallTrace.calculateUncollapsedSpanIDs WaterfallTrace.ofForest
  dsimp only
  split_ifs with hsel
  · rw [mem_autoExpandDescendants, hbase, hkids, or_assoc]
    have hin : selectedSpanID ∈ uncollapsedSpanIDs := ((hbase _).1 hsel).resolve_right fun h => h.2 rfl
    refine or_congr Iff.rfl (or_congr Iff.rfl ?_)
    constructor
    · rintro ⟨k, hk, hr, hne⟩
      exact ⟨⟨hin, k, hk, hr⟩, hne⟩
    · rintro ⟨⟨-, k, hk, hr⟩, hne⟩
      exact ⟨k, hk, hr, hne⟩
  · rw [hbase]
    refine or_congr Iff.rfl ⟨Or.inl, fun h => h.resolve_right fun h => ?_⟩
    exact hsel ((hbase _).2 (Or.inl h.1.1))

/-! ## The loop over the roots -/

/-- The options of the older walk at some root: the flag is set if the selected span is in the list. -/
abbrev optsFor (uncollapsedSpanIDs : List String) (selectedSpanID : String) (m : Finset String) : TraverseOpts :=
  ⟨m, selectedSpanID, decide (selectedSpanID ∈ uncollapsedSpanIDs), false⟩

/-- What is added to the list of uncollapsed ids: the way to the selected span, and what is expanded under it. -/
def Gained (forest : List (Rose WaterfallSpan)) (uncollapsedSpanIDs : List String) (selectedSpanID x : String) : Prop :=
  (Below (parentIn (forest.map idTree)) x selectedSpanID ∧ x ≠ selectedSpanID) ∨
    (Expanded (kidsIn (forest.map idTree)) (optsFor uncollapsedSpanIDs selectedSpanID ∅) x ∧ kidsIn (forest.map idTree) x ≠ [])

/-- After some of the roots: the map has what is gained under them, and the spans and the index are those of the newer loop. -/
structure InStepWith (forest : List (Rose WaterfallSpan)) (uncollapsedSpanIDs : List String) (selectedSpanID : String)
    (done : List (Rose WaterfallSpan)) (s : Loop) (acc : List WaterfallSpan × Option Nat) : Prop where
  map : ∀ x, x ∈ s.uncollapsedSpanMap ↔ x ∈ uncollapsedSpanIDs ∨
    ((∃ t ∈ done, Below (parentIn (forest.map idTree)) t.value.spanID x) ∧ Gained forest uncollapsedSpanIDs selectedSpanID x)
  spans : s.preOrderTraversal.map QueryService.Span.seen = acc.1.map WaterfallSpan.seen
  index : s.selectedSpanIndex = acc.2

omit hnd in
theorem index_seen (selectedSpanID : String) {spans : List WaterfallSpan} {old : List Span}
    (h : old.map QueryService.Span.seen = spans.map WaterfallSpan.seen) :
    findIndexForSelectedSpanFromPreOrder old selectedSpanID = getSpanIndex spans selectedSpanID := by
  have hold : findIndexForSelectedSpanFromPreOrder old selectedSpanID =
      (old.map QueryService.Span.seen).findIdx? (fun e => e.1 == selectedSpanID) := by
    rw [findIndexForSelectedSpanFromPreOrder, List.findIdx?_map]
    rfl
  rw [hold, h, getSpanIndex, List.findIdx?_map]
  rfl

/-- **One root keeps them in step.** -/
theorem eachRoot_inStep (S S' : SortSlice) (hdiffer : ∀ t ∈ forest, SiblingsDiffer t) (uncollapsedSpanIDs : List String)
    (selectedSpanID : String) {u : Finset String}
    (hu : ∀ x, x ∈ u ↔ x ∈ uncollapsedSpanIDs ∨ Gained forest uncollapsedSpanIDs selectedSpanID x)
    {done : List (Rose WaterfallSpan)} {s : Loop} {acc : List WaterfallSpan × Option Nat}
    (h : InStepWith forest uncollapsedSpanIDs selectedSpanID done s acc) {t : Rose WaterfallSpan} (ht : t ∈ forest) :
    InStepWith forest uncollapsedSpanIDs selectedSpanID (done ++ [t])
      (eachRoot S selectedSpanID (oldNodeMap (forest.map (Rose.map WaterfallSpan.old))) (decide (selectedSpanID ∈ uncollapsedSpanIDs)) s
        (t.map WaterfallSpan.old))
      (addRoot selectedSpanID acc (getPreOrderedSpans u false 0 (getSubtreeNodeCount (sortChildren S' t)))) := by
  have hroot := root_forest hnd ht
  have hbuilt := built_forest hnd ht
  have hat : At (parentIn (forest.map idTree)) t.value.spanID 0 := At.root hroot
  -- the map once the way to the selected span is in it
  obtain ⟨hpresent, hpath⟩ := getPathFromRootToSelectedSpanId_old selectedSpanID t
  have hspec := getPathToSelectedSpanID_spec (mem_kids_forest hnd) selectedSpanID t hbuilt hat
  generalize hopened : (if (getPathFromRootToSelectedSpanId selectedSpanID (t.map WaterfallSpan.old)).1 = true then
      ((getPathFromRootToSelectedSpanId selectedSpanID (t.map WaterfallSpan.old)).2.filter
        (fun id => !(decide (selectedSpanID = id) && !decide (selectedSpanID ∈ uncollapsedSpanIDs)))).toFinset
    else ∅) = opened
  have hmap : ∀ x, x ∈ s.uncollapsedSpanMap ∪ opened ↔ x ∈ uncollapsedSpanIDs ∨
      ((∃ t ∈ done, Below (parentIn (forest.map idTree)) t.value.spanID x) ∧ Gained forest uncollapsedSpanIDs selectedSpanID x) ∨
        (Below (parentIn (forest.map idTree)) t.value.spanID x ∧
          Below (parentIn (forest.map idTree)) x selectedSpanID ∧ x ≠ selectedSpanID) := fun x => by
    rw [Finset.mem_union, h.map, or_assoc]
    cases hp : getPathToSelectedSpanID selectedSpanID t with
    | none =>
      rw [hp] at hpresent hspec
      rw [← hopened, if_neg (by rw [hpresent]; simp)]
      refine or_congr Iff.rfl (or_congr Iff.rfl ⟨fun hx => by simp at hx, fun hx => ?_⟩)
      exact absurd (hx.1.trans hx.2.1) hspec
    | some path =>
      rw [hp] at hpresent hspec
      rw [← hopened, if_pos (by rw [hpresent]; rfl), hpath path hp, List.mem_toFinset, mem_filter, hspec.2]
      by_cases hx : x = selectedSpanID
      · subst hx
        by_cases hin : x ∈ uncollapsedSpanIDs
        · simp [hin]
        · simp [hin]
      · simp [Ne.symm hx, hx]
  have hwalk := traverseTrace_spec (mem_kids_forest hnd) S S'
    (optsFor uncollapsedSpanIDs selectedSpanID (s.uncollapsedSpanMap ∪ opened)) rfl (u := u) t ⟨0, true, false, 0⟩
    hbuilt hat (hdiffer t ht) (fun x hx hsel hne => (hmap x).2 (Or.inr (Or.inr ⟨hx, hsel, hne⟩))) (fun x hx hkids => by
      rw [hu, hmap]
      constructor
      · rintro ((h | ⟨-, h⟩ | ⟨-, h⟩) | h)
        · exact Or.inl h
        · exact Or.inr h
        · exact Or.inr (Or.inl h)
        · exact Or.inr (Or.inr ⟨h, hkids⟩)
      · rintro (h | h | ⟨h, -⟩)
        · exact Or.inl (Or.inl h)
        · exact Or.inl (Or.inr (Or.inr ⟨hx, h⟩))
        · exact Or.inr h) (left_root (mem_kids_forest hnd) _ hroot) (Or.inl rfl)
  obtain ⟨hpre, hauto, -⟩ := hwalk
  unfold eachRoot
  rw [value_map, spanID_old, lookup_oldNodeMap hnd ht]
  dsimp only
  rw [hopened]
  have hlen : s.preOrderTraversal.length = acc.1.length := by
    rw [← List.length_map QueryService.Span.seen, h.spans, List.length_map]
  refine ⟨fun x => ?_, ?_, ?_⟩
  · rw [Finset.mem_union, List.mem_toFinset, hauto x, hmap]
    constructor
    · rintro ((hx | ⟨⟨t', ht', hb⟩, hx⟩ | ⟨hb, hx⟩) | ⟨hb, hkids, -, hx⟩)
      · exact Or.inl hx
      · exact Or.inr ⟨⟨t', mem_append_left _ ht', hb⟩, hx⟩
      · exact Or.inr ⟨⟨t, by simp, hb⟩, Or.inl hx⟩
      · exact Or.inr ⟨⟨t, by simp, hb⟩, Or.inr ⟨hx, hkids⟩⟩
    · rintro (hx | ⟨⟨t', ht', hb⟩, hx⟩)
      · exact Or.inl (Or.inl hx)
      · rcases mem_append.1 ht' with ht' | ht'
        · exact Or.inl (Or.inr (Or.inl ⟨⟨t', ht', hb⟩, hx⟩))
        · rw [mem_singleton] at ht'
          subst ht'
          rcases hx with hx | ⟨hx, hkids⟩
          · exact Or.inl (Or.inr (Or.inr ⟨hb, hx⟩))
          · by_cases hin : x ∈ s.uncollapsedSpanMap ∪ opened
            · exact Or.inl ((hmap x).1 hin)
            · exact Or.inr ⟨hb, hkids, fun h => hin ((hmap x).2 h), hx⟩
  · rw [addRoot, map_append, map_append, h.spans, hpre]
    rfl
  · rw [addRoot, index_seen selectedSpanID hpre, hlen, h.index]

theorem roots_inStep (S S' : SortSlice) (hdiffer : ∀ t ∈ forest, SiblingsDiffer t) (uncollapsedSpanIDs : List String)
    (selectedSpanID : String) {u : Finset String}
    (hu : ∀ x, x ∈ u ↔ x ∈ uncollapsedSpanIDs ∨ Gained forest uncollapsedSpanIDs selectedSpanID x) :
    ∀ (rest done : List (Rose WaterfallSpan)) {s : Loop} {acc : List WaterfallSpan × Option Nat}, (∀ t ∈ rest, t ∈ forest) →
      InStepWith forest uncollapsedSpanIDs selectedSpanID done s acc → InStepWith forest uncollapsedSpanIDs selectedSpanID (done ++ rest)
        ((rest.map (Rose.map WaterfallSpan.old)).foldl (eachRoot S selectedSpanID
          (oldNodeMap (forest.map (Rose.map WaterfallSpan.old))) (decide (selectedSpanID ∈ uncollapsedSpanIDs))) s)
        ((rest.map fun t => getPreOrderedSpans u false 0 (getSubtreeNodeCount (sortChildren S' t))).foldl (addRoot selectedSpanID) acc)
  | [], done, _, _, _, h => by rwa [append_nil]
  | t :: rest, done, _, _, hrest, h => by
    have hstep := eachRoot_inStep hnd S S' hdiffer uncollapsedSpanIDs selectedSpanID hu h (hrest t mem_cons_self)
    have hrun := roots_inStep S S' hdiffer uncollapsedSpanIDs selectedSpanID hu rest (done ++ [t])
      (fun t' ht' => hrest t' (mem_cons_of_mem _ ht')) hstep
    rwa [List.append_assoc, singleton_append] at hrun

/-! ## The page -/

omit hnd in
theorem window_eq {i : Int} (hi : -1 ≤ i) (P : Prop) [Decidable P] (total : Int) :
    window (if i = -1 ∧ P then 0 else i) total pageOf500 = windowAroundIndex i total pageOf500 := by
  have hwindow : ∀ j j' total : Int, j < 200 → j' < 200 → window j total pageOf500 = window j' total pageOf500 := by
    intro j j' total h h'
    unfold window pageOf500
    simp [show j - 200 < 0 by omega, show j + 300 - (j - 200) = 500 by omega, show j' - 200 < 0 by omega,
      show j' + 300 - (j' - 200) = 500 by omega]
  have haround : windowAroundIndex i total pageOf500 = window (max i 0) total pageOf500 := by
    unfold windowAroundIndex window
    dsimp only
    split_ifs <;> simp_all
    all_goals omega
  rw [haround]
  by_cases h : i = -1
  · subst h
    rw [show max (-1 : Int) 0 = 0 from rfl]
    split_ifs
    · rfl
    · -- every index before the middle of the first page has the first page
      exact hwindow _ _ total (by omega) (by omega)
  · rw [if_neg (fun hp => h hp.1), Int.max_eq_left (by omega)]

/-- **The query service and the newer waterfall select the same spans**, and return the same uncollapsed ids. -/
theorem same_selection (S S' : SortSlice) (hdiffer : ∀ t ∈ forest, SiblingsDiffer t) (wt : WaterfallTrace)
    (uncollapsedSpanIDs : List String) (selectedSpanID : String) :
    let old := QueryService.getSelectedSpans S uncollapsedSpanIDs selectedSpanID (forest.map (Rose.map WaterfallSpan.old))
      (oldNodeMap (forest.map (Rose.map WaterfallSpan.old))) (decide (selectedSpanID ∈ uncollapsedSpanIDs))
    let new := (wt.ofForest S' forest).getSelectedSpans uncollapsedSpanIDs selectedSpanID pageOf500 maxDepthForSelectedSpanChildren
    old.1.map QueryService.Span.seen = new.1.map WaterfallSpan.seen ∧ old.2 = new.2 := by
  intro old new
  have hu : ∀ x, x ∈ (wt.ofForest S' forest).calculateUncollapsedSpanIDs uncollapsedSpanIDs selectedSpanID maxDepthForSelectedSpanChildren ↔
      x ∈ uncollapsedSpanIDs ∨ Gained forest uncollapsedSpanIDs selectedSpanID x := fun x => by
    rw [mem_calculateUncollapsedSpanIDs hnd, Gained, Expanded, decide_eq_true_eq]
  have hstart : InStepWith forest uncollapsedSpanIDs selectedSpanID [] ⟨uncollapsedSpanIDs.toFinset, [], none⟩ ([], none) :=
    ⟨fun x => by simp, rfl, rfl⟩
  have hrun := roots_inStep hnd S S' hdiffer uncollapsedSpanIDs selectedSpanID hu forest [] (fun _ ht => ht) hstart
  rw [nil_append] at hrun
  constructor
  · have hroots : (wt.ofForest S' forest).traceRoots.map (getPreOrderedSpans ((wt.ofForest S' forest).calculateUncollapsedSpanIDs
        uncollapsedSpanIDs selectedSpanID maxDepthForSelectedSpanChildren) false 0) = forest.map fun t => getPreOrderedSpans
          ((wt.ofForest S' forest).calculateUncollapsedSpanIDs uncollapsedSpanIDs selectedSpanID maxDepthForSelectedSpanChildren)
          false 0 (getSubtreeNodeCount (sortChildren S' t)) := List.map_map
    simp only [old, new, QueryService.getSelectedSpans, WaterfallTrace.getSelectedSpans, hroots]
    obtain ⟨-, hspans, hindex⟩ := hrun
    have hlen := congrArg List.length hspans
    rw [List.length_map, List.length_map] at hlen
    rw [hindex, hlen, SPAN_LIMIT_PER_REQUEST_FOR_WATERFALL, window_eq, map_drop, map_drop, map_take, map_take, hspans]
    -- an index is at least -1
    cases (List.foldl _ _ _ : List WaterfallSpan × Option Nat).2 with
    | none => exact Int.le_refl _
    | some i => exact Int.le_trans (by decide) (Int.natCast_nonneg i)
  · -- what is gained is under some root
    refine Finset.ext fun x => (hrun.map x).trans (Iff.trans ?_ (hu x).symm)
    refine or_congr Iff.rfl ⟨fun h => h.2, fun h => ⟨?_, h⟩⟩
    rcases h with ⟨hb, hne⟩ | ⟨-, hkids⟩
    · rcases Relation.ReflTransGen.cases_head hb with heq | ⟨y, hy, -⟩
      · exact absurd heq hne
      · exact parent_under_root hnd (ne_nil_of_mem ((mem_kids_forest hnd x y).2 hy))
    · exact parent_under_root hnd hkids

end

def parentAndChild : Rose WaterfallSpan :=
  .node alone.toWaterfallSpan [.node { alone with spanID := "b", parentSpanID := "a" }.toWaterfallSpan []]

def noTrace : WaterfallTrace := ⟨0, 0, 0, 0, ∅, [], false⟩

theorem same_selection_pair :
    let old := QueryService.getSelectedSpans stable ["a"] "b" ([parentAndChild].map (Rose.map WaterfallSpan.old))
      (oldNodeMap ([parentAndChild].map (Rose.map WaterfallSpan.old))) (decide ("b" ∈ ["a"]))
    let new := (noTrace.ofForest stable [parentAndChild]).getSelectedSpans ["a"] "b" pageOf500 maxDepthForSelectedSpanChildren
    old.1.map QueryService.Span.seen = new.1.map WaterfallSpan.seen ∧ old.2 = new.2 :=
  same_selection (by decide) stable stable (by
    intro t ht
    rw [mem_singleton.1 ht]
    unfold SiblingsDiffer
    decide) noTrace ["a"] "b"

end

end Waterfall
end DsApm
