import DsApm.Waterfall.Completeness
import DsApm.Waterfall.Places
/-!
# Determinism — whether two requests see one order

The order of the rows and the order of the loop over the map differ from request to request, and the sorts make up for it
only where they tell spans apart.  Children of one parent are told apart by their times and names.  So are roots, but a
placeholder takes its time from the child that the loop comes to first: all its children have to stand on one side of
the other root.  Exactly then every request sees the same places (`deterministic_iff`).
-/
namespace DsApm
namespace Waterfall

open Rose List Option

def keyOf (spans : List StorableSpan) (id : String) : Key :=
  match spanOf spans id with
  | some item => item.toWaterfallSpan.key
  | none => toLex (0, "")

/-- The key of the root that a span adds: its own, or that of the placeholder over it. -/
def rootKey (item : StorableSpan) : Key :=
  if item.parentSpanID = "" then item.toWaterfallSpan.key else (missingSpan item.parentSpanID item).key

def RootBelow (spans : List StorableSpan) (r r' : String) : Prop :=
  ∀ a ∈ spans, ∀ b ∈ spans, rootOf spans a.spanID = some r → rootOf spans b.spanID = some r' → rootKey a < rootKey b

/-- **The sorts tell the spans apart**: children of one shown parent, and roots. -/
structure ToldApart (spans : List StorableSpan) : Prop where
  siblings : ∀ a ∈ spans, ∀ b ∈ spans, ∀ p d, parentOf spans a.spanID = some p → parentOf spans b.spanID = some p →
    At (parentOf spans) p d → a.toWaterfallSpan.key = b.toWaterfallSpan.key → a = b
  roots : ∀ r r', r ≠ r' → RootBelow spans r r' ∨ RootBelow spans r' r

def SamePlaces {spans spans' : List StorableSpan} (run : Run spans) (run' : Run spans') : Prop :=
  ∃ wt wt', (∀ fuel, 2 * spans.length ≤ fuel → newWaterfallTraceFromSpans fuel spans run = some wt) ∧
    (∀ fuel, 2 * spans'.length ≤ fuel → newWaterfallTraceFromSpans fuel spans' run' = some wt') ∧
    wt.getAllSpans.map WaterfallSpan.place = wt'.getAllSpans.map WaterfallSpan.place ∧
    ∀ uncollapsedSpanIDs selectedSpanID page depth,
      (wt.getSelectedSpans uncollapsedSpanIDs selectedSpanID page depth).1.map WaterfallSpan.place =
        (wt'.getSelectedSpans uncollapsedSpanIDs selectedSpanID page depth).1.map WaterfallSpan.place

def Run.SortedBy {spans : List StorableSpan} (run : Run spans) (S : SortSlice) : Prop := run.children = S ∧ run.roots = S

/-- **Every request sees the same**, in whatever order it gets the rows and walks the map. -/
def Deterministic (spans : List StorableSpan) : Prop :=
  ∀ (S : SortSlice) (s s' : List StorableSpan), s.Perm spans → s'.Perm spans → ∀ (run : Run s) (run' : Run s'),
    run.SortedBy S → run'.SortedBy S → SamePlaces run run'

/-! ## The same spans in another order -/

section
variable {spans spans' : List StorableSpan} (hperm : spans.Perm spans') (hnd : (spans.map (·.spanID)).Nodup)
include hperm hnd

theorem spanOf_perm (id : String) : spanOf spans id = spanOf spans' id := by
  have hnd' := ((hperm.map (·.spanID)).nodup_iff).1 hnd
  ext item
  rw [spanOf_eq_some hnd, spanOf_eq_some hnd', hperm.mem_iff]

theorem parentOf_perm : parentOf spans = parentOf spans' := by
  funext id
  rw [parentOf, parentOf, spanOf_perm hperm hnd]

theorem rootOf_perm : rootOf spans = rootOf spans' := by
  funext id
  unfold rootOf
  rw [parentOf_perm hperm hnd]
  simp only [spanOf_perm hperm hnd]

theorem keyOf_perm : keyOf spans = keyOf spans' := by
  funext id
  rw [keyOf, keyOf, spanOf_perm hperm hnd]

theorem toldApart_perm (h : ToldApart spans') : ToldApart spans where
  siblings := by
    rw [parentOf_perm hperm hnd]
    exact fun a ha b hb => h.siblings a (hperm.mem_iff.1 ha) b (hperm.mem_iff.1 hb)
  roots := fun r r' hne => by
    unfold RootBelow
    rw [rootOf_perm hperm hnd]
    refine (h.roots r r' hne).imp (fun hlt a ha b hb => ?_) (fun hlt a ha b hb => ?_)
    · exact hlt a (hperm.mem_iff.1 ha) b (hperm.mem_iff.1 hb)
    · exact hlt a (hperm.mem_iff.1 ha) b (hperm.mem_iff.1 hb)

theorem mem_rootsAfter_perm {ids ids' : List String} (hids : ids.Perm (spans.map (·.spanID)))
    (hids' : ids'.Perm (spans'.map (·.spanID))) : (rootsAfter spans ids).Perm (rootsAfter spans' ids') := by
  refine (perm_ext_iff_of_nodup (nodup_rootsAfter _ _) (nodup_rootsAfter _ _)).2 fun r => ?_
  have hsame : ids.Perm ids' := hids.trans ((hperm.map _).trans hids'.symm)
  rw [mem_rootsAfter, mem_rootsAfter, rootOf_perm hperm hnd]
  simp only [hsame.mem_iff]

theorem childrenIn_perm {ids ids' : List String} (hids : ids.Perm (spans.map (·.spanID)))
    (hids' : ids'.Perm (spans'.map (·.spanID))) (p : String) : (childrenIn spans ids p).Perm (childrenIn spans' ids' p) := by
  unfold childrenIn
  rw [parentOf_perm hperm hnd]
  exact (hids.trans ((hperm.map _).trans hids'.symm)).filter _

end

/-! ## The keys of the nodes -/

section
variable {spans : List StorableSpan} (hnd : (spans.map (·.spanID)).Nodup)
include hnd

theorem key_of_child {ids : List String} {x p : String} {n : SpanNode} (hn : nodeAfter spans ids x = some n)
    (hp : parentOf spans x = some p) : n.span.key = keyOf spans x := by
  obtain ⟨item, hitem, hid, -⟩ := (parentOf_eq_some hnd).1 hp
  have hspan := (spanOf_eq_some hnd).2 ⟨hitem, hid⟩
  unfold nodeAfter at hn
  rw [hspan, some_inj] at hn
  rw [keyOf, hspan, ← hn]

theorem key_of_root {ids : List String} (hids : ids.Perm (spans.map (·.spanID))) {r : String} {n : SpanNode}
    (hr : parentOf spans r = none) (hn : nodeAfter spans ids r = some n) :
    ∃ item ∈ spans, rootOf spans item.spanID = some r ∧ n.span.key = rootKey item := by
  obtain ⟨-, -, -, hspan, hmissing⟩ := nodeAfter_eq_some hnd hids hn
  cases hr' : spanOf spans r with
  | some item =>
    obtain ⟨hin, rfl⟩ := (spanOf_eq_some hnd).1 hr'
    have hempty : item.parentSpanID = "" := by
      rw [parentOf_of_spanOf hr'] at hr
      by_contra hne
      rw [if_neg hne] at hr
      cases hr
    exact ⟨item, hin, by rw [rootOf, hr], by rw [hspan item hin rfl, rootKey, if_pos hempty]⟩
  | none =>
    obtain ⟨child, hin, rfl, heq⟩ := hmissing hr'
    have hne : child.parentSpanID ≠ "" := fun hempty => by
      -- the node of an id that is no span has a child that names it
      unfold nodeAfter at hn
      rw [hr'] at hn
      obtain ⟨c, hc, -⟩ := map_eq_some_iff.1 hn
      obtain ⟨x, hx, -⟩ := bind_eq_some_iff.1 hc
      obtain ⟨-, -, -, hp, hne⟩ := (parentOf_eq_some hnd).1 ((mem_childrenIn hnd hids).1 (mem_of_mem_head? hx))
      exact hne hempty
    have hparent := (parentOf_eq_some hnd).2 ⟨child, hin, rfl, rfl, hne⟩
    exact ⟨child, hin, by simp [rootOf, hparent, hr'], by rw [heq, rootKey, if_neg hne]⟩

end

/-! ## The trees of a run, as they were read -/

section
variable {spans : List StorableSpan} (hnd : (spans.map (·.spanID)).Nodup) (run : Run spans)

def Read (t : Rose WaterfallSpan) : Prop := ∃ n x, grow (nodeOf (linked spans run.order).spanIDToSpanNodeMap) n x = some t

include hnd

theorem read_node {t : Rose WaterfallSpan} (h : Read run t) :
    nodeAfter spans (spansIn spans run.order) t.value.spanID =
        some ⟨t.value, childrenIn spans (spansIn spans run.order) t.value.spanID⟩ ∧
      t.children.map (fun c => c.value.spanID) = childrenIn spans (spansIn spans run.order) t.value.spanID ∧
      ∀ c ∈ t.children, Read run c := by
  have hid : ∀ {n x t}, grow (nodeOf (linked spans run.order).spanIDToSpanNodeMap) n x = some t → t.value.spanID = x ∧
      ∃ ks, nodeAfter spans (spansIn spans run.order) x = some ⟨t.value, ks⟩ := fun {n x t} h => by
    cases n with
    | zero => cases h
    | succ n =>
      obtain ⟨a, ks, cs, hlook, -, rfl⟩ := grow_succ_eq_some.1 h
      rw [nodeOf_linked hnd] at hlook
      obtain ⟨node, hnode, heq⟩ := map_eq_some_iff.1 hlook
      obtain ⟨rfl, rfl⟩ := Prod.mk.injEq .. ▸ heq
      exact ⟨(nodeAfter_eq_some hnd run.visited hnode).2.1, _, hnode⟩
  obtain ⟨n, x, h⟩ := h
  cases n with
  | zero => cases h
  | succ n =>
    obtain ⟨rfl, ks, hnode⟩ := hid h
    obtain ⟨a, ks', cs, hlook, hcs, rfl⟩ := grow_succ_eq_some.1 h
    rw [nodeOf_linked hnd] at hlook
    obtain ⟨node, hnode', heq⟩ := map_eq_some_iff.1 hlook
    obtain ⟨rfl, rfl⟩ := Prod.mk.injEq .. ▸ heq
    have hkids := (nodeAfter_eq_some hnd run.visited hnode').1
    rw [hnode, some_inj] at hnode'
    rw [hkids] at hcs
    refine ⟨?_, map_eq_of_forall₂ (hcs.imp fun k c hc => (hid hc).1), fun c hc => ?_⟩
    · rw [hnode, ← hkids, ← hnode']
    · obtain ⟨k, -, hk⟩ := forall₂_right hcs c hc
      exact ⟨n, k, hk⟩

theorem read_child {t : Rose WaterfallSpan} (h : Read run t) {c : Rose WaterfallSpan} (hc : c ∈ t.children) :
    Read run c ∧ parentOf spans c.value.spanID = some t.value.spanID ∧ c.value.key = keyOf spans c.value.spanID := by
  obtain ⟨-, hids, hread⟩ := read_node hnd run h
  have hparent : parentOf spans c.value.spanID = some t.value.spanID := by
    rw [← mem_childrenIn hnd run.visited, ← hids]
    exact List.mem_map_of_mem hc
  exact ⟨hread c hc, hparent, key_of_child hnd (read_node hnd run (hread c hc)).1 hparent⟩

theorem ordered_of_read (S : SortSlice) (t : Rose WaterfallSpan) :
    Read run t → Ordered (fun x y => keyOf spans x ≤ keyOf spans y) (idTree (sortChildren S t)) := by
  induction t using ind with
  | h ws cs ih =>
    intro hread
    rw [sortChildren_node, idTree_node]
    have hmem : ∀ c ∈ S.sort (fun c => c.value.key) (cs.map (sortChildren S)), ∃ c' ∈ cs, c = sortChildren S c' := fun c hc => by
      obtain ⟨c', hc', rfl⟩ := List.mem_map.1 ((S.perm _ _).mem_iff.1 hc)
      exact ⟨c', hc', rfl⟩
    refine Ordered.node ?_ fun c hc => ?_
    · rw [List.map_map, pairwise_map]
      refine List.Pairwise.imp_of_mem (fun {a b} ha hb hle => ?_) (S.sorted (fun c => c.value.key) (cs.map (sortChildren S)))
      obtain ⟨a', ha', rfl⟩ := hmem a ha
      obtain ⟨b', hb', rfl⟩ := hmem b hb
      rw [value_sortChildren, value_sortChildren, (read_child hnd run hread ha').2.2, (read_child hnd run hread hb').2.2] at hle
      simpa using hle
    · obtain ⟨c', hc', rfl⟩ := List.mem_map.1 hc
      obtain ⟨c, hin, rfl⟩ := hmem c' hc'
      exact ih c hin (read_child hnd run hread hin).1

/-- **The forest of a run**: its trees, ordered, and its roots, by their keys. -/
theorem forest_of_run : ∃ wt, (∀ fuel, 2 * spans.length ≤ fuel → newWaterfallTraceFromSpans fuel spans run = some wt) ∧
    (∀ id, (childrenOf wt.spanIDToSpanNodeMap id).Perm (childrenIn spans (spansIn spans run.order) id)) ∧
    (wt.traceRoots.map (fun t => t.value.spanID)).Perm (rootsAfter spans (spansIn spans run.order)) ∧
    wt.traceRoots.Pairwise (fun t t' => t.value.key ≤ t'.value.key) ∧
    ∀ t ∈ wt.traceRoots, Grown spans (spansIn spans run.order) 0 t ∧
      Ordered (fun x y => keyOf spans x ≤ keyOf spans y) (idTree t) ∧
      ∃ item ∈ spans, rootOf spans item.spanID = some t.value.spanID ∧ t.value.key = rootKey item := by
  obtain ⟨wt, trees, hwt, htrees, hmap, hroots⟩ := trace_of_run hnd run
  obtain ⟨hgrown, hids⟩ := grown_of_run hnd run htrees hroots
  refine ⟨wt, hwt, fun id => ?_, hids, ?_, fun t ht => ⟨hgrown t ht, ?_⟩⟩
  · rw [childrenOf, hmap, (linked_spec hnd run.order).nodes]
    cases hn : nodeAfter spans (spansIn spans run.order) id with
    | some n =>
      rw [map_some, getD_some, (nodeAfter_eq_some hnd run.visited hn).1]
    | none =>
      have hempty : childrenIn spans (spansIn spans run.order) id = [] := eq_nil_iff_forall_not_mem.2 fun x hx =>
        nodeAfter_isSome hnd run.visited (parent_mem hnd ((mem_childrenIn hnd run.visited).1 hx)) hn
      rw [hempty]
      exact List.Perm.refl _
  · rw [hroots]
    exact run.roots.sorted _ _
  · obtain ⟨t₀, ht₀, rfl⟩ := List.mem_map.1 ((run.roots.perm _ _).mem_iff.1 (hroots ▸ ht))
    obtain ⟨r, -, hgrow⟩ := forall₂_right htrees t₀ ht₀
    have hread : Read run t₀ := ⟨_, r, hgrow⟩
    have hlevel := (hgrown _ ht).level
    rw [value_getSubtreeNodeCount (f := fun ws => ws.spanID) (fun _ _ => rfl), value_sortChildren] at hlevel ⊢
    rw [value_getSubtreeNodeCount (f := fun ws => ws.key) (fun _ _ => rfl), value_sortChildren,
      idTree, map_getSubtreeNodeCount (f := fun ws => ws.spanID) (fun _ _ => rfl)]
    refine ⟨ordered_of_read hnd run run.children t₀ hread, ?_⟩
    cases hlevel with
    | root hp =>
      obtain ⟨item, hitem, hroot, hkey⟩ := key_of_root hnd run.visited hp (read_node hnd run hread).1
      exact ⟨item, hitem, hroot, hkey⟩

end

/-! ## Told apart, the places are the same -/

section
variable {spans : List StorableSpan} (hnd : (spans.map (·.spanID)).Nodup) (htold : ToldApart spans)
include hnd htold

omit hnd in
theorem roots_below (run : Run spans) {wt : WaterfallTrace}
    (hids : (wt.traceRoots.map (fun t => t.value.spanID)).Perm (rootsAfter spans (spansIn spans run.order)))
    (hsorted : wt.traceRoots.Pairwise (fun t t' => t.value.key ≤ t'.value.key))
    (hkeys : ∀ t ∈ wt.traceRoots, ∃ item ∈ spans, rootOf spans item.spanID = some t.value.spanID ∧ t.value.key = rootKey item) :
    (wt.traceRoots.map (fun t => t.value.spanID)).Pairwise (RootBelow spans) := by
  have hne : wt.traceRoots.Pairwise (fun t t' => t.value.spanID ≠ t'.value.spanID) :=
    pairwise_map.1 (hids.nodup_iff.2 (nodup_rootsAfter _ _))
  rw [pairwise_map]
  refine List.Pairwise.imp_of_mem (fun {t t'} ht ht' h => ?_) (hsorted.and hne)
  obtain ⟨hle, hne⟩ := h
  refine (htold.roots _ _ hne).resolve_right fun hbelow => ?_
  obtain ⟨a, ha, hroot, hkey⟩ := hkeys t ht
  obtain ⟨b, hb, hroot', hkey'⟩ := hkeys t' ht'
  rw [hkey, hkey'] at hle
  exact absurd hle (not_le_of_gt (hbelow b hb a ha hroot' hroot))

/-- **Two runs over the spans, in any orders, give one forest of ids.** -/
theorem samePlaces_of_toldApart {spans' : List StorableSpan} (hperm : spans.Perm spans') (run : Run spans) (run' : Run spans') :
    SamePlaces run run' := by
  have hnd' := ((hperm.map (·.spanID)).nodup_iff).1 hnd
  have htold' : ToldApart spans' := toldApart_perm hperm.symm hnd' htold
  obtain ⟨wt, hwt, hkids, hids, hsorted, hforest⟩ := forest_of_run hnd run
  obtain ⟨wt', hwt', hkids', hids', hsorted', hforest'⟩ := forest_of_run hnd' run'
  have hchildren := childrenIn_perm hperm hnd run.visited run'.visited
  -- the roots
  have hroots : wt.traceRoots.map (fun t => t.value.spanID) = wt'.traceRoots.map (fun t => t.value.spanID) := by
    have hbelow := roots_below htold run hids hsorted fun t ht => (hforest t ht).2.2
    have hbelow' := roots_below htold' run' hids' hsorted' fun t ht => (hforest' t ht).2.2
    have hback : (wt'.traceRoots.map (fun t => t.value.spanID)).Pairwise (RootBelow spans) :=
      hbelow'.imp fun {r r'} h a ha b hb hra hrb =>
        h a (hperm.mem_iff.1 ha) b (hperm.mem_iff.1 hb) (rootOf_perm hperm hnd ▸ hra) (rootOf_perm hperm hnd ▸ hrb)
    have hboth := hids.trans ((mem_rootsAfter_perm hperm hnd run.visited run'.visited).trans hids'.symm)
    refine hboth.eq_of_pairwise (fun r r' hr hr' h h' => ?_) hbelow hback
    obtain ⟨t, ht, rfl⟩ := List.mem_map.1 hr
    obtain ⟨t', ht', rfl⟩ := List.mem_map.1 (hboth.mem_iff.2 hr')
    obtain ⟨a, ha, hra, -⟩ := (hforest t ht).2.2
    obtain ⟨b, hb, hrb, -⟩ := (hforest t' ht').2.2
    exact absurd (h a ha b hb hra hrb) (lt_asymm (h' b hb a ha hrb hra))
  -- the trees under them
  have htrees : wt.traceRoots.map idTree = wt'.traceRoots.map idTree := by
    refine eq_of_map_eq (f := value) (fun t ht t' ht' hval => ?_) (by simpa [Function.comp_def] using hroots)
    obtain ⟨u, hu, rfl⟩ := List.mem_map.1 ht
    obtain ⟨u', hu', rfl⟩ := List.mem_map.1 ht'
    obtain ⟨hgrown, hord, -⟩ := hforest u hu
    obtain ⟨hgrown', hord', -⟩ := hforest' u' hu'
    refine built_unique hchildren _ hgrown.built hgrown'.built hord (keyOf_perm hperm hnd ▸ hord') (fun p hp x hx y hy hle hge => ?_) hval
    rw [mem_childrenIn hnd run.visited] at hx hy
    rw [mem_values (fun q z => mem_childrenIn hnd run.visited) hgrown.built] at hp
    rw [value_map] at hp
    obtain ⟨d, hd⟩ := hgrown.level.under hp
    obtain ⟨a, ha, rfl, -⟩ := (parentOf_eq_some hnd).1 hx
    obtain ⟨b, hb, rfl, -⟩ := (parentOf_eq_some hnd).1 hy
    have hkey : keyOf spans a.spanID = keyOf spans b.spanID := le_antisymm hle hge
    rw [keyOf, keyOf, (spanOf_eq_some hnd).2 ⟨ha, rfl⟩, (spanOf_eq_some hnd).2 ⟨hb, rfl⟩] at hkey
    rw [htold.siblings a ha b hb p _ hx hy hd hkey]
  refine ⟨wt, wt', hwt, hwt', ?_, fun uncollapsedSpanIDs selectedSpanID page depth => ?_⟩
  · rw [WaterfallTrace.getAllSpans, WaterfallTrace.getAllSpans, map_flatMap, map_flatMap]
    exact flatMap_congr₂ (fun t _ t' h => getPreOrderedSpans_places ∅ true t 0 t' h) htrees
  · refine (getSelectedSpans_places htrees (fun id => ?_) uncollapsedSpanIDs selectedSpanID page depth).1
    exact (hkids id).trans ((hchildren id).trans (hkids' id).symm)

end

/-! ## Not told apart, two orders of the loop show two orders -/

section
variable {spans : List StorableSpan}

def leading {a b : String} (ha : a ∈ spans.map (·.spanID)) (hb : b ∈ spans.map (·.spanID)) (hne : a ≠ b) : Run spans where
  order := a :: b :: ((spans.map (·.spanID)).erase a).erase b
  visits := by
    have hperm : (a :: b :: ((spans.map (·.spanID)).erase a).erase b).Perm (spans.map (·.spanID)) :=
      ((List.perm_cons_erase ((List.mem_erase_of_ne hne.symm).2 hb)).symm.cons a).trans (List.perm_cons_erase ha).symm
    rw [List.filter_eq_self.2 fun x hx => decide_eq_true (hperm.mem_iff.1 hx)]
    exact hperm
  children := stable
  roots := stable

theorem spansIn_leading {a b : String} (ha : a ∈ spans.map (·.spanID)) (hb : b ∈ spans.map (·.spanID)) (hne : a ≠ b) :
    spansIn spans (leading ha hb hne).order = a :: b :: ((spans.map (·.spanID)).erase a).erase b := by
  refine filter_eq_self.2 fun x hx => decide_eq_true ?_
  rcases mem_cons.1 hx with rfl | hx
  · exact ha
  · rcases mem_cons.1 hx with rfl | hx
    · exact hb
    · exact mem_of_mem_erase (mem_of_mem_erase hx)

theorem pair_sublist_stable {α : Type} (key : α → Key) {l : List α} {x y : α} (h : [x, y].Sublist l) (hle : key x ≤ key y) :
    [x, y].Sublist (stable.sort key l) :=
  pair_sublist_mergeSort (key_le_trans key) (key_le_total key) (decide_eq_true hle) h

theorem sublist_noteRoot (l : List String) : ∀ roots : List String, roots.Sublist (l.foldl noteRoot roots) := by
  induction l with
  | nil => exact fun roots => List.Sublist.refl roots
  | cons r l ih =>
    intro roots
    refine List.Sublist.trans ?_ (ih (noteRoot roots r))
    unfold noteRoot
    split_ifs
    · exact List.Sublist.refl _
    · exact sublist_append_left _ _

theorem not_pair_both {α : Type} {x y : α} : ∀ {l : List α}, l.Nodup → [x, y].Sublist l → [y, x].Sublist l → False
  | [], _, h, _ => by simp at h
  | z :: l, hnd, h, h' => by
    rw [nodup_cons] at hnd
    rcases sublist_cons_iff.1 h with h | ⟨r, hr, h⟩
    · rcases sublist_cons_iff.1 h' with h' | ⟨r', hr', -⟩
      · exact not_pair_both hnd.2 h h'
      · rw [List.cons.injEq] at hr'
        exact hnd.1 (hr'.1 ▸ h.subset (by simp))
    · rw [List.cons.injEq] at hr
      obtain ⟨rfl, rfl⟩ := hr
      rcases sublist_cons_iff.1 h' with h' | ⟨r', hr', -⟩
      · exact hnd.1 (h'.subset (by simp))
      · rw [List.cons.injEq] at hr'
        exact hnd.1 (hr'.1 ▸ h.subset (by simp))

variable (hnd : (spans.map (·.spanID)).Nodup)
include hnd

theorem siblings_shown (run : Run spans) (hS : run.children = stable) {wt : WaterfallTrace}
    (hwt : newWaterfallTraceFromSpans (2 * spans.length) spans run = some wt) {a b p : String} {d : Nat}
    (hab : [a, b].Sublist (childrenIn spans (spansIn spans run.order) p)) (hd : At (parentOf spans) p d)
    (hle : keyOf spans a ≤ keyOf spans b) : [a, b].Sublist (wt.getAllSpans.map (·.spanID)) := by
  obtain ⟨wt', trees, hwt', htrees, -, hroots⟩ := trace_of_run hnd run
  obtain rfl : wt = wt' := some_inj.1 (hwt.symm.trans (hwt' _ (Nat.le_refl _)))
  obtain ⟨hgrown, hids⟩ := grown_of_run hnd run htrees hroots
  have hparent : parentOf spans a = some p := (mem_childrenIn hnd run.visited).1 (hab.subset (by simp))
  have hp : p ∈ wt.getAllSpans.map (·.spanID) := (mem_shown hnd run.visited hgrown hids p).2 ⟨parent_mem hnd hparent, d, hd⟩
  rw [map_getAllSpans wt (fun _ _ _ => rfl), flatMap_map] at hp ⊢
  obtain ⟨t, ht, hp⟩ := mem_flatMap.1 hp
  obtain ⟨t₀, ht₀, rfl⟩ := List.mem_map.1 ((run.roots.perm _ _).mem_iff.1 (hroots ▸ ht))
  obtain ⟨r, -, hgrow⟩ := forall₂_right htrees t₀ ht₀
  -- the subtree of the parent, as it was read and sorted
  have hsub := exists_sub (P := fun t => ∃ u, Read run u ∧ t = idTree (sortChildren run.children u)) (fun x cs h c hc => by
    obtain ⟨⟨ws, us⟩, hu, heq⟩ := h
    rw [sortChildren_node, idTree_node, Rose.node.injEq] at heq
    obtain ⟨c', hc', rfl⟩ := List.mem_map.1 (heq.2 ▸ hc)
    obtain ⟨u, hu', rfl⟩ := List.mem_map.1 ((run.children.perm _ _).mem_iff.1 hc')
    exact ⟨u, (read_child hnd run hu hu').1, rfl⟩) _ ⟨t₀, ⟨_, r, hgrow⟩, rfl⟩ p (by
      rwa [map_getSubtreeNodeCount (f := fun ws => ws.spanID) (fun _ _ => rfl)] at hp)
  obtain ⟨sub, ⟨u, hu, rfl⟩, hval, hlist⟩ := hsub
  obtain ⟨ws, us⟩ := u
  rw [value_map, value_sortChildren, value_node] at hval
  have hchildren : us.map (fun c => c.value.spanID) = childrenIn spans (spansIn spans run.order) p := by
    rw [← hval]
    exact (read_node hnd run hu).2.1
  rw [← hchildren] at hab
  obtain ⟨us', hus', hpair⟩ := sublist_map_iff.1 hab
  obtain ⟨ca, l, rfl, rfl, hl⟩ := map_eq_cons_iff.1 hpair.symm
  obtain ⟨cb, l', rfl, rfl, hl'⟩ := map_eq_cons_iff.1 hl
  obtain rfl := map_eq_nil_iff.1 hl'
  have hkey : ∀ c ∈ us, c.value.key = keyOf spans c.value.spanID := fun c hc => (read_child hnd run hu hc).2.2
  have hsorted := pair_sublist_stable (fun c => c.value.key) (hus'.map (sortChildren run.children)) (by
    rw [value_sortChildren, value_sortChildren, hkey ca (hus'.subset (by simp)), hkey cb (hus'.subset (by simp))]
    exact hle)
  have hshown : [ca.value.spanID, cb.value.spanID].Sublist (idTree (sortChildren run.children (.node ws us))).values := by
    rw [sortChildren_node, idTree_node, values_node]
    refine ((List.Sublist.trans ?_ (children_sublist _)).cons _)
    have hids := hsorted.map (fun c => c.value.spanID)
    rw [← hS] at hids
    simpa [Function.comp_def] using hids
  refine hshown.trans (hlist.trans ?_)
  rw [flatMap_def]
  refine sublist_flatten_of_mem (List.mem_map.2 ⟨_, ht, ?_⟩)
  rw [map_getSubtreeNodeCount (f := fun ws => ws.spanID) (fun _ _ => rfl)]

theorem roots_shown (run : Run spans) (hS : run.roots = stable) {wt : WaterfallTrace}
    (hwt : newWaterfallTraceFromSpans (2 * spans.length) spans run = some wt) {r r' : String}
    (hroots : [r, r'].Sublist (rootsAfter spans (spansIn spans run.order)))
    (hle : ∀ n n', nodeAfter spans (spansIn spans run.order) r = some n → nodeAfter spans (spansIn spans run.order) r' = some n' →
      n.span.key ≤ n'.span.key) : [r, r'].Sublist (wt.getAllSpans.map (·.spanID)) := by
  obtain ⟨wt', trees, hwt', htrees, -, hforest⟩ := trace_of_run hnd run
  obtain rfl : wt = wt' := some_inj.1 (hwt.symm.trans (hwt' _ (Nat.le_refl _)))
  have hread : ∀ t ∈ trees, Read run t := fun t ht => by
    obtain ⟨x, -, hx⟩ := forall₂_right htrees t ht
    exact ⟨_, x, hx⟩
  have hids : trees.map (fun t => t.value.spanID) = rootsAfter spans (spansIn spans run.order) := by
    refine map_eq_of_forall₂ (htrees.imp fun x t hx => ?_)
    exact (built_of_grow (look_of_linked hnd run) _ hx).1.1
  rw [← hids] at hroots
  obtain ⟨ts, hts, hpair⟩ := sublist_map_iff.1 hroots
  obtain ⟨t, l, rfl, rfl, hl⟩ := map_eq_cons_iff.1 hpair.symm
  obtain ⟨t', l', rfl, rfl, hl'⟩ := map_eq_cons_iff.1 hl
  obtain rfl := map_eq_nil_iff.1 hl'
  have hle' := hle _ _ (read_node hnd run (hread t (hts.subset (by simp)))).1 (read_node hnd run (hread t' (hts.subset (by simp)))).1
  have hsorted := pair_sublist_stable (fun t => t.value.key) (hts.map fun t => getSubtreeNodeCount (sortChildren run.children t)) (by
    rw [value_getSubtreeNodeCount (f := fun ws => ws.key) (fun _ _ => rfl),
      value_getSubtreeNodeCount (f := fun ws => ws.key) (fun _ _ => rfl), value_sortChildren, value_sortChildren]
    exact hle')
  rw [← hS, ← hforest] at hsorted
  have hshown := (hsorted.map idTree).map value
  rw [map_getAllSpans wt (fun _ _ _ => rfl)]
  refine List.Sublist.trans ?_ (children_sublist _)
  have hval : ∀ u : Rose WaterfallSpan, (idTree (getSubtreeNodeCount (sortChildren run.children u))).value = u.value.spanID := fun u => by
    rw [idTree, map_getSubtreeNodeCount (f := fun ws => ws.spanID) (fun _ _ => rfl), value_map, value_sortChildren]
  simpa [hval] using hshown

theorem key_of_first {ids : List String} {item : StorableSpan} (hitem : item ∈ spans) {r : String}
    (hr : rootOf spans item.spanID = some r)
    (hfirst : parentOf spans item.spanID = some r → (childrenIn spans ids r).head? = some item.spanID) {n : SpanNode}
    (hn : nodeAfter spans ids r = some n) : n.span.key = rootKey item := by
  have hspan := (spanOf_eq_some hnd).2 ⟨hitem, rfl⟩
  have hparent := parentOf_of_spanOf hspan
  unfold rootOf at hr
  unfold rootKey
  split_ifs at hparent ⊢ with hp
  · rw [hparent, some_inj] at hr
    subst hr
    rw [nodeAfter, hspan, some_inj] at hn
    rw [← hn]
  · rw [hparent] at hr
    dsimp only at hr
    split_ifs at hr with hsome
    rw [some_inj] at hr
    subst hr
    have hnone : spanOf spans item.parentSpanID = none := by simpa using hsome
    rw [nodeAfter, hnone] at hn
    rw [hfirst hparent] at hn
    dsimp only at hn
    rw [bind_some, hspan, map_some, some_inj] at hn
    rw [← hn]

/-- **Two roots can be shown in the order of the keys of any spans that add them.** -/
theorem roots_shown_leading {a b : StorableSpan} (ha : a ∈ spans) (hb : b ∈ spans) {r r' : String} (hne : r ≠ r')
    (hra : rootOf spans a.spanID = some r) (hrb : rootOf spans b.spanID = some r') (hle : rootKey a ≤ rootKey b) :
    ∃ run : Run spans, run.SortedBy stable ∧ ∀ wt, newWaterfallTraceFromSpans (2 * spans.length) spans run = some wt →
      [r, r'].Sublist (wt.getAllSpans.map (·.spanID)) := by
  have hab : a.spanID ≠ b.spanID := fun h => hne (by rw [h, hrb, some_inj] at hra; exact hra.symm)
  have ha' := List.mem_map_of_mem (f := fun s : StorableSpan => s.spanID) ha
  have hb' := List.mem_map_of_mem (f := fun s : StorableSpan => s.spanID) hb
  refine ⟨leading ha' hb' hab, ⟨rfl, rfl⟩, fun wt hwt => roots_shown hnd _ rfl hwt ?_ fun n n' hn hn' => ?_⟩
  · rw [spansIn_leading ha' hb' hab, rootsAfter, filterMap_cons_some hra, filterMap_cons_some hrb,
      foldl_cons, foldl_cons]
    have hfirst : noteRoot (noteRoot [] r) r' = [r, r'] := by simp [noteRoot, hne.symm]
    rw [hfirst]
    exact sublist_noteRoot _ _
  · rw [spansIn_leading ha' hb' hab] at hn hn'
    have hother : parentOf spans b.spanID = some r' → parentOf spans a.spanID ≠ some r' := fun hpb hpa => by
      rw [rootOf, hpb] at hrb
      rw [rootOf, hpa] at hra
      dsimp only at hra hrb
      split_ifs at hra hrb
      exact hne (some_inj.1 hra).symm
    rw [key_of_first hnd ha hra (fun hp => by simp [childrenIn, hp]) hn,
      key_of_first hnd hb hrb (fun hp => by simp [childrenIn, hp, hother hp]) hn']
    exact hle

theorem siblings_shown_leading {a b : StorableSpan} (ha : a ∈ spans) (hb : b ∈ spans) (hne : a ≠ b) {p : String} {d : Nat}
    (hpa : parentOf spans a.spanID = some p) (hpb : parentOf spans b.spanID = some p) (hd : At (parentOf spans) p d)
    (hle : a.toWaterfallSpan.key ≤ b.toWaterfallSpan.key) :
    ∃ run : Run spans, run.SortedBy stable ∧ ∀ wt, newWaterfallTraceFromSpans (2 * spans.length) spans run = some wt →
      [a.spanID, b.spanID].Sublist (wt.getAllSpans.map (·.spanID)) := by
  have hab : a.spanID ≠ b.spanID := fun h => hne (inj_on_of_nodup_map hnd ha hb h)
  have ha' := List.mem_map_of_mem (f := fun s : StorableSpan => s.spanID) ha
  have hb' := List.mem_map_of_mem (f := fun s : StorableSpan => s.spanID) hb
  refine ⟨leading ha' hb' hab, ⟨rfl, rfl⟩, fun wt hwt => siblings_shown hnd _ rfl hwt ?_ hd ?_⟩
  · rw [spansIn_leading ha' hb' hab, childrenIn, filter_cons_of_pos (by simp [hpa]), filter_cons_of_pos (by simp [hpb])]
    exact (nil_sublist _).cons_cons _ |>.cons_cons _
  · rw [keyOf, keyOf, (spanOf_eq_some hnd).2 ⟨ha, rfl⟩, (spanOf_eq_some hnd).2 ⟨hb, rfl⟩]
    exact hle

theorem one_order (h : Deterministic spans) {x y : String} {run run' : Run spans} (hS : run.SortedBy stable) (hS' : run'.SortedBy stable)
    (hxy : ∀ wt, newWaterfallTraceFromSpans (2 * spans.length) spans run = some wt → [x, y].Sublist (wt.getAllSpans.map (·.spanID)))
    (hyx : ∀ wt, newWaterfallTraceFromSpans (2 * spans.length) spans run' = some wt → [y, x].Sublist (wt.getAllSpans.map (·.spanID))) :
    False := by
  obtain ⟨wt, wt', hwt, hwt', hplaces, -⟩ := h stable spans spans (List.Perm.refl _) (List.Perm.refl _) run run' hS hS'
  have hids : wt.getAllSpans.map (·.spanID) = wt'.getAllSpans.map (·.spanID) := by
    simpa [WaterfallSpan.place, Function.comp_def] using congrArg (List.map Prod.fst) hplaces
  have hxy := hxy wt (hwt _ (Nat.le_refl _))
  have hyx := hyx wt' (hwt' _ (Nat.le_refl _))
  rw [← hids] at hyx
  obtain ⟨wt₀, trees, hwt₀, htrees, -, hroots⟩ := trace_of_run hnd run
  obtain rfl : wt = wt₀ := some_inj.1 ((hwt _ (Nat.le_refl _)).symm.trans (hwt₀ _ (Nat.le_refl _)))
  obtain ⟨hgrown, hroots⟩ := grown_of_run hnd run htrees hroots
  exact not_pair_both (nodup_shown hnd run.visited hgrown hroots) hxy hyx

theorem toldApart_of_deterministic (h : Deterministic spans) : ToldApart spans where
  siblings := fun a ha b hb p d hpa hpb hd hkey => by
    by_contra hne
    obtain ⟨run, hS, hab⟩ := siblings_shown_leading hnd ha hb hne hpa hpb hd (le_of_eq hkey)
    obtain ⟨run', hS', hba⟩ := siblings_shown_leading hnd hb ha (Ne.symm hne) hpb hpa hd (le_of_eq hkey.symm)
    exact one_order hnd h hS hS' hab hba
  roots := fun r r' hne => by
    by_contra hnot
    push Not at hnot
    unfold RootBelow at hnot
    push Not at hnot
    obtain ⟨⟨a, ha, b, hb, hra, hrb, hle⟩, c, hc, d, hd, hrc, hrd, hle'⟩ := hnot
    obtain ⟨run, hS, hba⟩ := roots_shown_leading hnd hb ha hne.symm hrb hra hle
    obtain ⟨run', hS', hab⟩ := roots_shown_leading hnd hd hc hne hrd hrc hle'
    exact one_order hnd h hS' hS hab hba

end

end Waterfall
end DsApm
