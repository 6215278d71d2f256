import DsApm.Waterfall.Linking
import DsApm.Waterfall.Trees
/-!
# Completeness — which spans the waterfall shows

The recursions come to an end on every input, and what they show is well formed: a span stands with its subtree behind it,
a level above its children, counted right.  But only what hangs under a root is shown.  A span that is its own parent, or
lies on a cycle of parents, is no root and hangs under none: it is lost, with all that is under it (`complete_iff`).
-/
namespace DsApm
namespace Waterfall

open Rose List Option

def missingParents (spans : List StorableSpan) : List String :=
  ((spans.map (·.parentSpanID)).filter (fun p => decide (p ≠ "" ∧ p ∉ spans.map (·.spanID)))).dedup

def WaterfallSpan.bare (ws : WaterfallSpan) : WaterfallSpan := { ws with subTreeNodeCount := 0, level := 0, hasChildren := false }

@[simp] theorem spanID_bare (ws : WaterfallSpan) : ws.bare.spanID = ws.spanID := rfl

/-- **Every span is shown, once, with its placeholders, in its place.** -/
structure Complete (spans : List StorableSpan) (shown : List WaterfallSpan) : Prop where
  once : (shown.map (·.spanID)).Perm (spans.map (·.spanID) ++ missingParents spans)
  span : ∀ item ∈ spans, ∀ s ∈ shown, s.spanID = item.spanID → s.bare = item.toWaterfallSpan
  placeholder : ∀ s ∈ shown, s.spanID ∈ missingParents spans →
    ∃ child ∈ spans, child.parentSpanID = s.spanID ∧ s.bare = missingSpan s.spanID child
  block : ∀ before s after, shown = before ++ s :: after → ∃ rest back, after = rest ++ back ∧
    (∀ x, x ∈ (s :: rest).map (·.spanID) ↔ Below (parentOf spans) s.spanID x) ∧ s.subTreeNodeCount = (s :: rest).length ∧
    ∀ c ∈ shown, parentOf spans c.spanID = some s.spanID → c ∈ rest ∧ c.level = s.level + 1

section
variable {spans : List StorableSpan} (hnd : (spans.map (·.spanID)).Nodup)
include hnd

theorem mem_missingParents {p : String} : p ∈ missingParents spans ↔ (∃ c, parentOf spans c = some p) ∧ spanOf spans p = none := by
  unfold missingParents
  rw [mem_dedup, mem_filter, List.mem_map, spanOf_eq_none, decide_eq_true_eq]
  constructor
  · rintro ⟨⟨item, hitem, rfl⟩, hne, hout⟩
    exact ⟨⟨item.spanID, (parentOf_eq_some hnd).2 ⟨item, hitem, rfl, rfl, hne⟩⟩, hout⟩
  · rintro ⟨⟨c, hc⟩, hout⟩
    obtain ⟨item, hitem, -, hp, hne⟩ := (parentOf_eq_some hnd).1 hc
    exact ⟨⟨item, hitem, hp⟩, hne, hout⟩

theorem mem_of_parentOf {c p : String} (h : parentOf spans c = some p) : c ∈ spans.map (·.spanID) := by
  obtain ⟨item, hitem, rfl, -⟩ := (parentOf_eq_some hnd).1 h
  exact List.mem_map_of_mem hitem

theorem parent_mem {c p : String} (h : parentOf spans c = some p) : p ∈ spans.map (·.spanID) ++ missingParents spans := by
  rw [mem_append]
  by_cases hp : spanOf spans p = none
  · exact Or.inr ((mem_missingParents hnd).2 ⟨⟨c, h⟩, hp⟩)
  · exact Or.inl (Classical.byContradiction fun hout => hp (spanOf_eq_none.2 hout))

theorem nodup_nodes : (spans.map (·.spanID) ++ missingParents spans).Nodup := by
  refine nodup_append.2 ⟨hnd, nodup_dedup _, fun a ha b hb hab => ?_⟩
  exact spanOf_eq_none.1 ((mem_missingParents hnd).1 hb).2 (hab ▸ ha)

omit hnd in
theorem length_nodes : (spans.map (·.spanID) ++ missingParents spans).length ≤ 2 * spans.length := by
  have hle : (missingParents spans).length ≤ (spans.map (·.parentSpanID)).length :=
    ((dedup_sublist _).trans filter_sublist).length_le
  rw [List.length_map] at hle
  rw [List.length_append, List.length_map]
  omega

variable {ids : List String} (hids : ids.Perm (spans.map (·.spanID)))
include hids

theorem mem_childrenIn {p x : String} : x ∈ childrenIn spans ids p ↔ parentOf spans x = some p := by
  unfold childrenIn
  rw [mem_filter, beq_iff_eq]
  exact ⟨fun h => h.2, fun h => ⟨hids.mem_iff.2 (mem_of_parentOf hnd h), h⟩⟩

theorem nodup_childrenIn (p : String) : (childrenIn spans ids p).Nodup := (hids.nodup_iff.2 hnd).filter _

theorem mem_roots {r : String} :
    r ∈ rootsAfter spans ids ↔ r ∈ spans.map (·.spanID) ++ missingParents spans ∧ parentOf spans r = none := by
  rw [mem_rootsAfter]
  constructor
  · rintro ⟨c, hc, h⟩
    unfold rootOf at h
    cases hp : parentOf spans c with
    | none =>
      rw [hp, some_inj] at h
      subst h
      exact ⟨mem_append_left _ (hids.mem_iff.1 hc), hp⟩
    | some p =>
      rw [hp] at h
      dsimp only at h
      split_ifs at h with hspan
      rw [some_inj] at h
      subst h
      have hnone : spanOf spans p = none := by simpa using hspan
      exact ⟨parent_mem hnd hp, by rw [parentOf, hnone, bind_none]⟩
  · rintro ⟨hr, hp⟩
    rcases mem_append.1 hr with hr | hr
    · exact ⟨r, hids.mem_iff.2 hr, by rw [rootOf, hp]⟩
    · obtain ⟨⟨c, hc⟩, hnone⟩ := (mem_missingParents hnd).1 hr
      refine ⟨c, hids.mem_iff.2 (mem_of_parentOf hnd hc), ?_⟩
      rw [rootOf, hc]
      simp [hnone]

theorem nodeAfter_isSome {x : String} (hx : x ∈ spans.map (·.spanID) ++ missingParents spans) : nodeAfter spans ids x ≠ none := by
  unfold nodeAfter
  cases hspan : spanOf spans x with
  | some item => simp
  | none =>
    rcases mem_append.1 hx with hin | hin
    · exact absurd hin (spanOf_eq_none.1 hspan)
    · obtain ⟨⟨c, hc⟩, -⟩ := (mem_missingParents hnd).1 hin
      have hne : childrenIn spans ids x ≠ [] := ne_nil_of_mem ((mem_childrenIn hnd hids).2 hc)
      obtain ⟨c', hc'⟩ := ne_none_iff_exists'.1 fun h => hne (List.head?_eq_none_iff.1 h)
      have hspan' : spanOf spans c' ≠ none := fun h =>
        spanOf_eq_none.1 h (mem_of_parentOf hnd ((mem_childrenIn hnd hids).1 (mem_of_mem_head? hc')))
      obtain ⟨child, hchild⟩ := ne_none_iff_exists'.1 hspan'
      simp [hc', hchild]

theorem nodeAfter_eq_some {x : String} {n : SpanNode} (h : nodeAfter spans ids x = some n) :
    n.children = childrenIn spans ids x ∧ n.span.spanID = x ∧ n.span.bare = n.span ∧
      (∀ item ∈ spans, x = item.spanID → n.span = item.toWaterfallSpan) ∧
      (spanOf spans x = none → ∃ child ∈ spans, child.parentSpanID = x ∧ n.span = missingSpan x child) := by
  unfold nodeAfter at h
  cases hspan : spanOf spans x with
  | some item =>
    rw [hspan, some_inj] at h
    obtain ⟨-, hid⟩ := (spanOf_eq_some hnd).1 hspan
    subst h
    refine ⟨rfl, hid, rfl, fun item' hitem' hx => ?_, fun hn => by cases hn⟩
    have hsame := (spanOf_eq_some hnd).2 ⟨hitem', hx.symm⟩
    rw [hspan, some_inj] at hsame
    rw [hsame]
  | none =>
    rw [hspan] at h
    obtain ⟨child, hchild, rfl⟩ := map_eq_some_iff.1 h
    obtain ⟨c, hc, hchild⟩ := bind_eq_some_iff.1 hchild
    obtain ⟨hin, rfl⟩ := (spanOf_eq_some hnd).1 hchild
    have hparent := (mem_childrenIn hnd hids).1 (mem_of_mem_head? hc)
    obtain ⟨item, hitem, hid, hp, -⟩ := (parentOf_eq_some hnd).1 hparent
    have hsame : item = child := inj_on_of_nodup_map hnd hitem hin hid
    exact ⟨rfl, rfl, rfl, fun item' hitem' hx => absurd (List.mem_map_of_mem hitem') (hx ▸ spanOf_eq_none.1 hspan),
      fun _ => ⟨child, hin, hsame ▸ hp, rfl⟩⟩

end

/-! ## The trees of a run -/

section
variable {spans : List StorableSpan} (hnd : (spans.map (·.spanID)).Nodup) (run : Run spans)
include hnd

theorem nodeOf_linked (x : String) : nodeOf (linked spans run.order).spanIDToSpanNodeMap x =
    (nodeAfter spans (spansIn spans run.order) x).map fun n => (n.span, n.children) := by
  rw [nodeOf, (linked_spec hnd run.order).nodes]

theorem look_of_linked (x : String) (a : WaterfallSpan) (ks : List String)
    (h : nodeOf (linked spans run.order).spanIDToSpanNodeMap x = some (a, ks)) :
    a.spanID = x ∧ ks.Perm (childrenIn spans (spansIn spans run.order) x) := by
  rw [nodeOf_linked hnd] at h
  obtain ⟨n, hn, h⟩ := map_eq_some_iff.1 h
  obtain ⟨rfl, rfl⟩ := Prod.mk.injEq .. ▸ h
  obtain ⟨hkids, hid, -⟩ := nodeAfter_eq_some hnd run.visited hn
  exact ⟨hid, hkids ▸ List.Perm.refl _⟩

/-- **The recursions end**: under every root a tree is read, with fuel for two nodes a span. -/
theorem trees_of_run : ∃ trees, List.Forall₂
    (fun r t => ∀ fuel, 2 * spans.length ≤ fuel → grow (nodeOf (linked spans run.order).spanIDToSpanNodeMap) fuel r = some t)
    (rootsAfter spans (spansIn spans run.order)) trees := by
  have hlook : ∀ x ∈ spans.map (·.spanID) ++ missingParents spans, nodeOf (linked spans run.order).spanIDToSpanNodeMap x ≠ none :=
    fun x hx => by
      rw [nodeOf_linked hnd, ne_eq, map_eq_none_iff]
      exact nodeAfter_isSome hnd run.visited hx
  have hkids : ∀ x ∈ spans.map (·.spanID) ++ missingParents spans, ∀ a ks,
      nodeOf (linked spans run.order).spanIDToSpanNodeMap x = some (a, ks) → ∀ k ∈ ks,
        k ∈ spans.map (·.spanID) ++ missingParents spans ∧ parentOf spans k = some x := fun x _ a ks h k hk => by
    rw [nodeOf_linked hnd] at h
    obtain ⟨n, hn, h⟩ := map_eq_some_iff.1 h
    obtain ⟨rfl, rfl⟩ := Prod.mk.injEq .. ▸ h
    rw [(nodeAfter_eq_some hnd run.visited hn).1, mem_childrenIn hnd run.visited] at hk
    exact ⟨mem_append_left _ (mem_of_parentOf hnd hk), hk⟩
  have hroot : ∀ r ∈ rootsAfter spans (spansIn spans run.order), ∃ t, ∀ fuel, 2 * spans.length ≤ fuel →
      grow (nodeOf (linked spans run.order).spanIDToSpanNodeMap) fuel r = some t := fun r hr => by
    obtain ⟨hin, hp⟩ := (mem_roots hnd run.visited).1 hr
    obtain ⟨t, ht⟩ := grow_isSome hlook hkids (fun y _ p hy => parent_mem hnd hy) (2 * spans.length) hin (At.root hp) length_nodes
    exact ⟨t, fun fuel hfuel => grow_of_le hfuel ht⟩
  generalize rootsAfter spans (spansIn spans run.order) = roots at hroot ⊢
  induction roots with
  | nil => exact ⟨[], List.Forall₂.nil⟩
  | cons r roots ih =>
    obtain ⟨t, ht⟩ := hroot r mem_cons_self
    obtain ⟨trees, htrees⟩ := ih fun r' hr' => hroot r' (mem_cons_of_mem _ hr')
    exact ⟨t :: trees, List.Forall₂.cons ht htrees⟩

/-- **The trace of a run**: its roots are the trees, sorted and counted, in some order. -/
theorem trace_of_run : ∃ wt trees, (∀ fuel, 2 * spans.length ≤ fuel → newWaterfallTraceFromSpans fuel spans run = some wt) ∧
    List.Forall₂ (fun r t => grow (nodeOf (linked spans run.order).spanIDToSpanNodeMap) (2 * spans.length) r = some t)
      (rootsAfter spans (spansIn spans run.order)) trees ∧
    wt.spanIDToSpanNodeMap = (linked spans run.order).spanIDToSpanNodeMap ∧
    wt.traceRoots = run.roots.sort (fun t => t.value.key) (trees.map fun t => getSubtreeNodeCount (sortChildren run.children t)) := by
  obtain ⟨trees, htrees⟩ := trees_of_run hnd run
  have hread : ∀ fuel, 2 * spans.length ≤ fuel →
      (linked spans run.order).traceRoots.mapM (grow (nodeOf (linked spans run.order).spanIDToSpanNodeMap) fuel) = some trees :=
    fun fuel hfuel => by
      rw [(linked_spec hnd run.order).roots]
      exact MapM.mapM_eq_some.2 (htrees.imp fun r t h => h fuel hfuel)
  obtain ⟨wt, hwt, hmap, hroots⟩ : ∃ wt, newWaterfallTraceFromSpans (2 * spans.length) spans run = some wt ∧
      wt.spanIDToSpanNodeMap = (linked spans run.order).spanIDToSpanNodeMap ∧
      wt.traceRoots = run.roots.sort (fun t => t.value.key) (trees.map fun t => getSubtreeNodeCount (sortChildren run.children t)) := by
    refine ⟨_, by rw [newWaterfallTraceFromSpans, hread _ (Nat.le_refl _), map_some], ?_, ?_⟩ <;> rfl
  refine ⟨wt, trees, fun fuel hfuel => ?_, htrees.imp fun r t h => h _ (Nat.le_refl _), hmap, hroots⟩
  rw [← hwt, newWaterfallTraceFromSpans, newWaterfallTraceFromSpans, hread _ hfuel, hread _ (Nat.le_refl _)]

structure Grown (spans : List StorableSpan) (ids : List String) (level : Nat) (t : Rose WaterfallSpan) : Prop where
  counted : ∃ t', t = getSubtreeNodeCount t'
  built : Built (childrenIn spans ids) (t.map (·.spanID))
  level : At (parentOf spans) t.value.spanID level
  nodes : ∀ ws ∈ t.values, ∃ n, nodeAfter spans ids ws.spanID = some n ∧ ws.bare = n.span

theorem grown_child {ids : List String} (hids : ids.Perm (spans.map (·.spanID))) (level : Nat) (ws : WaterfallSpan)
    (cs : List (Rose WaterfallSpan)) (h : Grown spans ids level (.node ws cs)) : ∀ c ∈ cs, Grown spans ids (level + 1) c := by
  intro c hc
  obtain ⟨⟨t', ht'⟩, hbuilt, hlevel, hnodes⟩ := h
  rw [map_node] at hbuilt
  cases hbuilt with
  | node hroots hcs =>
    refine ⟨?_, hcs _ (List.mem_map_of_mem hc), At.child ?_ hlevel, fun a ha => hnodes a ?_⟩
    · obtain ⟨ws', cs'⟩ := t'
      rw [getSubtreeNodeCount_node, Rose.node.injEq] at ht'
      rw [ht'.2] at hc
      obtain ⟨c', -, rfl⟩ := List.mem_map.1 hc
      exact ⟨c', rfl⟩
    · rw [← mem_childrenIn hnd hids]
      refine hroots.mem_iff.1 (List.mem_map.2 ⟨_, List.mem_map_of_mem hc, ?_⟩)
      rw [value_map]
    · rw [values_node]
      exact mem_cons_of_mem _ (mem_flatMap.2 ⟨c, hc, ha⟩)

theorem grown_of_run {wt : WaterfallTrace} {trees : List (Rose WaterfallSpan)}
    (htrees : List.Forall₂ (fun r t => grow (nodeOf (linked spans run.order).spanIDToSpanNodeMap) (2 * spans.length) r = some t)
      (rootsAfter spans (spansIn spans run.order)) trees)
    (hroots : wt.traceRoots =
      run.roots.sort (fun t => t.value.key) (trees.map fun t => getSubtreeNodeCount (sortChildren run.children t))) :
    (∀ t ∈ wt.traceRoots, Grown spans (spansIn spans run.order) 0 t) ∧
      (wt.traceRoots.map (fun t => t.value.spanID)).Perm (rootsAfter spans (spansIn spans run.order)) := by
  have hperm := run.roots.perm (fun t => t.value.key) (trees.map fun t => getSubtreeNodeCount (sortChildren run.children t))
  rw [← hroots] at hperm
  have hid : ∀ t : Rose WaterfallSpan, (getSubtreeNodeCount (sortChildren run.children t)).value.spanID = t.value.spanID := fun t => by
    rw [value_getSubtreeNodeCount (f := fun ws => ws.spanID) fun _ _ => rfl, value_sortChildren]
  constructor
  · intro t ht
    obtain ⟨t₀, ht₀, rfl⟩ := List.mem_map.1 (hperm.mem_iff.1 ht)
    obtain ⟨r, hr, hgrow⟩ := forall₂_right htrees t₀ ht₀
    obtain ⟨⟨hkey, hbuilt⟩, hvalues⟩ := built_of_grow (look_of_linked hnd run) _ hgrow
    refine ⟨⟨_, rfl⟩, ?_, ?_, fun ws hws => ?_⟩
    · rw [map_getSubtreeNodeCount (f := fun ws => ws.spanID) fun _ _ => rfl]
      exact built_sortChildren _ hbuilt
    · rw [hid, hkey]
      exact At.root ((mem_roots hnd run.visited).1 hr).2
    · -- the node as it was linked
      have hbare : ws.bare ∈ ((sortChildren run.children t₀).values).map WaterfallSpan.bare := by
        rw [← values_getSubtreeNodeCount (f := WaterfallSpan.bare) fun _ _ => rfl]
        exact List.mem_map_of_mem hws
      obtain ⟨a, ha, heq⟩ := List.mem_map.1 hbare
      obtain ⟨ks, hks⟩ := hvalues a ((values_sortChildren run.children t₀).mem_iff.1 ha)
      rw [nodeOf_linked hnd] at hks
      obtain ⟨n, hn, hks⟩ := map_eq_some_iff.1 hks
      obtain ⟨rfl, rfl⟩ := Prod.mk.injEq .. ▸ hks
      have hsame : n.span.bare.spanID = ws.bare.spanID := by rw [heq]
      rw [spanID_bare, spanID_bare] at hsame
      exact ⟨n, hsame ▸ hn, heq.symm.trans (nodeAfter_eq_some hnd run.visited hn).2.2.1⟩
  · have hvals : trees.map (fun t => t.value.spanID) = rootsAfter spans (spansIn spans run.order) :=
      map_eq_of_forall₂ (htrees.imp fun r t h => (built_of_grow (look_of_linked hnd run) _ h).1.1)
    refine (hperm.map _).trans ?_
    rw [List.map_map, show (fun t => t.value.spanID) ∘ (fun t => getSubtreeNodeCount (sortChildren run.children t)) =
      fun t : Rose WaterfallSpan => t.value.spanID from funext hid, hvals]

/-! ## What is shown -/

omit hnd in
theorem map_getAllSpans {β : Type} (wt : WaterfallTrace) {f : WaterfallSpan → β}
    (hf : ∀ ws level b, f { ws with level := level, hasChildren := b } = f ws) :
    wt.getAllSpans.map f = (wt.traceRoots.map (Rose.map f)).flatMap values := by
  rw [WaterfallTrace.getAllSpans, map_flatMap, flatMap_map]
  exact flatMap_congr fun t _ => by rw [map_getPreOrderedSpans ∅ hf t 0, values_map]

theorem head_of_grown {ids : List String} (hids : ids.Perm (spans.map (·.spanID))) {level : Nat} {t : Rose WaterfallSpan}
    (h : Grown spans ids level t) {s : WaterfallSpan} {rest : List WaterfallSpan} (hs : s :: rest = getPreOrderedSpans ∅ true level t) :
    At (parentOf spans) s.spanID s.level ∧ s.subTreeNodeCount = (s :: rest).length ∧
      ∀ x, x ∈ (s :: rest).map (·.spanID) ↔ Below (parentOf spans) s.spanID x := by
  have hlen : (s :: rest).length = t.values.length := by
    rw [hs, ← List.length_map (fun ws => ws.spanID), map_getPreOrderedSpans ∅ (fun _ _ _ => rfl), List.length_map]
  have hvalues : (s :: rest).map (fun ws => ws.spanID) = (t.map fun ws => ws.spanID).values := by
    rw [hs, map_getPreOrderedSpans ∅ (fun _ _ _ => rfl), values_map]
  have hcount : t.value.subTreeNodeCount = t.values.length := by
    obtain ⟨t', rfl⟩ := h.counted
    rw [subTreeNodeCount_eq, ← List.length_map (fun ws => ws.spanID), ← values_getSubtreeNodeCount (fun _ _ => rfl), List.length_map]
  have hroot : s.spanID = t.value.spanID ∧ s.level = level ∧ s.subTreeNodeCount = t.value.subTreeNodeCount := by
    obtain ⟨ws, cs⟩ := t
    rw [getPreOrderedSpans_all, List.cons.injEq] at hs
    rw [hs.1]
    exact ⟨rfl, rfl, rfl⟩
  refine ⟨?_, by rw [hroot.2.2, hcount, hlen], fun x => ?_⟩
  · rw [hroot.1, hroot.2.1]
    exact h.level
  · rw [hvalues, mem_values (fun p y => mem_childrenIn hnd hids) h.built, value_map, hroot.1]

section
variable {wt : WaterfallTrace} {ids : List String} (hids : ids.Perm (spans.map (·.spanID)))
  (hgrown : ∀ t ∈ wt.traceRoots, Grown spans ids 0 t)
  (hroots : (wt.traceRoots.map (fun t => t.value.spanID)).Perm (rootsAfter spans ids))
include hids hgrown

theorem block_of_shown {before : List WaterfallSpan} {s : WaterfallSpan} {after : List WaterfallSpan}
    (h : wt.getAllSpans = before ++ s :: after) : ∃ rest back, after = rest ++ back ∧ At (parentOf spans) s.spanID s.level ∧
      s.subTreeNodeCount = (s :: rest).length ∧ ∀ x, x ∈ (s :: rest).map (·.spanID) ↔ Below (parentOf spans) s.spanID x := by
  obtain ⟨t, ht, front, post, back, heq, rfl⟩ := part_of_flatMap h
  obtain ⟨level, sub, rest, back', hsub, hs, rfl⟩ := block_of_mem ∅ (P := Grown spans ids) (grown_child hnd hids) t (hgrown t ht) heq
  exact ⟨rest, back' ++ back, List.append_assoc _ _ _, head_of_grown hnd hids hsub hs⟩

theorem level_of_shown {s : WaterfallSpan} (h : s ∈ wt.getAllSpans) : At (parentOf spans) s.spanID s.level := by
  obtain ⟨before, after, heq⟩ := append_of_mem h
  obtain ⟨-, -, -, hlevel, -⟩ := block_of_shown hnd hids hgrown heq
  exact hlevel

omit hnd hids in
theorem node_of_shown {s : WaterfallSpan} (h : s ∈ wt.getAllSpans) : ∃ n, nodeAfter spans ids s.spanID = some n ∧ s.bare = n.span := by
  have hbare : s.bare ∈ (wt.traceRoots.map (Rose.map WaterfallSpan.bare)).flatMap values := by
    rw [← map_getAllSpans wt (fun _ _ _ => rfl)]
    exact List.mem_map_of_mem h
  rw [flatMap_map] at hbare
  obtain ⟨t, ht, hin⟩ := mem_flatMap.1 hbare
  rw [values_map] at hin
  obtain ⟨ws, hws, heq⟩ := List.mem_map.1 hin
  obtain ⟨n, hn, hspan⟩ := (hgrown t ht).nodes ws hws
  have hid : ws.bare.spanID = s.bare.spanID := by rw [heq]
  rw [spanID_bare, spanID_bare] at hid
  exact ⟨n, hid ▸ hn, heq ▸ hspan⟩

include hroots

/-- **No span is shown twice.** -/
theorem nodup_shown : (wt.getAllSpans.map (·.spanID)).Nodup := by
  have hkids : ∀ p x, x ∈ childrenIn spans ids p ↔ parentOf spans x = some p := fun p x => mem_childrenIn hnd hids
  rw [map_getAllSpans wt (fun _ _ _ => rfl)]
  have hat : ∀ t ∈ wt.traceRoots.map (Rose.map fun ws => ws.spanID), At (parentOf spans) t.value 0 := fun t ht => by
    obtain ⟨t', ht', rfl⟩ := List.mem_map.1 ht
    rw [value_map]
    exact (hgrown t' ht').level
  have hbuilt : ∀ t ∈ wt.traceRoots.map (Rose.map fun ws => ws.spanID), Built (childrenIn spans ids) t := fun t ht => by
    obtain ⟨t', ht', rfl⟩ := List.mem_map.1 ht
    exact (hgrown t' ht').built
  refine nodup_forest hkids hbuilt hat ?_ fun t ht => nodup_values hkids (nodup_childrenIn hnd hids) (hbuilt t ht) (hat t ht)
  rw [List.map_map, show (value ∘ Rose.map fun ws : WaterfallSpan => ws.spanID) = fun t => t.value.spanID from
    funext fun t => value_map _ t]
  exact hroots.nodup_iff.2 (nodup_rootsAfter spans ids)

/-- **What is shown is what hangs under a root**: the nodes whose chain of parents ends. -/
theorem mem_shown (x : String) : x ∈ wt.getAllSpans.map (·.spanID) ↔
    x ∈ spans.map (·.spanID) ++ missingParents spans ∧ ∃ d, At (parentOf spans) x d := by
  have hmem : x ∈ wt.getAllSpans.map (·.spanID) ↔ ∃ r ∈ rootsAfter spans ids, Below (parentOf spans) r x := by
    rw [map_getAllSpans wt (fun _ _ _ => rfl), flatMap_map, mem_flatMap]
    constructor
    · rintro ⟨t, ht, hx⟩
      rw [mem_values (fun p y => mem_childrenIn hnd hids) (hgrown t ht).built, value_map] at hx
      exact ⟨_, hroots.mem_iff.1 (List.mem_map_of_mem ht), hx⟩
    · rintro ⟨r, hr, hx⟩
      obtain ⟨t, ht, rfl⟩ := List.mem_map.1 (hroots.mem_iff.2 hr)
      refine ⟨t, ht, ?_⟩
      rw [mem_values (fun p y => mem_childrenIn hnd hids) (hgrown t ht).built, value_map]
      exact hx
  rw [hmem]
  clear hmem
  constructor
  · rintro ⟨r, hr, hx⟩
    obtain ⟨hin, hp⟩ := (mem_roots hnd hids).1 hr
    refine ⟨?_, (At.root hp).under hx |>.elim fun k hk => ⟨_, hk⟩⟩
    rcases Relation.ReflTransGen.cases_tail hx with rfl | ⟨p, -, hp'⟩
    · exact hin
    · exact mem_append_left _ (mem_of_parentOf hnd hp')
  · rintro ⟨hin, d, hd⟩
    -- up the chain to its root
    induction hd with
    | root hp => exact ⟨_, (mem_roots hnd hids).2 ⟨hin, hp⟩, Relation.ReflTransGen.refl⟩
    | child hp _ ih =>
      obtain ⟨r, hr, hb⟩ := ih (parent_mem hnd hp)
      exact ⟨r, hr, hb.tail hp⟩

end

/-! ## The whole trace -/

theorem complete_of_grown {wt : WaterfallTrace} {ids : List String} (hids : ids.Perm (spans.map (·.spanID)))
    (hgrown : ∀ t ∈ wt.traceRoots, Grown spans ids 0 t)
    (hroots : (wt.traceRoots.map (fun t => t.value.spanID)).Perm (rootsAfter spans ids))
    (hends : ∀ item ∈ spans, ∃ d, At (parentOf spans) item.spanID d) : Complete spans wt.getAllSpans where
  once := by
    refine (perm_ext_iff_of_nodup (nodup_shown hnd hids hgrown hroots) (nodup_nodes hnd)).2 fun x => ?_
    rw [mem_shown hnd hids hgrown hroots]
    refine ⟨fun h => h.1, fun hx => ⟨hx, ?_⟩⟩
    rcases mem_append.1 hx with hin | hin
    · obtain ⟨item, hitem, rfl⟩ := List.mem_map.1 hin
      exact hends item hitem
    · have hnone := ((mem_missingParents hnd).1 hin).2
      exact ⟨0, At.root (by rw [parentOf, hnone, bind_none])⟩
  span := fun item hitem s hs hid => by
    obtain ⟨n, hn, hbare⟩ := node_of_shown hgrown hs
    rw [hbare]
    exact (nodeAfter_eq_some hnd hids hn).2.2.2.1 item hitem hid
  placeholder := fun s hs hmissing => by
    obtain ⟨n, hn, hbare⟩ := node_of_shown hgrown hs
    rw [hbare]
    exact (nodeAfter_eq_some hnd hids hn).2.2.2.2 ((mem_missingParents hnd).1 hmissing).2
  block := fun before s after heq => by
    obtain ⟨rest, back, hafter, hlevel, hcount, hbelow⟩ := block_of_shown hnd hids hgrown heq
    refine ⟨rest, back, hafter, hbelow, hcount, fun c hc hparent => ⟨?_, ?_⟩⟩
    · have hin := (hbelow c.spanID).2 (Relation.ReflTransGen.single hparent)
      obtain ⟨c', hc', hid⟩ := List.mem_map.1 hin
      have hshown : c' ∈ wt.getAllSpans := by
        rw [heq, hafter, ← cons_append]
        exact mem_append_right _ (mem_append_left _ hc')
      have hsame : c' = c := inj_on_of_nodup_map (nodup_shown hnd hids hgrown hroots) hshown hc hid
      rcases mem_cons.1 (hsame ▸ hc') with rfl | hrest
      · -- a shown span is not its own parent
        have := (At.child hparent hlevel).unique hlevel
        omega
      · exact hrest
    · exact (level_of_shown hnd hids hgrown hc).unique (At.child hparent hlevel)

end

/-! ## A run over one span -/

theorem key_le_trans {α : Type} (key : α → Key) (a b c : α) (hab : decide (key a ≤ key b) = true) (hbc : decide (key b ≤ key c) = true) :
    decide (key a ≤ key c) = true := by
  rw [decide_eq_true_eq] at hab hbc ⊢
  exact le_trans hab hbc

theorem key_le_total {α : Type} (key : α → Key) (a b : α) : (decide (key a ≤ key b) || decide (key b ≤ key a)) = true := by
  rw [Bool.or_eq_true, decide_eq_true_eq, decide_eq_true_eq]
  exact le_total _ _

def stable : SortSlice where
  sort := fun key l => l.mergeSort (fun a b => decide (key a ≤ key b))
  perm := fun _ l => List.mergeSort_perm l _
  sorted := fun key l => (List.pairwise_mergeSort (key_le_trans key) (key_le_total key) l).imp fun h => of_decide_eq_true h

def inOrder (spans : List StorableSpan) : Run spans where
  order := spans.map (·.spanID)
  visits := by
    rw [List.filter_eq_self.2 fun x hx => decide_eq_true hx]
  children := stable
  roots := stable

def ownParent : StorableSpan where
  startTime := 1
  durationNano := 1
  spanID := "a"
  traceID := "t"
  hasError := false
  serviceName := "s"
  name := "n"
  parentSpanID := "a"

def alone : StorableSpan := { ownParent with parentSpanID := "" }

end Waterfall
end DsApm
