import DsApm.Waterfall.Trace
/-!
# Trees — what the walks over the trees do

Sorting and counting leave the nodes of a tree as they are (`values_sortChildren`, `values_getSubtreeNodeCount`), the count
of a node is the number of nodes under it with itself (`subTreeNodeCount_eq`).  Written out in full, a subtree is one block
of the output that begins with its root (`block_of_mem`).
-/
namespace DsApm
namespace Waterfall

open Rose List

theorem sortChildrenEach_eq (S : SortSlice) : ∀ cs, sortChildrenEach S cs = cs.map (sortChildren S)
  | [] => rfl
  | c :: cs => by rw [sortChildrenEach, sortChildrenEach_eq S cs, map_cons]

theorem sortChildren_node (S : SortSlice) (ws : WaterfallSpan) (cs : List (Rose WaterfallSpan)) :
    sortChildren S (.node ws cs) = .node ws (S.sort (fun c => c.value.key) (cs.map (sortChildren S))) := by
  rw [sortChildren, sortChildrenEach_eq]

theorem getSubtreeNodeCountEach_eq : ∀ cs, getSubtreeNodeCountEach cs = cs.map getSubtreeNodeCount
  | [] => rfl
  | c :: cs => by rw [getSubtreeNodeCountEach, getSubtreeNodeCountEach_eq cs, map_cons]

theorem getSubtreeNodeCount_node (ws : WaterfallSpan) (cs : List (Rose WaterfallSpan)) :
    getSubtreeNodeCount (.node ws cs) = .node { ws with subTreeNodeCount :=
      1 + ((cs.map getSubtreeNodeCount).map (fun c => c.value.subTreeNodeCount)).sum } (cs.map getSubtreeNodeCount) := by
  rw [getSubtreeNodeCount, getSubtreeNodeCountEach_eq]

theorem getPreOrderedSpansEach_eq (u : Finset String) (all : Bool) (level : Nat) : ∀ cs,
    getPreOrderedSpansEach u all level cs = cs.flatMap (getPreOrderedSpans u all level)
  | [] => rfl
  | c :: cs => by rw [getPreOrderedSpansEach, getPreOrderedSpansEach_eq u all level cs, flatMap_cons]

theorem getPreOrderedSpans_node (u : Finset String) (all : Bool) (level : Nat) (ws : WaterfallSpan) (cs : List (Rose WaterfallSpan)) :
    getPreOrderedSpans u all level (.node ws cs) = getWithoutChildren ws cs level ::
      if all || ws.spanID ∈ u then cs.flatMap (getPreOrderedSpans u all (level + 1)) else [] := by
  rw [getPreOrderedSpans, getPreOrderedSpansEach_eq]

/-! ## Sorting -/

@[simp] theorem value_sortChildren (S : SortSlice) : ∀ t, (sortChildren S t).value = t.value
  | .node ws cs => by rw [sortChildren_node]; rfl

theorem values_sortChildren (S : SortSlice) (t : Rose WaterfallSpan) : (sortChildren S t).values.Perm t.values := by
  induction t using ind with
  | h ws cs ih =>
    rw [sortChildren_node, values_node, values_node, perm_cons]
    have hsorted := (S.perm (fun c => c.value.key) (cs.map (sortChildren S))).flatMap_right values
    rw [flatMap_map] at hsorted
    exact hsorted.trans (List.Perm.flatMap_left cs ih)

theorem built_sortChildren (S : SortSlice) {kids : String → List String} {t : Rose WaterfallSpan}
    (h : Built kids (t.map (·.spanID))) : Built kids ((sortChildren S t).map (·.spanID)) := by
  induction t using ind with
  | h ws cs ih =>
    rw [map_node] at h
    cases h with
    | node hroots hcs =>
      rw [sortChildren_node, map_node]
      have hperm := S.perm (fun c => c.value.key) (cs.map (sortChildren S))
      refine Built.node ?_ fun c hc => ?_
      · have hsame : ((cs.map (sortChildren S)).map (Rose.map fun ws => ws.spanID)).map value =
            (cs.map (Rose.map fun ws => ws.spanID)).map value := by
          simp [Function.comp_def]
        exact (hsame ▸ (hperm.map (Rose.map fun ws : WaterfallSpan => ws.spanID)).map value).trans hroots
      · obtain ⟨c', hc', rfl⟩ := List.mem_map.1 hc
        obtain ⟨c, hcin, rfl⟩ := List.mem_map.1 (hperm.mem_iff.1 hc')
        exact ih c hcin (hcs _ (List.mem_map_of_mem hcin))

/-! ## Counting -/

theorem map_getSubtreeNodeCount {β : Type} {f : WaterfallSpan → β} (hf : ∀ ws n, f { ws with subTreeNodeCount := n } = f ws)
    (t : Rose WaterfallSpan) : (getSubtreeNodeCount t).map f = t.map f := by
  induction t using ind with
  | h ws cs ih =>
    rw [getSubtreeNodeCount_node, map_node, map_node, hf, List.map_map]
    exact congrArg _ (map_congr_left ih)

theorem values_getSubtreeNodeCount {β : Type} {f : WaterfallSpan → β} (hf : ∀ ws n, f { ws with subTreeNodeCount := n } = f ws)
    (t : Rose WaterfallSpan) : (getSubtreeNodeCount t).values.map f = t.values.map f := by
  rw [← values_map, map_getSubtreeNodeCount hf, values_map]

theorem value_getSubtreeNodeCount {β : Type} {f : WaterfallSpan → β} (hf : ∀ ws n, f { ws with subTreeNodeCount := n } = f ws)
    (t : Rose WaterfallSpan) : f (getSubtreeNodeCount t).value = f t.value := by
  rw [← value_map f, map_getSubtreeNodeCount hf, value_map]

/-- **The count of the root is the number of nodes.** -/
theorem subTreeNodeCount_eq (t : Rose WaterfallSpan) : (getSubtreeNodeCount t).value.subTreeNodeCount = t.values.length := by
  induction t using ind with
  | h ws cs ih =>
    rw [getSubtreeNodeCount_node, values_node, value_node, length_cons, length_flatMap, List.map_map]
    have hsum : cs.map ((fun c => c.value.subTreeNodeCount) ∘ getSubtreeNodeCount) = cs.map (fun c => c.values.length) :=
      map_congr_left ih
    dsimp only
    rw [hsum, Nat.add_comm]

/-! ## All the nodes of a tree, in order -/

section
variable (u : Finset String)

theorem getPreOrderedSpans_all (level : Nat) (ws : WaterfallSpan) (cs : List (Rose WaterfallSpan)) :
    getPreOrderedSpans u true level (.node ws cs) =
      getWithoutChildren ws cs level :: cs.flatMap (getPreOrderedSpans u true (level + 1)) := by
  rw [getPreOrderedSpans_node, Bool.true_or, if_pos rfl]

theorem map_getPreOrderedSpans {β : Type} {f : WaterfallSpan → β}
    (hf : ∀ ws level b, f { ws with level := level, hasChildren := b } = f ws) (t : Rose WaterfallSpan) :
    ∀ level, (getPreOrderedSpans u true level t).map f = t.values.map f := by
  induction t using ind with
  | h ws cs ih =>
    intro level
    rw [getPreOrderedSpans_all, values_node, map_cons, map_cons, getWithoutChildren, hf, map_flatMap, map_flatMap]
    exact congrArg _ (flatMap_congr fun c hc => ih c hc (level + 1))

theorem part_of_flatMap {α β : Type} {f : α → List β} : ∀ {ts : List α} {before : List β} {s : β} {after : List β},
    ts.flatMap f = before ++ s :: after → ∃ t ∈ ts, ∃ front rest back, f t = front ++ s :: rest ∧ after = rest ++ back
  | [], before, s, after, h => by
    rw [flatMap_nil] at h
    simp at h
  | t :: ts, before, s, after, h => by
    rw [flatMap_cons] at h
    rcases append_eq_append_iff.1 h with ⟨l, rfl, hl⟩ | ⟨l, hl, hafter⟩
    · obtain ⟨t', ht', front, rest, back, heq, rfl⟩ := part_of_flatMap hl
      exact ⟨t', mem_cons_of_mem _ ht', front, rest, back, heq, rfl⟩
    · cases l with
      | nil =>
        obtain ⟨t', ht', front, rest, back, heq, rfl⟩ := part_of_flatMap (hafter.symm.trans (nil_append _).symm)
        exact ⟨t', mem_cons_of_mem _ ht', front, rest, back, heq, rfl⟩
      | cons x l =>
        rw [cons_append, List.cons.injEq] at hafter
        obtain ⟨rfl, rfl⟩ := hafter
        exact ⟨t, mem_cons_self, before, l, _, hl, rfl⟩

/-- **A subtree is one block**: where a span stands, the rest of its subtree follows it.  Of the subtree and its level holds
what holds of the tree and goes over to the children. -/
theorem block_of_mem {P : Nat → Rose WaterfallSpan → Prop} (hP : ∀ level ws cs, P level (.node ws cs) → ∀ c ∈ cs, P (level + 1) c)
    (t : Rose WaterfallSpan) : ∀ {level : Nat} {before : List WaterfallSpan} {s : WaterfallSpan} {after : List WaterfallSpan},
      P level t → getPreOrderedSpans u true level t = before ++ s :: after →
      ∃ l sub rest back, P l sub ∧ s :: rest = getPreOrderedSpans u true l sub ∧ after = rest ++ back := by
  induction t using ind with
  | h ws cs ih =>
    intro level before s after h heq
    cases before with
    | nil => exact ⟨level, _, after, [], h, heq.symm, (append_nil _).symm⟩
    | cons x before =>
      rw [getPreOrderedSpans_all, cons_append, List.cons.injEq] at heq
      obtain ⟨c, hc, front, rest, back, hblock, rfl⟩ := part_of_flatMap heq.2
      obtain ⟨l, sub, rest', back', hsub, hs, rfl⟩ := ih c hc (hP level ws cs h c hc) hblock
      exact ⟨l, sub, rest', back' ++ back, hsub, hs, List.append_assoc _ _ _⟩

end

end Waterfall
end DsApm
