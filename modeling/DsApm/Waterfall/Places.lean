import DsApm.Waterfall.Trees
/-!
# Places — what a page depends on

Which spans a page shows, and at which levels, is a matter of the ids alone: of the trees of ids under the roots, and of
which ids the map has as whose children, in whatever order (`getSelectedSpans_places`).
-/
namespace DsApm
namespace Waterfall

open Rose List

def WaterfallSpan.place (ws : WaterfallSpan) : String × Nat := (ws.spanID, ws.level)

abbrev idTree (t : Rose WaterfallSpan) : Rose String := t.map (·.spanID)

def childrenOf (nodes : GoMap String SpanNode) (spanID : String) : List String := ((nodes.lookup spanID).map (·.children)).getD []

theorem idTree_node (ws : WaterfallSpan) (cs : List (Rose WaterfallSpan)) :
    idTree (.node ws cs) = .node ws.spanID (cs.map idTree) := map_node _ ws cs

/-! ## Lists that are alike under a map -/

theorem map_congr₂ {α β γ : Type} {f : α → γ} {g : α → β} : ∀ {l l' : List α}, (∀ a ∈ l, ∀ b, f a = f b → g a = g b) →
    l.map f = l'.map f → l.map g = l'.map g
  | [], [], _, _ => rfl
  | [], _ :: _, _, h => by simp at h
  | _ :: _, [], _, h => by simp at h
  | a :: l, b :: l', hg, h => by
    rw [map_cons, map_cons, List.cons.injEq] at h ⊢
    exact ⟨hg a mem_cons_self b h.1, map_congr₂ (fun c hc => hg c (mem_cons_of_mem _ hc)) h.2⟩

theorem flatMap_congr₂ {α β γ : Type} {f : α → γ} {g : α → List β} {l l' : List α} (hg : ∀ a ∈ l, ∀ b, f a = f b → g a = g b)
    (h : l.map f = l'.map f) : l.flatMap g = l'.flatMap g := by
  rw [flatMap_def, flatMap_def, map_congr₂ hg h]

theorem findSome?_congr₂ {α β γ : Type} {f : α → γ} {g : α → Option β} : ∀ {l l' : List α}, (∀ a ∈ l, ∀ b, f a = f b → g a = g b) →
    l.map f = l'.map f → l.findSome? g = l'.findSome? g
  | [], [], _, _ => rfl
  | [], _ :: _, _, h => by simp at h
  | _ :: _, [], _, h => by simp at h
  | a :: l, b :: l', hg, h => by
    rw [map_cons, map_cons, List.cons.injEq] at h
    rw [List.findSome?_cons, List.findSome?_cons, hg a mem_cons_self b h.1,
      findSome?_congr₂ (fun c hc => hg c (mem_cons_of_mem _ hc)) h.2]

/-! ## The walks see ids -/

theorem getPreOrderedSpans_places (u : Finset String) (all : Bool) (t : Rose WaterfallSpan) : ∀ level t', idTree t = idTree t' →
    (getPreOrderedSpans u all level t).map WaterfallSpan.place = (getPreOrderedSpans u all level t').map WaterfallSpan.place := by
  induction t using ind with
  | h ws cs ih =>
    rintro level ⟨ws', cs'⟩ h
    rw [idTree_node, idTree_node, Rose.node.injEq] at h
    obtain ⟨hid, hcs⟩ := h
    rw [getPreOrderedSpans_node, getPreOrderedSpans_node, map_cons, map_cons, hid]
    have hroot : (getWithoutChildren ws cs level).place = (getWithoutChildren ws' cs' level).place := by
      simp [getWithoutChildren, WaterfallSpan.place, hid]
    have hrest : (cs.flatMap (getPreOrderedSpans u all (level + 1))).map WaterfallSpan.place =
        (cs'.flatMap (getPreOrderedSpans u all (level + 1))).map WaterfallSpan.place := by
      rw [map_flatMap, map_flatMap]
      exact flatMap_congr₂ (fun c hc c' hcc' => ih c hc (level + 1) c' hcc') hcs
    rw [hroot]
    split_ifs
    · rw [hrest]
    · rfl

theorem getPathFromRoot_eq (selectedSpanID : String) : ∀ cs,
    getPathFromRoot selectedSpanID cs = cs.findSome? (getPathToSelectedSpanID selectedSpanID)
  | [] => rfl
  | c :: cs => by
    rw [getPathFromRoot, List.findSome?_cons, getPathFromRoot_eq selectedSpanID cs]
    cases getPathToSelectedSpanID selectedSpanID c <;> rfl

theorem getPathToSelectedSpanID_node (selectedSpanID : String) (ws : WaterfallSpan) (cs : List (Rose WaterfallSpan)) :
    getPathToSelectedSpanID selectedSpanID (.node ws cs) = if ws.spanID = selectedSpanID then some [ws.spanID]
      else (cs.findSome? (getPathToSelectedSpanID selectedSpanID)).map (ws.spanID :: ·) := by
  rw [getPathToSelectedSpanID, getPathFromRoot_eq]

theorem getPathToSelectedSpanID_ids (selectedSpanID : String) (t : Rose WaterfallSpan) : ∀ t', idTree t = idTree t' →
    getPathToSelectedSpanID selectedSpanID t = getPathToSelectedSpanID selectedSpanID t' := by
  induction t using ind with
  | h ws cs ih =>
    rintro ⟨ws', cs'⟩ h
    rw [idTree_node, idTree_node, Rose.node.injEq] at h
    obtain ⟨hid, hcs⟩ := h
    rw [getPathToSelectedSpanID_node, getPathToSelectedSpanID_node, hid, findSome?_congr₂ ih hcs]

/-! ## Expanding -/

def Reaches (kids : String → List String) : Nat → String → String → Prop
  | 0, a, x => a = x
  | k + 1, a, x => ∃ c ∈ kids a, Reaches kids k c x

theorem reaches_congr {kids kids' : String → List String} (h : ∀ id, (kids id).Perm (kids' id)) : ∀ {k : Nat} {a x : String},
    Reaches kids k a x → Reaches kids' k a x
  | 0, _, _, hr => hr
  | _ + 1, _, _, hr => by
    obtain ⟨c, hc, hr⟩ := hr
    exact ⟨c, (h _).mem_iff.1 hc, reaches_congr h hr⟩

theorem mem_foldl_of {α β : Type} [DecidableEq β] {g : Finset β → α → Finset β} {P : α → β → Prop}
    (hg : ∀ u c x, x ∈ g u c ↔ x ∈ u ∨ P c x) (l : List α) (x : β) : ∀ u, x ∈ l.foldl g u ↔ x ∈ u ∨ ∃ c ∈ l, P c x := by
  induction l with
  | nil => simp
  | cons c l ih =>
    intro u
    rw [foldl_cons, ih, hg, or_assoc]
    simp

/-- **What is expanded**: the nodes with children, less than so many steps under the given one. -/
theorem mem_autoExpandDescendants (nodes : GoMap String SpanNode) (x : String) : ∀ depth spanID u,
    x ∈ autoExpandDescendants nodes depth spanID u ↔
      x ∈ u ∨ ∃ k < depth, Reaches (childrenOf nodes) k spanID x ∧ childrenOf nodes x ≠ []
  | 0, spanID, u => by simp [autoExpandDescendants]
  | depth + 1, spanID, u => by
    -- the node itself, or something under a child of it
    have hstep : (∃ k < depth + 1, Reaches (childrenOf nodes) k spanID x ∧ childrenOf nodes x ≠ []) ↔
        (x = spanID ∧ childrenOf nodes spanID ≠ []) ∨
          ∃ c ∈ childrenOf nodes spanID, ∃ k < depth, Reaches (childrenOf nodes) k c x ∧ childrenOf nodes x ≠ [] := by
      constructor
      · rintro ⟨k, hk, hr, hne⟩
        cases k with
        | zero =>
          rw [Reaches] at hr
          subst hr
          exact Or.inl ⟨rfl, hne⟩
        | succ k =>
          obtain ⟨c, hc, hr⟩ := hr
          exact Or.inr ⟨c, hc, k, by omega, hr, hne⟩
      · rintro (⟨rfl, hne⟩ | ⟨c, hc, k, hk, hr, hne⟩)
        · exact ⟨0, by omega, rfl, hne⟩
        · exact ⟨k + 1, by omega, ⟨c, hc, hr⟩, hne⟩
    rw [hstep, autoExpandDescendants]
    cases hlook : nodes.lookup spanID with
    | none => simp [childrenOf, hlook]
    | some node =>
      have hkids : childrenOf nodes spanID = node.children := by rw [childrenOf, hlook]; rfl
      rw [hkids]
      dsimp only
      split_ifs with hnil
      · simp [hnil]
      · rw [mem_foldl_of (P := fun c x => ∃ k < depth, Reaches (childrenOf nodes) k c x ∧ childrenOf nodes x ≠ [])
          (fun u c x => mem_autoExpandDescendants nodes x depth c u), Finset.mem_insert]
        simp only [hnil, ne_eq, not_false_eq_true, and_true]
        rw [← or_assoc, or_comm (a := x = spanID)]

theorem autoExpandDescendants_congr {nodes nodes' : GoMap String SpanNode}
    (h : ∀ id, (childrenOf nodes id).Perm (childrenOf nodes' id)) (depth : Nat) (spanID : String) (u : Finset String) :
    autoExpandDescendants nodes depth spanID u = autoExpandDescendants nodes' depth spanID u := by
  ext x
  have hne : childrenOf nodes x ≠ [] ↔ childrenOf nodes' x ≠ [] := by
    rw [ne_eq, ne_eq, ← List.length_eq_zero_iff, ← List.length_eq_zero_iff, (h x).length_eq]
  rw [mem_autoExpandDescendants, mem_autoExpandDescendants, hne]
  refine or_congr Iff.rfl (exists_congr fun k => and_congr Iff.rfl (and_congr ⟨fun hr => ?_, fun hr => ?_⟩ Iff.rfl))
  · exact reaches_congr h hr
  · exact reaches_congr (fun id => (h id).symm) hr

/-! ## The page -/

theorem getSpanIndex_places (selectedSpanID : String) (spans : List WaterfallSpan) : getSpanIndex spans selectedSpanID =
    (spans.map WaterfallSpan.place).findIdx? (fun place => place.1 == selectedSpanID) := by
  rw [getSpanIndex, List.findIdx?_map]
  rfl

theorem addRoot_places (selectedSpanID : String) : ∀ {roots roots' : List (List WaterfallSpan)}
    {acc acc' : List WaterfallSpan × Option Nat}, roots.map (List.map WaterfallSpan.place) = roots'.map (List.map WaterfallSpan.place) →
      acc.1.map WaterfallSpan.place = acc'.1.map WaterfallSpan.place → acc.2 = acc'.2 →
      (roots.foldl (addRoot selectedSpanID) acc).1.map WaterfallSpan.place =
          (roots'.foldl (addRoot selectedSpanID) acc').1.map WaterfallSpan.place ∧
        (roots.foldl (addRoot selectedSpanID) acc).2 = (roots'.foldl (addRoot selectedSpanID) acc').2
  | [], [], _, _, _, h₁, h₂ => ⟨h₁, h₂⟩
  | [], _ :: _, _, _, h, _, _ => by simp at h
  | _ :: _, [], _, _, h, _, _ => by simp at h
  | spans :: roots, spans' :: roots', acc, acc', h, h₁, h₂ => by
    rw [map_cons, map_cons, List.cons.injEq] at h
    have hlen : acc.1.length = acc'.1.length := by
      rw [← List.length_map WaterfallSpan.place, h₁, List.length_map]
    rw [foldl_cons, foldl_cons]
    refine addRoot_places selectedSpanID h.2 ?_ ?_
    · simp only [addRoot, map_append, h₁, h.1]
    · simp only [addRoot, getSpanIndex_places, h.1, hlen, h₂]

/-- **A page depends on the ids only.** -/
theorem getSelectedSpans_places {wt wt' : WaterfallTrace} (htrees : wt.traceRoots.map idTree = wt'.traceRoots.map idTree)
    (hkids : ∀ id, (childrenOf wt.spanIDToSpanNodeMap id).Perm (childrenOf wt'.spanIDToSpanNodeMap id))
    (uncollapsedSpanIDs : List String) (selectedSpanID : String) (page : PageSize) (depth : Nat) :
    (wt.getSelectedSpans uncollapsedSpanIDs selectedSpanID page depth).1.map WaterfallSpan.place =
        (wt'.getSelectedSpans uncollapsedSpanIDs selectedSpanID page depth).1.map WaterfallSpan.place ∧
      (wt.getSelectedSpans uncollapsedSpanIDs selectedSpanID page depth).2 =
        (wt'.getSelectedSpans uncollapsedSpanIDs selectedSpanID page depth).2 := by
  have hset : wt.calculateUncollapsedSpanIDs uncollapsedSpanIDs selectedSpanID depth =
      wt'.calculateUncollapsedSpanIDs uncollapsedSpanIDs selectedSpanID depth := by
    unfold WaterfallTrace.calculateUncollapsedSpanIDs
    rw [getPathFromRoot_eq, getPathFromRoot_eq,
      findSome?_congr₂ (fun t _ t' h => getPathToSelectedSpanID_ids selectedSpanID t t' h) htrees]
    simp only [autoExpandDescendants_congr hkids]
  have hroots : (wt.traceRoots.map (getPreOrderedSpans (wt'.calculateUncollapsedSpanIDs uncollapsedSpanIDs selectedSpanID depth) false 0)).map
      (List.map WaterfallSpan.place) = (wt'.traceRoots.map (getPreOrderedSpans
        (wt'.calculateUncollapsedSpanIDs uncollapsedSpanIDs selectedSpanID depth) false 0)).map (List.map WaterfallSpan.place) := by
    rw [List.map_map, List.map_map]
    exact map_congr₂ (fun t _ t' h => getPreOrderedSpans_places _ false t 0 t' h) htrees
  obtain ⟨hspans, hselected⟩ := addRoot_places selectedSpanID hroots
    (rfl : List.map WaterfallSpan.place (([], none) : List WaterfallSpan × Option Nat).1 = _) rfl
  have hlen := congrArg List.length hspans
  rw [List.length_map, List.length_map] at hlen
  refine ⟨?_, hset⟩
  simp only [WaterfallTrace.getSelectedSpans, hset, hselected, hlen, map_drop, map_take, hspans]

end Waterfall
end DsApm
