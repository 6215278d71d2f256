import DsApm.Lib.FloatValue
import DsApm.Waterfall.Places
/-!
# Window — the part of a trace that a page shows

A span is visible if all its ancestors are uncollapsed.  The page is a part of the visible spans, in pre-order, around the selected
one, which the page makes visible itself.  Its two shares are those of a float, and come to the page size but for rounding.
-/
namespace DsApm
namespace Waterfall

open Float64 List Option

/-! ## The shares of a page -/

/-- `int(x)`, for numbers that an `int` can hold. -/
def truncate (x : Float) : Int := x.toModel.unpack.toInt 0 0

/-- The shares that `windowAroundIndex` takes before the selected span and from it on. -/
def pageSize (spanLimitPerRequest : Float) : PageSize where
  before := truncate (spanLimitPerRequest * 0.4)
  after := truncate (spanLimitPerRequest * 0.6)

example : pageSize 500 = pageOf500 := rfl

theorem shares {p : Float} (hfinite : p.isFinite = true) (h : 5 ≤ p) : 0 ≤ (pageSize p).before ∧ 1 ≤ (pageSize p).after ∧
    |(((pageSize p).before + (pageSize p).after : Int) : ℚ) - value p.toModel.unpack| < 2 + value p.toModel.unpack / 2 ^ 51 := by
  obtain ⟨m, e, hm, hp, hlo, hhi, he, he', h5⟩ := five_le hfinite h
  have h04 : (0.4 : Float).toModel.unpack = .finite .positive 7205759403792794 (-54) (by decide) := rfl
  have h06 : (0.6 : Float).toModel.unpack = .finite .positive 5404319552844595 (-53) (by decide) := rfl
  obtain ⟨m₁, e₁, hm₁, hmul₁, herror₁⟩ := unpack_mul hp h04 hlo hhi (by decide) (by decide) (by omega) (by omega)
  obtain ⟨m₂, e₂, hm₂, hmul₂, herror₂⟩ := unpack_mul hp h06 hlo hhi (by decide) (by decide) (by omega) (by omega)
  have hbefore : (pageSize p).before = ⌊(m₁ : ℚ) * 2 ^ e₁⌋ := by
    change (p * 0.4).toModel.unpack.toInt 0 0 = _
    rw [hmul₁, toInt_finite]
  have hafter : (pageSize p).after = ⌊(m₂ : ℚ) * 2 ^ e₂⌋ := by
    change (p * 0.6).toModel.unpack.toInt 0 0 = _
    rw [hmul₂, toInt_finite]
  have hvalue : value p.toModel.unpack = m * 2 ^ e := by
    rw [hp]
    rfl
  have hloq : (2 : ℚ) ^ 52 ≤ m := by exact_mod_cast hlo
  have hpow : (0 : ℚ) < 2 ^ e := zpow_pos two_pos e
  have hunit : 2 ^ 52 * (2 : ℚ) ^ e ≤ m * 2 ^ e := mul_le_mul_of_nonneg_right hloq hpow.le
  have hplace₁ : (2 : ℚ) ^ (e + -54 + 53) = 2 ^ e / 2 := by
    rw [add_assoc, zpow_add₀ two_ne_zero]
    norm_num
    ring
  have hplace₂ : (2 : ℚ) ^ (e + -53 + 53) = 2 ^ e := by
    rw [add_assoc]
    norm_num
  rw [hplace₁, abs_le] at herror₁
  rw [hplace₂, abs_le] at herror₂
  have hfloor₁ := Int.floor_le ((m₁ : ℚ) * 2 ^ e₁)
  have hfloor₁' := Int.lt_floor_add_one ((m₁ : ℚ) * 2 ^ e₁)
  have hfloor₂ := Int.floor_le ((m₂ : ℚ) * 2 ^ e₂)
  have hfloor₂' := Int.lt_floor_add_one ((m₂ : ℚ) * 2 ^ e₂)
  rw [hbefore, hafter, hvalue]
  refine ⟨Int.floor_nonneg.2 (mul_nonneg (Nat.cast_nonneg m₁) (zpow_nonneg two_pos.le e₁)), Int.le_floor.2 ?_, ?_⟩
  · norm_num at herror₂ ⊢
    linarith [herror₂.1]
  · norm_num at herror₁ herror₂ hunit ⊢
    rw [abs_lt]
    constructor <;> linarith [herror₁.1, herror₁.2, herror₂.1, herror₂.2]

/-! ## The window -/

theorem windowAroundIndex_spec {selectedIndex total : Int} {page : PageSize} (hnonneg : 0 ≤ selectedIndex) (hlt : selectedIndex < total)
    (hbefore : 0 ≤ page.before) (hafter : 1 ≤ page.after) :
    0 ≤ (windowAroundIndex selectedIndex total page).1 ∧ (windowAroundIndex selectedIndex total page).1 ≤ selectedIndex ∧
      selectedIndex < (windowAroundIndex selectedIndex total page).2 ∧ (windowAroundIndex selectedIndex total page).2 ≤ total ∧
      (windowAroundIndex selectedIndex total page).2 - (windowAroundIndex selectedIndex total page).1 =
        min total (page.before + page.after) := by
  unfold windowAroundIndex
  rw [max_eq_left hnonneg]
  dsimp only
  split_ifs <;> dsimp only at * <;> omega

/-! ## The visible spans -/

mutual
/-- The spans of a tree in pre-order as a page shows them, each with the ids of its ancestors. -/
def withAncestors : List String → Rose WaterfallSpan → List (List String × WaterfallSpan)
  | ancestors, .node ws children =>
    (ancestors, getWithoutChildren ws children ancestors.length) :: withAncestorsEach (ws.spanID :: ancestors) children

def withAncestorsEach : List String → List (Rose WaterfallSpan) → List (List String × WaterfallSpan)
  | _, [] => []
  | ancestors, c :: cs => withAncestors ancestors c ++ withAncestorsEach ancestors cs
end

def visible (uncollapsed : Finset String) (l : List (List String × WaterfallSpan)) : List WaterfallSpan :=
  (l.filter (fun e => e.1.all (fun id => decide (id ∈ uncollapsed)))).map Prod.snd

section
variable (u : Finset String)

theorem visible_append (l l' : List (List String × WaterfallSpan)) : visible u (l ++ l') = visible u l ++ visible u l' := by
  simp [visible]

theorem visible_cons (ancestors : List String) (ws : WaterfallSpan) (l : List (List String × WaterfallSpan)) :
    visible u ((ancestors, ws) :: l) = (if ∀ id ∈ ancestors, id ∈ u then [ws] else []) ++ visible u l := by
  unfold visible
  rw [filter_cons]
  split_ifs <;> simp_all

mutual
theorem visible_hidden : ∀ (t : Rose WaterfallSpan) {ancestors : List String}, (¬∀ id ∈ ancestors, id ∈ u) →
    visible u (withAncestors ancestors t) = []
  | .node ws children, ancestors, h => by
    rw [withAncestors, visible_cons, if_neg h, visible_hiddenEach children fun hall => h fun id hid => hall id (mem_cons_of_mem _ hid)]
    rfl

theorem visible_hiddenEach : ∀ (ts : List (Rose WaterfallSpan)) {ancestors : List String}, (¬∀ id ∈ ancestors, id ∈ u) →
    visible u (withAncestorsEach ancestors ts) = []
  | [], _, _ => rfl
  | t :: ts, _, h => by
    rw [withAncestorsEach, visible_append, visible_hidden t h, visible_hiddenEach ts h]
    rfl
end

mutual
theorem visible_withAncestors : ∀ (t : Rose WaterfallSpan) {ancestors : List String}, (∀ id ∈ ancestors, id ∈ u) →
    visible u (withAncestors ancestors t) = getPreOrderedSpans u false ancestors.length t
  | .node ws children, ancestors, h => by
    rw [withAncestors, visible_cons, if_pos h, getPreOrderedSpans, Bool.false_or, singleton_append]
    split
    · rename_i hin
      have hall : ∀ id ∈ ws.spanID :: ancestors, id ∈ u := forall_mem_cons.2 ⟨of_decide_eq_true hin, h⟩
      rw [visible_withAncestorsEach children hall, length_cons]
    · rename_i hout
      rw [visible_hiddenEach u children fun hall => hout (decide_eq_true (hall _ mem_cons_self))]

theorem visible_withAncestorsEach : ∀ (ts : List (Rose WaterfallSpan)) {ancestors : List String}, (∀ id ∈ ancestors, id ∈ u) →
    visible u (withAncestorsEach ancestors ts) = getPreOrderedSpansEach u false ancestors.length ts
  | [], _, _ => rfl
  | t :: ts, _, h => by
    rw [withAncestorsEach, visible_append, visible_withAncestors t h, visible_withAncestorsEach ts h, getPreOrderedSpansEach]
end

end

def visibleSpans (u : Finset String) (roots : List (Rose WaterfallSpan)) : List WaterfallSpan :=
  visible u (withAncestorsEach [] roots)

/-! ## The way to the selected span -/

mutual
theorem selected_visible (u : Finset String) (selectedSpanID : String) : ∀ (t : Rose WaterfallSpan) (level : Nat) {path : List String},
    getPathToSelectedSpanID selectedSpanID t = some path → (∀ id ∈ path, id ≠ selectedSpanID → id ∈ u) →
    selectedSpanID ∈ (getPreOrderedSpans u false level t).map (·.spanID)
  | .node ws children, level, path, hpath, hall => by
    rw [getPathToSelectedSpanID] at hpath
    rw [getPreOrderedSpans, map_cons]
    split at hpath
    · rename_i heq
      rw [← heq]
      exact mem_cons_self
    · rename_i hne
      obtain ⟨rest, hrest, rfl⟩ := map_eq_some_iff.1 hpath
      have hin : ws.spanID ∈ u := hall _ mem_cons_self hne
      rw [if_pos (by simp [hin])]
      refine mem_cons_of_mem _ ?_
      exact selected_visibleEach u selectedSpanID children (level + 1) hrest fun id hid => hall id (mem_cons_of_mem _ hid)

theorem selected_visibleEach (u : Finset String) (selectedSpanID : String) : ∀ (ts : List (Rose WaterfallSpan)) (level : Nat)
    {path : List String}, getPathFromRoot selectedSpanID ts = some path → (∀ id ∈ path, id ≠ selectedSpanID → id ∈ u) →
    selectedSpanID ∈ (getPreOrderedSpansEach u false level ts).map (·.spanID)
  | [], _, _, hpath, _ => nomatch hpath
  | t :: ts, level, path, hpath, hall => by
    rw [getPathFromRoot] at hpath
    rw [getPreOrderedSpansEach, map_append, mem_append]
    cases ht : getPathToSelectedSpanID selectedSpanID t with
    | some path' =>
      rw [ht] at hpath
      cases hpath
      exact Or.inl (selected_visible u selectedSpanID t level ht hall)
    | none =>
      rw [ht] at hpath
      exact Or.inr (selected_visibleEach u selectedSpanID ts level hpath hall)
end

mutual
theorem path_isSome (selectedSpanID : String) : ∀ t : Rose WaterfallSpan, selectedSpanID ∈ t.values.map (·.spanID) →
    (getPathToSelectedSpanID selectedSpanID t).isSome
  | .node ws children, h => by
    rw [getPathToSelectedSpanID]
    split
    · rfl
    · rename_i hne
      rw [Rose.values, map_cons] at h
      rw [isSome_map]
      exact pathEach_isSome selectedSpanID children ((mem_cons.1 h).resolve_left fun heq => hne heq.symm)

theorem pathEach_isSome (selectedSpanID : String) : ∀ ts : List (Rose WaterfallSpan),
    selectedSpanID ∈ (Rose.valuesEach ts).map (·.spanID) → (getPathFromRoot selectedSpanID ts).isSome
  | [], h => nomatch h
  | t :: ts, h => by
    rw [Rose.valuesEach, map_append, mem_append] at h
    rw [getPathFromRoot]
    cases ht : getPathToSelectedSpanID selectedSpanID t with
    | some path => rfl
    | none =>
      refine pathEach_isSome selectedSpanID ts (h.resolve_left fun hin => ?_)
      have hsome := path_isSome selectedSpanID t hin
      rw [ht] at hsome
      nomatch hsome
end

/-! ## The page -/

section
variable (selectedSpanID : String)

/-- The index in the loop over the roots is one of the selected span, and there is one once that span has come. -/
def Indexed (acc : List WaterfallSpan × Option Nat) : Prop :=
  (∀ i, acc.2 = some i → (acc.1[i]?).map (·.spanID) = some selectedSpanID) ∧ (acc.2 = none → selectedSpanID ∉ acc.1.map (·.spanID))

theorem indexed_addRoot {acc : List WaterfallSpan × Option Nat} (h : Indexed selectedSpanID acc) (spans : List WaterfallSpan) :
    Indexed selectedSpanID (addRoot selectedSpanID acc spans) := by
  obtain ⟨hindex, hnone⟩ := h
  unfold addRoot
  cases hfind : getSpanIndex spans selectedSpanID with
  | some j =>
    obtain ⟨hlt, heq, _⟩ := List.findIdx?_eq_some_iff_getElem.1 hfind
    refine ⟨fun i hi => ?_, fun h => nomatch h⟩
    obtain rfl : j + acc.1.length = i := some_inj.1 hi
    rw [List.getElem?_append_right (Nat.le_add_left _ _), Nat.add_sub_cancel, List.getElem?_eq_getElem hlt, map_some,
      beq_iff_eq.1 heq]
  | none =>
    have hspans : selectedSpanID ∉ spans.map (·.spanID) := by
      rintro hmem
      obtain ⟨span, hspan, heq⟩ := List.mem_map.1 hmem
      have hfalse := List.findIdx?_eq_none_iff.1 hfind span hspan
      simp [heq] at hfalse
    refine ⟨fun i hi => ?_, fun h => ?_⟩
    · have hi : acc.2 = some i := hi
      have hin := hindex i hi
      have hlt : i < acc.1.length := by
        by_contra hge
        rw [List.getElem?_eq_none (Nat.le_of_not_lt hge)] at hin
        nomatch hin
      rw [List.getElem?_append_left hlt]
      exact hin
    · rw [map_append, mem_append, not_or]
      exact ⟨hnone h, hspans⟩

theorem indexed_foldl (roots : List (List WaterfallSpan)) : Indexed selectedSpanID (roots.foldl (addRoot selectedSpanID) ([], none)) :=
  List.foldlRecOn roots (addRoot selectedSpanID) (motive := Indexed selectedSpanID)
    ⟨fun _ h => (nomatch h), fun _ => not_mem_nil⟩ fun _ h spans _ => indexed_addRoot selectedSpanID h spans

theorem spans_foldl (roots : List (List WaterfallSpan)) (acc : List WaterfallSpan × Option Nat) :
    (roots.foldl (addRoot selectedSpanID) acc).1 = acc.1 ++ roots.flatten := by
  induction roots generalizing acc with
  | nil => simp
  | cons spans roots ih =>
    rw [foldl_cons, ih, List.flatten_cons, ← List.append_assoc]
    rfl

end

theorem path_uncollapsed (wt : WaterfallTrace) (uncollapsedSpanIDs : List String) (selectedSpanID : String) (depth : Nat)
    {path : List String} (h : getPathFromRoot selectedSpanID wt.traceRoots = some path) (id : String) (hid : id ∈ path)
    (hne : id ≠ selectedSpanID) : id ∈ wt.calculateUncollapsedSpanIDs uncollapsedSpanIDs selectedSpanID depth := by
  have hin : id ∈ uncollapsedSpanIDs.toFinset ∪ (path.filter (fun id => decide (id ≠ selectedSpanID))).toFinset := by
    simp [hid, hne]
  unfold WaterfallTrace.calculateUncollapsedSpanIDs
  rw [h]
  dsimp only [getD_some]
  split
  · exact (mem_autoExpandDescendants _ _ _ _ _).2 (Or.inl hin)
  · exact hin

def collapsedPair : WaterfallTrace where
  startTime := 1
  endTime := 2
  totalSpans := 2
  totalErrorSpans := 0
  spanIDToSpanNodeMap := ∅
  traceRoots := [.node (newMissingWaterfallSpan "a" "t" 1 1) [.node (newMissingWaterfallSpan "b" "t" 1 1) []]]
  hasMissingSpans := false

end Waterfall
end DsApm
