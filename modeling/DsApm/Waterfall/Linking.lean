import DsApm.Waterfall.Trace
/-!
# Linking — what the loop over the map leaves

Whatever order the loop takes, a span's children are the visited spans that name it as their parent, in that order; a
placeholder is there for every missing parent of a visited span, with the times of the first of its children
(`linked_spec`).  Coming to a placeholder changes nothing.
-/
namespace DsApm
namespace Waterfall

open List

def spanOf (spans : List StorableSpan) (id : String) : Option StorableSpan := spans.find? (fun item => item.spanID == id)

def parentOf (spans : List StorableSpan) (id : String) : Option String :=
  (spanOf spans id).bind fun item => if item.parentSpanID = "" then none else some item.parentSpanID

def childrenIn (spans : List StorableSpan) (ids : List String) (p : String) : List String :=
  ids.filter (fun c => parentOf spans c == some p)

/-- A missing span, with what it takes from its first child. -/
def missingSpan (id : String) (child : StorableSpan) : WaterfallSpan :=
  newMissingWaterfallSpan id child.traceID child.startTime.toUInt64 child.durationNano

def nodeAfter (spans : List StorableSpan) (ids : List String) (id : String) : Option SpanNode :=
  match spanOf spans id with
  | some item => some ⟨item.toWaterfallSpan, childrenIn spans ids id⟩
  | none => ((childrenIn spans ids id).head?.bind (spanOf spans)).map fun child => ⟨missingSpan id child, childrenIn spans ids id⟩

/-- The root a span adds when it is linked: itself, or its missing parent. -/
def rootOf (spans : List StorableSpan) (id : String) : Option String :=
  match parentOf spans id with
  | none => some id
  | some p => if (spanOf spans p).isSome then none else some p

/-- A root goes behind the others unless it is one already. -/
def noteRoot (roots : List String) (r : String) : List String := if r ∈ roots then roots else roots ++ [r]

def rootsAfter (spans : List StorableSpan) (ids : List String) : List String := (ids.filterMap (rootOf spans)).foldl noteRoot []

section
variable {spans : List StorableSpan}

theorem spanOf_eq_some (hnd : (spans.map (·.spanID)).Nodup) {id : String} {item : StorableSpan} :
    spanOf spans id = some item ↔ item ∈ spans ∧ item.spanID = id := by
  unfold spanOf
  constructor
  · intro h
    exact ⟨mem_of_find?_eq_some h, by simpa using List.find?_some h⟩
  · rintro ⟨hin, rfl⟩
    cases hf : spans.find? (fun i => i.spanID == item.spanID) with
    | none =>
      have := List.find?_eq_none.1 hf item hin
      simp at this
    | some i =>
      have hi : i.spanID = item.spanID := by simpa using List.find?_some hf
      rw [inj_on_of_nodup_map hnd (mem_of_find?_eq_some hf) hin hi]

theorem spanOf_eq_none {id : String} : spanOf spans id = none ↔ id ∉ spans.map (·.spanID) := by
  simp [spanOf]

theorem parentOf_of_spanOf {id : String} {item : StorableSpan} (h : spanOf spans id = some item) :
    parentOf spans id = if item.parentSpanID = "" then none else some item.parentSpanID := by
  rw [parentOf, h, Option.bind_some]

theorem parentOf_eq_some (hnd : (spans.map (·.spanID)).Nodup) {id p : String} : parentOf spans id = some p ↔
    ∃ item ∈ spans, item.spanID = id ∧ item.parentSpanID = p ∧ p ≠ "" := by
  unfold parentOf
  rw [Option.bind_eq_some_iff]
  constructor
  · rintro ⟨item, hitem, hp⟩
    obtain ⟨hin, hid⟩ := (spanOf_eq_some hnd).1 hitem
    split_ifs at hp with h
    rw [Option.some_inj] at hp
    exact ⟨item, hin, hid, hp, hp ▸ h⟩
  · rintro ⟨item, hin, hid, rfl, hne⟩
    exact ⟨item, (spanOf_eq_some hnd).2 ⟨hin, hid⟩, if_neg hne⟩

theorem childrenIn_append (ids : List String) (c p : String) : childrenIn spans (ids ++ [c]) p =
    childrenIn spans ids p ++ if parentOf spans c = some p then [c] else [] := by
  unfold childrenIn
  rw [filter_append]
  congr 1
  split_ifs with h <;> simp [h]

theorem mem_rootsAfter (spans : List StorableSpan) (ids : List String) (r : String) :
    r ∈ rootsAfter spans ids ↔ ∃ id ∈ ids, rootOf spans id = some r := by
  have hfold : ∀ (l acc : List String), r ∈ l.foldl noteRoot acc ↔ r ∈ acc ∨ r ∈ l := by
    intro l
    induction l with
    | nil => simp
    | cons x l ih =>
      intro acc
      rw [foldl_cons, ih, noteRoot, mem_cons]
      split_ifs with hx
      · constructor
        · rintro (h | h)
          · exact Or.inl h
          · exact Or.inr (Or.inr h)
        · rintro (h | rfl | h)
          · exact Or.inl h
          · exact Or.inl hx
          · exact Or.inr h
      · rw [mem_append, mem_singleton, or_assoc]
  rw [rootsAfter, hfold]
  simp [mem_filterMap]

theorem nodup_rootsAfter (spans : List StorableSpan) (ids : List String) : (rootsAfter spans ids).Nodup := by
  have hfold : ∀ (l acc : List String), acc.Nodup → (l.foldl noteRoot acc).Nodup := by
    intro l
    induction l with
    | nil => exact fun _ h => h
    | cons x l ih =>
      intro acc h
      refine ih _ ?_
      unfold noteRoot
      split_ifs with hx
      · exact h
      · exact nodup_append.2 ⟨h, nodup_singleton _, fun a ha b hb hab => hx (by
          rw [mem_singleton] at hb
          exact hb ▸ hab ▸ ha)⟩
  exact hfold _ _ nodup_nil

theorem rootsAfter_append (ids : List String) (c : String) : rootsAfter spans (ids ++ [c]) =
    match rootOf spans c with
    | none => rootsAfter spans ids
    | some r => noteRoot (rootsAfter spans ids) r := by
  unfold rootsAfter
  rw [filterMap_append, foldl_append]
  cases h : rootOf spans c with
  | none => simp [h]
  | some r => simp [h]

/-- **The links after some of the spans.** -/
structure LinkedAs (spans : List StorableSpan) (ids : List String) (s : Links) : Prop where
  nodes : ∀ id, s.spanIDToSpanNodeMap.lookup id = nodeAfter spans ids id
  roots : s.traceRoots = rootsAfter spans ids

theorem lookup_spanNodes (hnd : (spans.map (·.spanID)).Nodup) (id : String) :
    (spanNodes spans).lookup id = (spanOf spans id).map fun item => ⟨item.toWaterfallSpan, []⟩ := by
  unfold spanNodes
  induction spans using List.reverseRecOn with
  | nil => rfl
  | append_singleton l item ih =>
    rw [map_append, map_singleton, nodup_append] at hnd
    rw [foldl_append, foldl_cons, foldl_nil, spanOf, List.find?_append]
    by_cases h : id = item.spanID
    · subst h
      have hout : l.find? (fun i => i.spanID == item.spanID) = none := by
        rw [List.find?_eq_none]
        intro i hi
        simpa using hnd.2.2 i.spanID (List.mem_map_of_mem hi) item.spanID (mem_singleton_self _)
      rw [AList.lookup_insert, hout]
      simp
    · rw [AList.lookup_insert_ne h, ih hnd.1]
      simp [spanOf, Ne.symm h]

theorem linkedAs_nil (hnd : (spans.map (·.spanID)).Nodup) : LinkedAs spans [] ⟨spanNodes spans, [], false⟩ where
  nodes := fun id => by
    rw [lookup_spanNodes hnd, nodeAfter]
    cases spanOf spans id <;> rfl
  roots := rfl

theorem link_other {ids : List String} {s : Links} (h : LinkedAs spans ids s) {id : String} (hout : id ∉ spans.map (·.spanID)) :
    link s id = s := by
  have hnone := spanOf_eq_none.2 hout
  unfold link
  rw [h.nodes id, nodeAfter, hnone]
  cases hchild : (childrenIn spans ids id).head?.bind (spanOf spans) with
  | none => rfl
  | some child =>
    obtain ⟨c, hc, -⟩ := Option.bind_eq_some_iff.1 hchild
    have hin := mem_of_mem_head? hc
    have hroot : id ∈ s.traceRoots := by
      rw [h.roots, mem_rootsAfter]
      obtain ⟨hids, hp⟩ := mem_filter.1 hin
      exact ⟨c, hids, by simp [rootOf, show parentOf spans c = some id by simpa using hp, hnone]⟩
    simp [missingSpan, newMissingWaterfallSpan, hroot]

theorem link_span (hnd : (spans.map (·.spanID)).Nodup) {ids : List String} {s : Links} (h : LinkedAs spans ids s)
    (hids : ∀ c ∈ ids, c ∈ spans.map (·.spanID)) {item : StorableSpan} (hitem : item ∈ spans) :
    LinkedAs spans (ids ++ [item.spanID]) (link s item.spanID) := by
  have hspan : spanOf spans item.spanID = some item := (spanOf_eq_some hnd).2 ⟨hitem, rfl⟩
  have hparent := parentOf_of_spanOf hspan
  unfold link
  rw [h.nodes, nodeAfter, hspan]
  simp only [parentSpanID_toWaterfallSpan, traceID_toWaterfallSpan, timeUnixNano_toWaterfallSpan, durationNano_toWaterfallSpan]
  by_cases hp : item.parentSpanID = ""
  · -- a root of its own
    rw [if_pos hp] at hparent
    have hsame : ∀ id, nodeAfter spans (ids ++ [item.spanID]) id = nodeAfter spans ids id := fun id => by
      simp [nodeAfter, childrenIn_append, hparent]
    have hroots : rootsAfter spans (ids ++ [item.spanID]) = noteRoot (rootsAfter spans ids) item.spanID := by
      rw [rootsAfter_append, rootOf, hparent]
    simp only [hp, ne_eq, not_true_eq_false, if_false]
    constructor
    · intro id
      rw [hsame]
      split_ifs <;> exact h.nodes id
    · rw [hroots, noteRoot, ← h.roots]
      split_ifs <;> rfl
  · rw [if_neg hp] at hparent
    simp only [hp, ne_eq, not_false_eq_true, if_true]
    have hother : ∀ id, id ≠ item.parentSpanID → nodeAfter spans (ids ++ [item.spanID]) id = nodeAfter spans ids id := fun id hne => by
      have hno : parentOf spans item.spanID ≠ some id := fun hc => hne (by rw [hparent, Option.some_inj] at hc; exact hc.symm)
      simp [nodeAfter, childrenIn_append, hno]
    have hkids : childrenIn spans (ids ++ [item.spanID]) item.parentSpanID =
        childrenIn spans ids item.parentSpanID ++ [item.spanID] := by
      rw [childrenIn_append, if_pos hparent]
    rw [h.nodes, nodeAfter]
    cases hpspan : spanOf spans item.parentSpanID with
    | some pitem =>
      have hroots : rootsAfter spans (ids ++ [item.spanID]) = rootsAfter spans ids := by
        simp [rootsAfter_append, rootOf, hparent, hpspan]
      refine ⟨fun id => ?_, by rw [hroots]; exact h.roots⟩
      by_cases hid : id = item.parentSpanID
      · subst hid
        rw [AList.lookup_insert, nodeAfter, hpspan, hkids]
      · rw [AList.lookup_insert_ne hid, hother id hid]
        exact h.nodes id
    | none =>
      have hroots : rootsAfter spans (ids ++ [item.spanID]) = noteRoot (rootsAfter spans ids) item.parentSpanID := by
        simp [rootsAfter_append, rootOf, hparent, hpspan]
      cases hhead : (childrenIn spans ids item.parentSpanID).head? with
      | none =>
        -- the first span that misses this parent
        have hnil : childrenIn spans ids item.parentSpanID = [] := List.head?_eq_none_iff.1 hhead
        have hnew : item.parentSpanID ∉ rootsAfter spans ids := fun hin => by
          obtain ⟨c, hc, hroot⟩ := (mem_rootsAfter spans ids _).1 hin
          have hcp : c ∈ childrenIn spans ids item.parentSpanID := by
            refine mem_filter.2 ⟨hc, ?_⟩
            unfold rootOf at hroot
            cases hpc : parentOf spans c with
            | none =>
              rw [hpc, Option.some_inj] at hroot
              rw [← hroot] at hpspan
              exact absurd (hids c hc) (spanOf_eq_none.1 hpspan)
            | some q =>
              rw [hpc] at hroot
              dsimp only at hroot
              split_ifs at hroot
              rw [Option.some_inj] at hroot
              simp [hroot]
          rw [hnil] at hcp
          cases hcp
        refine ⟨fun id => ?_, by rw [hroots, noteRoot, if_neg hnew, ← h.roots]; rfl⟩
        by_cases hid : id = item.parentSpanID
        · subst hid
          simp [AList.lookup_insert, nodeAfter, hpspan, hkids, hnil, hspan, missingSpan]
        · simp only [Option.bind_none, Option.map_none]
          rw [AList.lookup_insert_ne hid, hother id hid]
          exact h.nodes id
      | some c =>
        have hc : c ∈ childrenIn spans ids item.parentSpanID := mem_of_mem_head? hhead
        obtain ⟨hcids, hcp⟩ := mem_filter.1 hc
        obtain ⟨child, hchild⟩ := Option.isSome_iff_exists.1 (by
          rw [Option.isSome_iff_ne_none]
          exact fun hn => absurd (hids c hcids) (spanOf_eq_none.1 hn) : (spanOf spans c).isSome = true)
        have hold : item.parentSpanID ∈ rootsAfter spans ids :=
          (mem_rootsAfter spans ids _).2 ⟨c, hcids, by simp [rootOf, show parentOf spans c = some item.parentSpanID by simpa using hcp, hpspan]⟩
        refine ⟨fun id => ?_, by rw [hroots, noteRoot, if_pos hold, ← h.roots]; simp [hchild]⟩
        by_cases hid : id = item.parentSpanID
        · subst hid
          simp [AList.lookup_insert, nodeAfter, hpspan, hkids, hhead, hchild]
        · simp only [Option.bind_some, hchild, Option.map_some]
          rw [AList.lookup_insert_ne hid, hother id hid]
          exact h.nodes id

def spansIn (spans : List StorableSpan) (order : List String) : List String :=
  order.filter (fun id => decide (id ∈ spans.map (·.spanID)))

theorem Run.visited (run : Run spans) : (spansIn spans run.order).Perm (spans.map (·.spanID)) := run.visits

/-- **What the loop leaves, whatever its order**: the links of the spans it came to, in that order. -/
theorem linked_spec (hnd : (spans.map (·.spanID)).Nodup) (order : List String) :
    LinkedAs spans (spansIn spans order) (linked spans order) := by
  unfold linked
  induction order using List.reverseRecOn with
  | nil => exact linkedAs_nil hnd
  | append_singleton l id ih =>
    rw [foldl_append, foldl_cons, foldl_nil, spansIn, filter_append]
    by_cases hid : id ∈ spans.map (·.spanID)
    · obtain ⟨item, hitem, rfl⟩ := List.mem_map.1 hid
      rw [filter_cons_of_pos (by simpa using hid), filter_nil]
      exact link_span hnd ih (fun c hc => by simpa [spansIn] using (mem_filter.1 hc).2) hitem
    · rw [filter_cons_of_neg (by simpa using hid), filter_nil, append_nil, link_other ih hid]
      exact ih

end

end Waterfall
end DsApm
