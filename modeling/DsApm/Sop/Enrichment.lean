import DsApm.Lib.GoSlice
import DsApm.Remediation.Proposal
import DsApm.Sop.DispatchHook
/-!
# Enrichment — what the hook does to an alert's annotations

`Apply` is given its annotations by reference, as the dispatcher keeps them, and gives a reference back: the same one, or a new map
that was copied and written (`applyRef_refines`).  Whatever fails, no map that was there changes, and only keys of the hook's own
are written (`apply_enriches`).
-/
namespace DsApm
namespace Sop

open GoStd Latest Refs List

abbrev Heap := List Annotations

/-! ## Maps by reference -/

def setNonEmpty (heap : Heap) (r : Nat) (es : List (String × String)) : Heap :=
  es.foldl (fun heap e => if e.2 = "" then heap else heap.modify r (·.insert e.1 e.2)) heap

def entriesOf (m : Annotations) : List (String × String) := m.entries.map fun e => (e.1, e.2)

/-- `mergeAnnotations`: a copy of the first map, overlaid with the second. -/
def mergeAnnotationsRef (heap : Heap) (base : Nat) (overrides : Annotations) : Heap × Nat :=
  let m := alloc heap (heap[base]?.getD ∅)
  (setNonEmpty m.1 m.2 (entriesOf overrides), m.2)

def sopEntries (doc : BoundDocument) (binding : SOPBindingPreviewResponse) : List (String × String) :=
  [("sop_url", doc.displayURL),
    ("sop_source", doc.sourceID),
    ("sop_title", binding.title),
    ("sop_version", binding.version),
    ("sop_binding_id", binding.resolution.text)]

def mergeStrategyWithSOPRef (heap : Heap) (base : Nat) (strategy : AIStrategy) (doc : BoundDocument)
    (binding : SOPBindingPreviewResponse) : Heap × Nat :=
  let m := mergeAnnotationsRef heap base (aiStrategyIncidentAnnotations strategy)
  (setNonEmpty m.1 m.2 (sopEntries doc binding), m.2)

def cardAnnotations : Option Remediation.Annotations → Annotations
  | none => ∅
  | some card => [("remediation_id", card.remediationID),
      ("remediation_script_summary", card.scriptSummary),
      ("remediation_approve_url", card.approveURL)].foldl (fun m e => m.insert e.1 e.2) ∅

/-- `applyRemediation`: what the selector or the proposer gives, if one is asked and gives something. -/
def applyRemediationRef (heap : Heap) (merged : Nat) : Option Remediation.Annotations → Heap × Nat
  | none => (heap, merged)
  | some card => mergeAnnotationsRef heap merged (cardAnnotations (some card))

def ApplyCall.reused (h : HistoryStore) (r : ApplyCall) (binding : SOPBindingPreviewResponse) : Option AIStrategy :=
  (if r.historyOk then h.getLatest r.orgID r.incidentID r.alertFingerprint else none).filter (·.reusable binding)

variable (fold : Char → Char) (visit : Visit SOPDocument)

/-- `Apply` on the annotations of a reference: the heap, the reference that is given back, and what is attached. -/
def applyRef (heap : Heap) (annotations : Nat) (h : HistoryStore) (r : ApplyCall) (card : Option Remediation.Annotations) :
    Heap × Nat × Attached :=
  match r.bound fold visit with
  | none => (heap, annotations, .unchanged)
  | some (binding, doc) =>
    match r.reused h binding with
    | some s =>
      let merged := mergeStrategyWithSOPRef heap annotations s doc binding
      let merged := applyRemediationRef merged.1 merged.2 card
      (merged.1, merged.2, .cached s binding)
    | none =>
      match r.generated with
      | none => (heap, annotations, .unchanged)
      | some s =>
        let merged := mergeStrategyWithSOPRef heap annotations s doc binding
        let merged := applyRemediationRef merged.1 merged.2 card
        (merged.1, merged.2, .generated s)

/-! ## The maps are those of the values -/

theorem new_setNonEmpty {base : Heap} {r : Nat} : ∀ {es : List (String × String)} {heap : Heap} {m : Annotations}, New base heap r m →
    New base (setNonEmpty heap r es) r (es.foldl (fun m e => if e.2 = "" then m else m.insert e.1 e.2) m)
  | [], _, _, h => h
  | e :: es, heap, m, h => by
    unfold setNonEmpty
    rw [foldl_cons, foldl_cons]
    by_cases he : e.2 = ""
    · rw [if_pos he, if_pos he]
      exact new_setNonEmpty h
    · rw [if_neg he, if_neg he]
      exact new_setNonEmpty (h.modify _)

theorem foldl_nonEmpty : ∀ (es : List (Sigma fun _ : String => String)) (base : Annotations),
    ((es.filterMap (GoMap.entry fun _ v => if v = "" then none else some v)).map fun e => (e.1, e.2)).foldl
        (fun m e => GoMap.put (fun _ => e.2) m e.1) base =
      (es.map fun e => (e.1, e.2)).foldl (fun m e => if e.2 = "" then m else m.insert e.1 e.2) base
  | [], _ => rfl
  | e :: es, base => by
    rw [filterMap_cons, map_cons, foldl_cons]
    by_cases he : e.2 = ""
    · simpa [GoMap.entry, he] using foldl_nonEmpty es base
    · simpa [GoMap.entry, he, GoMap.put] using foldl_nonEmpty es (base.insert e.1 e.2)

theorem mergeAnnotations_eq_foldl (base overrides : Annotations) :
    mergeAnnotations base overrides = (entriesOf overrides).foldl (fun m e => if e.2 = "" then m else m.insert e.1 e.2) base :=
  foldl_nonEmpty overrides.entries base

variable {heap : Heap} {m : Annotations}

theorem new_mergeAnnotationsRef {base : Heap} {r : Nat} (hbase : base <+: heap) (hm : heap[r]? = some m)
    (overrides : Annotations) : New base (mergeAnnotationsRef heap r overrides).1 (mergeAnnotationsRef heap r overrides).2
      (mergeAnnotations m overrides) := by
  rw [mergeAnnotations_eq_foldl, mergeAnnotationsRef, hm]
  exact new_setNonEmpty (new_alloc hbase m)

theorem new_mergeStrategyWithSOPRef {r : Nat} (hm : heap[r]? = some m) (s : AIStrategy)
    (doc : BoundDocument) (binding : SOPBindingPreviewResponse) :
    New heap (mergeStrategyWithSOPRef heap r s doc binding).1 (mergeStrategyWithSOPRef heap r s doc binding).2
      (mergeStrategyWithSOP m s doc binding) :=
  new_setNonEmpty (new_mergeAnnotationsRef prefix_rfl hm _)

theorem new_applyRemediationRef {base : Heap} {r : Nat} (h : New base heap r m)
    (card : Option Remediation.Annotations) : New base (applyRemediationRef heap r card).1 (applyRemediationRef heap r card).2
      (mergeAnnotations m (cardAnnotations card)) := by
  cases card with
  | none => exact h
  | some card => exact new_mergeAnnotationsRef h.kept h.holds _

def ApplyCall.over (r : ApplyCall) (annotations : Annotations) (card : Option Remediation.Annotations) : ApplyCall :=
  { r with annotations := annotations, remediation := cardAnnotations card }

theorem apply_over (h : HistoryStore) (r : ApplyCall) (m : Annotations) (card : Option Remediation.Annotations) :
    apply fold visit h (r.over m card) =
      match r.bound fold visit with
      | none => (h, m, .unchanged)
      | some (binding, doc) =>
        match r.reused h binding with
        | some s => (h, mergeAnnotations (mergeStrategyWithSOP m s doc binding) (cardAnnotations card), .cached s binding)
        | none =>
          match r.generated with
          | none => (h, m, .unchanged)
          | some s => (if r.kept then h.upsert r.orgID s else h,
              mergeAnnotations (mergeStrategyWithSOP m s doc binding) (cardAnnotations card), .generated s) := rfl

/-- **The maps that are given back are those of `apply`**: the one that was given, or a new one. -/
theorem applyRef_refines {ref : Nat} (hm : heap[ref]? = some m) (h : HistoryStore) (r : ApplyCall)
    (card : Option Remediation.Annotations) :
    (applyRef fold visit heap ref h r card).2.2 = (apply fold visit h (r.over m card)).2.2 ∧
    heap <+: (applyRef fold visit heap ref h r card).1 ∧
    (applyRef fold visit heap ref h r card).1[(applyRef fold visit heap ref h r card).2.1]? =
      some (apply fold visit h (r.over m card)).2.1 := by
  rw [apply_over]
  unfold applyRef
  cases r.bound fold visit with
  | none => exact ⟨rfl, prefix_rfl, hm⟩
  | some b =>
    obtain ⟨binding, doc⟩ := b
    have hmerged (s : AIStrategy) := new_applyRemediationRef (new_mergeStrategyWithSOPRef hm s doc binding) card
    dsimp only
    cases r.reused h binding with
    | some s => exact ⟨rfl, (hmerged s).kept, (hmerged s).holds⟩
    | none =>
      cases r.generated with
      | none => exact ⟨rfl, prefix_rfl, hm⟩
      | some s => exact ⟨rfl, (hmerged s).kept, (hmerged s).holds⟩

/-! ## The hook's own keys -/

def strategyKeys : List String :=
  ["ai_strategy_id", "ai_strategy_status", "ai_headline", "ai_confidence", "customer_update", "notification_body", "vendor_request",
    "ai_first_actions", "ai_limitations", "ai_evidence_refs"]

def reservedKeys : List String :=
  strategyKeys ++ ["sop_url", "sop_source", "sop_title", "sop_version", "sop_binding_id"] ++
    ["remediation_id", "remediation_script_summary", "remediation_approve_url"]

variable {k : String}

theorem lookup_foldl_of_not_mem {set : Annotations → String × String → Annotations}
    (hset : ∀ m e, k ≠ e.1 → (set m e).lookup k = m.lookup k) : ∀ {es : List (String × String)} (m : Annotations),
    k ∉ es.map Prod.fst → (es.foldl set m).lookup k = m.lookup k
  | [], _, _ => rfl
  | e :: es, m, h => by
    rw [map_cons, mem_cons, not_or] at h
    rw [foldl_cons, lookup_foldl_of_not_mem hset _ h.2, hset m e h.1]

variable {s : AIStrategy}

theorem lookup_strategy (h : k ∉ strategyKeys) : (aiStrategyIncidentAnnotations s).lookup k = none := by
  unfold aiStrategyIncidentAnnotations
  dsimp only
  refine (lookup_foldl_of_not_mem (fun m e hk => ?_) ∅ h).trans rfl
  split
  · rfl
  · exact AList.lookup_insert_ne hk

theorem lookup_card {card : Option Remediation.Annotations} (h : k ∉ reservedKeys) :
    (cardAnnotations card).lookup k = none := by
  cases card with
  | none => rfl
  | some card =>
    refine (lookup_foldl_of_not_mem (fun m e hk => AList.lookup_insert_ne hk) ∅ ?_).trans rfl
    exact fun hmem => h (mem_append_right _ hmem)

theorem lookup_mergeAnnotations_of_none {base overrides : Annotations} (h : overrides.lookup k = none) :
    (mergeAnnotations base overrides).lookup k = base.lookup k := by
  rw [mergeAnnotations, GoMap.lookup_copyInto, GoMap.lookup_filterMapVal, h, Option.bind_none, Option.none_or]

theorem lookup_mergeStrategyWithSOP {base : Annotations} {doc : BoundDocument} {binding : SOPBindingPreviewResponse} (h : k ∉ reservedKeys) : (mergeStrategyWithSOP base s doc binding).lookup k = base.lookup k := by
  have hstrategy : k ∉ strategyKeys := fun hmem => h (mem_append_left _ (mem_append_left _ hmem))
  have hsop : k ∉ (sopEntries doc binding).map Prod.fst := fun hmem => h (mem_append_left _ (mem_append_right _ hmem))
  refine (lookup_foldl_of_not_mem (fun m e hk => ?_) _ hsop).trans (lookup_mergeAnnotations_of_none (lookup_strategy hstrategy))
  split
  · rfl
  · exact AList.lookup_insert_ne hk

/-- **Another key keeps its value**, whatever the call meets. -/
theorem lookup_apply (h : HistoryStore) (r : ApplyCall) (m : Annotations) (card : Option Remediation.Annotations)
    (hk : k ∉ reservedKeys) : (apply fold visit h (r.over m card)).2.1.lookup k = m.lookup k := by
  have hmerged (s : AIStrategy) (doc : BoundDocument) (binding : SOPBindingPreviewResponse) :
      (mergeAnnotations (mergeStrategyWithSOP m s doc binding) (cardAnnotations card)).lookup k = m.lookup k :=
    (lookup_mergeAnnotations_of_none (lookup_card hk)).trans (lookup_mergeStrategyWithSOP hk)
  fun_cases apply fold visit h (r.over m card)
  · rfl
  · exact hmerged ..
  · rfl
  · exact hmerged ..

/-! ## Enrichment -/

theorem cached_eq_generated {h h' : HistoryStore} {r : ApplyCall} {card : Option Remediation.Annotations}
    {historyOk kept : Bool} {generated : Option AIStrategy} {binding : SOPBindingPreviewResponse}
    (hcached : (apply fold visit h (r.over m card)).2.2 = .cached s binding)
    (hgenerated : (apply fold visit h' (ApplyCall.over { r with historyOk, generated, kept } m card)).2.2 = .generated s) :
    (apply fold visit h (r.over m card)).2.1 =
      (apply fold visit h' (ApplyCall.over { r with historyOk, generated, kept } m card)).2.1 := by
  rw [apply_over] at hcached hgenerated ⊢
  rw [apply_over]
  have hbound : ApplyCall.bound fold visit { r with historyOk, generated, kept } = r.bound fold visit := rfl
  rw [hbound] at hgenerated ⊢
  cases hb : r.bound fold visit with
  | none => simp [hb] at hcached
  | some b =>
    obtain ⟨binding', doc⟩ := b
    simp only [hb] at hcached hgenerated ⊢
    cases hreused : r.reused h binding' with
    | none =>
      simp only [hreused] at hcached
      split at hcached <;> cases hcached
    | some s₀ =>
      simp only [hreused] at hcached ⊢
      cases hcached
      cases hreused' : ApplyCall.reused h' { r with historyOk, generated, kept } binding with
      | some s₁ =>
        simp only [hreused'] at hgenerated
        cases hgenerated
      | none =>
        simp only [hreused'] at hgenerated ⊢
        cases generated with
        | none => cases hgenerated
        | some s₂ =>
          cases hgenerated
          rfl

structure Enriches (heap : Heap) (ref : Fin heap.length) (h : HistoryStore) (r : ApplyCall) (card : Option Remediation.Annotations) :
    Prop where
  /-- A key that is not the hook's own has its input value, and is there only if it was. -/
  keeps : ∃ m, (applyRef fold visit heap ref h r card).1[(applyRef fold visit heap ref h r card).2.1]? = some m ∧
    ∀ k ∉ reservedKeys, m.lookup k = heap[ref].lookup k
  /-- Every map that was there is as it was. -/
  unmutated : heap <+: (applyRef fold visit heap ref h r card).1
  /-- Without a strategy the reference itself is given back. -/
  unchanged : (applyRef fold visit heap ref h r card).2.2 = .unchanged →
    (applyRef fold visit heap ref h r card).2.1 = ref ∧ (applyRef fold visit heap ref h r card).1 = heap
  /-- A strategy that is cached is written as it is when it is generated. -/
  paths : ∀ h' historyOk generated kept s binding, (applyRef fold visit heap ref h r card).2.2 = .cached s binding →
    (applyRef fold visit heap ref h' { r with historyOk, generated, kept } card).2.2 = .generated s →
    (applyRef fold visit heap ref h r card).1[(applyRef fold visit heap ref h r card).2.1]? =
      (applyRef fold visit heap ref h' { r with historyOk, generated, kept } card).1[
        (applyRef fold visit heap ref h' { r with historyOk, generated, kept } card).2.1]?

/-- **Fail-open notification enrichment**: whatever a call meets. -/
theorem apply_enriches (heap : Heap) (ref : Fin heap.length) (h : HistoryStore) (r : ApplyCall)
    (card : Option Remediation.Annotations) : Enriches fold visit heap ref h r card := by
  have hm : heap[(ref : Nat)]? = some heap[ref] := List.getElem?_eq_getElem ref.isLt
  obtain ⟨hattached, hkept, hholds⟩ := applyRef_refines fold visit hm h r card
  refine ⟨⟨_, hholds, fun k hk => lookup_apply fold visit h r _ card hk⟩, hkept, fun hunchanged => ?_,
    fun h' historyOk generated kept s binding hcached hgenerated => ?_⟩
  · unfold applyRef at hunchanged ⊢
    cases hb : r.bound fold visit with
    | none => exact ⟨rfl, rfl⟩
    | some b =>
      obtain ⟨binding, doc⟩ := b
      simp only [hb] at hunchanged ⊢
      cases hreused : r.reused h binding with
      | some s =>
        simp only [hreused] at hunchanged
        cases hunchanged
      | none =>
        simp only [hreused] at hunchanged ⊢
        cases hgen : r.generated with
        | none => exact ⟨rfl, rfl⟩
        | some s =>
          simp only [hgen] at hunchanged
          cases hunchanged
  · obtain ⟨hattached', -, hholds'⟩ := applyRef_refines fold visit hm h' { r with historyOk, generated, kept } card
    rw [hholds, hholds', cached_eq_generated fold visit (hattached ▸ hcached) (hattached' ▸ hgenerated)]

end Sop
end DsApm
