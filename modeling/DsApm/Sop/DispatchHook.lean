import DsApm.Lib.StepRun
import DsApm.Sop.Selection
import DsApm.Sop.Strategy
/-!
# DispatchHook — an alert gets the strategy of its SOP

The hook binds an alert to an SOP, and writes a strategy into its annotations: the latest that is kept, where it has the
bound version, or one that is generated.  The version is all that is compared, so a strategy of another SOP is used where the
two have one version (`reuse_iff`).  The trigger of an unbound alert and the prior incidents of a request are left out.
-/
namespace DsApm
namespace Sop

open GoStd Latest

def BindingResolution.text : BindingResolution → String
  | .explicitLabel => "explicit_label"
  | .noMatch => "no_match"
  | .labelMatch => "label_match"
  | .fallback => "fallback"

structure BoundDocument where
  displayURL : String
  sourceID : String

/-- A call of `Apply`, and what it meets: the stored documents, the clock, the bound document, whether the history answers,
what is generated, whether that is kept, and what remediation adds. -/
structure ApplyCall where
  orgID : String
  incidentID : String
  alertFingerprint : String
  labels : Labels
  annotations : Annotations
  docs : Option (List SOPDocument)
  now : Time
  doc : Option BoundDocument
  historyOk : Bool
  generated : Option AIStrategy
  kept : Bool
  remediation : Annotations

def mergeStrategyWithSOP (base : Annotations) (strategy : AIStrategy) (doc : BoundDocument) (binding : SOPBindingPreviewResponse) :
    Annotations :=
  [("sop_url", doc.displayURL),
    ("sop_source", doc.sourceID),
    ("sop_title", binding.title),
    ("sop_version", binding.version),
    ("sop_binding_id", binding.resolution.text)].foldl (fun m e => if e.2 = "" then m else m.insert e.1 e.2)
    (mergeAnnotations base (aiStrategyIncidentAnnotations strategy))

/-- What a call does about a strategy: it attaches a cached one for a binding, it generates one, or neither. -/
inductive Attached
  | cached (strategy : AIStrategy) (binding : SOPBindingPreviewResponse)
  | generated (strategy : AIStrategy)
  | unchanged
  deriving DecidableEq

variable (fold : Char → Char) (visit : Visit SOPDocument)

def ApplyCall.bound (r : ApplyCall) : Option (SOPBindingPreviewResponse × BoundDocument) :=
  if r.orgID = "" then none
  else match r.docs with
    | none => none
    | some docs =>
      match previewSOPDocumentBindingAt fold visit docs r.labels r.now with
      | (binding, []) => if binding.status = .bound then r.doc.map fun doc => (binding, doc) else none
      | _ => none

def AIStrategy.reusable (s : AIStrategy) (binding : SOPBindingPreviewResponse) : Bool :=
  !isBlank s.customerUpdateDraft && trimSpace s.sopVersion == trimSpace binding.version && !s.isDeterministicLocal

def apply (h : HistoryStore) (r : ApplyCall) : HistoryStore × Annotations × Attached :=
  match r.bound fold visit with
  | none => (h, r.annotations, .unchanged)
  | some (binding, doc) =>
    let latest := if r.historyOk then h.getLatest r.orgID r.incidentID r.alertFingerprint else none
    match latest.filter (·.reusable binding) with
    | some s => (h, mergeAnnotations (mergeStrategyWithSOP r.annotations s doc binding) r.remediation, .cached s binding)
    | none =>
      match r.generated with
      | none => (h, r.annotations, .unchanged)
      | some s => (if r.kept then h.upsert r.orgID s else h,
          mergeAnnotations (mergeStrategyWithSOP r.annotations s doc binding) r.remediation, .generated s)

/-! ## The calls of a dispatcher -/

structure Fingerprint where
  text : String
  notBlank : isBlank text = false

/-- An alert goes through the hook under its fingerprint, or a preview generates a strategy and keeps it. -/
inductive Action
  | applyAIHook (fingerprint : Fingerprint) (call : ApplyCall)
  | previewAIStrategy (orgID : String) (strategy : AIStrategy)

def Fingerprint.call (fp : Fingerprint) (r : ApplyCall) : ApplyCall := { r with incidentID := fp.text, alertFingerprint := fp.text }

def step (h : HistoryStore) : Action → HistoryStore × Attached
  | .applyAIHook fp r => ((apply fold visit h (fp.call r)).1, (apply fold visit h (fp.call r)).2.2)
  | .previewAIStrategy orgID s => (h.upsert orgID s, .unchanged)

/-! ## What is meant -/

def keeps (h : HistoryStore) : Action → Option (String × AIStrategy)
  | .applyAIHook fp r =>
    match (apply fold visit h (fp.call r)).2.2 with
    | .generated s => if r.kept then some (r.orgID, s) else none
    | _ => none
  | .previewAIStrategy orgID s => some (orgID, s)

def observe (x : HistoryStore × List (String × AIStrategy)) (action : Action) : (HistoryStore × List (String × AIStrategy)) × Attached :=
  (((step fold visit x.1 action).1, (keeps fold visit x.1 action).toList ++ x.2), (step fold visit x.1 action).2)

def lastKept (kept : List (String × AIStrategy)) (orgID incidentID : String) : Option AIStrategy :=
  (kept.find? fun k => decide (k.1 = orgID ∧ k.2.incident = trimSpace incidentID)).map Prod.snd

def Attached.own : Attached → Prop
  | .cached s binding => trimSpace s.sopID = trimSpace binding.sopID ∧ trimSpace s.sopVersion = trimSpace binding.version
  | _ => True

instance : (attached : Attached) → Decidable attached.own
  | .cached s binding => inferInstanceAs (Decidable (trimSpace s.sopID = trimSpace binding.sopID ∧ trimSpace s.sopVersion = trimSpace binding.version))
  | .generated _ => .isTrue trivial
  | .unchanged => .isTrue trivial

/-- An alert is bound to an SOP while the strategy last kept for it is a draft for another SOP, of the same version. -/
def Crossed (kept : List (String × AIStrategy)) : Action → Prop
  | .applyAIHook fp r => ∃ binding doc s, r.bound fold visit = some (binding, doc) ∧ r.historyOk = true ∧
    lastKept kept r.orgID fp.text = some s ∧ s.reusable binding = true ∧ trimSpace s.sopID ≠ trimSpace binding.sopID
  | .previewAIStrategy _ _ => False

/-- **The history answers with what was last kept.** -/
def Answers (x : HistoryStore × List (String × AIStrategy)) : Prop :=
  ∀ orgID (fp : Fingerprint), x.1.getLatest orgID fp.text fp.text = lastKept x.2 orgID fp.text

theorem getLatest_fingerprint (h : HistoryStore) (orgID : String) (fp : Fingerprint) :
    h.getLatest orgID fp.text fp.text = (h.lookup (orgID, trimSpace fp.text)).map HistoryRow.strategy := by
  simp [HistoryStore.getLatest, fp.notBlank]

theorem getLatest_upsert (h : HistoryStore) (orgID : String) (s : AIStrategy) (orgID' : String) (fp : Fingerprint) :
    (h.upsert orgID s).getLatest orgID' fp.text fp.text =
      if orgID = orgID' ∧ s.incident = trimSpace fp.text then some s else h.getLatest orgID' fp.text fp.text := by
  rw [getLatest_fingerprint, getLatest_fingerprint, HistoryStore.upsert, GoMap.lookup_put]
  by_cases hk : orgID = orgID' ∧ s.incident = trimSpace fp.text
  · obtain ⟨rfl, hinc⟩ := hk
    simp [hinc]
  · have hne : ¬(orgID', trimSpace fp.text) = (orgID, s.incident) := fun he => hk ⟨(congrArg Prod.fst he).symm, (congrArg Prod.snd he).symm⟩
    rw [if_neg hne, if_neg hk]

theorem step_keeps (h : HistoryStore) (action : Action) :
    (step fold visit h action).1 = (keeps fold visit h action).elim h fun k => h.upsert k.1 k.2 := by
  cases action with
  | previewAIStrategy orgID s => rfl
  | applyAIHook fp r =>
    unfold step keeps
    dsimp only
    fun_cases apply fold visit h (fp.call r)
    case case4 => cases hk : r.kept <;> simp [Fingerprint.call, hk]
    all_goals rfl

theorem lastKept_cons (k : String × AIStrategy) (kept : List (String × AIStrategy)) (orgID incidentID : String) :
    lastKept (k :: kept) orgID incidentID =
      if k.1 = orgID ∧ k.2.incident = trimSpace incidentID then some k.2 else lastKept kept orgID incidentID := by
  unfold lastKept
  rw [List.find?_cons]
  by_cases hk : k.1 = orgID ∧ k.2.incident = trimSpace incidentID <;> simp [hk]

theorem observe_answers {x : HistoryStore × List (String × AIStrategy)} (action : Action) (hx : Answers x) :
    Answers (observe fold visit x action).1 := by
  intro orgID fp
  unfold observe
  dsimp only
  rw [step_keeps]
  cases keeps fold visit x.1 action with
  | none => exact hx orgID fp
  | some k =>
    rw [Option.elim_some, Option.toList_some, List.singleton_append, getLatest_upsert, lastKept_cons, hx orgID fp]

theorem apply_cached (h : HistoryStore) (r : ApplyCall) (s : AIStrategy) (binding : SOPBindingPreviewResponse) :
    (apply fold visit h r).2.2 = .cached s binding ↔ ∃ doc, r.bound fold visit = some (binding, doc) ∧ r.historyOk = true ∧
      h.getLatest r.orgID r.incidentID r.alertFingerprint = some s ∧ s.reusable binding = true := by
  unfold apply
  cases hb : r.bound fold visit with
  | none => simp
  | some b =>
    obtain ⟨binding', doc⟩ := b
    dsimp only
    cases hl : (if r.historyOk then h.getLatest r.orgID r.incidentID r.alertFingerprint else none).filter (·.reusable binding') with
    | none =>
      dsimp only
      constructor
      · intro he
        split at he <;> cases he
      · rintro ⟨doc', hbd, hok, hs, hr⟩
        cases hbd
        rw [if_pos hok, hs, Option.filter_some, if_pos hr] at hl
        cases hl
    | some s' =>
      obtain ⟨hs', hr'⟩ := Option.filter_eq_some_iff.1 hl
      dsimp only
      constructor
      · intro he
        cases he
        cases hok : r.historyOk with
        | false => rw [hok] at hs'; cases hs'
        | true => rw [hok] at hs'; exact ⟨doc, rfl, rfl, hs', hr'⟩
      · rintro ⟨doc', hbd, hok, hs, hr⟩
        cases hbd
        rw [if_pos hok, hs] at hs'
        cases hs'
        rfl

/-- **One call** attaches its own strategy exactly when it does not cross another SOP. -/
theorem own_iff {x : HistoryStore × List (String × AIStrategy)} (hx : Answers x) (action : Action) :
    (observe fold visit x action).2.own ↔ ¬Crossed fold visit x.2 action := by
  cases action with
  | previewAIStrategy orgID s => simp [observe, step, Attached.own, Crossed]
  | applyAIHook fp r =>
    have hcached := apply_cached fold visit x.1 (fp.call r)
    have hlast : x.1.getLatest r.orgID fp.text fp.text = lastKept x.2 r.orgID fp.text := hx r.orgID fp
    constructor
    · rintro hown ⟨binding, doc, s, hb, hok, hs, hr, hne⟩
      have : (apply fold visit x.1 (fp.call r)).2.2 = .cached s binding := (hcached s binding).2 ⟨doc, hb, hok, hlast.trans hs, hr⟩
      simp only [observe, step, this, Attached.own] at hown
      exact hne hown.1
    · intro hcross
      show (apply fold visit x.1 (fp.call r)).2.2.own
      cases ha : (apply fold visit x.1 (fp.call r)).2.2 with
      | cached s binding =>
        obtain ⟨doc, hb, hok, hs, hr⟩ := (hcached s binding).1 ha
        refine ⟨?_, ?_⟩
        · by_contra hne
          exact hcross ⟨binding, doc, s, hb, hok, hlast.symm.trans hs, hr, hne⟩
        · simp only [AIStrategy.reusable, Bool.and_eq_true, beq_iff_eq] at hr
          exact hr.1.2
      | generated s => trivial
      | unchanged => trivial

/-- **AI strategy reuse**, over every history. -/
theorem reuse_iff (actions : List Action) :
    (∀ x ∈ StepRun.trace (observe fold visit) (∅, []) actions, x.2.2.own) ↔
      ∀ x ∈ StepRun.trace (observe fold visit) (∅, []) actions, ¬Crossed fold visit x.1.2 x.2.1 := by
  refine forall₂_congr fun x hx => ?_
  obtain ⟨pre, post, -, hpre, hout⟩ := (StepRun.mem_trace _ _ _ _).1 hx
  have hans : Answers x.1 := by
    rw [hpre]
    exact StepRun.final_inv (observe fold visit) Answers (fun _ _ => True) (fun x action _ hx => observe_answers fold visit action hx)
      pre _ (fun _ _ => trivial) (fun orgID fp => by rw [getLatest_fingerprint]; rfl)
  rw [hout]
  exact own_iff fold visit hans x.2.1

def draft (sopID : String) : AIStrategy :=
  ⟨"s", "00000000000000a1", "00000000000000a1", "low_confidence", sopID, "1", "", [], "We restart the service.", "", "", "low", [],
    ["no evidence refs were available; confidence downgraded."], "llm", "2026-05-12T00:00:00Z"⟩

def alertUnder (sopID : String) : Action :=
  .applyAIHook ⟨"00000000000000a1", by decide⟩
    ⟨"p", "", "", criticalLabels, ∅, some [criticalSop sopID], 0, some ⟨"", "git"⟩, true, some (draft sopID), true, ∅⟩

/-- The alert is bound to one SOP and then to another of the same version: it gets the first one's draft. -/
theorem reused_across : ¬∀ x ∈ StepRun.trace (observe toLower anyOrder) (∅, []) [alertUnder "A", alertUnder "B"], x.2.2.own := by
  decide

end Sop
end DsApm
