import DsApm.Lib.JsonValue
import DsApm.Remediation.Proposal
/-!
# Selection — a model's answer and the runbook it names

`selector_parse.go` and `createExecution` of `selector.go`.  The validator reads the outcome and the runbook's id without the
blanks around them and hands them on as they are written; the outcome switch and `findRunbook` compare what is written.  So an
accepted answer is carried out exactly when it is written without those blanks (`agreement_iff`).
-/
namespace DsApm
namespace Remediation

open GoStd Json

/-- The decoded response; what only the validator's caller reads is beside the decision. -/
structure SelectionResponse extends RunbookSelectionDecision where
  contractVersion : String := ""
  limitations : List String := []
  deriving DecidableEq, Repr

inductive SelectionError where
  | noObject
  | unmarshal
  | invalid (errs : List String)
  deriving DecidableEq, Repr

def onDecision (get : RunbookSelectionDecision → String) (set : RunbookSelectionDecision → String → RunbookSelectionDecision) :
    Decoder SelectionResponse :=
  .of (fun r => get r.toRunbookSelectionDecision)
    (fun r s => { r with toRunbookSelectionDecision := set r.toRunbookSelectionDecision s }) .text

def selectionFields : List (String × Decoder SelectionResponse) :=
  [("contractVersion", .of SelectionResponse.contractVersion (fun r s => { r with contractVersion := s }) .text),
    ("outcome", onDecision RunbookSelectionDecision.outcome fun d s => { d with outcome := s }),
    ("chosenRunbookId", onDecision RunbookSelectionDecision.chosenRunbookID fun d s => { d with chosenRunbookID := s }),
    ("confidence", onDecision RunbookSelectionDecision.confidence fun d s => { d with confidence := s }),
    ("rationale", onDecision RunbookSelectionDecision.rationale fun d s => { d with rationale := s }),
    ("fallbackScript", onDecision RunbookSelectionDecision.fallbackScript fun d s => { d with fallbackScript := s }),
    ("fallbackSummary", onDecision RunbookSelectionDecision.fallbackSummary fun d s => { d with fallbackSummary := s }),
    ("limitations", .of SelectionResponse.limitations (fun r l => { r with limitations := l }) (.slice "" .text))]

def trimPrefix (pre s : List Char) : List Char := if pre.isPrefixOf s then s.drop pre.length else s

def trimSuffix (suf s : List Char) : List Char := (trimPrefix suf.reverse s.reverse).reverse

def extractJSONObject (raw : String) : Option (List Char) :=
  let s := trimPrefix "```".toList (trimPrefix "```json".toList (trimSpace raw).toList)
  Search.span '\x7b' '\x7d' (trimSuffix "```".toList s)

def decodeSelection (raw : String) : Except SelectionError SelectionResponse :=
  match extractJSONObject raw with
  | none => .error .noObject
  | some body =>
    match unmarshal (.record selectionFields) { outcome := "", confidence := "" } body with
    | none => .error .unmarshal
    | some d => .ok (if isBlank d.contractVersion then { d with contractVersion := "ds.runbook_selection.v1" } else d)

def parseSelectionResponse (raw : String) (approvedRunbookIDs : List String) : Except SelectionError SelectionResponse :=
  match decodeSelection raw with
  | .error e => .error e
  | .ok d =>
    match validateRunbookSelectionDecision d.toRunbookSelectionDecision approvedRunbookIDs with
    | .error errs => .error (.invalid errs)
    | .ok v => .ok { d with toRunbookSelectionDecision := v }

/-- The execution `createExecution` stores, if the outcome switch gives one; `hit` is the target the labels resolve to. -/
def createExecution (r : AlertRequest) (cfg : RemediationConfig) (hit : Option RemediationTarget) (now : Time) (id : String)
    (d : RunbookSelectionDecision) : Option RemediationExecution :=
  (chooseScript (approvedRunbooks r.doc) d).map fun c => (freezeTargetSnapshot hit (newProposal r cfg c now id)).execution

def carryOut (r : AlertRequest) (cfg : RemediationConfig) (hit : Option RemediationTarget) (now : Time) (id : String)
    (d : RunbookSelectionDecision) : Option RemediationExecution :=
  if d.isActionable then createExecution r cfg hit now id d else none

theorem actionable_decodeSelection (approved : List Runbook) (raw : String) :
    actionable approved ((decodeSelection raw).toOption.map SelectionResponse.toRunbookSelectionDecision) =
      ((parseSelectionResponse raw (approved.map Runbook.id)).toOption.map
        SelectionResponse.toRunbookSelectionDecision).filter RunbookSelectionDecision.isActionable := by
  unfold parseSelectionResponse
  cases decodeSelection raw with
  | error e => rfl
  | ok d =>
    simp only [Except.toOption, Option.map_some, actionable]
    cases validateRunbookSelectionDecision d.toRunbookSelectionDecision (approved.map Runbook.id) with
    | error errs => rfl
    | ok v => rfl

/-! ## What the validator accepts -/

structure Admissible (d : RunbookSelectionDecision) : Prop where
  outcome : pilotRequireAllowed "outcome" d.outcome ["selected", "fallback", "none"] = []
  confidence : pilotRequireAllowed "confidence" d.confidence ["high", "medium", "low"] = []
  rationale : pilotAppendSecretLikeStringErrors "rationale" d.rationale = []
  summary : pilotAppendSecretLikeStringErrors "fallbackSummary" d.fallbackSummary = []

structure Completed (ids : List String) (d : RunbookSelectionDecision) : Prop where
  selected : d.outcome = "selected" → isBlank d.chosenRunbookID = false ∧ trimSpace d.chosenRunbookID ∈ ids
  fallback : d.outcome = "fallback" → fallbackErrors d.fallbackScript = []

def checkTexts (d : RunbookSelectionDecision) : Except (List String) RunbookSelectionDecision :=
  let errs := pilotAppendSecretLikeStringErrors "rationale" d.rationale ++
    pilotAppendSecretLikeStringErrors "fallbackSummary" d.fallbackSummary
  if errs = [] then .ok d else .error errs

theorem checkTexts_eq_ok {d v : RunbookSelectionDecision} : checkTexts d = .ok v ↔
    v = d ∧ pilotAppendSecretLikeStringErrors "rationale" d.rationale = [] ∧
      pilotAppendSecretLikeStringErrors "fallbackSummary" d.fallbackSummary = [] := by
  rw [checkTexts, ← List.append_eq_nil_iff]
  split
  · rename_i h
    simp [h, eq_comm]
  · rename_i h
    simp [h]

theorem validate_of_completed {ids : List String} {d : RunbookSelectionDecision} (ha : Admissible d) (hc : Completed ids d) :
    validateRunbookSelectionDecision d ids = .ok d := by
  unfold validateRunbookSelectionDecision
  simp only [ha.outcome, ha.confidence, ha.rationale, ha.summary, List.append_nil, ne_eq, not_true_eq_false, if_false, if_true]
  by_cases hs : d.outcome = "selected"
  · obtain ⟨hblank, hmem⟩ := hc.selected hs
    simp [hs, hblank, hmem]
  · by_cases hf : d.outcome = "fallback"
    · simp [hf, hc.fallback hf]
    · simp [hs, hf]

/-- **What is accepted** is what was given, or it is demoted. -/
theorem validate_cases {ids : List String} {d v : RunbookSelectionDecision}
    (h : validateRunbookSelectionDecision d ids = .ok v) : v.outcome = "none" ∨ (v = d ∧ Admissible d ∧ Completed ids d) := by
  unfold validateRunbookSelectionDecision at h
  by_cases herrs : pilotRequireAllowed "outcome" d.outcome ["selected", "fallback", "none"] ++
      pilotRequireAllowed "confidence" d.confidence ["high", "medium", "low"] = []
  · obtain ⟨hout, hconf⟩ := List.append_eq_nil_iff.1 herrs
    have hkept : checkTexts d = .ok v → Completed ids d → v = d ∧ Admissible d ∧ Completed ids d := fun ht hc =>
      have ⟨hv, hr, hsum⟩ := checkTexts_eq_ok.1 ht
      ⟨hv, ⟨hout, hconf, hr, hsum⟩, hc⟩
    rw [if_neg (not_not.2 herrs)] at h
    by_cases hs : d.outcome = "selected"
    · rw [if_pos hs] at h
      have hnf : d.outcome ≠ "fallback" := fun hf => absurd (hs.symm.trans hf) (by decide)
      by_cases hblank : isBlank d.chosenRunbookID = true
      · rw [if_pos hblank] at h
        cases h
      · rw [if_neg hblank] at h
        by_cases hmem : ids.contains (trimSpace d.chosenRunbookID) = true
        · rw [if_pos hmem] at h
          exact .inr (hkept h ⟨fun _ => ⟨by simpa using hblank, by simpa using hmem⟩, fun hf => absurd hf hnf⟩)
        · rw [if_neg hmem] at h
          have hdemoted : checkTexts { outcome := "none", confidence := d.confidence } = .ok v := h
          exact .inl (congrArg RunbookSelectionDecision.outcome (checkTexts_eq_ok.1 hdemoted).1)
    · rw [if_neg hs] at h
      by_cases hf : d.outcome = "fallback"
      · rw [if_pos hf] at h
        by_cases herr : fallbackErrors d.fallbackScript = []
        · rw [if_neg (not_not.2 herr)] at h
          exact .inr (hkept h ⟨fun h => absurd h hs, fun _ => herr⟩)
        · rw [if_pos herr] at h
          cases h
      · rw [if_neg hf] at h
        exact .inr (hkept h ⟨fun h => absurd h hs, fun h => absurd h hf⟩)
  · rw [if_pos herrs] at h
    cases h

/-! ## Agreement -/

section Agreement

variable (r : AlertRequest) (cfg : RemediationConfig) (hit : Option RemediationTarget) (now : Time) (id : String)

/-- A decision for a runbook proposes the script of the approved runbook it names, and one for its own script proposes it,
unless the static gate blocks it. -/
structure Carried (d : RunbookSelectionDecision) : Prop where
  selected : trimSpace d.outcome = "selected" → ∃ rb ∈ r.doc.runbooks, rb.usable = true ∧
    rb.id = trimSpace d.chosenRunbookID ∧ ∃ e, carryOut r cfg hit now id d = some e ∧ e.runbookID = rb.id ∧
      e.scriptSnapshot = rb.executableScript
  fallback : trimSpace d.outcome = "fallback" → checkLLMScript d.fallbackScript = none →
    ∃ e, carryOut r cfg hit now id d = some e ∧ e.scriptSnapshot = d.fallbackScript

def Agreement (raw : String) : Prop :=
  ∀ d, parseSelectionResponse raw ((approvedRunbooks r.doc).map Runbook.id) = .ok d →
    Carried r cfg hit now id d.toRunbookSelectionDecision

/-- The outcome has no blanks around it, and the id of an approved runbook has none. -/
structure Spelled (ids : List String) (d : RunbookSelectionDecision) : Prop where
  selected : trimSpace d.outcome = "selected" → d.outcome = "selected"
  fallback : trimSpace d.outcome = "fallback" → checkLLMScript d.fallbackScript = none → d.outcome = "fallback"
  id : d.outcome = "selected" → isBlank d.chosenRunbookID = false → trimSpace d.chosenRunbookID ∈ ids →
    d.chosenRunbookID = trimSpace d.chosenRunbookID

variable {r cfg hit now id}

theorem freeze_snapshot (p : Proposal) : (freezeTargetSnapshot hit p).execution.runbookID = p.runbookID ∧
    (freezeTargetSnapshot hit p).execution.scriptSnapshot = p.scriptSnapshot := by
  cases hit <;> exact ⟨rfl, rfl⟩

theorem createExecution_eq_some {d : RunbookSelectionDecision} {e : RemediationExecution}
    (h : createExecution r cfg hit now id d = some e) :
    ∃ c, chooseScript (approvedRunbooks r.doc) d = some c ∧ e.runbookID = c.runbookID ∧ e.scriptSnapshot = c.script := by
  obtain ⟨c, hc, rfl⟩ := Option.map_eq_some_iff.1 h
  exact ⟨c, hc, freeze_snapshot _⟩

theorem carryOut_of_chooseScript {d : RunbookSelectionDecision} {c : Choice} (ha : d.isActionable = true)
    (h : chooseScript (approvedRunbooks r.doc) d = some c) :
    ∃ e, carryOut r cfg hit now id d = some e ∧ e.runbookID = c.runbookID ∧ e.scriptSnapshot = c.script := by
  refine ⟨(freezeTargetSnapshot hit (newProposal r cfg c now id)).execution, ?_, freeze_snapshot _⟩
  rw [carryOut, if_pos ha, createExecution, h]
  rfl

theorem outcome_of_carryOut {d : RunbookSelectionDecision} {e : RemediationExecution} (h : carryOut r cfg hit now id d = some e) :
    d.outcome = "selected" ∨ d.outcome = "fallback" := by
  by_cases hs : d.outcome = "selected"
  · exact .inl hs
  · by_cases hf : d.outcome = "fallback"
    · exact .inr hf
    · simp [carryOut, RunbookSelectionDecision.isActionable, hs, hf] at h

theorem carried_of_spelled {d : RunbookSelectionDecision} (hc : Completed ((approvedRunbooks r.doc).map Runbook.id) d)
    (h : Spelled ((approvedRunbooks r.doc).map Runbook.id) d) : Carried r cfg hit now id d := by
  refine ⟨fun hs => ?_, fun hf hgate => ?_⟩
  · have hout := h.selected hs
    obtain ⟨hblank, hmem⟩ := hc.selected hout
    have hid := h.id hout hblank hmem
    obtain ⟨rb, hrb⟩ : ∃ rb, findRunbook (approvedRunbooks r.doc) d.chosenRunbookID = some rb := by
      obtain ⟨rb, hin, hrb⟩ := List.mem_map.1 hmem
      refine Option.isSome_iff_exists.1 (List.find?_isSome.2 ⟨rb, hin, ?_⟩)
      simpa using hrb.trans hid.symm
    have hin := List.mem_filter.1 (List.mem_of_find?_eq_some hrb)
    have heq : rb.id = d.chosenRunbookID := by simpa using List.find?_some hrb
    have hact : d.isActionable = true := by simp [RunbookSelectionDecision.isActionable, hout, hblank]
    have hchoice : chooseScript (approvedRunbooks r.doc) d = some ⟨rb.id, rb.executableScript, .runbook, trimSpace rb.title,
        truncate (trimSpace d.rationale) 50000⟩ := by
      simp [chooseScript, hout, hrb]
    obtain ⟨e, he, heid, hscript⟩ := carryOut_of_chooseScript hact hchoice
    exact ⟨rb, hin.1, hin.2, heq.trans hid, e, he, heid, hscript⟩
  · have hout := h.fallback hf hgate
    have hblank : isBlank d.fallbackScript = false := by
      cases hb : isBlank d.fallbackScript with
      | false => rfl
      | true =>
        have herrs := hc.fallback hout
        simp [fallbackErrors, hb] at herrs
    have hact : d.isActionable = true := by simp [RunbookSelectionDecision.isActionable, hout, hblank]
    have hchoice : chooseScript (approvedRunbooks r.doc) d = some ⟨"", d.fallbackScript, .llmGenerated,
        trimSpace d.fallbackSummary, truncate (trimSpace d.rationale) 50000⟩ := by
      simp [chooseScript, hout, hgate]
    obtain ⟨e, he, -, hscript⟩ := carryOut_of_chooseScript hact hchoice
    exact ⟨e, he, hscript⟩

theorem spelled_of_carried {d : RunbookSelectionDecision}
    (h : Completed ((approvedRunbooks r.doc).map Runbook.id) d → Carried r cfg hit now id d) :
    Spelled ((approvedRunbooks r.doc).map Runbook.id) d := by
  have hpadded : d.outcome ≠ "selected" → d.outcome ≠ "fallback" → Carried r cfg hit now id d :=
    fun hs hf => h ⟨fun h => absurd h hs, fun h => absurd h hf⟩
  refine ⟨fun hs => ?_, fun hf hgate => ?_, fun hout hblank hmem => ?_⟩
  · by_contra hne
    have hnf : d.outcome ≠ "fallback" := fun hf => absurd (hf ▸ hs) (by decide)
    obtain ⟨rb, -, -, -, e, he, -⟩ := (hpadded hne hnf).selected hs
    exact (outcome_of_carryOut he).elim hne hnf
  · by_contra hne
    have hns : d.outcome ≠ "selected" := fun hs => absurd (hs ▸ hf) (by decide)
    obtain ⟨e, he, -⟩ := (hpadded hns hne).fallback hf hgate
    exact (outcome_of_carryOut he).elim hns hne
  · have hcompleted : Completed ((approvedRunbooks r.doc).map Runbook.id) d :=
      ⟨fun _ => ⟨hblank, hmem⟩, fun hf => absurd (hout.symm.trans hf) (by decide)⟩
    obtain ⟨rb, -, -, hname, e, he, heid, -⟩ := (h hcompleted).selected (by rw [hout]; decide)
    have hact : d.isActionable = true := by simp [RunbookSelectionDecision.isActionable, hout, hblank]
    rw [carryOut, if_pos hact] at he
    obtain ⟨c, hc, hcid, -⟩ := createExecution_eq_some he
    simp only [chooseScript, hout, if_true] at hc
    obtain ⟨found, hfound, rfl⟩ := Option.map_eq_some_iff.1 hc
    have hraw : found.id = d.chosenRunbookID := by simpa using List.find?_some hfound
    calc d.chosenRunbookID = found.id := hraw.symm
      _ = e.runbookID := hcid.symm
      _ = trimSpace d.chosenRunbookID := heid.trans hname

/-- **Runbook selection agreement**: the lookup and the outcome switch carry out every accepted decision exactly when what is
accepted is written without blanks around it. -/
theorem agreement_iff (r : AlertRequest) (cfg : RemediationConfig) (hit : Option RemediationTarget) (now : Time) (id raw : String) :
    Agreement r cfg hit now id raw ↔ ∀ d, decodeSelection raw = .ok d → Admissible d.toRunbookSelectionDecision →
      Spelled ((approvedRunbooks r.doc).map Runbook.id) d.toRunbookSelectionDecision := by
  constructor
  · intro h d hd ha
    have hcarried (hc : Completed ((approvedRunbooks r.doc).map Runbook.id) d.toRunbookSelectionDecision) :
        Carried r cfg hit now id d.toRunbookSelectionDecision := by
      refine h d ?_
      unfold parseSelectionResponse
      simp only [hd, validate_of_completed ha hc]
    exact spelled_of_carried hcarried
  · intro h p hp
    unfold parseSelectionResponse at hp
    cases hd : decodeSelection raw with
    | error e => simp [hd] at hp
    | ok d =>
      rw [hd] at hp
      dsimp only at hp
      cases hv : validateRunbookSelectionDecision d.toRunbookSelectionDecision ((approvedRunbooks r.doc).map Runbook.id) with
      | error errs => simp [hv] at hp
      | ok v =>
        rw [hv] at hp
        cases hp
        rcases validate_cases hv with hnone | ⟨rfl, ha, hc⟩
        · have hne : ∀ o, trimSpace v.outcome = o → o = "none" := by
            rintro o rfl
            rw [hnone]
            decide
          exact ⟨fun hs => absurd (hne "selected" hs) (by decide), fun hf => absurd (hne "fallback" hf) (by decide)⟩
        · exact carried_of_spelled hc (h d hd ha)

end Agreement

def oneRunbook : AlertRequest :=
  { orgID := "o", incidentID := "i", alertFingerprint := "f",
    doc := { sopID := "sop-1", version := "v1",
             runbooks := [{ id := "rb-1", title := "Restart", executableScript := "restart api", status := .approved }] } }

def paddedAnswer : String := "\x7b\"outcome\":\"selected\",\"chosenRunbookId\":\" rb-1\",\"confidence\":\"high\"\x7d"

/-- The answer is accepted, and nothing comes of it. -/
theorem padded_id_dropped : ¬Agreement oneRunbook defaultRemediationConfig none 0 "id" paddedAnswer := by
  intro h
  have hparsed : parseSelectionResponse paddedAnswer ["rb-1"] = .ok
      { outcome := "selected", chosenRunbookID := " rb-1", confidence := "high",
        contractVersion := "ds.runbook_selection.v1" } := by
    decide +kernel
  obtain ⟨rb, -, -, -, e, he, -⟩ := (h _ hparsed).selected (by decide)
  have hdropped : carryOut oneRunbook defaultRemediationConfig none 0 "id"
      { outcome := "selected", chosenRunbookID := " rb-1", confidence := "high" } = none := by
    decide +kernel
  exact absurd (hdropped.symm.trans he) nofun

end Remediation
end DsApm
