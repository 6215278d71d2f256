import DsApm.Lib.SqlTable
import DsApm.Remediation.Execution
/-!
# Store — the remediation tables

`pkg/ruler/remediationstore/sqlremediationstore/store.go`.  Each function below is one statement on
`ds_remediation_execution` (or one `SELECT` on `ds_remediation_config`); whether the database answers at all is decided
by whoever runs it.  `Transition` of the source is two statements with the caller free to be overtaken between them, so
it is two functions here: `get`, whose row is checked by `validateRemediationStatusTransition`, and `transitionUpdate`.
-/
namespace DsApm
namespace Remediation

open SqlTable SqlTable.Table

abbrev Executions := Table String RemediationExecution (fun e => e.id)

inductive CreateError where
  | invalid (errs : List String)
  | duplicateKey
  deriving DecidableEq, Repr

def create (t : Executions) (e : RemediationExecution) : Executions × Option CreateError :=
  if validateRemediationExecution e = [] then match t.insert? e with
    | some t' => (t', none)
    | none => (t, some .duplicateKey)
  else (t, some (.invalid (validateRemediationExecution e)))

def get (t : Executions) (orgID id : String) : Option RemediationExecution :=
  (t.find? id).filter (fun e => decide (e.orgID = orgID))

def listByStatus (t : Executions) (orgID : String) (status : RemediationStatus) : List RemediationExecution :=
  (t.rows.filter (fun e => decide (e.orgID = orgID) && decide (e.status = status))).insertionSort
    (fun a b => a.proposedAt.getD 0 ≤ b.proposedAt.getD 0)

def isExecuting (orgID : String) (e : RemediationExecution) : Bool :=
  decide (e.orgID = orgID) && decide (e.status = .executing)

def countActiveByOrg (t : Executions) (orgID : String) : Nat := t.count (isExecuting orgID)

def isActive (orgID fingerprint : String) (e : RemediationExecution) : Bool :=
  decide (e.orgID = orgID) && decide (e.alertFingerprint = fingerprint) && !e.status.terminal

def listActiveByFingerprint (t : Executions) (orgID fingerprint : String) : List RemediationExecution :=
  (t.rows.filter (isActive orgID fingerprint)).insertionSort (fun a b => b.proposedAt.getD 0 ≤ a.proposedAt.getD 0)

def markExecuting (approvedBy : String) (approvedAt : Stamp) (e : RemediationExecution) : RemediationExecution :=
  { e with status := .executing, approvedBy := approvedBy, approvedAt := approvedAt, executedAt := approvedAt }

theorem id_markExecuting (approvedBy : String) (approvedAt : Stamp) (e : RemediationExecution) :
    (markExecuting approvedBy approvedAt e).id = e.id := rfl

/-- `Store.TransitionToExecuting`: one statement, the cap in its condition. -/
def transitionToExecuting (t : Executions) (orgID id approvedBy : String) (approvedAt : Stamp) (maxConcurrent : Int) :
    Executions × Bool :=
  let guard := fun (e : RemediationExecution) => decide (e.id = id) &&
    (decide (e.orgID = orgID) && decide (e.status = .proposed) && decide ((countActiveByOrg t orgID : Int) < maxConcurrent))
  (t.update guard (markExecuting approvedBy approvedAt) (id_markExecuting approvedBy approvedAt),
    decide (t.count guard = 1))

structure TransitionPatch where
  terminalAt : Stamp := none
  exitCode : Option Int := none
  outputSnippet : String := ""
  verifyResult : Option RemediationStatus := none
  executedAt : Stamp := none
  deriving DecidableEq, Repr

def TransitionPatch.apply (p : TransitionPatch) (to_ : RemediationStatus) (e : RemediationExecution) :
    RemediationExecution :=
  { e with
    status := to_
    terminalAt := p.terminalAt.or e.terminalAt
    exitCode := p.exitCode.or e.exitCode
    outputSnippet := if p.outputSnippet = "" then e.outputSnippet else p.outputSnippet
    verifyResult := p.verifyResult.or e.verifyResult
    executedAt := p.executedAt.or e.executedAt }

theorem TransitionPatch.id_apply (p : TransitionPatch) (to_ : RemediationStatus) (e : RemediationExecution) :
    (p.apply to_ e).id = e.id := rfl

/-- The `UPDATE` of `Store.Transition`, guarded by the status the `SELECT` read; whether it reached a row. -/
def transitionUpdate (t : Executions) (orgID id : String) (from_ to_ : RemediationStatus) (patch : TransitionPatch) :
    Executions × Bool :=
  let guard := fun (e : RemediationExecution) => decide (e.id = id) &&
    (decide (e.orgID = orgID) && decide (e.status = from_))
  (t.update guard (patch.apply to_) (patch.id_apply to_), decide (t.count guard ≠ 0))

/-! ## What each statement does -/

theorem get_eq_some (t : Executions) (orgID id : String) (e : RemediationExecution) :
    get t orgID id = some e ↔ t.find? id = some e ∧ e.orgID = orgID := by
  unfold get
  rw [Option.filter_eq_some_iff]
  simp

theorem create_cases (t : Executions) (e : RemediationExecution) :
    ((create t e).1 = t ∧ (create t e).2 ≠ none) ∨ (t.insert? e = some (create t e).1 ∧ (create t e).2 = none) := by
  unfold create
  split
  · split
    · rename_i t' hi; exact .inr ⟨hi, rfl⟩
    · exact .inl ⟨rfl, nofun⟩
  · exact .inl ⟨rfl, nofun⟩

/-- **`TransitionToExecuting` either changes nothing, or moves the one proposed row while the org is under the cap.** -/
theorem transitionToExecuting_cases (t : Executions) (orgID id approvedBy : String) (at_ : Stamp) (cap : Int) :
    ((transitionToExecuting t orgID id approvedBy at_ cap) = (t, false)) ∨
    ((transitionToExecuting t orgID id approvedBy at_ cap).2 = true ∧ (countActiveByOrg t orgID : Int) < cap ∧
      ∃ e, e.orgID = orgID ∧ e.status = .proposed ∧
        Replaced t (transitionToExecuting t orgID id approvedBy at_ cap).1 id e (markExecuting approvedBy at_ e)) := by
  unfold transitionToExecuting
  dsimp only
  have hcount := count_key t id (fun e => decide (e.orgID = orgID) && decide (e.status = .proposed) &&
    decide ((countActiveByOrg t orgID : Int) < cap))
  by_cases h : ∃ e, t.find? id = some e ∧ e.orgID = orgID ∧ e.status = .proposed ∧ (countActiveByOrg t orgID : Int) < cap
  · obtain ⟨e, he, horg, hst, hlt⟩ := h
    have hp : (decide (e.orgID = orgID) && decide (e.status = .proposed) &&
        decide ((countActiveByOrg t orgID : Int) < cap)) = true := by simp [horg, hst, hlt]
    rw [he] at hcount
    simp only [hp, if_true] at hcount
    exact .inr ⟨by rw [hcount]; rfl, hlt, e, horg, hst, replaced_update t id _ _ _ he hp⟩
  · have hmiss : ∀ e, t.find? id = some e → (decide (e.orgID = orgID) && decide (e.status = .proposed) &&
        decide ((countActiveByOrg t orgID : Int) < cap)) ≠ true := by
      intro e he hc
      simp only [Bool.and_eq_true, decide_eq_true_eq] at hc
      exact h ⟨e, he, hc.1.1, hc.1.2, hc.2⟩
    refine .inl ?_
    rw [update_key_of_miss t id _ _ _ hmiss, hcount]
    cases he : t.find? id with
    | none => rfl
    | some e => simp only [hmiss e he]; rfl

/-- **The guarded `UPDATE` either reaches no row, or replaces the row that still has the status it read.** -/
theorem transitionUpdate_cases (t : Executions) (orgID id : String) (from_ to_ : RemediationStatus)
    (patch : TransitionPatch) :
    (transitionUpdate t orgID id from_ to_ patch = (t, false) ∧
      ∀ e, t.find? id = some e → e.orgID = orgID → e.status ≠ from_) ∨
    ((transitionUpdate t orgID id from_ to_ patch).2 = true ∧ ∃ e, e.orgID = orgID ∧ e.status = from_ ∧
      Replaced t (transitionUpdate t orgID id from_ to_ patch).1 id e (patch.apply to_ e)) := by
  unfold transitionUpdate
  dsimp only
  have hcount := count_key t id (fun e => decide (e.orgID = orgID) && decide (e.status = from_))
  by_cases h : ∃ e, t.find? id = some e ∧ e.orgID = orgID ∧ e.status = from_
  · obtain ⟨e, he, horg, hst⟩ := h
    have hp : (decide (e.orgID = orgID) && decide (e.status = from_)) = true := by simp [horg, hst]
    rw [he] at hcount
    simp only [hp, if_true] at hcount
    exact .inr ⟨by rw [hcount]; rfl, e, horg, hst, replaced_update t id _ _ _ he hp⟩
  · have hmiss : ∀ e, t.find? id = some e → (decide (e.orgID = orgID) && decide (e.status = from_)) ≠ true := by
      intro e he hc
      simp only [Bool.and_eq_true, decide_eq_true_eq] at hc
      exact h ⟨e, he, hc.1, hc.2⟩
    refine .inl ⟨?_, fun e he horg hst => h ⟨e, he, horg, hst⟩⟩
    rw [update_key_of_miss t id _ _ _ hmiss, hcount]
    cases he : t.find? id with
    | none => rfl
    | some e => simp only [hmiss e he]; rfl

theorem mem_listByStatus (t : Executions) (orgID : String) (status : RemediationStatus) (e : RemediationExecution) :
    e ∈ listByStatus t orgID status ↔ t.find? e.id = some e ∧ e.orgID = orgID ∧ e.status = status := by
  unfold listByStatus
  rw [List.mem_insertionSort, List.mem_filter, find?_eq_some]
  simp

theorem listActiveByFingerprint_eq_nil (t : Executions) (orgID fingerprint : String) :
    listActiveByFingerprint t orgID fingerprint = [] ↔ t.count (isActive orgID fingerprint) = 0 := by
  unfold listActiveByFingerprint
  rw [← List.length_eq_zero_iff, List.length_insertionSort, ← List.countP_eq_length_filter]
  rfl

end Remediation
end DsApm
