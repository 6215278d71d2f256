import DsApm.Rules.Delivery
/-!
# CopyState — what an edited rule keeps of its alerts

`editTask` stops the old task and lets the new one copy its state.  A task copies from a task of its own type only, and
of its rules those that are of the type it was written for: a `RuleTask` copies threshold rules, a `PromRuleTask` prom
rules.  Anomaly rules run on a `RuleTask`, which passes them over; and the error of `CopyState` is dropped.
-/
namespace DsApm
namespace Rules

open StepRun GoMap List Option

inductive TaskType where
  | ch | prom
  deriving DecidableEq, Repr

structure RunningRule (V : Type) where
  rule : Rule V
  state : RuleState V
  handledRestart : Bool

structure RuleTask (V : Type) where
  type : TaskType
  frequency : Int
  rules : List (RunningRule V)

/-- What the constructor of a rule makes of a posted rule, and the frequency of its evaluation. -/
structure PreparedRule (V : Type) where
  rule : Rule V
  frequency : Int

section
variable {V : Type}

def labelsString (ls : Labels) : String :=
  "\x7b" ++ ", ".intercalate (ls.map (fun l => l.1 ++ "=" ++ GoStd.quote l.2)) ++ "\x7d"

def nameAndLabels (r : Rule V) : String := r.name ++ labelsString r.labels

def RuleKind.taskType : RuleKind → TaskType
  | .threshold => .ch
  | .prom => .prom
  | .anomaly => .ch

def TaskType.copies : TaskType → RuleKind
  | .ch => .threshold
  | .prom => .prom

def newRule (r : Rule V) : RunningRule V := { rule := r, state := RuleState.init V, handledRestart := false }

def prepareTask (p : PreparedRule V) : RuleTask V :=
  { type := p.rule.kind.taskType, frequency := if p.frequency = 0 then Calendar.minute else p.frequency
    rules := [newRule p.rule] }

def copyRule (t : TaskType) (ar far : RunningRule V) : RunningRule V :=
  if ar.rule.kind = t.copies ∧ far.rule.kind = t.copies then
    { ar with
      state := { ar.state with active := copyInto far.state.active ar.state.active }
      handledRestart := far.handledRestart }
  else ar

def ruleMap (rules : List (RunningRule V)) (key : String) : List (RunningRule V) :=
  rules.filter (fun far => nameAndLabels far.rule = key)

/-- Rules of one name and labels are matched the first with the first, the second with the second. -/
def copyRules (t : TaskType) : (String → List (RunningRule V)) → List (RunningRule V) → List (RunningRule V)
  | _, [] => []
  | ruleMap, ar :: rules =>
    match ruleMap (nameAndLabels ar.rule) with
    | [] => ar :: copyRules t ruleMap rules
    | far :: fars => copyRule t ar far :: copyRules t (Function.update ruleMap (nameAndLabels ar.rule) fars) rules

def RuleTask.copyState (g old : RuleTask V) : Option (RuleTask V) :=
  if g.type = old.type then some { g with rules := copyRules g.type (ruleMap old.rules) g.rules } else none

abbrev TaskMap (V : Type) := GoMap String (RuleTask V)

def TaskMap.addTask (tasks : TaskMap V) (taskName : String) : Option (PreparedRule V) → TaskMap V × Bool
  | none => (tasks, false)
  | some p =>
    match tasks.lookup taskName with
    | some _ => (tasks, false)
    | none => (tasks.insert taskName (prepareTask p), true)

/-- The error of `CopyState` is not looked at. -/
def TaskMap.editTask (tasks : TaskMap V) (taskName : String) : Option (PreparedRule V) → TaskMap V × Bool
  | none => (tasks, false)
  | some p =>
    let newTask := prepareTask p
    (tasks.insert taskName (match tasks.lookup taskName with
      | some oldTask => (newTask.copyState oldTask).getD newTask
      | none => newTask), true)

inductive TaskCall (V : Type) where
  | add (taskName : String) (p : Option (PreparedRule V))
  | edit (taskName : String) (p : Option (PreparedRule V))
  | delete (taskName : String)
  /-- A tick of the task; `recorded` is whether the history takes the items. -/
  | evaluate (taskName : String) (x : TickInput V) (recorded : Bool)

end

variable {V : Type} [Float64 V] (W : World V) (resendDelay : Int)

def RunningRule.evaluate (interval : Int) (x : TickInput V) (recorded : Bool) (rr : RunningRule V) : RunningRule V :=
  { rr with
    state := (tick W rr.rule resendDelay interval rr.state x).1
    handledRestart := rr.handledRestart || (!x.shouldSkip && (eval W rr.rule rr.state x.input).2.isSome && recorded) }

def taskStep (tasks : TaskMap V) : TaskCall V → TaskMap V × Bool
  | .add taskName p => tasks.addTask taskName p
  | .edit taskName p => tasks.editTask taskName p
  | .delete taskName => (tasks.erase taskName, true)
  | .evaluate taskName x recorded =>
    match tasks.lookup taskName with
    | none => (tasks, false)
    | some task => (tasks.insert taskName { task with
        rules := task.rules.map (RunningRule.evaluate W resendDelay task.frequency x recorded) }, true)

/-- The new rule holds the alerts that the old one held, and knows of the restart what it knew. -/
def Keeps (old new : RunningRule V) : Prop :=
  (∀ fp, new.state.active.lookup fp = old.state.active.lookup fp) ∧ new.handledRestart = old.handledRestart

def EditsKeep (calls : List (TaskCall V)) : Prop :=
  ∀ x ∈ trace (taskStep W resendDelay) ∅ calls, ∀ taskName p, x.2.1 = .edit taskName (some p) →
    ∀ oldTask, x.1.lookup taskName = some oldTask → ∀ old ∈ oldTask.rules, old.rule.name = p.rule.name →
    old.rule.labels = p.rule.labels → ∃ newTask new, (taskStep W resendDelay x.1 x.2.1).1.lookup taskName = some newTask ∧
      newTask.rules = [new] ∧ Keeps old new

/-! ## What every task is -/

def OneRule (task : RuleTask V) : Prop := ∃ rr, task.rules = [rr] ∧ task.type = rr.rule.kind.taskType

omit [Float64 V] in
theorem rule_copyRule (t : TaskType) (ar far : RunningRule V) : (copyRule t ar far).rule = ar.rule := by
  unfold copyRule
  split_ifs <;> rfl

omit [Float64 V] in
theorem oneRule_prepareTask (p : PreparedRule V) : OneRule (prepareTask p) := ⟨_, rfl, rfl⟩

omit [Float64 V] in
theorem copyRules_one {t : TaskType} {ar old : RunningRule V} :
    copyRules t (ruleMap [old]) [ar] =
      [if nameAndLabels old.rule = nameAndLabels ar.rule then copyRule t ar old else ar] := by
  unfold copyRules ruleMap
  by_cases h : nameAndLabels old.rule = nameAndLabels ar.rule
  · simp [h, copyRules]
  · simp [h, copyRules]

omit [Float64 V] in
theorem oneRule_copyState {g old g' : RuleTask V} (hg : OneRule g) (hold : OneRule old) (h : g.copyState old = some g') :
    OneRule g' := by
  obtain ⟨ar, har, htype⟩ := hg
  obtain ⟨far, hfar, -⟩ := hold
  unfold RuleTask.copyState at h
  split_ifs at h
  cases h
  refine ⟨_, by rw [har, hfar, copyRules_one], ?_⟩
  split_ifs
  · rw [rule_copyRule]
    exact htype
  · exact htype

def OneRuleEach (tasks : TaskMap V) : Prop := ∀ taskName task, tasks.lookup taskName = some task → OneRule task

omit [Float64 V] in
theorem oneRuleEach_insert {tasks : TaskMap V} (h : OneRuleEach tasks) {taskName : String} {task : RuleTask V}
    (htask : OneRule task) : OneRuleEach (tasks.insert taskName task) := by
  intro name t ht
  by_cases hname : name = taskName
  · subst hname
    rw [AList.lookup_insert] at ht
    cases ht
    exact htask
  · rw [AList.lookup_insert_ne hname] at ht
    exact h name t ht

theorem oneRuleEach_step (tasks : TaskMap V) (c : TaskCall V) (h : OneRuleEach tasks) :
    OneRuleEach (taskStep W resendDelay tasks c).1 := by
  cases c with
  | add taskName p =>
    cases p with
    | none => exact h
    | some p =>
      simp only [taskStep, TaskMap.addTask]
      cases tasks.lookup taskName with
      | some _ => exact h
      | none => exact oneRuleEach_insert h (oneRule_prepareTask p)
  | edit taskName p =>
    cases p with
    | none => exact h
    | some p =>
      refine oneRuleEach_insert h ?_
      cases hold : tasks.lookup taskName with
      | none => exact oneRule_prepareTask p
      | some oldTask =>
        simp only
        cases hcopy : (prepareTask p).copyState oldTask with
        | none => exact oneRule_prepareTask p
        | some newTask => exact oneRule_copyState (oneRule_prepareTask p) (h _ _ hold) hcopy
  | delete taskName =>
    intro name t ht
    by_cases hname : name = taskName
    · subst hname
      rw [taskStep, AList.lookup_erase] at ht
      cases ht
    · rw [taskStep, AList.lookup_erase_ne hname] at ht
      exact h name t ht
  | evaluate taskName x recorded =>
    simp only [taskStep]
    cases htask : tasks.lookup taskName with
    | none => exact h
    | some task =>
      obtain ⟨rr, hrules, htype⟩ := h taskName task htask
      refine oneRuleEach_insert h ⟨rr.evaluate W resendDelay task.frequency x recorded, ?_, htype⟩
      rw [hrules, map_cons, map_nil]

/-! ## What an edit keeps -/

def NothingToKeep (rr : RunningRule V) : Prop := (∀ fp, rr.state.active.lookup fp = none) ∧ rr.handledRestart = false

def CopiedType (old new : RuleKind) : Prop := old = new ∧ new ≠ .anomaly

omit [Float64 V] in
theorem copied_iff {old new : RuleKind} (h : new.taskType = old.taskType) :
    (new = new.taskType.copies ∧ old = new.taskType.copies) ↔ CopiedType old new := by
  unfold CopiedType
  cases old <;> cases new <;> revert h <;> decide

omit [Float64 V] in
theorem keeps_newRule_iff {old : RunningRule V} {r : Rule V} : Keeps old (newRule r) ↔ NothingToKeep old := by
  unfold Keeps NothingToKeep
  refine and_congr (forall_congr' (fun fp => ?_)) eq_comm
  exact eq_comm

omit [Float64 V] in
theorem keeps_copyRule_iff {old : RunningRule V} {r : Rule V} (h : r.kind.taskType = old.rule.kind.taskType) :
    Keeps old (copyRule r.kind.taskType (newRule r) old) ↔ CopiedType old.rule.kind r.kind ∨ NothingToKeep old := by
  unfold copyRule
  by_cases hcopied : CopiedType old.rule.kind r.kind
  · rw [show (newRule r).rule = r from rfl, if_pos ((copied_iff h).2 hcopied)]
    refine ⟨fun _ => .inl hcopied, fun _ => ⟨fun fp => ?_, rfl⟩⟩
    rw [lookup_copyInto]
    exact or_none
  · rw [show (newRule r).rule = r from rfl, if_neg (fun h' => hcopied ((copied_iff h).1 h')), keeps_newRule_iff]
    exact ⟨.inr, fun h' => h'.resolve_left hcopied⟩

omit [Float64 V] in
theorem keeps_edit_iff {p : PreparedRule V} {tasks : TaskMap V} {taskName : String} {oldTask : RuleTask V}
    (hlookup : tasks.lookup taskName = some oldTask) {old : RunningRule V} (hrules : oldTask.rules = [old])
    (htype : oldTask.type = old.rule.kind.taskType) (hname : old.rule.name = p.rule.name)
    (hlabels : old.rule.labels = p.rule.labels) :
    ∃ newTask new, (tasks.editTask taskName (some p)).1.lookup taskName = some newTask ∧ newTask.rules = [new] ∧
      (Keeps old new ↔ CopiedType old.rule.kind p.rule.kind ∨ NothingToKeep old) := by
  have hkey : nameAndLabels old.rule = nameAndLabels (newRule p.rule).rule := by
    unfold nameAndLabels
    rw [hname, hlabels]
    rfl
  have hnew : (tasks.editTask taskName (some p)).1.lookup taskName =
      some (((prepareTask p).copyState oldTask).getD (prepareTask p)) := by
    simp only [TaskMap.editTask, hlookup]
    exact AList.lookup_insert _
  by_cases htasks : p.rule.kind.taskType = old.rule.kind.taskType
  · have hcopy : copyRules (prepareTask p).type (ruleMap oldTask.rules) (prepareTask p).rules =
        [copyRule p.rule.kind.taskType (newRule p.rule) old] := by
      rw [hrules]
      refine copyRules_one.trans ?_
      rw [if_pos hkey]
      rfl
    have htypes : (prepareTask p).type = oldTask.type := htasks.trans htype.symm
    rw [RuleTask.copyState, if_pos htypes, getD_some] at hnew
    exact ⟨_, _, hnew, hcopy, keeps_copyRule_iff htasks⟩
  · refine ⟨prepareTask p, newRule p.rule, ?_, rfl, ?_⟩
    · have htypes : ¬ (prepareTask p).type = oldTask.type := fun h => htasks (h.trans htype)
      rw [hnew, RuleTask.copyState, if_neg htypes, getD_none]
    · rw [keeps_newRule_iff]
      refine ⟨.inr, fun h => h.resolve_left (fun hcopied => ?_)⟩
      exact htasks (by rw [hcopied.1])

/-- **An edit that leaves a rule's name and labels keeps its alerts exactly when the rule stays of its type and is no
anomaly rule, or there was nothing to keep.** -/
theorem edit_keeps_iff (calls : List (TaskCall V)) : ∀ x ∈ trace (taskStep W resendDelay) ∅ calls, ∀ taskName p,
    x.2.1 = .edit taskName (some p) → ∀ oldTask, x.1.lookup taskName = some oldTask → ∀ old ∈ oldTask.rules,
    old.rule.name = p.rule.name → old.rule.labels = p.rule.labels →
    ∃ newTask new, (taskStep W resendDelay x.1 x.2.1).1.lookup taskName = some newTask ∧ newTask.rules = [new] ∧
      (Keeps old new ↔ CopiedType old.rule.kind p.rule.kind ∨ NothingToKeep old) := by
  intro x hx taskName p hedit oldTask hlookup old hold hname hlabels
  obtain ⟨pre, post, -, hstate, -⟩ := (mem_trace _ _ _ _).1 hx
  have heach : OneRuleEach x.1 := by
    rw [hstate]
    exact final_inv _ OneRuleEach (fun _ _ => True) (fun s a _ h => oneRuleEach_step W resendDelay s a h) pre ∅
      (fun _ _ => trivial) (fun _ _ h => by cases h)
  obtain ⟨rr, hrules, htype⟩ := heach taskName oldTask hlookup
  rw [hrules, mem_singleton] at hold
  subst hold
  rw [hedit]
  exact keeps_edit_iff hlookup hrules htype hname hlabels

def cpuPrepared (kind : RuleKind) : PreparedRule Int := { rule := cpuRule kind, frequency := Calendar.minute }

def spikeAt (minutes : Int) : TickInput Int :=
  { shouldSkip := false, org := some "org"
    input := { ts := minutes * Calendar.minute, groupBys := none, firstSeen := none
               order := .asStored
               query := some (some [{ labels := [("pod", "a")]
                                      values := [{ timestamp := 0, value := 1 }, { timestamp := 1, value := 3 },
                                        { timestamp := 2, value := 120 }] }]) } }

def firesThenEdited (kind : RuleKind) : List (TaskCall Int) :=
  [.add "r1" (some (cpuPrepared kind)), .evaluate "r1" (spikeAt 0) true, .edit "r1" (some (cpuPrepared kind))]

def beforeEdit (kind : RuleKind) : TaskMap Int := final (taskStep plainWorld Calendar.minute) ∅ ((firesThenEdited kind).take 2)

theorem edit_in_run (kind : RuleKind) : (beforeEdit kind, TaskCall.edit "r1" (some (cpuPrepared kind)), true) ∈
    trace (taskStep plainWorld Calendar.minute) ∅ (firesThenEdited kind) :=
  (mem_trace _ _ _ _).2 ⟨(firesThenEdited kind).take 2, [], rfl, rfl, rfl⟩

def heldStates (task : RuleTask Int) : List AlertState := task.rules.flatMap (fun rr => (values rr.state.active).map Alert.state)

/-- The alert of a threshold rule goes on firing in the edited rule. -/
theorem threshold_edit_keeps :
    ((beforeEdit .threshold).lookup "r1").map heldStates = some [.firing] ∧
    ∃ old newTask new, ((beforeEdit .threshold).lookup "r1").map RuleTask.rules = some [old] ∧
      (taskStep plainWorld Calendar.minute (beforeEdit .threshold) (.edit "r1" (some (cpuPrepared .threshold)))).1.lookup "r1" =
        some newTask ∧ newTask.rules = [new] ∧ Keeps old new := by
  refine ⟨by decide +kernel, ?_⟩
  have hshape : ((beforeEdit .threshold).lookup "r1").map (fun t => t.rules.map (fun rr =>
      (rr.rule.name, rr.rule.labels, rr.rule.kind))) = some [("cpu", [], .threshold)] := by decide
  obtain ⟨oldTask, hold, hrules⟩ := map_eq_some_iff.1 hshape
  obtain ⟨old, hone, hfields⟩ := map_eq_singleton_iff.1 hrules
  simp only [Prod.mk.injEq] at hfields
  obtain ⟨newTask, new, hnew, hnewRules, hkeeps⟩ := edit_keeps_iff plainWorld Calendar.minute (firesThenEdited .threshold) _
    (edit_in_run .threshold) "r1" (cpuPrepared .threshold) rfl oldTask hold old (by rw [hone]; exact mem_singleton_self _)
    hfields.1 hfields.2.1
  refine ⟨old, newTask, new, ?_, hnew, hnewRules, hkeeps.2 (.inl ⟨hfields.2.2, by decide⟩)⟩
  rw [hold, map_some, hone]

/-- The firing alert of an anomaly rule is gone from the edited rule. -/
theorem anomaly_edit_forgets : ¬ EditsKeep plainWorld Calendar.minute (firesThenEdited .anomaly) := by
  intro h
  have hshape : ((beforeEdit .anomaly).lookup "r1").map (fun t => t.rules.map (fun rr =>
      (rr.rule.name, rr.rule.labels, (values rr.state.active).map Alert.state))) = some [("cpu", [], [.firing])] := by
    decide +kernel
  have hafter : ((taskStep plainWorld Calendar.minute (beforeEdit .anomaly)
      (.edit "r1" (some (cpuPrepared .anomaly)))).1.lookup "r1").map heldStates = some [] := by decide
  obtain ⟨oldTask, hold, hrules⟩ := map_eq_some_iff.1 hshape
  obtain ⟨old, hone, hfields⟩ := map_eq_singleton_iff.1 hrules
  simp only [Prod.mk.injEq] at hfields
  obtain ⟨newTask, new, hnew, hnewRules, hkeeps⟩ := h _ (edit_in_run .anomaly) "r1" (cpuPrepared .anomaly) rfl oldTask hold old
    (by rw [hone]; exact mem_singleton_self _) hfields.1 hfields.2.1
  rw [hnew, map_some, heldStates, hnewRules, flatMap_singleton] at hafter
  have hnone : values new.state.active = [] := map_eq_nil_iff.1 (Option.some.inj hafter)
  obtain ⟨a, ha, -⟩ := map_eq_singleton_iff.1 hfields.2.2
  obtain ⟨fp, hfp⟩ := mem_values.1 (show a ∈ values old.state.active by rw [ha]; exact mem_singleton_self _)
  rw [← hkeeps.1 fp] at hfp
  have hin : a ∈ values new.state.active := mem_values.2 ⟨fp, hfp⟩
  rw [hnone] at hin
  cases hin

end Rules
end DsApm
