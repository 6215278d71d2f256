import DsApm.Rules.Hysteresis
import DsApm.Rules.Manager
/-!
# Tasks — the tasks that run are the stored rules

After a call the tasks should be the stored rules that are not disabled, and a call that fails should leave the rules, the
tasks and the notification settings as they were.  A transaction does not put memory back, so this holds of the calls
that, once they have written to memory, do not fail any more; and of a creation only where the rule is not disabled,
because `CreateRule` starts a task for any rule.
-/
namespace DsApm
namespace Rules

open StepRun Tx List Option

section
variable {V : Type}

/-- A step that writes routes and configurations only, and whose success does not depend on the state. -/
structure RoutingStep (f : ManagerStep V) : Prop where
  mem : ∀ s, (f s).1.mem = s.mem
  stored : ∀ s, (f s).1.db.stored = s.db.stored
  stable : ∀ s s', (f s).2 = (f s').2

theorem routingStep_rewriteConfig (committed : Database V) (orgID : String) (f : Alertmanager.Config → Alertmanager.Config)
    (fails : Bool) : RoutingStep (rewriteConfig committed orgID f fails) := by
  unfold rewriteConfig
  cases committed.configs.lookup orgID with
  | none => exact ⟨fun _ => rfl, fun _ => rfl, fun _ _ => rfl⟩
  | some config => cases fails <;> exact ⟨fun _ => rfl, fun _ => rfl, fun _ _ => rfl⟩

theorem routingStep_createRoutePolicies (E : Checks V) (orgID : String) (request : Option (List PostableRoutePolicy))
    (a : Answers) : RoutingStep (createRoutePolicies E orgID request a) := by
  unfold createRoutePolicies
  match request with
  | none => exact ⟨fun _ => rfl, fun _ => rfl, fun _ _ => rfl⟩
  | some [] => exact ⟨fun _ => rfl, fun _ => rfl, fun _ _ => rfl⟩
  | some (p :: ps) =>
    simp only
    cases ((p :: ps).all (PostableRoutePolicy.validate E) && !a.fails .createRoutes) <;>
      exact ⟨fun _ => rfl, fun _ => rfl, fun _ _ => rfl⟩

theorem routingStep_deleteRoutes (orgID name : String) (a : Answers) :
    RoutingStep (deleteRoutePoliciesByName (V := V) orgID name a) := by
  unfold deleteRoutePoliciesByName
  cases a.fails .deleteRoutes <;> exact ⟨fun _ => rfl, fun _ => rfl, fun _ _ => rfl⟩

theorem routingStep_createInhibitRules (committed : Database V) (orgID : String)
    (rules : Option (List Alertmanager.InhibitRule)) (a : Answers) :
    RoutingStep (createInhibitRules committed orgID rules a) := by
  unfold createInhibitRules
  cases rules with
  | none => exact ⟨fun _ => rfl, fun _ => rfl, fun _ _ => rfl⟩
  | some rules => exact routingStep_rewriteConfig committed orgID _ _

theorem runSteps_routing {fs : List (ManagerStep V)} (hf : ∀ f ∈ fs, RoutingStep f) {s₀ : ManagerState V}
    (hok : ∀ f ∈ fs, (f s₀).2 = true) (s : ManagerState V) :
    (runSteps fs s).2 = true ∧ (runSteps fs s).1.mem = s.mem ∧ (runSteps fs s).1.db.stored = s.db.stored := by
  induction fs generalizing s with
  | nil => exact ⟨rfl, rfl, rfl⟩
  | cons f fs ih =>
    have hstep := hf f mem_cons_self
    have hsucc : (f s).2 = true := (hstep.stable s s₀).trans (hok f mem_cons_self)
    obtain ⟨hrest, hmem, hstored⟩ := ih (fun g hg => hf g (mem_cons_of_mem _ hg))
      (fun g hg => hok g (mem_cons_of_mem _ hg)) (f s).1
    rw [runSteps, if_pos hsucc]
    exact ⟨hrest, hmem.trans (hstep.mem s), hstored.trans (hstep.stored s)⟩

end

section
variable {V : Type} [Float64 V] (E : Checks V)

omit [Float64 V] in
theorem routingStep_createRouting (committed : Database V) (orgID id : String) (r : PostableRule V) (a : Answers) :
    ∀ f ∈ createRouting E committed orgID id r a, RoutingStep f := by
  intro f hf
  unfold createRouting at hf
  split_ifs at hf
  · cases hf
  · simp only [mem_cons, not_mem_nil, or_false] at hf
    rcases hf with rfl | rfl
    · exact routingStep_createRoutePolicies E _ _ _
    · exact routingStep_createInhibitRules _ _ _ _

omit [Float64 V] in
theorem routingStep_updateRouting (committed : Database V) (orgID id : String) (r : PostableRule V) (a : Answers) :
    ∀ f ∈ updateRouting E committed orgID id r a, RoutingStep f := by
  intro f hf
  unfold updateRouting at hf
  split_ifs at hf
  · cases hf
  · simp only [mem_cons, not_mem_nil, or_false] at hf
    rcases hf with rfl | rfl | rfl | rfl
    · exact routingStep_deleteRoutes _ _ _
    · exact routingStep_createRoutePolicies E _ _ _
    · exact routingStep_rewriteConfig _ _ _ _
    · exact routingStep_createInhibitRules _ _ _ _

/-! ## What should hold -/

def StorableRule.task (row : StorableRule V) : Option (PostableRule V) :=
  (unmarshalRule E row.data).filter (fun r => !r.disabled)

def Keyed (db : Database V) : Prop := ∀ id row, db.stored.lookup id = some row → row.id = id

/-- The tasks are the stored rules that are not disabled, each with its stored definition. -/
structure TasksFollow (s : ManagerState V) : Prop where
  keyed : Keyed s.db
  tasks : ∀ id, s.mem.tasks.lookup id = (s.db.stored.lookup id).bind (StorableRule.task E)

def Unchanged (s s' : ManagerState V) : Prop := s'.db.stored = s.db.stored ∧ s'.mem = s.mem

/-- A call that does not fail after its first write to memory and, as a creation, is of a rule that is not disabled.
Every later step is asked on the state before the call. -/
def Contained (s : ManagerState V) : Call V → Prop
  | .create orgID id text a => ∀ r ∈ writable E text a, (insertRule { id, orgID, data := text } a s).2 = true →
      r.disabled = false ∧ (∀ f ∈ createRouting E s.db orgID id r a, (f s).2 = true) ∧ (addTask E id r s).2 = true ∧
        a.fails .commit = false
  | .edit orgID id text a => ∀ r ∈ writable E text a, ∀ _row ∈ s.db.stored.lookup id, a.fails .getRule = false →
      a.fails .writeRule = false →
      (∀ f ∈ updateRouting E s.db orgID id r a, (f s).2 = true) ∧ (syncRuleStateWithTask E id r s).2 = true ∧
        a.fails .commit = false
  | .patch _ id patch a => ∀ row ∈ s.db.stored.lookup id, ∀ r ∈ patched E row patch a, a.fails .getRule = false →
      (syncRuleStateWithTask E id r s).2 = true → a.fails .writeRule = false ∧ a.fails .commit = false
  | .delete orgID id a => ∀ _row ∈ s.db.stored.lookup id, a.fails .getRule = false → a.fails .writeRule = false →
      (rewriteConfig s.db orgID (fun c => c.deleteRuleIDMatcher id) (a.fails .getConfig || a.fails .setConfig) s).2 = true →
      (deleteRoutePoliciesByName orgID id a s).2 = true ∧ (deleteInhibitRules s.db orgID id a s).2 = true ∧
        a.fails .commit = false

instance (s : ManagerState V) : ∀ c, Decidable (Contained E s c)
  | .create _ _ _ _ => by dsimp only [Contained]; infer_instance
  | .edit _ _ _ _ => by dsimp only [Contained]; infer_instance
  | .patch _ _ _ _ => by dsimp only [Contained]; infer_instance
  | .delete _ _ _ => by dsimp only [Contained]; infer_instance

/-! ## One call -/

variable {E} {s s' : ManagerState V}

theorem TasksFollow.unchanged (h : TasksFollow E s) (hu : Unchanged s s') : TasksFollow E s' := by
  obtain ⟨hstored, hmem⟩ := hu
  constructor
  · unfold Keyed
    rw [hstored]
    exact h.keyed
  · rw [hstored, hmem]
    exact h.tasks

theorem TasksFollow.written (h : TasksFollow E s) (id : String) (row : Option (StorableRule V))
    (hid : ∀ x, row = some x → x.id = id)
    (hstored : ∀ k, s'.db.stored.lookup k = if k = id then row else s.db.stored.lookup k)
    (htasks : ∀ k, s'.mem.tasks.lookup k = if k = id then row.bind (StorableRule.task E) else s.mem.tasks.lookup k) :
    TasksFollow E s' := by
  constructor
  · intro k x hx
    rw [hstored] at hx
    split_ifs at hx with hk
    · rw [hk]
      exact hid x hx
    · exact h.keyed k x hx
  · intro k
    rw [hstored, htasks]
    split_ifs
    · rfl
    · exact h.tasks k

/-! ### The task of a rule -/

omit [Float64 V] in
theorem setTask_tasks (s : ManagerState V) (id : String) (r : PostableRule V) (k : String) :
    (setTask s id r).mem.tasks.lookup k = if k = id then some r else s.mem.tasks.lookup k :=
  GoMap.lookup_put (fun _ => r) s.mem.tasks id k

omit [Float64 V] in
theorem deleteTask_tasks (s : ManagerState V) (id k : String) :
    (deleteTask s id).mem.tasks.lookup k = if k = id then none else s.mem.tasks.lookup k := by
  unfold deleteTask
  by_cases hk : k = id
  · subst hk
    rw [if_pos rfl]
    split_ifs with h
    · exact AList.lookup_erase k _
    · exact not_isSome_iff_eq_none.1 h
  · rw [if_neg hk]
    split_ifs
    · exact AList.lookup_erase_ne hk
    · rfl

omit [Float64 V] in
theorem deleteTask_db (s : ManagerState V) (id : String) : (deleteTask s id).db = s.db := by
  unfold deleteTask
  split_ifs <;> rfl

/-- A step that leaves one rule with the given task and whose success depends on the tasks only. -/
structure TaskStep (id : String) (task : Option (PostableRule V)) (f : ManagerStep V) : Prop where
  db : ∀ s, (f s).1.db = s.db
  stable : ∀ s s', s.mem.tasks = s'.mem.tasks → (f s).2 = (f s').2
  tasks : ∀ s, (f s).2 = true → ∀ k, (f s).1.mem.tasks.lookup k = if k = id then task else s.mem.tasks.lookup k

omit [Float64 V] in
theorem taskStep_addTask (id : String) (r : PostableRule V) : TaskStep id (some r) (addTask E id r) := by
  refine ⟨fun s => ?_, fun s s' h => ?_, fun s h => ?_⟩
  · unfold addTask
    split_ifs <;> rfl
  · unfold addTask
    rw [h]
    split_ifs <;> rfl
  · unfold addTask at h ⊢
    split_ifs at h ⊢
    exact setTask_tasks s id r

omit [Float64 V] in
theorem taskStep_sync (id : String) (r : PostableRule V) :
    TaskStep id ((some r).filter (fun r => !r.disabled)) (syncRuleStateWithTask E id r) := by
  cases hd : r.disabled with
  | true =>
    have hsync : ∀ s, syncRuleStateWithTask E id r s = (deleteTask s id, true) := fun s => if_pos hd
    refine ⟨fun s => ?_, fun s s' _ => ?_, fun s _ k => ?_⟩
    · rw [hsync]
      exact deleteTask_db s id
    · rw [hsync, hsync]
    · rw [hsync, deleteTask_tasks, filter_some, hd]
      rfl
  | false =>
    have hsync : ∀ s, syncRuleStateWithTask E id r s = if E.prepares r then (setTask s id r, true) else (s, false) := by
      intro s
      unfold syncRuleStateWithTask addTask editTask
      rw [hd]
      cases E.prepares r <;> simp +contextual
    refine ⟨fun s => ?_, fun s s' _ => ?_, fun s h k => ?_⟩
    · rw [hsync]
      split_ifs <;> rfl
    · rw [hsync, hsync]
      split_ifs <;> rfl
    · have hf : (some r).filter (fun r => !r.disabled) = some r := by rw [filter_some, hd]; rfl
      rw [hsync] at h ⊢
      cases hp : E.prepares r with
      | false => rw [hp] at h; cases h
      | true =>
        rw [hf]
        exact setTask_tasks s id r k

omit [Float64 V] in
theorem sync_of_failed {id : String} {r : PostableRule V} (h : (syncRuleStateWithTask E id r s).2 = false) :
    (syncRuleStateWithTask E id r s).1 = s := by
  unfold syncRuleStateWithTask addTask editTask at h ⊢
  split_ifs at h ⊢ <;> rfl

/-! ### Creating and editing -/

def storeRow (s : ManagerState V) (row : StorableRule V) : ManagerState V :=
  { s with db := { s.db with stored := s.db.stored.insert row.id row } }

omit [Float64 V] in
theorem storeRow_lookup (s : ManagerState V) (row : StorableRule V) (k : String) :
    (storeRow s row).db.stored.lookup k = if k = row.id then some row else s.db.stored.lookup k :=
  GoMap.lookup_put (fun _ => row) s.db.stored row.id k

omit [Float64 V] in
theorem insertRule_of_succeeded {row : StorableRule V} {a : Answers} (h : (insertRule row a s).2 = true) :
    insertRule row a s = (storeRow s row, true) := by
  unfold insertRule at h ⊢
  split_ifs at h ⊢
  rfl

omit [Float64 V] in
theorem insertRule_of_failed {row : StorableRule V} {a : Answers} (h : (insertRule row a s).2 = false) :
    insertRule row a s = (s, false) := by
  unfold insertRule at h ⊢
  split_ifs at h ⊢
  rfl

omit [Float64 V] in
theorem updateRule_of_stored {row : StorableRule V} {a : Answers} (hw : a.fails .writeRule = false)
    (h : (s.db.stored.lookup row.id).isSome = true) : updateRule row a s = (storeRow s row, true) := by
  unfold updateRule
  rw [hw, if_neg (by decide), if_pos h]
  rfl

omit [Float64 V] in
theorem runSteps_notification (orgID id : String) (r : PostableRule V) (s : ManagerState V) :
    (runSteps (notificationStep orgID id r) s).2 = true ∧ (runSteps (notificationStep orgID id r) s).1.db = s.db ∧
      (runSteps (notificationStep orgID id r) s).1.mem.tasks = s.mem.tasks := by
  unfold notificationStep
  cases r.notificationSettings <;> exact ⟨rfl, rfl, rfl⟩

omit [Float64 V] in
theorem runSteps_write (first last : ManagerStep V) {routing : List (ManagerStep V)} (orgID id : String) (r : PostableRule V)
    (hfirst : (first s).2 = true) (hmem : (first s).1.mem = s.mem) (hrouting : ∀ f ∈ routing, RoutingStep f)
    (hok : ∀ f ∈ routing, (f s).2 = true) :
    ∃ s₁, s₁.db.stored = (first s).1.db.stored ∧ s₁.mem.tasks = s.mem.tasks ∧
      runSteps (first :: (notificationStep orgID id r ++ routing ++ [last])) s = last s₁ := by
  obtain ⟨hn, hndb, hntasks⟩ := runSteps_notification orgID id r (first s).1
  obtain ⟨hr, hrmem, hrstored⟩ := runSteps_routing hrouting hok (runSteps (notificationStep orgID id r) (first s).1).1
  refine ⟨(runSteps routing (runSteps (notificationStep orgID id r) (first s).1).1).1, ?_, ?_, ?_⟩
  · rw [hrstored, hndb]
  · rw [hrmem, hntasks, hmem]
  · rw [runSteps, if_pos hfirst, List.append_assoc, runSteps_append, if_pos hn, runSteps_append, if_pos hr, runSteps]
    split_ifs with hl
    · exact Prod.ext rfl hl.symm
    · exact Prod.ext rfl (Bool.eq_false_iff.2 hl).symm

/-- **A row is written and its task follows**, where the steps after the row do not fail. -/
theorem TasksFollow.write (h : TasksFollow E s) (row : StorableRule V) (r : PostableRule V) (orgID : String)
    {first last : ManagerStep V} {routing : List (ManagerStep V)} {commits : Bool} (hfirst : first s = (storeRow s row, true))
    (hrouting : ∀ f ∈ routing, RoutingStep f) (hok : ∀ f ∈ routing, (f s).2 = true)
    (hlast : TaskStep row.id (StorableRule.task E row) last) (hlok : (last s).2 = true) (hc : commits = true) :
    (runInTx commits (first :: (notificationStep orgID row.id r ++ routing ++ [last])) s).2 = true ∧
      TasksFollow E (runInTx commits (first :: (notificationStep orgID row.id r ++ routing ++ [last])) s).1 := by
  obtain ⟨s₁, hstored₁, htasks₁, hrun⟩ := runSteps_write first last orgID row.id r (by rw [hfirst]) (by rw [hfirst]; rfl)
    hrouting hok
  have hok₁ : (last s₁).2 = true := (hlast.stable s₁ s htasks₁).trans hlok
  rw [runInTx_succeeds hc (by rw [hrun]; exact hok₁), hrun]
  refine ⟨rfl, h.written row.id (some row) (fun x hx => by cases hx; rfl) (fun k => ?_) (fun k => ?_)⟩
  · rw [hlast.db, hstored₁, hfirst]
    exact storeRow_lookup s row k
  · rw [hlast.tasks s₁ hok₁ k, htasks₁]
    rfl

variable {text : RuleText V} {a : Answers} {r : PostableRule V}

theorem unmarshal_of_writable (h : writable E text a = some r) :
    unmarshalRule E text = some r ∧ validateRule E r = true := by
  unfold writable at h
  rw [filter_eq_some_iff, Bool.and_eq_true] at h
  exact ⟨h.1, h.2.1⟩

theorem unmarshal_marshal (h : writable E text a = some r) :
    unmarshalRule E (marshalRule r).1 = some r := by
  obtain ⟨hread, hvalid⟩ := unmarshal_of_writable h
  unfold unmarshalRule at hread ⊢
  rw [bind_eq_some_iff] at hread
  obtain ⟨x, -, hx⟩ := hread
  split_ifs at hx with hok
  rw [some_inj] at hx
  rw [hx] at hok
  unfold validateRule at hvalid
  rw [Bool.and_eq_true] at hvalid
  cases hc : r.condition with
  | none => rw [hc] at hok; cases hok
  | some c =>
    have hq : c.compositeQuery.isSome = true := by
      have hv := hvalid.2
      rw [hc] at hv
      exact (Bool.and_eq_true _ _ ▸ hv).1
    obtain ⟨q, hq⟩ := isSome_iff_exists.1 hq
    have hmarshal := defaulted_processRuleDefaults (x := x) (hx ▸ hc) hq
    rw [hx] at hmarshal
    obtain ⟨y, hy, hdef⟩ := map_eq_some_iff.1 hmarshal.marshal
    rw [hy, bind_some, hdef, if_pos hok]

theorem task_of_unmarshal {row : StorableRule V} (h : unmarshalRule E row.data = some r) :
    StorableRule.task E row = (some r).filter (fun r => !r.disabled) := by
  unfold StorableRule.task
  rw [h]

variable {orgID id : String}

theorem create_follows (h : TasksFollow E s)
    (hc : Contained E s (.create orgID id text a)) :
    TasksFollow E (createRule E orgID id text a s).1 ∧
      ((createRule E orgID id text a s).2 = false → Unchanged s (createRule E orgID id text a s).1) := by
  unfold createRule
  cases hw : writable E text a with
  | none => exact ⟨h, fun _ => ⟨rfl, rfl⟩⟩
  | some r =>
    simp only
    cases hi : (insertRule { id, orgID, data := text } a s).2 with
    | false =>
      rw [runInTx_first_fails hi, insertRule_of_failed hi]
      exact ⟨h.unchanged ⟨rfl, rfl⟩, fun _ => ⟨rfl, rfl⟩⟩
    | true =>
      obtain ⟨hd, hrouting, hadd, hcommit⟩ := hc r hw hi
      have htask : StorableRule.task E { id, orgID, data := text } = some r := by
        rw [task_of_unmarshal (unmarshal_of_writable hw).1, filter_some, hd]
        rfl
      have hcommits : (!a.fails .commit) = true := by rw [hcommit]; rfl
      obtain ⟨hsucc, hfollow⟩ := h.write { id, orgID, data := text } r orgID (insertRule_of_succeeded hi)
        (routingStep_createRouting E s.db orgID id r a) hrouting (htask ▸ taskStep_addTask id r) hadd hcommits
      exact ⟨hfollow, fun hfail => absurd hsucc (by rw [hfail]; decide)⟩

theorem edit_follows (h : TasksFollow E s)
    (hc : Contained E s (.edit orgID id text a)) :
    TasksFollow E (editRule E orgID id text a s).1 ∧
      ((editRule E orgID id text a s).2 = false → Unchanged s (editRule E orgID id text a s).1) := by
  unfold editRule
  cases hw : writable E text a with
  | none => exact ⟨h, fun _ => ⟨rfl, rfl⟩⟩
  | some r =>
    cases hl : s.db.stored.lookup id with
    | none => exact ⟨h, fun _ => ⟨rfl, rfl⟩⟩
    | some row =>
      simp only
      cases hg : a.fails .getRule with
      | true => exact ⟨h, fun _ => ⟨rfl, rfl⟩⟩
      | false =>
        rw [if_neg (by decide)]
        cases hwr : a.fails .writeRule with
        | true =>
          have hu : updateRule { row with data := text } a s = (s, false) := if_pos hwr
          rw [runInTx_first_fails (by rw [hu]), hu]
          exact ⟨h.unchanged ⟨rfl, rfl⟩, fun _ => ⟨rfl, rfl⟩⟩
        | false =>
          obtain ⟨hrouting, hsync, hcommit⟩ := hc r hw row hl hg hwr
          have hid : row.id = id := h.keyed id row hl
          subst hid
          have hu : updateRule { row with data := text } a s = (storeRow s { row with data := text }, true) :=
            updateRule_of_stored hwr (by rw [hl]; rfl)
          have htask : StorableRule.task E { row with data := text } = (some r).filter (fun r => !r.disabled) :=
            task_of_unmarshal (unmarshal_of_writable hw).1
          have hcommits : (!a.fails .commit) = true := by rw [hcommit]; rfl
          obtain ⟨hsucc, hfollow⟩ := h.write { row with data := text } r orgID hu
            (routingStep_updateRouting E s.db orgID row.id r a) hrouting (htask ▸ taskStep_sync row.id r) hsync hcommits
          exact ⟨hfollow, fun hfail => absurd hsucc (by rw [hfail]; decide)⟩

/-! ### Patching and deleting -/

theorem patch_follows {patch : PostableRule V → RuleText V} (h : TasksFollow E s)
    (hc : Contained E s (.patch orgID id patch a)) :
    TasksFollow E (patchRule E id patch a s).1 ∧
      ((patchRule E id patch a s).2 = false → Unchanged s (patchRule E id patch a s).1) := by
  unfold patchRule
  cases hl : s.db.stored.lookup id with
  | none => exact ⟨h, fun _ => ⟨rfl, rfl⟩⟩
  | some row =>
    simp only
    cases hg : a.fails .getRule with
    | true => exact ⟨h, fun _ => ⟨rfl, rfl⟩⟩
    | false =>
      rw [if_neg (by decide)]
      cases hp : patched E row patch a with
      | none => exact ⟨h, fun _ => ⟨rfl, rfl⟩⟩
      | some r =>
        simp only
        cases hsync : (syncRuleStateWithTask E id r s).2 with
        | false =>
          rw [if_pos (by rfl), sync_of_failed hsync]
          exact ⟨h, fun _ => ⟨rfl, rfl⟩⟩
        | true =>
          rw [if_neg (by decide)]
          obtain ⟨hwr, hcommit⟩ := hc row hl r hp hg hsync
          have hid : row.id = id := h.keyed id row hl
          subst hid
          obtain ⟨x, -, hw⟩ := bind_eq_some_iff.1 hp
          have hdb : (syncRuleStateWithTask E row.id r s).1.db = s.db := (taskStep_sync row.id r).db s
          have hu : updateRule { row with data := (marshalRule r).1 } a (syncRuleStateWithTask E row.id r s).1 =
              (storeRow (syncRuleStateWithTask E row.id r s).1 { row with data := (marshalRule r).1 }, true) :=
            updateRule_of_stored hwr (by rw [hdb, hl]; rfl)
          have hcommits : (!a.fails .commit) = true := by rw [hcommit]; rfl
          have hrun : runSteps [updateRule { row with data := (marshalRule r).1 } a] (syncRuleStateWithTask E row.id r s).1 =
              (storeRow (syncRuleStateWithTask E row.id r s).1 { row with data := (marshalRule r).1 }, true) := by
            simp only [runSteps, hu, if_true]
          rw [runInTx_succeeds hcommits (by rw [hrun]), hrun, if_pos rfl]
          refine ⟨h.written row.id (some { row with data := (marshalRule r).1 }) (fun x hx => by cases hx; rfl) (fun k => ?_)
            (fun k => ?_), fun hfail => by cases hfail⟩
          · rw [storeRow_lookup, hdb]
          · rw [bind_some, task_of_unmarshal (r := r) (unmarshal_marshal hw)]
            exact (taskStep_sync row.id r).tasks s hsync k

omit [Float64 V] in
theorem removeRule_lookup {id : String} {a : Answers} (hw : a.fails .writeRule = false) (k : String) :
    (removeRule id a s).1.db.stored.lookup k = if k = id then none else s.db.stored.lookup k := by
  unfold removeRule
  rw [hw, if_neg (by decide)]
  by_cases hk : k = id
  · subst hk
    rw [if_pos rfl]
    exact AList.lookup_erase k _
  · rw [if_neg hk]
    exact AList.lookup_erase_ne hk

omit [Float64 V] in
theorem removeRule_mem (id : String) (a : Answers) (s : ManagerState V) : (removeRule id a s).1.mem = s.mem := by
  unfold removeRule
  split_ifs <;> rfl

omit [Float64 V] in
theorem runSteps_delete (orgID : String) {id : String} {a : Answers} {matcher : ManagerStep V} {routing : List (ManagerStep V)}
    (hmatcher : RoutingStep matcher) (hrouting : ∀ f ∈ routing, RoutingStep f) (hrem : (removeRule id a s).2 = true)
    (hmok : (matcher s).2 = true) (hok : ∀ f ∈ routing, (f s).2 = true) :
    ∃ s₁, runSteps (removeRule id a :: matcher :: deleteNotificationConfig orgID id ::
        (routing ++ [fun s => (deleteTask s id, true)])) s = (deleteTask s₁ id, true) ∧
      s₁.mem.tasks = s.mem.tasks ∧ s₁.db.stored = (removeRule id a s).1.db.stored := by
  have hmok₁ : (matcher (removeRule id a s).1).2 = true := (hmatcher.stable _ s).trans hmok
  obtain ⟨hr, hrmem, hrstored⟩ :=
    runSteps_routing hrouting hok (deleteNotificationConfig orgID id (matcher (removeRule id a s).1).1).1
  refine ⟨(runSteps routing (deleteNotificationConfig orgID id (matcher (removeRule id a s).1).1).1).1, ?_, ?_, ?_⟩
  · have hn : (deleteNotificationConfig orgID id (matcher (removeRule id a s).1).1).2 = true := rfl
    rw [runSteps, if_pos hrem, runSteps, if_pos hmok₁, runSteps, if_pos hn, runSteps_append, if_pos hr]
    rfl
  · rw [hrmem]
    change (matcher (removeRule id a s).1).1.mem.tasks = s.mem.tasks
    rw [hmatcher.mem, removeRule_mem]
  · rw [hrstored]
    exact hmatcher.stored _

theorem delete_follows (h : TasksFollow E s) (hc : Contained E s (.delete orgID id a)) :
    TasksFollow E (deleteRule orgID id a s).1 ∧
      ((deleteRule orgID id a s).2 = false → Unchanged s (deleteRule orgID id a s).1) := by
  unfold deleteRule
  cases hl : s.db.stored.lookup id with
  | none => exact ⟨h, fun _ => ⟨rfl, rfl⟩⟩
  | some row =>
    simp only
    cases hg : a.fails .getRule with
    | true => exact ⟨h, fun _ => ⟨rfl, rfl⟩⟩
    | false =>
      rw [if_neg (by decide)]
      cases hwr : a.fails .writeRule with
      | true =>
        have hu : removeRule id a s = (s, false) := if_pos hwr
        rw [runInTx_first_fails (by rw [hu]), hu]
        exact ⟨h.unchanged ⟨rfl, rfl⟩, fun _ => ⟨rfl, rfl⟩⟩
      | false =>
        have hrem : (removeRule id a s).2 = true := by
          unfold removeRule
          rw [hwr]
          rfl
        have hconfig := routingStep_rewriteConfig s.db orgID (fun c => c.deleteRuleIDMatcher id)
          (a.fails .getConfig || a.fails .setConfig)
        cases hcfg : (rewriteConfig s.db orgID (fun c => c.deleteRuleIDMatcher id)
            (a.fails .getConfig || a.fails .setConfig) s).2 with
        | false =>
          -- the matcher comes before the first write to memory
          have hfail := (hconfig.stable (removeRule id a s).1 s).trans hcfg
          have hmem := (hconfig.mem (removeRule id a s).1).trans (removeRule_mem id a s)
          have hu : Unchanged s { (rewriteConfig s.db orgID (fun c => c.deleteRuleIDMatcher id)
              (a.fails .getConfig || a.fails .setConfig) (removeRule id a s).1).1 with db := s.db } := ⟨rfl, hmem⟩
          simp only [runInTx, runSteps, hrem, hfail, if_true, Bool.false_and, Bool.false_eq_true, if_false]
          exact ⟨h.unchanged hu, fun _ => hu⟩
        | true =>
          obtain ⟨hroutes, hinhibit, hcommit⟩ := hc row hl hg hwr hcfg
          have hrouting : ∀ f ∈ [deleteRoutePoliciesByName orgID id a, deleteInhibitRules s.db orgID id a], RoutingStep f :=
            forall_mem_cons.2 ⟨routingStep_deleteRoutes _ _ _, forall_mem_singleton.2 (routingStep_rewriteConfig _ _ _ _)⟩
          obtain ⟨s₁, hrun, htasks, hstored⟩ := runSteps_delete orgID hconfig hrouting hrem hcfg
            (forall_mem_cons.2 ⟨hroutes, forall_mem_singleton.2 hinhibit⟩)
          rw [cons_append, cons_append, nil_append] at hrun
          have hcommits : (!a.fails .commit) = true := by rw [hcommit]; rfl
          rw [runInTx_succeeds hcommits (by rw [hrun]), hrun]
          refine ⟨h.written id none (fun x hx => by cases hx) (fun k => ?_) (fun k => ?_), fun hfail => by cases hfail⟩
          · rw [deleteTask_db, hstored, removeRule_lookup hwr]
          · rw [deleteTask_tasks, htasks]
            rfl

/-! ## Runs -/

theorem step_follows {c : Call V} (h : TasksFollow E s) (hc : Contained E s c) :
    TasksFollow E (step E s c).1 ∧ ((step E s c).2 = false → Unchanged s (step E s c).1) := by
  cases c with
  | create orgID id text a => exact create_follows h hc
  | edit orgID id text a => exact edit_follows h hc
  | patch orgID id patch a => exact patch_follows h hc
  | delete orgID id a => exact delete_follows h hc

end

/-! ## Two creations -/

def passing : Checks Int :=
  { validate := fun _ => true, validateAll := fun _ => true, validOp := fun _ => true, validMatch := fun _ => true
    compiles := fun _ => true, order := .asStored, prepares := fun _ => true }

def alertAbove (name : String) (target : Int) : ThresholdSpec Int :=
  { name, target := some target, targetUnit := "", recoveryTarget := none, matchType := "1", compareOperator := "1"
    channels := ["ops"] }

def cpuDefinition (disabled usePolicy : Bool) (thresholds : List (ThresholdSpec Int)) : PostableRule Int :=
  { alertName := "cpu", ruleType := .threshold, evalWindow := 0, frequency := 0, labels := [], disabled
    preferredChannels := [], schemaVersion := .v2alpha1, other := ""
    condition := some { compositeQuery := some { queryType := .builder, queries := "A" }, compareOperator := "", target := none
                        alertOnAbsent := false, matchType := "", targetUnit := "", thresholds := some thresholds }
    evaluation := some (.rolling (5 * Calendar.minute) Calendar.minute)
    notificationSettings := some { groupBy := [], usePolicy, newGroupEvalDelay := 0
                                   renotify := { enabled := false, reNotifyInterval := 0, alertStates := [] } } }

def oneChannel : ManagerState Int :=
  { db := { stored := ∅, routes := []
            configs := AList.insert "org" { receivers := [⟨"ops", ""⟩], routes := [⟨"ops", ["-1"]⟩], inhibitRules := [] } ∅ }
    mem := { tasks := ∅, rules := ∅, notifications := ∅ } }

def nothingFails : Answers := { channels := ["ops"], fails := fun _ => false }

def failing (f : Failure) : Answers := { channels := ["ops"], fails := fun g => g = f }

theorem follows_oneChannel : TasksFollow passing oneChannel := by
  constructor
  · intro id row h
    cases h
  · intro id
    rfl

def createCpu (disabled : Bool) (a : Answers) : Call Int :=
  .create "org" "r1" (some (cpuDefinition disabled false [alertAbove "critical" 5])) a

end Rules
end DsApm
