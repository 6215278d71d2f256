import DsApm.Rules.Tasks
/-!
# Initiate — the rules that are loaded at the start

`initiate` reads the stored rules of one organisation after the other into an empty memory.  It returns at the first
organisation that has none, so the organisations behind that one are not read; and a task that cannot be prepared is
logged only.  Everything else that parses is loaded.
-/
namespace DsApm
namespace Rules

open Latest Tx List Option

structure LoadAnswers (V : Type) where
  orgs : List String
  listFails : Bool
  readFails : String → Bool
  order : Visit (StorableRule V)

section
variable {V : Type} [Float64 V] (E : Checks V)

def orgRows (A : LoadAnswers V) (db : Database V) (orgID : String) : List (StorableRule V) :=
  A.order.order ((GoMap.values db.stored).filter (fun row => row.orgID == orgID))

def getStoredRules (A : LoadAnswers V) (db : Database V) (orgID : String) : Option (List (StorableRule V)) :=
  if A.readFails orgID then none else some (orgRows A db orgID)

/-- A parsed rule: its settings, and its task where it is not disabled, whatever comes of that. -/
def loadParsed (orgID id : String) (r : PostableRule V) (s : ManagerState V) : ManagerState V :=
  let s := (runSteps (notificationStep orgID id r) s).1
  if r.disabled then s else (addTask E id r s).1

def loadRule (orgID : String) (acc : ManagerState V × Bool) (row : StorableRule V) : ManagerState V × Bool :=
  match unmarshalRule E row.data with
  | none => (acc.1, false)
  | some r => (loadParsed E orgID row.id r acc.1, acc.2)

def loadOrgs (A : LoadAnswers V) : List String → ManagerState V × Bool → ManagerState V × Bool
  | [], acc => acc
  | orgID :: orgs, acc =>
    match getStoredRules A acc.1.db orgID with
    | none => (acc.1, false)
    | some [] => (acc.1, true)
    | some rows => loadOrgs A orgs (rows.foldl (loadRule E orgID) acc)

/-- `initiate`, and whether it returns without an error. -/
def initiate (A : LoadAnswers V) (s : ManagerState V) : ManagerState V × Bool :=
  if A.listFails then (s, false) else loadOrgs E A A.orgs (s, true)

/-! ## One rule -/

def StorableRule.startable (row : StorableRule V) : Option (PostableRule V) := (StorableRule.task E row).filter E.prepares

def loadRow (s : ManagerState V) (row : StorableRule V) : ManagerState V :=
  match unmarshalRule E row.data with
  | none => s
  | some r => loadParsed E row.orgID row.id r s

variable {E} {s : ManagerState V}

omit [Float64 V] in
theorem loadParsed_db (orgID id : String) (r : PostableRule V) : (loadParsed E orgID id r s).db = s.db := by
  unfold loadParsed
  have hn := (runSteps_notification orgID id r s).2.1
  simp only
  split_ifs
  · exact hn
  · rw [(taskStep_addTask id r).db, hn]

theorem loadRow_db (row : StorableRule V) : (loadRow E s row).db = s.db := by
  unfold loadRow
  cases unmarshalRule E row.data with
  | none => rfl
  | some r => exact loadParsed_db row.orgID row.id r

omit [Float64 V] in
theorem addTask_tasks {id : String} {r : PostableRule V}
    (h : s.mem.tasks.lookup id = none ∨ s.mem.tasks.lookup id = (some r).filter E.prepares) (k : String) :
    (addTask E id r s).1.mem.tasks.lookup k = if k = id then (some r).filter E.prepares else s.mem.tasks.lookup k := by
  unfold addTask
  rw [filter_some] at h ⊢
  cases hp : E.prepares r with
  | false =>
    rw [hp] at h
    exact GoMap.lookup_same (h.elim (fun h => h) (fun h => h)) k
  | true =>
    rw [hp, if_pos rfl] at h
    rcases h with h | h
    · rw [h]
      exact setTask_tasks s id r k
    · rw [h]
      exact GoMap.lookup_same h k

theorem loadRow_tasks {row : StorableRule V}
    (h : s.mem.tasks.lookup row.id = none ∨ s.mem.tasks.lookup row.id = StorableRule.startable E row) (k : String) :
    (loadRow E s row).mem.tasks.lookup k = if k = row.id then StorableRule.startable E row else s.mem.tasks.lookup k := by
  unfold loadRow StorableRule.startable StorableRule.task at *
  cases hr : unmarshalRule E row.data with
  | none =>
    rw [hr] at h
    exact GoMap.lookup_same (h.elim (fun h => h) (fun h => h)) k
  | some r =>
    rw [hr, filter_some] at h
    rw [filter_some]
    have hn := (runSteps_notification row.orgID row.id r s).2.2
    cases hd : r.disabled with
    | true =>
      rw [hd] at h
      simp only [loadParsed, hd, if_true]
      rw [hn]
      exact GoMap.lookup_same (h.elim (fun h => h) (fun h => h)) k
    | false =>
      rw [hd] at h
      simp only [loadParsed, hd, Bool.false_eq_true, if_false]
      rw [← hn] at h ⊢
      exact addTask_tasks h k

omit [Float64 V] in
theorem loadParsed_notifications (orgID id : String) (r : PostableRule V) :
    (loadParsed E orgID id r s).mem.notifications = (runSteps (notificationStep orgID id r) s).1.mem.notifications := by
  simp only [loadParsed, addTask, setTask]
  split_ifs <;> rfl

variable (E s) in
def SettingsOf (row : StorableRule V) : Prop :=
  ∀ r ∈ unmarshalRule E row.data, ∀ n ∈ r.notificationSettings,
    s.mem.notifications.lookup (row.orgID, row.id) = some n.getAlertManagerNotificationConfig

theorem settings_loadRow (row : StorableRule V) : SettingsOf E (loadRow E s row) row := by
  intro r hr n hn
  rw [mem_def] at hr hn
  simp only [loadRow, hr, loadParsed_notifications, notificationStep, hn]
  exact AList.lookup_insert _

theorem SettingsOf.loadRow {row row' : StorableRule V} (h : SettingsOf E s row') (hne : row'.id ≠ row.id) :
    SettingsOf E (loadRow E s row) row' := by
  intro r hr n hn
  rw [← h r hr n hn]
  unfold Rules.loadRow
  cases unmarshalRule E row.data with
  | none => rfl
  | some r₀ =>
    simp only [loadParsed_notifications, notificationStep]
    cases r₀.notificationSettings with
    | none => rfl
    | some n₀ =>
      have hkey : (row'.orgID, row'.id) ≠ (row.orgID, row.id) := fun heq => hne (congrArg Prod.snd heq)
      exact AList.lookup_insert_ne hkey

/-! ## The rules of the organisations that are reached -/

/-- **After the rows of a table are loaded each has its task and its settings**, and there is no task besides. -/
theorem foldl_loadRow (rows : List (StorableRule V)) (hid : ∀ x ∈ rows, ∀ y ∈ rows, x.id = y.id → x = y)
    (hs : s.mem.tasks = ∅) :
    (∀ row ∈ rows, (rows.foldl (loadRow E) s).mem.tasks.lookup row.id = StorableRule.startable E row ∧
      SettingsOf E (rows.foldl (loadRow E) s) row) ∧
    ∀ k, (∀ row ∈ rows, row.id ≠ k) → (rows.foldl (loadRow E) s).mem.tasks.lookup k = none := by
  induction rows using List.reverseRecOn with
  | nil =>
    constructor
    · intro row h
      cases h
    · intro k _
      rw [foldl_nil, hs]
      rfl
  | append_singleton rows row ih =>
    obtain ⟨hdone, hrest⟩ := ih (fun x hx y hy => hid x (mem_append_left _ hx) y (mem_append_left _ hy))
    rw [foldl_append, foldl_cons, foldl_nil]
    have hbefore : (rows.foldl (loadRow E) s).mem.tasks.lookup row.id = none ∨
        (rows.foldl (loadRow E) s).mem.tasks.lookup row.id = StorableRule.startable E row := by
      by_cases hmem : ∃ row' ∈ rows, row'.id = row.id
      · obtain ⟨row', hmem, heq⟩ := hmem
        have hsame : row' = row := hid row' (mem_append_left _ hmem) row (mem_append_right _ (mem_singleton_self _)) heq
        rw [← hsame]
        exact Or.inr (hdone row' hmem).1
      · exact Or.inl (hrest row.id (fun row' hrow' heq => hmem ⟨row', hrow', heq⟩))
    constructor
    · intro row' hrow'
      rw [loadRow_tasks hbefore]
      by_cases heq : row'.id = row.id
      · have hsame : row' = row := hid row' hrow' row (mem_append_right _ (mem_singleton_self _)) heq
        rw [hsame, if_pos rfl]
        exact ⟨rfl, settings_loadRow row⟩
      · have hold : row' ∈ rows := by
          rcases mem_append.1 hrow' with h | h
          · exact h
          · rw [mem_singleton.1 h] at heq
            exact absurd rfl heq
        rw [if_neg heq]
        exact ⟨(hdone row' hold).1, (hdone row' hold).2.loadRow heq⟩
    · intro k hk
      rw [loadRow_tasks hbefore, if_neg (hk row (mem_append_right _ (mem_singleton_self _))).symm]
      exact hrest k (fun row' hrow' => hk row' (mem_append_left _ hrow'))

theorem foldl_loadRow_db (rows : List (StorableRule V)) : (rows.foldl (loadRow E) s).db = s.db := by
  induction rows generalizing s with
  | nil => rfl
  | cons row rows ih => rw [foldl_cons, ih, loadRow_db]

theorem foldl_loadRule_fst {orgID : String} : ∀ (rows : List (StorableRule V)) (acc : ManagerState V × Bool),
    (∀ row ∈ rows, row.orgID = orgID) → (rows.foldl (loadRule E orgID) acc).1 = rows.foldl (loadRow E) acc.1
  | [], _, _ => rfl
  | row :: rows, acc, h => by
    have hrow : (loadRule E orgID acc row).1 = loadRow E acc.1 row := by
      unfold loadRule loadRow
      rw [h row mem_cons_self]
      cases unmarshalRule E row.data <;> rfl
    rw [foldl_cons, foldl_cons, foldl_loadRule_fst rows _ (fun x hx => h x (mem_cons_of_mem _ hx)), hrow]

def hasRules (db : Database V) (orgID : String) : Bool := (GoMap.values db.stored).any (fun row => row.orgID == orgID)

def reached (db : Database V) (orgs : List String) : List String := orgs.takeWhile (hasRules db)

variable {db : Database V} {A : LoadAnswers V}

omit [Float64 V] in
theorem mem_orgRows {orgID : String} {row : StorableRule V} :
    row ∈ orgRows A db orgID ↔ row ∈ GoMap.values db.stored ∧ row.orgID = orgID := by
  unfold orgRows
  rw [(A.order.perm _).mem_iff, mem_filter, beq_iff_eq]

omit [Float64 V] in
theorem hasRules_iff (db : Database V) (orgID : String) : hasRules db orgID = true ↔ orgRows A db orgID ≠ [] := by
  unfold hasRules
  rw [List.any_eq_true]
  constructor
  · rintro ⟨row, hrow, horg⟩ hnil
    have hmem := mem_orgRows (A := A).2 ⟨hrow, beq_iff_eq.1 horg⟩
    rw [hnil] at hmem
    cases hmem
  · intro hne
    obtain ⟨row, hrow⟩ := exists_mem_of_ne_nil _ hne
    obtain ⟨hstored, horg⟩ := mem_orgRows.1 hrow
    exact ⟨row, hstored, beq_iff_eq.2 horg⟩

/-- **What a start without an error loads**: the rows of the organisations that are reached, in turn. -/
theorem loadOrgs_succeeded : ∀ (orgs : List String) (acc : ManagerState V × Bool), (loadOrgs E A orgs acc).2 = true →
    (loadOrgs E A orgs acc).1 = ((reached acc.1.db orgs).flatMap (orgRows A acc.1.db)).foldl (loadRow E) acc.1
  | [], _, _ => rfl
  | orgID :: orgs, acc, h => by
    unfold loadOrgs getStoredRules at h ⊢
    cases hread : A.readFails orgID with
    | true => rw [hread] at h; cases h
    | false =>
      rw [hread] at h
      simp only [Bool.false_eq_true, if_false] at h ⊢
      have hhas := hasRules_iff (A := A) acc.1.db orgID
      have horg : ∀ row ∈ orgRows A acc.1.db orgID, row.orgID = orgID := fun row hrow => (mem_orgRows.1 hrow).2
      unfold reached
      rw [takeWhile_cons]
      generalize hrows : orgRows A acc.1.db orgID = rows at h hhas horg ⊢
      cases rows with
      | nil =>
        have hno : ¬ hasRules acc.1.db orgID = true := fun hyes => hhas.1 hyes rfl
        rw [if_neg hno]
        rfl
      | cons row rows =>
        rw [if_pos (hhas.2 (cons_ne_nil _ _)), flatMap_cons, hrows, foldl_append]
        have hdb : ((row :: rows).foldl (loadRule E orgID) acc).1.db = acc.1.db := by
          rw [foldl_loadRule_fst _ _ horg, foldl_loadRow_db]
        have ih := loadOrgs_succeeded orgs _ h
        rw [hdb, foldl_loadRule_fst _ _ horg] at ih
        exact ih

/-! ## When every rule is loaded -/

structure Enabled (E : Checks V) (db : Database V) (row : StorableRule V) (r : PostableRule V) : Prop where
  stored : row ∈ GoMap.values db.stored
  parses : unmarshalRule E row.data = some r
  enabled : r.disabled = false

def Loaded (s : ManagerState V) (row : StorableRule V) (r : PostableRule V) : Prop :=
  s.mem.tasks.lookup row.id = some r ∧ ∀ n ∈ r.notificationSettings,
    s.mem.notifications.lookup (row.orgID, row.id) = some n.getAlertManagerNotificationConfig

def fresh (db : Database V) : ManagerState V := { db, mem := { tasks := ∅, rules := ∅, notifications := ∅ } }

omit [Float64 V] in
theorem Keyed.eq_of_id (hk : Keyed db) {x y : StorableRule V} (hx : x ∈ GoMap.values db.stored)
    (hy : y ∈ GoMap.values db.stored) (h : x.id = y.id) : x = y := by
  obtain ⟨k, hx⟩ := GoMap.mem_values.1 hx
  obtain ⟨k', hy⟩ := GoMap.mem_values.1 hy
  rw [hk k x hx, hk k' y hy] at h
  rw [h, hy, some_inj] at hx
  exact hx.symm

theorem startable_of_enabled {row : StorableRule V} {r : PostableRule V} (h : Enabled E db row r) :
    StorableRule.startable E row = some r ↔ E.prepares r = true := by
  unfold StorableRule.startable StorableRule.task
  rw [h.parses, filter_some, h.enabled]
  simp [filter_some]

/-- **A start without an error loads every enabled rule of its organisations exactly when each of these rules can be
prepared and none of their organisations comes after one without rules.** -/
theorem initiate_loads_iff (hk : Keyed db) (h : (initiate E A (fresh db)).2 = true) :
    (∀ row r, Enabled E db row r → row.orgID ∈ A.orgs → Loaded (initiate E A (fresh db)).1 row r) ↔
      ∀ row r, Enabled E db row r → row.orgID ∈ A.orgs → row.orgID ∈ reached db A.orgs ∧ E.prepares r = true := by
  have hstate : (initiate E A (fresh db)).1 =
      ((reached db A.orgs).flatMap (orgRows A db)).foldl (loadRow E) (fresh db) := by
    unfold initiate at h ⊢
    split_ifs at h ⊢
    exact loadOrgs_succeeded A.orgs (fresh db, true) h
  have hrows : ∀ row, row ∈ (reached db A.orgs).flatMap (orgRows A db) ↔
      row ∈ GoMap.values db.stored ∧ row.orgID ∈ reached db A.orgs := by
    intro row
    rw [mem_flatMap]
    constructor
    · rintro ⟨orgID, horg, hrow⟩
      obtain ⟨hstored, rfl⟩ := mem_orgRows.1 hrow
      exact ⟨hstored, horg⟩
    · rintro ⟨hstored, horg⟩
      exact ⟨row.orgID, horg, mem_orgRows.2 ⟨hstored, rfl⟩⟩
  obtain ⟨hdone, hrest⟩ := foldl_loadRow (E := E) (s := fresh db) ((reached db A.orgs).flatMap (orgRows A db))
    (fun x hx y hy => hk.eq_of_id ((hrows x).1 hx).1 ((hrows y).1 hy).1) rfl
  rw [← hstate] at hdone hrest
  constructor
  · intro hall row r hr horg
    obtain ⟨htask, -⟩ := hall row r hr horg
    have hreached : row.orgID ∈ reached db A.orgs := by
      by_contra hnot
      rw [hrest row.id] at htask
      · cases htask
      · intro row' hrow' heq
        obtain ⟨hstored, horg'⟩ := (hrows row').1 hrow'
        rw [hk.eq_of_id hstored hr.stored heq] at horg'
        exact hnot horg'
    rw [(hdone row ((hrows row).2 ⟨hr.stored, hreached⟩)).1] at htask
    exact ⟨hreached, (startable_of_enabled hr).1 htask⟩
  · intro hall row r hr horg
    obtain ⟨hreached, hprep⟩ := hall row r hr horg
    obtain ⟨htask, hsettings⟩ := hdone row ((hrows row).2 ⟨hr.stored, hreached⟩)
    exact ⟨htask.trans ((startable_of_enabled hr).2 hprep), hsettings r hr.parses⟩

omit [Float64 V] in
theorem Keyed.storeRow (h : Keyed s.db) (row : StorableRule V) : Keyed (storeRow s row).db := by
  intro k x hx
  rw [storeRow_lookup] at hx
  split_ifs at hx with hk
  · rw [hk, ← some_inj.1 hx]
  · exact h k x hx

end

def cpuRow (id orgID : String) : StorableRule Int :=
  { id, orgID, data := some (cpuDefinition false false [alertAbove "critical" 5]) }

def bothOrgs : LoadAnswers Int :=
  { orgs := ["first", "second"], listFails := false, readFails := fun _ => false, order := .asStored }

def oneEach : ManagerState Int := storeRow (storeRow oneChannel (cpuRow "r1" "first")) (cpuRow "r2" "second")

/-- Two organisations with a rule each. -/
theorem both_orgs_load : (initiate passing bothOrgs (fresh oneEach.db)).2 = true ∧
    ∀ row r, Enabled passing oneEach.db row r → row.orgID ∈ bothOrgs.orgs →
      Loaded (initiate passing bothOrgs (fresh oneEach.db)).1 row r := by
  have hk : Keyed oneEach.db := (follows_oneChannel.keyed.storeRow _).storeRow _
  have hok : (initiate passing bothOrgs (fresh oneEach.db)).2 = true := by decide
  refine ⟨hok, (initiate_loads_iff hk hok).2 (fun row r _ horg => ⟨?_, rfl⟩)⟩
  have hreached : reached oneEach.db bothOrgs.orgs = bothOrgs.orgs := by decide
  rw [hreached]
  exact horg

/-- The first organisation has no rules, and the rule of the second is not loaded. -/
theorem second_org_not_loaded : ∃ row r, Enabled passing (storeRow oneChannel (cpuRow "r2" "second")).db row r ∧
    row.orgID ∈ bothOrgs.orgs ∧ (initiate passing bothOrgs (fresh (storeRow oneChannel (cpuRow "r2" "second")).db)).2 = true ∧
    ¬ Loaded (initiate passing bothOrgs (fresh (storeRow oneChannel (cpuRow "r2" "second")).db)).1 row r := by
  refine ⟨cpuRow "r2" "second", cpuDefinition false false [alertAbove "critical" 5],
    ⟨by decide, by decide, rfl⟩, by decide, by decide, fun h => ?_⟩
  have htask := h.1
  revert htask
  decide

end Rules
end DsApm
