import DsApm.Lib.StepRun
import DsApm.AgentConf.Repo
/-!
# Versions — the numbers the versions get

Because the greatest version is taken over the whole table, a pair of organisation and element type finds its latest
version only while no other pair has more versions.  So the numbers are right throughout a run exactly as long as a call
that goes through is made by the only pair there is, or is the first of its pair while every other has one version
(`versions_right_iff`).
-/
namespace DsApm
namespace AgentConf

open SqlTable StepRun List Option

structure Call where
  orgId : UUID
  eleType : ElementType
  elementIds : List String
  faults : Faults

/-- The tables, how many ids have been drawn, and the versions returned so far. -/
structure Stored where
  repo : Repo
  drawn : Nat
  answered : List AgentConfigVersion

def Stored.init : Stored := ⟨Repo.empty, 0, []⟩

def step (s : Stored) (call : Call) : Stored × Except String AgentConfigVersion :=
  let r := startNewVersion call.faults s.drawn call.orgId call.eleType call.elementIds s.repo
  (⟨r.1, s.drawn + 1, s.answered ++ r.2.toOption.toList⟩, r.2)

def versionsOf (orgId : UUID) (typ : ElementType) (rows : List AgentConfigVersion) : List Int :=
  (rows.filter (fun r => r.orgID == orgId && r.elementType == typ)).map (·.version)

def upTo (n : Nat) : List Int := (List.range n).map (fun i : Nat => (i : Int) + 1)

/-- **The versions are right**: a pair's are those of its successful calls, `1, 2, 3, …`, and the latest is the last. -/
structure VersionsRight (s : Stored) : Prop where
  stored : ∀ orgId typ, versionsOf orgId typ s.repo.versions.rows = versionsOf orgId typ s.answered
  numbered : ∀ orgId typ, versionsOf orgId typ s.answered = upTo (versionsOf orgId typ s.answered).length
  latest : ∀ orgId typ, (getLatestVersion orgId typ s.repo.versions).map (·.version) = (versionsOf orgId typ s.answered).getLast?

/-! ## Counting up -/

theorem mem_upTo {n : Nat} {v : Int} : v ∈ upTo n ↔ 1 ≤ v ∧ v ≤ n := by
  unfold upTo
  rw [List.mem_map]
  constructor
  · rintro ⟨i, hi, rfl⟩
    rw [mem_range] at hi
    omega
  · rintro ⟨h1, hn⟩
    exact ⟨(v - 1).toNat, by rw [mem_range]; omega, by omega⟩

theorem upTo_succ (n : Nat) : upTo (n + 1) = upTo n ++ [(n : Int) + 1] := by
  simp [upTo, range_succ]

theorem getLast?_upTo (n : Nat) : (upTo n).getLast? = if n = 0 then none else some (n : Int) := by
  cases n with
  | zero => rfl
  | succ n => rw [upTo_succ, List.getLast?_concat, if_neg (Nat.succ_ne_zero n), Int.natCast_succ]

@[simp] theorem length_upTo (n : Nat) : (upTo n).length = n := by simp [upTo]

/-! ## The latest version -/

theorem mem_versionsOf {orgId : UUID} {typ : ElementType} {rows : List AgentConfigVersion} {v : Int} :
    v ∈ versionsOf orgId typ rows ↔ ∃ r ∈ rows, r.orgID = orgId ∧ r.elementType = typ ∧ r.version = v := by
  simp [versionsOf, and_assoc]

theorem mem_versionsOf_self {rows : List AgentConfigVersion} {r : AgentConfigVersion} (h : r ∈ rows) :
    r.version ∈ versionsOf r.orgID r.elementType rows := mem_versionsOf.2 ⟨r, h, rfl, rfl, rfl⟩

theorem versionsOf_append (orgId : UUID) (typ : ElementType) (rows : List AgentConfigVersion) (c : AgentConfigVersion) :
    versionsOf orgId typ (rows ++ [c]) =
      versionsOf orgId typ rows ++ if c.orgID = orgId ∧ c.elementType = typ then [c.version] else [] := by
  unfold versionsOf
  rw [filter_append, map_append]
  congr 1
  split_ifs with h <;> simp_all

/-- **A pair's latest version is found exactly where it is the greatest version of the whole table.** -/
theorem getLatestVersion_eq_some (orgId : UUID) (typ : ElementType) (versions : Versions) (v : Int) :
    (getLatestVersion orgId typ versions).map (·.version) = some v ↔
      v ∈ versionsOf orgId typ versions.rows ∧ ∀ r ∈ versions.rows, r.version ≤ v := by
  have hmax : ∀ acv : AgentConfigVersion, acv.elementType = typ → ∀ w,
      some w = maxVersion versions acv typ ↔ (∃ r ∈ versions.rows, r.version = w) ∧ ∀ r ∈ versions.rows, r.version ≤ w :=
    fun acv hacv w => by
      have hall : versions.rows.filter (fun _ => acv.elementType == typ) = versions.rows :=
        filter_eq_self.2 (fun _ _ => by simp [hacv])
      rw [maxVersion, hall, eq_comm, List.max?_eq_some_iff]
      simp
  unfold getLatestVersion
  constructor
  · intro h
    obtain ⟨acv, hfind, rfl⟩ := map_eq_some_iff.1 h
    have hin := mem_of_find?_eq_some hfind
    have hcond := List.find?_some hfind
    simp only [Bool.and_eq_true, beq_iff_eq, decide_eq_true_eq] at hcond
    exact ⟨mem_versionsOf.2 ⟨acv, hin, hcond.1.2, hcond.1.1, rfl⟩, ((hmax acv hcond.1.1 _).1 hcond.2).2⟩
  · rintro ⟨hv, hle⟩
    obtain ⟨r, hr, horg, htyp, rfl⟩ := mem_versionsOf.1 hv
    have hcond : (r.elementType == typ && r.orgID == orgId && decide (some r.version = maxVersion versions r typ)) = true := by
      simp only [Bool.and_eq_true, beq_iff_eq, decide_eq_true_eq]
      exact ⟨⟨htyp, horg⟩, (hmax r htyp _).2 ⟨⟨r, hr, rfl⟩, hle⟩⟩
    obtain ⟨acv, hfind⟩ := isSome_iff_exists.1 (List.find?_isSome (p := fun r =>
      r.elementType == typ && r.orgID == orgId && decide (some r.version = maxVersion versions r typ)).2 ⟨r, hr, hcond⟩)
    have hin := mem_of_find?_eq_some hfind
    have hacv := List.find?_some hfind
    simp only [Bool.and_eq_true, beq_iff_eq, decide_eq_true_eq] at hacv
    have hge := ((hmax acv hacv.1.1 _).1 hacv.2).2 r hr
    rw [hfind, map_some, some_inj]
    exact Int.le_antisymm (hle acv hin) hge

/-- Every pair that has versions has as many as the greatest version of the table. -/
def Level (rows : List AgentConfigVersion) : Prop :=
  ∀ orgId typ, versionsOf orgId typ rows ≠ [] → ∀ r ∈ rows, r.version ≤ (versionsOf orgId typ rows).length

structure Counted (s : Stored) : Prop where
  stored : ∀ orgId typ, versionsOf orgId typ s.repo.versions.rows = versionsOf orgId typ s.answered
  numbered : ∀ orgId typ, versionsOf orgId typ s.answered = upTo (versionsOf orgId typ s.answered).length

theorem Counted.rows {s : Stored} (h : Counted s) (orgId : UUID) (typ : ElementType) :
    versionsOf orgId typ s.repo.versions.rows = upTo (versionsOf orgId typ s.repo.versions.rows).length := by
  rw [h.stored]
  exact h.numbered orgId typ

theorem versionsRight_iff (s : Stored) : VersionsRight s ↔ Counted s ∧ Level s.repo.versions.rows := by
  constructor
  · intro h
    refine ⟨⟨h.stored, h.numbered⟩, fun orgId typ hne r hr => ?_⟩
    have hl := h.latest orgId typ
    rw [h.numbered, getLast?_upTo, ← h.stored, if_neg (fun hz => hne (eq_nil_of_length_eq_zero hz))] at hl
    exact ((getLatestVersion_eq_some orgId typ s.repo.versions _).1 hl).2 r hr
  · rintro ⟨hc, hl⟩
    refine ⟨hc.stored, hc.numbered, fun orgId typ => ?_⟩
    rw [hc.numbered, getLast?_upTo, ← hc.stored]
    split_ifs with hz
    · rw [map_eq_none_iff]
      by_contra hsome
      obtain ⟨acv, hacv⟩ := ne_none_iff_exists'.1 hsome
      have hin := ((getLatestVersion_eq_some orgId typ s.repo.versions acv.version).1 (by rw [hacv]; rfl)).1
      rw [eq_nil_of_length_eq_zero hz] at hin
      cases hin
    · have hne : versionsOf orgId typ s.repo.versions.rows ≠ [] := fun h => hz (by rw [h]; rfl)
      refine (getLatestVersion_eq_some orgId typ s.repo.versions _).2 ⟨?_, hl orgId typ hne⟩
      rw [hc.rows orgId typ, mem_upTo, length_upTo]
      omega

/-! ## What a call does -/

structure Validated (call : Call) : Prop where
  typed : call.eleType ≠ ""
  nonempty : ¬ (call.elementIds = [] ∧ call.eleType ≠ elementTypeLogPipelines)
  fetched : call.faults.fetch = false
  inserted : call.faults.insertVersion = false

def Storable (call : Call) : Prop :=
  call.elementIds.Nodup ∧ ∀ i < call.elementIds.length, call.faults.insertElement i = false

def Accepted (call : Call) : Prop := Validated call ∧ Storable call

/-- The call fails after its version is stored, and so does deleting that version. -/
def LeavesVersion (call : Call) : Prop := Validated call ∧ ¬ Storable call ∧ call.faults.deleteVersion = true

structure Drawn (s : Stored) : Prop where
  versions : ∀ r ∈ s.repo.versions.rows, r.id < s.drawn
  elements : ∀ e ∈ s.repo.elements.rows, e.versionID < s.drawn

def newVersion (s : Stored) (call : Call) : AgentConfigVersion :=
  { newAgentConfigVersion s.drawn call.orgId call.eleType with
    version := nextVersion call.orgId call.eleType s.repo.versions }

theorem find?_elements_insert {t t' : Elements} {c : AgentConfigVersion} {e : String}
    (h : t.insert? ⟨e, c.elementType, c.id⟩ = some t') (es : List String) :
    (∀ e' ∈ es, t'.find? (e', c.elementType, c.id) = none) ↔
      e ∉ es ∧ ∀ e' ∈ es, t.find? (e', c.elementType, c.id) = none := by
  have hkey : ∀ e' : String, (⟨e, c.elementType, c.id⟩ : AgentConfigElement).key = (e', c.elementType, c.id) ↔ e = e' :=
    fun e' => by simp
  simp only [Table.find?_insert h, hkey]
  constructor
  · intro hall
    refine ⟨fun hin => by simpa using hall e hin, fun e' he' => ?_⟩
    have := hall e' he'
    split_ifs at this
    exact this
  · rintro ⟨hin, hall⟩ e' he'
    rw [if_neg (fun heq : e = e' => hin (heq ▸ he'))]
    exact hall e' he'

/-- **The elements are stored** when each is new and the database takes every one. -/
theorem insertElements_ok_iff (fails : Nat → Bool) (c : AgentConfigVersion) : ∀ (es : List String) (i : Nat) (t : Elements),
    (insertElements fails c i es t).2 = true ↔
      (es.Nodup ∧ ∀ e ∈ es, t.find? (e, c.elementType, c.id) = none) ∧ ∀ j < es.length, fails (i + j) = false
  | [], i, t => by simp [insertElements]
  | e :: es, i, t => by
    have hfaults : (∀ j < (e :: es).length, fails (i + j) = false) ↔
        fails i = false ∧ ∀ j < es.length, fails (i + 1 + j) = false := by
      rw [length_cons]
      constructor
      · exact fun h => ⟨h 0 (by omega), fun j hj => by
          rw [Nat.add_assoc, Nat.add_comm 1 j]
          exact h (j + 1) (by omega)⟩
      · rintro ⟨h0, h⟩ j hj
        cases j with
        | zero => exact h0
        | succ j =>
          rw [Nat.add_comm j 1, ← Nat.add_assoc]
          exact h j (by omega)
    rw [insertElements, hfaults, nodup_cons, forall_mem_cons]
    by_cases hf : fails i = true
    · rw [if_pos hf]
      simp [hf]
    · rw [if_neg hf, Bool.eq_false_iff.2 hf]
      cases hins : t.insert? ⟨e, c.elementType, c.id⟩ with
      | none =>
        obtain ⟨q, hq⟩ := (t.insert?_eq_none _).1 hins
        have hq' : t.find? (e, c.elementType, c.id) = some q := hq
        simp [hq']
      | some t' =>
        have hfree : t.find? (e, c.elementType, c.id) = none := ((t.insert?_eq_some _ _).1 hins).1
        refine (insertElements_ok_iff fails c es (i + 1) t').trans ?_
        rw [find?_elements_insert hins, hfree]
        tauto

theorem mem_insertElements (fails : Nat → Bool) (c : AgentConfigVersion) : ∀ (es : List String) (i : Nat) (t : Elements),
    ∀ r ∈ (insertElements fails c i es t).1.rows, r ∈ t.rows ∨ r.versionID = c.id
  | [], _, _, _, hr => Or.inl hr
  | e :: es, i, t, r, hr => by
    rw [insertElements] at hr
    split_ifs at hr with hf
    · exact Or.inl hr
    · cases hins : t.insert? ⟨e, c.elementType, c.id⟩ with
      | none =>
        rw [hins] at hr
        exact Or.inl hr
      | some t' =>
        rw [hins] at hr
        rcases mem_insertElements fails c es (i + 1) t' r hr with h | h
        · rw [((t.insert?_eq_some _ _).1 hins).2, mem_append, mem_singleton] at h
          rcases h with h | rfl
          · exact Or.inl h
          · exact Or.inr rfl
        · exact Or.inr h

theorem storeConfig_cases (faults : Faults) (orgId : UUID) (c : AgentConfigVersion) (elements : List String) (repo : Repo)
    (hnew : repo.versions.find? c.key = none) (hid : ∀ r ∈ repo.versions.rows, r.id ≠ c.id)
    (helem : ∀ r ∈ repo.elements.rows, r.versionID ≠ c.id) (horg : c.orgID = orgId) (hfault : faults.insertVersion = false) :
    let r := storeConfig faults orgId c elements repo
    let storable := elements.Nodup ∧ ∀ i < elements.length, faults.insertElement i = false
    (storable ∧ r.1.versions.rows = repo.versions.rows ++ [c] ∧ r.2 = .ok c) ∨
    (¬ storable ∧ (∃ err, r.2 = .error err) ∧
      r.1.versions.rows = if faults.deleteVersion then repo.versions.rows ++ [c] else repo.versions.rows) := by
  have hold : repo.versions.rows.filter (fun v => !(v.id == c.id && v.orgID == orgId)) = repo.versions.rows :=
    filter_eq_self.2 fun v hv => by simp [hid v hv]
  have hfree : ∀ e ∈ elements, repo.elements.find? (e, c.elementType, c.id) = none := fun e _ =>
    (repo.elements.find?_eq_none _).2 fun r hr hk => helem r hr (congrArg (fun k => k.2.2) hk)
  have hok := insertElements_ok_iff faults.insertElement c elements 0 repo.elements
  simp only [Nat.zero_add, and_iff_left hfree] at hok
  simp only [storeConfig, hfault, Bool.false_eq_true, if_false]
  cases hins : repo.versions.insert? c with
  | none =>
    obtain ⟨q, hq⟩ := (repo.versions.insert?_eq_none _).1 hins
    rw [hnew] at hq
    cases hq
  | some versions =>
    have hrows : versions.rows = repo.versions.rows ++ [c] := ((repo.versions.insert?_eq_some _ _).1 hins).2
    by_cases hdone : (insertElements faults.insertElement c 0 elements repo.elements).2 = true
    · simp only [hdone, if_true]
      exact Or.inl ⟨hok.1 hdone, hrows, trivial⟩
    · simp only [hdone]
      refine Or.inr ⟨fun h => hdone (hok.2 h), ⟨_, rfl⟩, ?_⟩
      show (cleanup faults orgId c ⟨versions, _⟩).versions.rows = _
      unfold cleanup
      by_cases hdel : faults.deleteVersion = true
      · rw [if_pos hdel, if_pos hdel, hrows]
      · rw [if_neg hdel, if_neg hdel, Table.rows_delete, hrows, filter_append, hold]
        simp [horg]

theorem storeConfig_failed (faults : Faults) (orgId : UUID) (c : AgentConfigVersion) (elements : List String) (repo : Repo)
    (hid : ∀ r ∈ repo.versions.rows, r.id ≠ c.id) (hfault : faults.insertVersion = true) :
    (storeConfig faults orgId c elements repo).1.versions.rows = repo.versions.rows ∧
    (storeConfig faults orgId c elements repo).2 = .error "failed to insert config version" := by
  have hold : repo.versions.rows.filter (fun v => !(v.id == c.id && v.orgID == orgId)) = repo.versions.rows :=
    filter_eq_self.2 fun v hv => by simp [hid v hv]
  simp only [storeConfig, hfault, if_true, cleanup, and_true]
  split_ifs
  · rfl
  · exact hold

/-- **What a call does to the versions**: it adds the new one, which stays where the call goes through or its deletion
fails. -/
theorem startNewVersion_cases (s : Stored) (hdrawn : Drawn s) (call : Call)
    (hnew : s.repo.versions.find? (newVersion s call).key = none) :
    let r := startNewVersion call.faults s.drawn call.orgId call.eleType call.elementIds s.repo
    (Accepted call ∧ r.1.versions.rows = s.repo.versions.rows ++ [newVersion s call] ∧ r.2 = .ok (newVersion s call)) ∨
    (LeavesVersion call ∧ r.1.versions.rows = s.repo.versions.rows ++ [newVersion s call] ∧ ∃ err, r.2 = .error err) ∨
    (¬ Accepted call ∧ ¬ LeavesVersion call ∧ r.1.versions.rows = s.repo.versions.rows ∧ ∃ err, r.2 = .error err) := by
  have hid : ∀ r ∈ s.repo.versions.rows, r.id ≠ (newVersion s call).id := fun r hr => Nat.ne_of_lt (hdrawn.versions r hr)
  have helem : ∀ r ∈ s.repo.elements.rows, r.versionID ≠ (newVersion s call).id :=
    fun r hr => Nat.ne_of_lt (hdrawn.elements r hr)
  have hrefused : ¬ Validated call → ¬ Accepted call ∧ ¬ LeavesVersion call := fun h => ⟨fun ha => h ha.1, fun hl => h hl.1⟩
  have hunfold : startNewVersion call.faults s.drawn call.orgId call.eleType call.elementIds s.repo =
      if call.eleType = "" then (s.repo, .error "element type is required for creating agent config version")
      else if call.elementIds = [] ∧ call.eleType ≠ elementTypeLogPipelines then
        (s.repo, .error "config must have atleast one element")
      else if call.faults.fetch then (s.repo, .error "failed to get latest config version")
      else storeConfig call.faults call.orgId (newVersion s call) call.elementIds s.repo := rfl
  simp only [hunfold]
  split_ifs with htyp helems hfetch
  · obtain ⟨ha, hl⟩ := hrefused (fun h => h.typed htyp)
    exact Or.inr (Or.inr ⟨ha, hl, rfl, _, rfl⟩)
  · obtain ⟨ha, hl⟩ := hrefused (fun h => h.nonempty helems)
    exact Or.inr (Or.inr ⟨ha, hl, rfl, _, rfl⟩)
  · obtain ⟨ha, hl⟩ := hrefused (fun h => by rw [h.fetched] at hfetch; cases hfetch)
    exact Or.inr (Or.inr ⟨ha, hl, rfl, _, rfl⟩)
  · by_cases hfault : call.faults.insertVersion = true
    · obtain ⟨ha, hl⟩ := hrefused (fun h => by rw [h.inserted] at hfault; cases hfault)
      obtain ⟨hrows, herr⟩ := storeConfig_failed call.faults call.orgId (newVersion s call) call.elementIds s.repo hid hfault
      exact Or.inr (Or.inr ⟨ha, hl, hrows, _, herr⟩)
    · rw [Bool.not_eq_true] at hfetch hfault
      have hval : Validated call := ⟨htyp, helems, hfetch, hfault⟩
      rcases storeConfig_cases call.faults call.orgId (newVersion s call) call.elementIds s.repo hnew hid helem rfl hfault with
        ⟨hst, hrows, hans⟩ | ⟨hst, herr, hrows⟩
      · exact Or.inl ⟨⟨hval, hst⟩, hrows, hans⟩
      · by_cases hdel : call.faults.deleteVersion = true
        · rw [if_pos hdel] at hrows
          exact Or.inr (Or.inl ⟨⟨hval, hst, hdel⟩, hrows, herr⟩)
        · rw [if_neg hdel] at hrows
          exact Or.inr (Or.inr ⟨fun ha => hst ha.2, fun hl => hdel hl.2.2, hrows, herr⟩)

/-! ## Runs -/

theorem mem_cleanup {faults : Faults} {orgId : UUID} {c : AgentConfigVersion} {repo : Repo} :
    (∀ r ∈ (cleanup faults orgId c repo).versions.rows, r ∈ repo.versions.rows) ∧
    ∀ e ∈ (cleanup faults orgId c repo).elements.rows, e ∈ repo.elements.rows := by
  unfold cleanup
  constructor
  · intro r hr
    dsimp only at hr
    split_ifs at hr
    · exact hr
    · exact mem_of_mem_filter hr
  · intro e he
    dsimp only at he
    split_ifs at he
    · exact he
    · exact mem_of_mem_filter he

theorem mem_storeConfig_versions (faults : Faults) (orgId : UUID) (c : AgentConfigVersion) (elements : List String) (repo : Repo) :
    ∀ r ∈ (storeConfig faults orgId c elements repo).1.versions.rows, r ∈ repo.versions.rows ∨ r = c := by
  unfold storeConfig
  cases hins : (if faults.insertVersion then none else repo.versions.insert? c) with
  | none => exact fun r hr => Or.inl (mem_cleanup.1 r hr)
  | some versions =>
    have hver : ∀ r ∈ versions.rows, r ∈ repo.versions.rows ∨ r = c := fun r hr => by
      split_ifs at hins
      rw [((repo.versions.insert?_eq_some _ _).1 hins).2, mem_append, mem_singleton] at hr
      exact hr
    dsimp only
    split_ifs
    · exact hver
    · exact fun r hr => hver r (mem_cleanup.1 r hr)

theorem mem_storeConfig_elements (faults : Faults) (orgId : UUID) (c : AgentConfigVersion) (elements : List String) (repo : Repo) :
    ∀ e ∈ (storeConfig faults orgId c elements repo).1.elements.rows, e ∈ repo.elements.rows ∨ e.versionID = c.id := by
  have helem := mem_insertElements faults.insertElement c elements 0 repo.elements
  unfold storeConfig
  cases (if faults.insertVersion then none else repo.versions.insert? c) with
  | none => exact fun e he => Or.inl (mem_cleanup.2 e he)
  | some versions =>
    dsimp only
    split_ifs
    · exact helem
    · exact fun e he => helem e (mem_cleanup.2 e he)

theorem drawn_step (s : Stored) (h : Drawn s) (call : Call) : Drawn (step s call).1 := by
  have hvers := mem_storeConfig_versions call.faults call.orgId (newVersion s call) call.elementIds s.repo
  have helems := mem_storeConfig_elements call.faults call.orgId (newVersion s call) call.elementIds s.repo
  have hsame : (step s call).1.repo = s.repo ∨
      (step s call).1.repo = (storeConfig call.faults call.orgId (newVersion s call) call.elementIds s.repo).1 := by
    unfold step startNewVersion insertConfig
    dsimp only
    split_ifs
    · exact Or.inl rfl
    · exact Or.inl rfl
    · exact Or.inl rfl
    · exact Or.inl rfl
    · exact Or.inr rfl
  have hlt : ∀ {n : Nat}, n < s.drawn ∨ n = s.drawn → n < s.drawn + 1 := fun h => by omega
  rcases hsame with heq | heq
  · refine ⟨fun r hr => ?_, fun e he => ?_⟩
    · rw [heq] at hr
      exact hlt (Or.inl (h.versions r hr))
    · rw [heq] at he
      exact hlt (Or.inl (h.elements e he))
  · refine ⟨fun r hr => ?_, fun e he => ?_⟩
    · rw [heq] at hr
      exact hlt ((hvers r hr).imp (h.versions r) (fun hr => by rw [hr]; rfl))
    · rw [heq] at he
      exact hlt ((helems e he).imp (h.elements e) id)

/-- The call's pair is the only one with versions, or has none yet while every version there is is the first of its pair. -/
def Alone (s : Stored) (call : Call) : Prop :=
  (∀ r ∈ s.repo.versions.rows, r.orgID = call.orgId ∧ r.elementType = call.eleType) ∨
  ((∀ r ∈ s.repo.versions.rows, ¬ (r.orgID = call.orgId ∧ r.elementType = call.eleType)) ∧
    ∀ r ∈ s.repo.versions.rows, r.version = 1)

def InStep (s : Stored) (call : Call) : Prop := (Accepted call → Alone s call) ∧ ¬ LeavesVersion call

theorem nextVersion_eq {s : Stored} (hc : Counted s) (hl : Level s.repo.versions.rows) (orgId : UUID) (typ : ElementType) :
    nextVersion orgId typ s.repo.versions = (versionsOf orgId typ s.repo.versions.rows).length + 1 := by
  have hlatest := ((versionsRight_iff s).2 ⟨hc, hl⟩).latest orgId typ
  rw [hc.numbered, getLast?_upTo, ← hc.stored] at hlatest
  unfold nextVersion
  split_ifs at hlatest with hz
  · rw [map_eq_none_iff] at hlatest
    rw [hlatest, hz]
    rfl
  · obtain ⟨acv, hfind, hv⟩ := map_eq_some_iff.1 hlatest
    rw [hfind]
    show acv.version + 1 = _
    rw [hv]

/-- **The new version is level with the others exactly when its pair is alone.** -/
theorem level_append_iff {s : Stored} (hc : Counted s) (hl : Level s.repo.versions.rows) (call : Call) :
    Level (s.repo.versions.rows ++ [newVersion s call]) ↔ Alone s call := by
  have hnext : (newVersion s call).version = (versionsOf call.orgId call.eleType s.repo.versions.rows).length + 1 :=
    nextVersion_eq hc hl call.orgId call.eleType
  have hlen : ∀ orgId typ, (versionsOf orgId typ (s.repo.versions.rows ++ [newVersion s call])).length =
      (versionsOf orgId typ s.repo.versions.rows).length +
        if call.orgId = orgId ∧ call.eleType = typ then 1 else 0 := fun orgId typ => by
    rw [versionsOf_append, List.length_append]
    show _ + (if call.orgId = orgId ∧ call.eleType = typ then [_] else []).length = _
    split_ifs <;> rfl
  have hown : ∀ r ∈ s.repo.versions.rows, 1 ≤ r.version ∧
      r.version ≤ (versionsOf r.orgID r.elementType s.repo.versions.rows).length := fun r hr => by
    rw [← mem_upTo, ← hc.rows]
    exact mem_versionsOf_self hr
  constructor
  · intro hl'
    by_cases hall : ∀ r ∈ s.repo.versions.rows, r.orgID = call.orgId ∧ r.elementType = call.eleType
    · exact Or.inl hall
    · right
      push Not at hall
      obtain ⟨q, hq, hother⟩ := hall
      -- another pair has versions, so it has as many as the new version says
      have hqne : versionsOf q.orgID q.elementType (s.repo.versions.rows ++ [newVersion s call]) ≠ [] := fun h => by
        have hin := mem_versionsOf_self (mem_append_left [newVersion s call] hq)
        rw [h] at hin
        cases hin
      have hqlen := hl' q.orgID q.elementType hqne (newVersion s call) (mem_append_right _ (mem_singleton_self _))
      rw [hlen, hnext, if_neg (fun h => hother h.1.symm h.2.symm)] at hqlen
      have hnil : versionsOf call.orgId call.eleType s.repo.versions.rows = [] := by
        by_contra hne
        have hqmem : ((versionsOf q.orgID q.elementType s.repo.versions.rows).length : Int) ∈
            versionsOf q.orgID q.elementType s.repo.versions.rows := by
          rw [hc.rows q.orgID q.elementType, mem_upTo, length_upTo]
          have := hown q hq
          omega
        obtain ⟨r, hr, -, -, hv⟩ := mem_versionsOf.1 hqmem
        have := hl call.orgId call.eleType hne r hr
        omega
      have hone : ∀ r ∈ s.repo.versions.rows, r.version ≤ 1 := fun r hr => by
        have hne : versionsOf call.orgId call.eleType (s.repo.versions.rows ++ [newVersion s call]) ≠ [] := fun h => by
          have := hlen call.orgId call.eleType
          rw [h, if_pos ⟨rfl, rfl⟩] at this
          simp at this
        have := hl' call.orgId call.eleType hne r (mem_append_left _ hr)
        rw [hlen, hnil, if_pos ⟨rfl, rfl⟩] at this
        simpa using this
      refine ⟨fun r hr hp => ?_, fun r hr => Int.le_antisymm (hone r hr) (hown r hr).1⟩
      have hin := mem_versionsOf.2 ⟨r, hr, hp.1, hp.2, rfl⟩
      rw [hnil] at hin
      cases hin
  · intro halone orgId typ hne r hr
    rcases halone with hall | ⟨hnone, hone⟩
    · have hpair : call.orgId = orgId ∧ call.eleType = typ := by
        obtain ⟨v, hv⟩ := exists_mem_of_ne_nil _ hne
        obtain ⟨q, hq, rfl, rfl, -⟩ := mem_versionsOf.1 hv
        rcases mem_append.1 hq with hq | hq
        · exact ⟨(hall q hq).1.symm, (hall q hq).2.symm⟩
        · rw [mem_singleton.1 hq]
          exact ⟨rfl, rfl⟩
      obtain ⟨rfl, rfl⟩ := hpair
      rw [hlen, if_pos ⟨rfl, rfl⟩]
      rcases mem_append.1 hr with hr | hr
      · have hle := (hown r hr).2
        rw [(hall r hr).1, (hall r hr).2] at hle
        omega
      · rw [mem_singleton.1 hr, hnext]
        omega
    · have hnil : versionsOf call.orgId call.eleType s.repo.versions.rows = [] := by
        rw [eq_nil_iff_forall_not_mem]
        intro v hv
        obtain ⟨q, hq, ho, ht, -⟩ := mem_versionsOf.1 hv
        exact hnone q hq ⟨ho, ht⟩
      have hfirst : r.version = 1 := by
        rcases mem_append.1 hr with hr | hr
        · exact hone r hr
        · rw [mem_singleton.1 hr, hnext, hnil]
          rfl
      have hpos := length_pos_iff.2 hne
      omega

theorem counted_of_append {s s' : Stored} (hc : Counted s) (hl : Level s.repo.versions.rows) (call : Call)
    (hrows : s'.repo.versions.rows = s.repo.versions.rows ++ [newVersion s call])
    (hans : s'.answered = s.answered ++ [newVersion s call]) : Counted s' := by
  have hnext : (newVersion s call).version = (versionsOf call.orgId call.eleType s.repo.versions.rows).length + 1 :=
    nextVersion_eq hc hl call.orgId call.eleType
  refine ⟨fun orgId typ => ?_, fun orgId typ => ?_⟩
  · rw [hrows, hans, versionsOf_append, versionsOf_append, hc.stored]
  · rw [hans, versionsOf_append]
    by_cases hp : (newVersion s call).orgID = orgId ∧ (newVersion s call).elementType = typ
    · obtain ⟨rfl, rfl⟩ := hp
      rw [if_pos ⟨rfl, rfl⟩, List.length_append, List.length_singleton, upTo_succ, ← hc.numbered, hnext, hc.stored]
      rfl
    · rw [if_neg hp, append_nil]
      exact hc.numbered orgId typ

theorem not_counted_of_left {s s' : Stored} (hc : Counted s) {c : AgentConfigVersion}
    (hrows : s'.repo.versions.rows = s.repo.versions.rows ++ [c]) (hans : s'.answered = s.answered) : ¬ Counted s' := fun h => by
  have hlen := congrArg List.length (h.stored c.orgID c.elementType)
  rw [hrows, hans, versionsOf_append, if_pos ⟨rfl, rfl⟩, hc.stored, List.length_append, List.length_singleton] at hlen
  omega

theorem versionsRight_step {s : Stored} (hdrawn : Drawn s) (h : VersionsRight s) (call : Call) :
    VersionsRight (step s call).1 ↔ InStep s call := by
  obtain ⟨hc, hl⟩ := (versionsRight_iff s).1 h
  have hnew : s.repo.versions.find? (newVersion s call).key = none := by
    refine (s.repo.versions.find?_eq_none _).2 fun r hr hk => ?_
    have hv := mem_versionsOf_self hr
    simp only [AgentConfigVersion.key, Prod.mk.injEq] at hk
    rw [hk.1, hk.2.1, hk.2.2, hc.rows, mem_upTo] at hv
    have hnext : (newVersion s call).version = (versionsOf call.orgId call.eleType s.repo.versions.rows).length + 1 :=
      nextVersion_eq hc hl call.orgId call.eleType
    have hle : (newVersion s call).version ≤ (versionsOf call.orgId call.eleType s.repo.versions.rows).length := hv.2
    omega
  rw [versionsRight_iff]
  rcases startNewVersion_cases s hdrawn call hnew with ⟨ha, hrows, hans⟩ | ⟨hleft, hrows, err, hans⟩ | ⟨ha, hleft, hrows, err, hans⟩
  · have hanswered : (step s call).1.answered = s.answered ++ [newVersion s call] := by
      unfold step
      dsimp only
      rw [hans]
      rfl
    rw [and_iff_right (counted_of_append hc hl call hrows hanswered)]
    show Level (startNewVersion _ _ _ _ _ _).1.versions.rows ↔ _
    rw [hrows, level_append_iff hc hl]
    exact ⟨fun halone => ⟨fun _ => halone, fun hleft => hleft.2.1 ha.2⟩, fun hin => hin.1 ha⟩
  · have hanswered : (step s call).1.answered = s.answered := by
      unfold step
      dsimp only
      rw [hans]
      exact append_nil _
    exact iff_of_false (fun hright => not_counted_of_left hc hrows hanswered hright.1) (fun hin => hin.2 hleft)
  · have hanswered : (step s call).1.answered = s.answered := by
      unfold step
      dsimp only
      rw [hans]
      exact append_nil _
    have hsame : (step s call).1.repo.versions.rows = s.repo.versions.rows := hrows
    refine iff_of_true ⟨⟨fun orgId typ => ?_, fun orgId typ => ?_⟩, ?_⟩ ⟨fun hacc => absurd hacc ha, hleft⟩
    · rw [hsame, hanswered, hc.stored]
    · rw [hanswered]
      exact hc.numbered orgId typ
    · rw [hsame]
      exact hl

/-- **The versions are right throughout a run exactly when every call that goes through is alone**, and no failed call
leaves its version behind. -/
theorem versions_right_iff (calls : List Call) :
    (∀ pre, pre <+: calls → VersionsRight (final step Stored.init pre)) ↔
      ∀ x ∈ trace step Stored.init calls, InStep x.1 x.2.1 := by
  have hinit : Drawn Stored.init := ⟨fun r hr => (by cases hr), fun e he => (by cases he)⟩
  have hright : VersionsRight Stored.init := ⟨fun _ _ => rfl, fun _ _ => rfl, fun _ _ => rfl⟩
  have hdrawn : ∀ pre, Drawn (final step Stored.init pre) := fun pre =>
    final_inv step Drawn (fun _ _ => True) (fun s call _ h => drawn_step s h call) pre Stored.init (fun _ _ => trivial) hinit
  rw [← inv_throughout_iff step (fun s => Drawn s ∧ VersionsRight s) InStep (fun _ => True) (fun s call _ h => by
    rw [and_iff_right (drawn_step s h.1 call)]
    exact versionsRight_step h.1 h.2 call) calls Stored.init (fun _ _ => trivial) ⟨hinit, hright⟩]
  exact forall₂_congr fun pre _ => (and_iff_right (hdrawn pre)).symm

/-- After two versions of one organisation, the first of another is stored and not found. -/
theorem second_org_finds_none : ¬ ∀ calls pre, pre <+: calls → VersionsRight (final step Stored.init pre) := by
  intro h
  let call : UUID → Call := fun orgId => ⟨orgId, elementTypeLogPipelines, [], Faults.none⟩
  have hlatest := (h [call ⟨1⟩, call ⟨1⟩, call ⟨2⟩] _ prefix_rfl).latest ⟨2⟩ elementTypeLogPipelines
  revert hlatest
  decide

end AgentConf
end DsApm
