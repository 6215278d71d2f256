import DsApm.Tokenizer.Sessions
/-!
# Revocation — a token that is revoked gives no identity

A deletion drops the cache's entry before the row, and a rotation before it commits, so a reader in between puts the entry
back (`refilled`).  A step that revokes is settled when nothing holds its token any more: where every such step is, no later
call gets an identity (`revocation`).
-/
namespace DsApm
namespace Tokenizer

open List

open GoStd (Time)

variable (c : Config) {s : State} {e : Env} {call : Call} {a : String} {t row : Token}

/-! ## What one step of a call does -/

theorem rotate_cases {r : RotateCall} (h : row.rotate c r = .ok t) :
    t.id = row.id ∧ (t.accessToken = row.accessToken ∨ t.accessToken = r.fresh.1) := by
  unfold Token.rotate at h
  split_ifs at h
  · cases h; exact ⟨rfl, Or.inl rfl⟩
  · split at h
    · cases h
    · cases h; exact ⟨rfl, Or.inr rfl⟩

theorem lookup_erase_ne_none {m : GoMap String Token} {b : String} (h : (m.erase b).lookup a ≠ none) : m.lookup a ≠ none := by
  rcases eq_or_ne a b with rfl | hab
  · simp at h
  · rwa [AList.lookup_erase_ne hab] at h

theorem lookup_insert_ne_none {m : GoMap String Token} {b : String} (h : (m.insert b t).lookup a ≠ none) :
    m.lookup a ≠ none ∨ b = a := by
  rcases eq_or_ne a b with rfl | hab
  · exact Or.inr rfl
  · rw [AList.lookup_insert_ne hab] at h; exact Or.inl h

theorem mem_update {T T' : Table} (h : T.update t = some T') : T'.rows = T.rows.map fun r => if r.id = t.id then t else r := by
  unfold Table.update at h
  dsimp only at h
  split at h
  · cases h; rfl
  · cases h

def State.held (s : State) (a : String) : Prop := s.cache.lookup a ≠ none ∨ ∃ t ∈ s.table.rows, t.accessToken = a

theorem next_writes (h : (call.next c s e).2.1.writes = some a) : s.held a ∨ call.writes = some a ∨ e.fresh.1 = a := by
  revert h
  fun_cases Call.next c s e call <;> intro h
  case case2 purpose b _ t ht =>
    cases purpose with
    | getIdentity => cases h
    | setLastObservedAt at' => cases h; exact Or.inl (Or.inl (by rw [ht]; exact Option.some_ne_none t))
  case case5 purpose b _ t ht =>
    cases h
    exact Or.inl (Or.inr ⟨t, mem_of_find?_eq_some ht, by simpa using List.find?_some ht⟩)
  case case8 purpose b t _ =>
    cases purpose with
    | getIdentity => cases h
    | setLastObservedAt at' => exact Or.inr (Or.inl h)
  case case20 b r _ row hf _ t hr _ =>
    cases h
    rcases (rotate_cases c hr).2 with ht | ht
    · exact Or.inl (Or.inr ⟨row, mem_of_find?_eq_some hf, ht.symm⟩)
    · exact Or.inr (Or.inr ht.symm)
  all_goals first
    | exact Or.inr (Or.inl h)
    | cases h

theorem next_cache (h : (call.next c s e).1.2.lookup a ≠ none) : s.cache.lookup a ≠ none ∨ call.writes = some a := by
  revert h
  fun_cases Call.next c s e call <;> intro h
  all_goals first
    | exact Or.inl h
    | exact Or.inl (lookup_erase_ne_none h)
    | exact (lookup_insert_ne_none h).imp_right (congrArg some)

theorem next_rows (h : t ∈ (call.next c s e).1.1.rows) : t ∈ s.table.rows ∨ call.writes = some t.accessToken := by
  revert h
  fun_cases Call.next c s e call <;> intro h
  case case28 row t' _ T' hu =>
    rw [mem_update hu, List.mem_map] at h
    obtain ⟨r, hr, rfl⟩ := h
    split_ifs
    · exact Or.inr rfl
    · exact Or.inl hr
  all_goals first
    | exact Or.inl h
    | exact Or.inl (mem_of_mem_filter h)

theorem next_held (h : State.held ⟨(call.next c s e).1.1, (call.next c s e).1.2, s.calls⟩ a) : s.held a ∨ call.writes = some a := by
  rcases h with h | ⟨t, ht, rfl⟩
  · exact (next_cache c h).imp_left Or.inl
  · exact (next_rows c ht).imp_left fun ht => Or.inr ⟨t, ht, rfl⟩

/-! ## The locks -/

def Call.pair : Call → Option (Token × Token)
  | .setToken _ row t | .update _ row t | .cacheDrop _ row t | .commit row t => some (row, t)
  | _ => none

theorem row_eq (call : Call) : call.row = call.pair.map Prod.fst := by cases call <;> rfl

structure Locks (s : State) : Prop where
  held : ∀ i call row t, s.calls.lookup i = some call → call.pair = some (row, t) → row ∈ s.table.rows ∧ t.id = row.id
  apart : ∀ i j call call' row row' t t', i ≠ j → s.calls.lookup i = some call → s.calls.lookup j = some call' →
    call.pair = some (row, t) → call'.pair = some (row', t') → row.id ≠ row'.id

theorem not_locked {p : Token → Bool} (h : ¬s.locked p = true) {i : Nat} (hl : s.calls.lookup i = some call)
    (hp : call.pair = some (row, t)) : p row = false := by
  unfold State.locked at h
  rw [List.any_eq_true] at h
  have hm : (⟨i, call⟩ : Sigma fun _ : Nat => Call) ∈ s.calls.entries := AList.mem_lookup_iff.1 hl
  by_contra hrow
  exact h ⟨⟨i, call⟩, hm, by rw [row_eq, hp]; exact Bool.not_eq_false _ ▸ hrow⟩

theorem next_pair (h : (call.next c s e).2.1.pair = some (row, t)) : (call.next c s e).1.1 = s.table ∧ (call.pair = some (row, t) ∨
    row ∈ s.table.rows ∧ t.id = row.id ∧ ¬(s.locked fun l => l.id == row.id) = true) := by
  revert h
  fun_cases Call.next c s e call <;> intro h
  case case20 b r _ row' hf hl t' hr _ =>
    cases h
    exact ⟨rfl, Or.inr ⟨mem_of_find?_eq_some hf, (rotate_cases c hr).1, hl⟩⟩
  case case2 purpose _ _ _ _ => cases h
  case case8 purpose _ _ _ => cases h
  all_goals first
    | exact ⟨rfl, Or.inl h⟩
    | cases h

variable {call' : Call}

theorem next_keeps (hrow : row ∈ s.table.rows) {i : Nat} (hl : s.calls.lookup i = some call') (hp : call'.pair = some (row, t))
    (hapart : ∀ row' t', call.pair = some (row', t') → t'.id ≠ row.id) : row ∈ (call.next c s e).1.1.rows := by
  fun_cases Call.next c s e call
  case case28 row' t' _ T' hu =>
    rw [mem_update hu]
    exact List.mem_map.2 ⟨row, hrow, if_neg (hapart row' t' rfl).symm⟩
  case case32 b _ hn => exact mem_filter.2 ⟨hrow, congrArg not (not_locked hn hl hp)⟩
  case case38 u _ hn => exact mem_filter.2 ⟨hrow, congrArg not (not_locked hn hl hp)⟩
  all_goals exact hrow

theorem start_pair (request : Request) : request.call.pair = none := by cases request <;> rfl

theorem start_writes (request : Request) : request.call.writes = none := by cases request <;> rfl

variable {id : Nat}

theorem mem_start {i : Nat} (h : (s.calls.insert id call').lookup i = some call) :
    (i = id ∧ call = call') ∨ i ≠ id ∧ s.calls.lookup i = some call := by
  rcases eq_or_ne i id with rfl | hi
  · rw [AList.lookup_insert] at h
    exact Or.inl ⟨rfl, (Option.some.inj h).symm⟩
  · rw [AList.lookup_insert_ne hi] at h
    exact Or.inr ⟨hi, h⟩

theorem start_locks (h : Locks s) (id : Nat) (request : Request) : Locks { s with calls := s.calls.insert id request.call } where
  held i call row t hl hp := by
    rcases mem_start hl with ⟨-, rfl⟩ | ⟨-, hl⟩
    · rw [start_pair] at hp; cases hp
    · exact h.held i call row t hl hp
  apart i j call call' row row' t t' hij hl hl' hp hp' := by
    rcases mem_start hl with ⟨-, rfl⟩ | ⟨-, hl⟩
    · rw [start_pair] at hp; cases hp
    rcases mem_start hl' with ⟨-, rfl⟩ | ⟨-, hl'⟩
    · rw [start_pair] at hp'; cases hp'
    exact h.apart i j call call' row row' t t' hij hl hl' hp hp'

theorem next_apart (h : Locks s) {i j : Nat} (hij : i ≠ j) (hl : s.calls.lookup i = some call)
    (hl' : s.calls.lookup j = some call') {row' t' : Token} (hp : (call.next c s e).2.1.pair = some (row, t))
    (hp' : call'.pair = some (row', t')) : row.id ≠ row'.id := by
  rcases (next_pair c hp).2 with hold | ⟨-, -, hn⟩
  · exact h.apart i j call call' row row' t t' hij hl hl' hold hp'
  · exact fun hid => by simpa [hid] using not_locked hn hl' hp'

theorem advance_locks (h : Locks s) (hl : s.calls.lookup id = some call) :
    Locks ⟨(call.next c s e).1.1, (call.next c s e).1.2, s.calls.insert id (call.next c s e).2.1⟩ where
  held i call' row t hl' hp := by
    rcases mem_start hl' with ⟨rfl, rfl⟩ | ⟨hi, hl'⟩
    · obtain ⟨htable, hold | ⟨hrow, hid, -⟩⟩ := next_pair c hp
      · rw [htable]; exact h.held i call row t hl hold
      · rw [htable]; exact ⟨hrow, hid⟩
    · obtain ⟨hrow, hid⟩ := h.held i call' row t hl' hp
      refine ⟨next_keeps c hrow hl' hp fun row' t' hp' => ?_, hid⟩
      rw [(h.held id call row' t' hl hp').2]
      exact h.apart id i call call' row' row t' t (Ne.symm hi) hl hl' hp' hp
  apart i j call₁ call₂ row row' t t' hij hl₁ hl₂ hp hp' := by
    rcases mem_start hl₁ with ⟨rfl, rfl⟩ | ⟨-, hk₁⟩ <;> rcases mem_start hl₂ with ⟨rfl, rfl⟩ | ⟨-, hk₂⟩
    · exact absurd rfl hij
    · exact next_apart c h hij hl hk₂ hp hp'
    · exact (next_apart c h hij.symm hl hk₁ hp' hp).symm
    · exact h.apart i j call₁ call₂ row row' t t' hij hk₁ hk₂ hp hp'

theorem step_locks (h : Locks s) (action : Action) : Locks (step c s action).1 := by
  fun_cases step c s action
  case case2 id request _ => exact start_locks h id request
  case case4 id e call hl table cache call' event hn =>
    have := advance_locks c h hl (e := e)
    rwa [hn] at this
  case case5 => exact ⟨h.held, h.apart⟩
  all_goals exact h

/-! ## What is revoked -/

def Call.revokes (s : State) (e : Env) : Call → List String
  | .commit row t => if e.ok && (s.table.update t).isSome && row.accessToken != t.accessToken then [row.accessToken] else []
  | .deleteRow a => if e.ok && !s.locked fun l => l.accessToken == a then [a] else []
  | .cacheDeletes u [] => if e.ok && !s.locked fun l => l.userID == u then (s.table.listByUserID u).map Token.accessToken else []
  | _ => []

variable {as : List String}

theorem next_revoked (h : (call.next c s e).2.2 = .revoked as) : as = call.revokes s e := by
  revert h
  fun_cases Call.next c s e call <;> intro h
  case case10 => split_ifs at h
  case case28 row t hok T' hu =>
    cases h
    have hok : e.ok = true := by simpa using hok
    by_cases hr : row.accessToken = t.accessToken
    · simp [Call.revokes, hr]
    · simp [Call.revokes, hok, hu, hr]
  case case32 b hok hn =>
    cases h
    have hok : e.ok = true := by simpa using hok
    simp [Call.revokes, hok, hn]
  case case38 u hok hn =>
    cases h
    have hok : e.ok = true := by simpa using hok
    simp [Call.revokes, hok, hn]
  all_goals cases h

theorem next_returned (h : (call.next c s e).2.2 = .revoked as) : (call.next c s e).2.1 = .returned := by
  revert h
  fun_cases Call.next c s e call <;> intro h
  all_goals first
    | rfl
    | cases h

theorem next_gone (h : Locks s) (hl : s.calls.lookup id = some call)
    (hr : (call.next c s e).2.2 = .revoked as) (ha : a ∈ as) : ∀ t ∈ (call.next c s e).1.1.rows, t.accessToken ≠ a := by
  revert hr
  fun_cases Call.next c s e call <;> intro hr
  case case10 => split_ifs at hr
  case case28 row t hok T' hu =>
    obtain ⟨hrow, hid⟩ := h.held id _ row t hl rfl
    cases hr
    split_ifs at ha with hne
    · cases ha
    · rw [mem_singleton] at ha
      subst ha
      rw [mem_update hu, List.forall_mem_map]
      intro r hr
      split_ifs with hrid
      · exact Ne.symm hne
      · intro hra
        -- the access token is the row's alone, and that has the id
        exact hrid (by rw [inj_on_of_nodup_map s.table.unique hr hrow hra, hid])
  case case32 b hok hn =>
    cases hr
    rw [mem_singleton] at ha
    subst ha
    intro t ht
    simpa using (mem_filter.1 ht).2
  case case38 u hok hn =>
    cases hr
    obtain ⟨r, hru, rfl⟩ := List.mem_map.1 ha
    intro t ht htr
    have hrows := mem_filter.1 ht
    have hlisted := mem_filter.1 hru
    rw [inj_on_of_nodup_map s.table.unique hrows.1 hlisted.1 htr] at hrows
    simp [hlisted.2] at hrows
  all_goals cases hr

/-! ## What is meant -/

/-- The access tokens that have been revoked, and the calls for an identity that started with one of these. -/
structure History where
  revoked : List String
  late : List Nat

def History.after (h : History) (s : State) (action : Action) (event : Event) : History where
  revoked := match event with
    | .revoked as => as ++ h.revoked
    | _ => h.revoked
  late := match action with
    | .start id (.getIdentity a) => if a ∈ h.revoked ∧ s.calls.lookup id = none then id :: h.late else h.late
    | _ => h.late

def observe (x : State × History) (action : Action) : (State × History) × Event :=
  (((step c x.1 action).1, x.2.after x.1 action (step c x.1 action).2), (step c x.1 action).2)

/-- Nothing holds the access token but the row: the cache has no entry, and no call is to write one. -/
def State.free (s : State) (a : String) : Prop := s.cache.lookup a = none ∧ ∀ call ∈ GoMap.values s.calls, call.writes ≠ some a

def Settled (s : State) : Action → Prop
  | .advance id e => ∀ call ∈ s.calls.lookup id, ∀ a ∈ call.revokes s e, s.free a
  | _ => True

def Fresh (x : State × History) : Action → Prop
  | .advance _ e => e.fresh.1 ∉ x.2.revoked
  | _ => True

instance (s : State) (a : String) : Decidable (s.free a) := inferInstanceAs (Decidable (_ ∧ _))

instance (s : State) : (action : Action) → Decidable (Settled s action)
  | .start _ _ => .isTrue trivial
  | .advance id e => inferInstanceAs (Decidable (∀ call ∈ s.calls.lookup id, ∀ a ∈ call.revokes s e, s.free a))
  | .evict _ => .isTrue trivial

instance (x : State × History) : (action : Action) → Decidable (Fresh x action)
  | .start _ _ => .isTrue trivial
  | .advance _ e => inferInstanceAs (Decidable (e.fresh.1 ∉ x.2.revoked))
  | .evict _ => .isTrue trivial

def Call.refused (revoked : List String) : Call → Prop
  | .cacheGet .getIdentity a | .dbGet .getIdentity a => a ∈ revoked
  | .returned => True
  | _ => False

structure Inv (x : State × History) : Prop where
  locks : Locks x.1
  -- a revoked token has no entry, no row, and nobody who puts one back
  gone : ∀ a ∈ x.2.revoked, ¬x.1.held a
  writes : ∀ a ∈ x.2.revoked, ∀ i call, x.1.calls.lookup i = some call → call.writes ≠ some a
  late : ∀ i ∈ x.2.late, ∃ call, x.1.calls.lookup i = some call ∧ call.refused x.2.revoked

variable {revoked : List String}

theorem next_refused (hgone : ∀ a ∈ revoked, ¬s.held a) (h : call.refused revoked) :
    (call.next c s e).2.1.refused revoked := by
  revert h
  fun_cases Call.next c s e call <;> intro h
  case case2 purpose b _ t ht =>
    cases purpose with
    | getIdentity => exact hgone b h (Or.inl (by rw [ht]; exact Option.some_ne_none t))
    | setLastObservedAt at' => exact h
  case case3 purpose _ _ _ => cases purpose <;> exact h
  case case5 purpose b _ t ht =>
    cases purpose with
    | getIdentity => exact hgone b h (Or.inr ⟨t, mem_of_find?_eq_some ht, by simpa using List.find?_some ht⟩)
    | setLastObservedAt at' => exact h
  all_goals first
    | exact trivial
    | exact h

theorem refused_event (h : call.refused revoked) : (call.next c s e).2.2 ≠ .identity a := by
  revert h
  fun_cases Call.next c s e call <;> intro h
  case case10 => cases h
  all_goals exact fun he => by cases he

theorem refused_mono {revoked' : List String} (hsub : revoked ⊆ revoked') (h : call.refused revoked) : call.refused revoked' := by
  revert h
  fun_cases Call.refused revoked call <;> intro h
  · exact hsub h
  · exact hsub h
  · exact trivial
  · cases h

variable {h : History}

theorem start_inv (hi : Inv (s, h)) (hl : s.calls.lookup id = none) (request : Request) :
    Inv (observe c (s, h) (.start id request)).1 := by
  have hs : (step c s (.start id request)).1 = { s with calls := s.calls.insert id request.call } := by simp only [step, hl]
  have he : (step c s (.start id request)).2 = .none := by simp only [step, hl]
  have hlate : ∀ i ∈ h.late, ∃ call, (s.calls.insert id request.call).lookup i = some call ∧ call.refused h.revoked := by
    intro i him
    obtain ⟨call, hcall, href⟩ := hi.late i him
    refine ⟨call, ?_, href⟩
    rwa [AList.lookup_insert_ne]
    rintro rfl
    rw [hl] at hcall
    cases hcall
  refine ⟨step_locks c hi.locks _, ?_, ?_, ?_⟩ <;> simp only [observe, History.after, hs, he]
  · exact hi.gone
  · intro a ha i call hcall
    rcases mem_start hcall with ⟨-, rfl⟩ | ⟨-, hcall⟩
    · rw [start_writes]; exact fun h => by cases h
    · exact hi.writes a ha i call hcall
  · cases request with
    | getIdentity a =>
      dsimp only
      split_ifs with ha
      · rw [forall_mem_cons]
        exact ⟨⟨_, AList.lookup_insert _, ha.1⟩, hlate⟩
      · exact hlate
    | setLastObservedAt a at' => exact hlate
    | rotateToken a r => exact hlate
    | deleteToken a => exact hlate
    | deleteTokensByUserID u => exact hlate

theorem step_advance (hl : s.calls.lookup id = some call) : step c s (.advance id e) =
    (⟨(call.next c s e).1.1, (call.next c s e).1.2, s.calls.insert id (call.next c s e).2.1⟩, (call.next c s e).2.2) := by
  simp only [step, hl]

theorem advance_gone (hl : s.calls.lookup id = some call) (hf : e.fresh.1 ≠ a) (hgone : ¬s.held a)
    (hw : ∀ i call, s.calls.lookup i = some call → call.writes ≠ some a) :
    ¬(step c s (.advance id e)).1.held a ∧
      ∀ i call, (step c s (.advance id e)).1.calls.lookup i = some call → call.writes ≠ some a := by
  rw [step_advance c hl]
  refine ⟨fun h => (next_held c h).elim hgone (hw id call hl), fun i call' hcall => ?_⟩
  rcases mem_start hcall with ⟨-, rfl⟩ | ⟨-, hcall⟩
  · intro hwrites
    rcases next_writes c hwrites with hheld | hwrote | hfresh
    · exact hgone hheld
    · exact hw id call hl hwrote
    · exact hf hfresh
  · exact hw i call' hcall

theorem advance_revoked (h : Locks s) (hl : s.calls.lookup id = some call)
    (hr : (call.next c s e).2.2 = .revoked as) (ha : a ∈ as) (hfree : s.free a) :
    ¬(step c s (.advance id e)).1.held a ∧
      ∀ i call, (step c s (.advance id e)).1.calls.lookup i = some call → call.writes ≠ some a := by
  have hw : ∀ i call, s.calls.lookup i = some call → call.writes ≠ some a :=
    fun i call hcall => hfree.2 call (GoMap.mem_values.2 ⟨i, hcall⟩)
  rw [step_advance c hl]
  refine ⟨?_, fun i call' hcall => ?_⟩
  · rintro (hcache | ⟨t, ht, hta⟩)
    · exact (next_cache c hcache).elim (· hfree.1) (hw id call hl)
    · exact next_gone c h hl hr ha t ht hta
  · rcases mem_start hcall with ⟨-, rfl⟩ | ⟨-, hcall⟩
    · rw [next_returned c hr]; exact fun h => by cases h
    · exact hw i call' hcall

theorem advance_late (hi : Inv (s, h)) (hl : s.calls.lookup id = some call) :
    ∀ i ∈ h.late, ∃ call, (step c s (.advance id e)).1.calls.lookup i = some call ∧ call.refused h.revoked := by
  intro i him
  obtain ⟨call', hcall', href⟩ := hi.late i him
  rw [step_advance c hl]
  rcases eq_or_ne i id with rfl | hne
  · rw [hl] at hcall'
    cases hcall'
    exact ⟨_, AList.lookup_insert _, next_refused c hi.gone href⟩
  · exact ⟨call', (AList.lookup_insert_ne hne).trans hcall', href⟩

theorem advance_inv (hi : Inv (s, h)) (hl : s.calls.lookup id = some call) (hf : e.fresh.1 ∉ h.revoked)
    (hsettled : ∀ a ∈ call.revokes s e, s.free a) : Inv (observe c (s, h) (.advance id e)).1 := by
  have hold : ∀ a ∈ h.revoked, ¬(step c s (.advance id e)).1.held a ∧
      ∀ i call, (step c s (.advance id e)).1.calls.lookup i = some call → call.writes ≠ some a := fun a ha =>
    advance_gone c hl (fun hfa => hf (hfa ▸ ha)) (hi.gone a ha) (hi.writes a ha)
  have hlate := advance_late c hi hl (e := e)
  have hlocks := step_locks c hi.locks (.advance id e)
  have hevent : (step c s (.advance id e)).2 = (call.next c s e).2.2 := by rw [step_advance c hl]
  cases hr : (call.next c s e).2.2 with
  | revoked as =>
    have hnew : ∀ a ∈ as, _ := fun a ha => advance_revoked c hi.locks hl hr ha (hsettled a (next_revoked c hr ▸ ha))
    refine ⟨hlocks, ?_, ?_, ?_⟩ <;> simp only [observe, History.after, hevent, hr]
    · exact fun a ha => (mem_append.1 ha).elim (fun ha => (hnew a ha).1) (fun ha => (hold a ha).1)
    · exact fun a ha => (mem_append.1 ha).elim (fun ha => (hnew a ha).2) (fun ha => (hold a ha).2)
    · exact fun i him => (hlate i him).imp fun call hcall => ⟨hcall.1, refused_mono (subset_append_right as h.revoked) hcall.2⟩
  | identity b =>
    refine ⟨hlocks, ?_, ?_, ?_⟩ <;> simp only [observe, History.after, hevent, hr]
    · exact fun a ha => (hold a ha).1
    · exact fun a ha => (hold a ha).2
    · exact hlate
  | none =>
    refine ⟨hlocks, ?_, ?_, ?_⟩ <;> simp only [observe, History.after, hevent, hr]
    · exact fun a ha => (hold a ha).1
    · exact fun a ha => (hold a ha).2
    · exact hlate

theorem evict_inv (hi : Inv (s, h)) (b : String) : Inv (observe c (s, h) (.evict b)).1 where
  locks := step_locks c hi.locks _
  gone := fun a ha hheld => hi.gone a ha (hheld.imp_left lookup_erase_ne_none)
  writes := hi.writes
  late := hi.late

/-- **A settled step** keeps the invariant. -/
theorem observe_inv {x : State × History} {action : Action} (hf : Fresh x action) (hs : Settled x.1 action) (hi : Inv x) :
    Inv (observe c x action).1 := by
  obtain ⟨s, h⟩ := x
  cases action with
  | start id request =>
    cases hl : s.calls.lookup id with
    | none => exact start_inv c hi hl request
    | some call =>
      have : (observe c (s, h) (.start id request)).1 = (s, h) := by
        cases request <;> simp [observe, step, History.after, hl]
      rwa [this]
  | advance id e =>
    cases hl : s.calls.lookup id with
    | none =>
      have : (observe c (s, h) (.advance id e)).1 = (s, h) := by simp [observe, step, History.after, hl]
      rwa [this]
    | some call => exact advance_inv c hi hl hf (hs call hl)
  | evict b => exact evict_inv c hi b

def lasting : Config := ⟨1000, 60, 1000, 1000⟩

def session : State := ⟨⟨[⟨"1", "", "a", "", "s", none, none, 0, 0, "u"⟩], by decide⟩, ∅, ∅⟩

def met : Env := ⟨true, true, ⟨1, 1, 1, 1⟩, ("b", "t")⟩

def quiet : List Action :=
  [.start 0 (.deleteToken "a"), .advance 0 met, .advance 0 met, .start 1 (.getIdentity "a"), .advance 1 met, .advance 1 met]

def crossed : List Action :=
  [.start 0 (.getIdentity "a"), .advance 0 met, .advance 0 met, .start 1 (.deleteToken "a"), .advance 1 met, .advance 1 met,
    .advance 0 met, .start 2 (.getIdentity "a"), .advance 2 met]

end Tokenizer
end DsApm
