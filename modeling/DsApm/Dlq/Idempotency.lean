import DsApm.Dlq.Replay
import DsApm.Lib.StepRun
/-!
# Idempotency — replays that run at the same time

Each replay goes through its event ids: it checks one, delivers its entry, and marks it, one step after the other.  The check
and the mark are apart, so two replays may deliver one entry (`delivered_twice`).  In a run in which no check passes while
another replay is between its own and the mark of the same key, and each mark is written, no key is delivered twice
(`replay_idempotent`).
-/
namespace DsApm
namespace Dlq

open List

variable {Alert : Type} (R : Replayer Alert)

inductive Stage (Alert : Type)
  | check
  | notify (e : Entry) (alerts : List Alert)
  | mark (e : Entry)

/-- A call of `ReplayEntries`: what it read, and the event ids that are left. -/
structure Replaying (Alert : Type) where
  entries : GoMap String Entry
  ids : List String
  stage : Stage Alert

structure System (Alert : Type) where
  manager : Manager
  calls : GoMap Nat (Replaying Alert)

structure Env where
  notified : Bool
  written : Bool

inductive Step
  | start (id : Nat) (raw : List Entry) (ids : List String)
  | advance (id : Nat) (env : Env)

/-- The next step of a replay: the manager, where the replay stands then, and the key that is delivered. -/
def Replaying.next (m : Manager) (env : Env) (c : Replaying Alert) : Manager × Replaying Alert × Option String :=
  match c.stage with
  | .check =>
    match c.ids with
    | [] => (m, c, none)
    | id :: ids =>
      match check R c.entries m.ledger id with
      | .skipped => (m, { c with ids }, none)
      | .unreadable e => ({ m with sidecar := record m.sidecar e.eventID }, { c with ids }, none)
      | .ready e alerts => (m, { c with ids, stage := .notify e alerts }, none)
  | .notify e _ =>
    if env.notified then (m, { c with stage := .mark e }, some (e.key R))
    else ({ m with sidecar := record m.sidecar e.eventID }, { c with stage := .check }, none)
  | .mark e =>
    (if env.written then { m with ledger := markIfNew m.ledger (e.key R) } else m, { c with stage := .check }, none)

def step (s : System Alert) : Step → System Alert × Option String
  | .start id raw ids =>
    match s.calls.lookup id with
    | some _ => (s, none)
    | none => ({ s with calls := s.calls.insert id ⟨byID raw, ids, .check⟩ }, none)
  | .advance id env =>
    match s.calls.lookup id with
    | none => (s, none)
    | some c => (⟨(c.next R s.manager env).1, s.calls.insert id (c.next R s.manager env).2.1⟩, (c.next R s.manager env).2.2)

/-! ## What is meant -/

def Replaying.passed (c : Replaying Alert) : Option Entry :=
  match c.stage with
  | .check => none
  | .notify e _ => some e
  | .mark e => some e

def System.idle (s : System Alert) (key : String) : Prop := ∀ c ∈ GoMap.values s.calls, ∀ e ∈ c.passed, e.key R ≠ key

def System.admits (s : System Alert) : Checked Alert → Prop
  | .ready e _ => s.idle R (e.key R)
  | _ => True

/-- A check passes only where no other replay has passed its own with the key, and a mark is written. -/
def Replaying.apart (s : System Alert) (env : Env) : Replaying Alert → Prop
  | ⟨_, _, .mark _⟩ => env.written = true
  | ⟨_, _, .notify _ _⟩ => True
  | ⟨_, [], .check⟩ => True
  | ⟨entries, id :: _, .check⟩ => s.admits R (check R entries s.manager.ledger id)

def Apart (s : System Alert) : Step → Prop
  | .start _ _ _ => True
  | .advance id env => ∀ c ∈ s.calls.lookup id, c.apart R s env

def deliveries (l : List (System Alert × Step × Option String)) : List String := l.filterMap fun x => x.2.2

structure Inv (s : System Alert) (delivered : List String) : Prop where
  nodup : delivered.Nodup
  -- a key that is delivered has its mark, or a replay is about to write it
  marked : ∀ k ∈ delivered, k ∈ s.manager.ledger ∨ ∃ i c e, s.calls.lookup i = some c ∧ c.stage = .mark e ∧ e.key R = k
  fresh : ∀ i c e alerts, s.calls.lookup i = some c → c.stage = .notify e alerts → e.key R ∉ delivered
  apart : ∀ i j c c' e e', i ≠ j → s.calls.lookup i = some c → s.calls.lookup j = some c' → c.passed = some e →
    c'.passed = some e' → e.key R ≠ e'.key R

variable {R} {s : System Alert} {delivered : List String} {c : Replaying Alert} {id : Nat}

theorem mem_insert {calls : GoMap Nat (Replaying Alert)} {i : Nat} {c' : Replaying Alert} (h : (calls.insert id c').lookup i = some c) :
    (i = id ∧ c = c') ∨ i ≠ id ∧ calls.lookup i = some c := by
  rcases eq_or_ne i id with rfl | hi
  · rw [AList.lookup_insert] at h
    exact Or.inl ⟨rfl, (Option.some.inj h).symm⟩
  · rw [AList.lookup_insert_ne hi] at h
    exact Or.inr ⟨hi, h⟩

theorem Inv.unpassed (h : Inv R s delivered) (c' : Replaying Alert) (hc' : c'.passed = none) {m : Manager}
    (hm : ∀ k ∈ s.manager.ledger, k ∈ m.ledger)
    (hdone : ∀ c e, s.calls.lookup id = some c → c.stage = .mark e → e.key R ∈ m.ledger) :
    Inv R ⟨m, s.calls.insert id c'⟩ delivered where
  nodup := h.nodup
  marked k hk := by
    rcases h.marked k hk with hin | ⟨i, c, e, hl, hs, rfl⟩
    · exact Or.inl (hm k hin)
    · rcases eq_or_ne i id with rfl | hi
      · exact Or.inl (hdone c e hl hs)
      · exact Or.inr ⟨i, c, e, (AList.lookup_insert_ne hi).trans hl, hs, rfl⟩
  fresh i c e alerts hl hs := by
    rcases mem_insert hl with ⟨-, rfl⟩ | ⟨-, hl⟩
    · simp [Replaying.passed, hs] at hc'
    · exact h.fresh i c e alerts hl hs
  apart i j c₁ c₂ e e' hij hl₁ hl₂ hp hp' := by
    rcases mem_insert hl₁ with ⟨-, rfl⟩ | ⟨-, hk₁⟩
    · rw [hc'] at hp; cases hp
    rcases mem_insert hl₂ with ⟨-, rfl⟩ | ⟨-, hk₂⟩
    · rw [hc'] at hp'; cases hp'
    exact h.apart i j c₁ c₂ e e' hij hk₁ hk₂ hp hp'

theorem Inv.pass (h : Inv R s delivered) (hl : s.calls.lookup id = some c) (hs : c.stage = .check) {e : Entry} {alerts : List Alert}
    {ids : List String} (hnot : e.key R ∉ s.manager.ledger) (hidle : s.idle R (e.key R)) :
    Inv R ⟨s.manager, s.calls.insert id ⟨c.entries, ids, .notify e alerts⟩⟩ delivered where
  nodup := h.nodup
  marked k hk := by
    rcases h.marked k hk with hin | ⟨i, c', e', hl', hs', rfl⟩
    · exact Or.inl hin
    · rcases eq_or_ne i id with rfl | hi
      · rw [hl] at hl'; cases hl'; rw [hs] at hs'; cases hs'
      · exact Or.inr ⟨i, c', e', (AList.lookup_insert_ne hi).trans hl', hs', rfl⟩
  fresh i c' e' alerts' hl' hs' := by
    rcases mem_insert hl' with ⟨-, rfl⟩ | ⟨-, hl'⟩
    · cases hs'
      intro hin
      rcases h.marked _ hin with hin | ⟨j, c', e', hl', hs', hkey⟩
      · exact hnot hin
      · exact hidle c' (GoMap.mem_values.2 ⟨j, hl'⟩) e' (by simp [Replaying.passed, hs']) hkey
    · exact h.fresh i c' e' alerts' hl' hs'
  apart i j c₁ c₂ e₁ e₂ hij hl₁ hl₂ hp hp' := by
    rcases mem_insert hl₁ with ⟨rfl, rfl⟩ | ⟨-, hk₁⟩ <;> rcases mem_insert hl₂ with ⟨rfl, rfl⟩ | ⟨-, hk₂⟩
    · exact absurd rfl hij
    · cases hp
      exact (hidle c₂ (GoMap.mem_values.2 ⟨j, hk₂⟩) e₂ hp').symm
    · cases hp'
      exact hidle c₁ (GoMap.mem_values.2 ⟨i, hk₁⟩) e₁ hp
    · exact h.apart i j c₁ c₂ e₁ e₂ hij hk₁ hk₂ hp hp'

theorem Inv.deliver (h : Inv R s delivered) (hl : s.calls.lookup id = some c) {e : Entry} {alerts : List Alert}
    (hs : c.stage = .notify e alerts) :
    Inv R ⟨s.manager, s.calls.insert id { c with stage := .mark e }⟩ (delivered ++ [e.key R]) where
  nodup := by
    rw [nodup_append]
    refine ⟨h.nodup, nodup_singleton _, fun a ha b hb => ?_⟩
    rw [mem_singleton.1 hb]
    rintro rfl
    exact h.fresh id c e alerts hl hs ha
  marked k hk := by
    rcases mem_append.1 hk with hk | hk
    · rcases h.marked k hk with hin | ⟨i, c', e', hl', hs', rfl⟩
      · exact Or.inl hin
      · rcases eq_or_ne i id with rfl | hi
        · rw [hl] at hl'; cases hl'; rw [hs] at hs'; cases hs'
        · exact Or.inr ⟨i, c', e', (AList.lookup_insert_ne hi).trans hl', hs', rfl⟩
    · rw [mem_singleton.1 hk]
      exact Or.inr ⟨id, _, e, AList.lookup_insert _, rfl, rfl⟩
  fresh i c' e' alerts' hl' hs' := by
    rcases mem_insert hl' with ⟨-, rfl⟩ | ⟨hi, hl'⟩
    · cases hs'
    · rw [mem_append, mem_singleton, not_or]
      exact ⟨h.fresh i c' e' alerts' hl' hs',
        h.apart i id c' c e' e hi hl' hl (by simp [Replaying.passed, hs']) (by simp [Replaying.passed, hs])⟩
  apart i j c₁ c₂ e₁ e₂ hij hl₁ hl₂ hp hp' := by
    have hpassed : c.passed = some e := by simp [Replaying.passed, hs]
    rcases mem_insert hl₁ with ⟨rfl, rfl⟩ | ⟨-, hk₁⟩ <;> rcases mem_insert hl₂ with ⟨rfl, rfl⟩ | ⟨-, hk₂⟩
    · exact absurd rfl hij
    · exact h.apart i j c c₂ e₁ e₂ hij hl hk₂ (hpassed.trans hp) hp'
    · exact h.apart i j c₁ c e₁ e₂ hij hk₁ hl hp (hpassed.trans hp')
    · exact h.apart i j c₁ c₂ e₁ e₂ hij hk₁ hk₂ hp hp'

theorem mem_markIfNew {ledger : List String} {key k : String} (h : k ∈ ledger) : k ∈ markIfNew ledger key := by
  unfold markIfNew
  split_ifs
  · exact h
  · exact mem_append_left _ h

theorem mem_markIfNew_self {ledger : List String} {key : String} (h : key ≠ "") : key ∈ markIfNew ledger key := by
  unfold markIfNew
  split_ifs with hin
  · exact hin.resolve_left h
  · exact mem_append_right _ (mem_singleton_self key)

theorem advance_inv (hsha : ∀ t, R.sha256 t ≠ "") (env : Env) (hl : s.calls.lookup id = some c) (ha : Apart R s (.advance id env))
    (h : Inv R s delivered) : Inv R ⟨(c.next R s.manager env).1, s.calls.insert id (c.next R s.manager env).2.1⟩
      (delivered ++ (c.next R s.manager env).2.2.toList) := by
  have hg : c.apart R s env := ha c hl
  -- a replay that is at no mark leaves none behind
  have hdone : (∀ e, c.stage ≠ .mark e) → ∀ c' e, s.calls.lookup id = some c' → c'.stage = .mark e → e.key R ∈ s.manager.ledger := by
    intro hno c' e hc' hs
    rw [hl] at hc'
    cases hc'
    exact absurd hs (hno e)
  obtain ⟨entries, ids, stage⟩ := c
  cases stage with
  | check =>
    have hcheck := hdone fun e he => by cases he
    cases ids with
    | nil => simpa [Replaying.next] using h.unpassed ⟨entries, [], .check⟩ rfl (fun k hk => hk) hcheck
    | cons id' ids =>
      simp only [Replaying.next]
      have hadmits : s.admits R (check R entries s.manager.ledger id') := hg
      have hnext := h.unpassed ⟨entries, ids, .check⟩ rfl (fun k hk => hk) hcheck
      cases hc : check R entries s.manager.ledger id' with
      | skipped => simpa using hnext
      | unreadable e => simpa using h.unpassed (m := ⟨_, record _ e.eventID⟩) ⟨entries, ids, .check⟩ rfl (fun k hk => hk) hcheck
      | ready e alerts =>
        rw [hc] at hadmits
        simpa using h.pass hl rfl ((check_ready R).1 hc).2.1 hadmits
  | notify e alerts =>
    simp only [Replaying.next]
    cases env.notified with
    | true => simpa using h.deliver hl rfl
    | false =>
      have hnotify := hdone fun e he => by cases he
      simpa using h.unpassed (m := ⟨_, record _ e.eventID⟩) ⟨entries, ids, .check⟩ rfl (fun k hk => hk) hnotify
  | mark e =>
    have hmark : ∀ c' e', s.calls.lookup id = some c' → c'.stage = .mark e' → e'.key R ∈ markIfNew s.manager.ledger (e.key R) := by
      intro c' e' hc' hs
      rw [hl] at hc'
      cases hc'
      cases hs
      exact mem_markIfNew_self (hsha _)
    have hwritten : env.written = true := hg
    simpa [Replaying.next, hwritten] using
      h.unpassed (m := ⟨markIfNew _ (e.key R), _⟩) ⟨entries, ids, .check⟩ rfl (fun k hk => mem_markIfNew hk) hmark

/-- **A step that is apart** keeps the invariant. -/
theorem step_inv (hsha : ∀ t, R.sha256 t ≠ "") {action : Step} (ha : Apart R s action) (h : Inv R s delivered) :
    Inv R (step R s action).1 (delivered ++ (step R s action).2.toList) := by
  cases action with
  | start id raw ids =>
    cases hl : s.calls.lookup id with
    | some c => simpa [step, hl] using h
    | none =>
      have hnone : ∀ c e, s.calls.lookup id = some c → c.stage = .mark e → e.key R ∈ s.manager.ledger := by
        intro c e hc; rw [hl] at hc; cases hc
      simpa [step, hl] using h.unpassed ⟨byID raw, ids, .check⟩ rfl (fun k hk => hk) hnone
  | advance id env =>
    cases hl : s.calls.lookup id with
    | none => simpa [step, hl] using h
    | some c =>
      simp only [step, hl]
      exact advance_inv hsha env hl ha h

/-- **DLQ replay idempotency**: in every run whose steps are apart, no key is delivered twice. -/
theorem replay_idempotent (R : Replayer Alert) (hsha : ∀ t, R.sha256 t ≠ "") (m : Manager) (steps : List Step)
    (h : ∀ x ∈ StepRun.trace (step R) ⟨m, ∅⟩ steps, Apart R x.1 x.2.1) :
    (deliveries (StepRun.trace (step R) ⟨m, ∅⟩ steps)).Nodup := by
  have h0 : Inv R ⟨m, ∅⟩ [] := by
    have hnone : ∀ i, (∅ : GoMap Nat (Replaying Alert)).lookup i = none := AList.lookup_empty
    refine ⟨nodup_nil, (fun k hk => by cases hk), ?_, ?_⟩
    · intro i c e alerts hl; rw [hnone i] at hl; cases hl
    · intro i j c c' e e' _ hl; rw [hnone i] at hl; cases hl
  have hrun := StepRun.trace_inv (step R) (fun s l => Inv R s (deliveries l)) (Apart R)
    (fun s l a ha hi => by
      have hstep := step_inv hsha ha hi
      have hout : deliveries (l ++ [(s, a, (step R s a).2)]) = deliveries l ++ (step R s a).2.toList := by
        rw [deliveries, filterMap_append]
        cases (step R s a).2 <;> simp [deliveries]
      rwa [hout])
    steps ⟨m, ∅⟩ [] h h0
  simpa using hrun.nodup

instance (s : System Alert) (key : String) : Decidable (s.idle R key) :=
  inferInstanceAs (Decidable (∀ c ∈ GoMap.values s.calls, ∀ e ∈ c.passed, e.key R ≠ key))

instance (s : System Alert) : (c : Checked Alert) → Decidable (s.admits R c)
  | .ready e _ => inferInstanceAs (Decidable (s.idle R (e.key R)))
  | .skipped => .isTrue trivial
  | .unreadable _ => .isTrue trivial

instance (s : System Alert) (env : Env) : (c : Replaying Alert) → Decidable (c.apart R s env)
  | ⟨_, _, .mark _⟩ => inferInstanceAs (Decidable (env.written = true))
  | ⟨_, _, .notify _ _⟩ => .isTrue trivial
  | ⟨_, [], .check⟩ => .isTrue trivial
  | ⟨entries, id :: _, .check⟩ => inferInstanceAs (Decidable (s.admits R (check R entries s.manager.ledger id)))

instance (s : System Alert) : (action : Step) → Decidable (Apart R s action)
  | .start _ _ _ => .isTrue trivial
  | .advance id env => inferInstanceAs (Decidable (∀ c ∈ s.calls.lookup id, c.apart R s env))

def one (id : Nat) : Step := .start id [recordTerminalFailure small ⟨[1], "slack", "t", ""⟩] ["0000000000000001"]

def met : Env := ⟨true, true⟩

def inTurn : List Step := [one 0, .advance 0 met, .advance 0 met, .advance 0 met, one 1, .advance 1 met, .advance 1 met]

theorem replay_inTurn : (deliveries (StepRun.trace (step small) ⟨⟨[], []⟩, ∅⟩ inTurn)).Nodup :=
  replay_idempotent small (fun t h => by simpa [small] using congrArg String.toList h) ⟨[], []⟩ inTurn (by decide)

/-- Two replays both pass the check before either delivers. -/
theorem delivered_twice : ¬(deliveries (StepRun.trace (step small) ⟨⟨[], []⟩, ∅⟩
    [one 0, one 1, .advance 0 met, .advance 1 met, .advance 0 met, .advance 1 met])).Nodup := by
  decide

end Dlq
end DsApm
