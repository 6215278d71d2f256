import DsApm.Dlq.Sink
import Mathlib.Data.List.Induction
/-!
# Replay — the dead letters are delivered again

A failed notification is written as an entry under the fingerprint of its first alert.  A replay takes, of each event id, the
last entry that was read, and delivers it where the ledger has no mark of it.  So of several entries under one event id only
the last one's channel gets its alerts (`replay_complete_iff`).
-/
namespace DsApm
namespace Dlq

open List

open GoStd (Time)

/-- What the replay is made with: the fingerprint of an alert, how alerts are written and read, and the digest of a key. -/
structure Replayer (Alert : Type) where
  fingerprint : Alert → UInt64
  marshal : List Alert → Option (List UInt8)
  unmarshal : List UInt8 → Option (List Alert)
  sha256 : List Char → String

variable {Alert : Type} (R : Replayer Alert)

/-- `Fingerprint.String`: sixteen hexadecimal digits. -/
def fingerprintText (fp : UInt64) : String := String.ofList ((List.range 16).map fun i => Nat.digitChar (fp.toNat / 16 ^ (15 - i) % 16))

/-- A notification that failed: its alerts, the receiver, the time and the cause. -/
structure Failure (Alert : Type) where
  alerts : List Alert
  receiver : String
  failedAt : String
  cause : String

/-- `recordTerminalFailure`: alerts that cannot be written leave an empty payload. -/
def recordTerminalFailure (f : Failure Alert) : Entry where
  eventID := match f.alerts with
    | [] => ""
    | alert :: _ => fingerprintText (R.fingerprint alert)
  channel := f.receiver
  payload := R.marshal f.alerts
  failedAt := f.failedAt
  reason := f.cause

def idempotencyKey (fingerprint channel : String) (round : Nat) : String :=
  R.sha256 (fingerprint.toList ++ '\x00' :: (channel.toList ++ '\x00' :: Nat.toDigits 10 round))

def Entry.key (e : Entry) : String := idempotencyKey R e.eventID e.channel 0

/-- `json.Unmarshal` of the payload; none is no JSON. -/
def Entry.alerts (e : Entry) : Option (List Alert) := e.payload.bind R.unmarshal

/-! ## The manager -/

structure Manager where
  ledger : List String
  sidecar : List String
  deriving DecidableEq

inductive Status
  | replayed | replayFailed | pending
  deriving DecidableEq

def Manager.status (m : Manager) (e : Entry) : Status :=
  if e.key R ∈ m.ledger then .replayed
  else if e.eventID ∈ m.sidecar then .replayFailed
  else .pending

/-- `ListEntries`; no channel and no status are no filter. -/
def Manager.listEntries (m : Manager) (raw : List Entry) (channel : String) (status : Option Status) : List (Entry × Status) :=
  (raw.map fun e => (e, m.status R e)).filter fun x => (channel = "" ∨ x.1.channel = channel) ∧ (status = none ∨ status = some x.2)

def record (sidecar : List String) (eventID : String) : List String :=
  if eventID = "" ∨ eventID ∈ sidecar then sidecar else sidecar ++ [eventID]

def markIfNew (ledger : List String) (key : String) : List String := if key = "" ∨ key ∈ ledger then ledger else ledger ++ [key]

structure ReplayResult where
  replayed : Nat
  skipped : Nat
  failed : Nat
  deriving DecidableEq

structure Progress (Alert : Type) where
  manager : Manager
  result : ReplayResult
  delivered : List (String × List Alert)
  deriving DecidableEq

def byID (raw : List Entry) : GoMap String Entry := raw.foldl (fun m e => m.insert e.eventID e) ∅

inductive Checked (Alert : Type)
  | skipped
  | unreadable (e : Entry)
  | ready (e : Entry) (alerts : List Alert)

def check (entries : GoMap String Entry) (ledger : List String) (id : String) : Checked Alert :=
  match entries.lookup id with
  | none => .skipped
  | some e =>
    if e.key R ∈ ledger then .skipped
    else match e.alerts R with
      | none => .unreadable e
      | some alerts => .ready e alerts

def replayOne (notify : String → List Alert → Bool) (entries : GoMap String Entry) (p : Progress Alert) (id : String) : Progress Alert :=
  match check R entries p.manager.ledger id with
  | .skipped => { p with result.skipped := p.result.skipped + 1 }
  | .unreadable e => { p with manager.sidecar := record p.manager.sidecar e.eventID, result.failed := p.result.failed + 1 }
  | .ready e alerts =>
    if notify e.channel alerts then
      { p with
        manager.ledger := markIfNew p.manager.ledger (e.key R), result.replayed := p.result.replayed + 1,
        delivered := p.delivered ++ [(e.channel, alerts)] }
    else { p with manager.sidecar := record p.manager.sidecar e.eventID, result.failed := p.result.failed + 1 }

def replayEntries (notify : String → List Alert → Bool) (raw : Option (List Entry)) (m : Manager) (ids : List String) :
    Option (Progress Alert) :=
  raw.map fun raw => ids.foldl (replayOne R notify (byID raw)) ⟨m, ⟨0, 0, 0⟩, []⟩

/-! ## Keys -/

theorem fingerprintText_plain (fp : UInt64) : '\x00' ∉ (fingerprintText fp).toList := by
  have hdigit : ∀ n, n < 16 → Nat.digitChar n ≠ '\x00' := by decide
  rw [fingerprintText, String.toList_ofList, List.mem_map]
  rintro ⟨i, -, hi⟩
  exact hdigit _ (Nat.mod_lt _ (by decide)) hi

theorem eventID_plain (f : Failure Alert) : '\x00' ∉ (recordTerminalFailure R f).eventID.toList := by
  unfold recordTerminalFailure
  cases f.alerts with
  | nil => simp
  | cons alert rest => exact fingerprintText_plain (R.fingerprint alert)

theorem eventID_eq (hsha : Function.Injective R.sha256) {e e' : Entry} (h : '\x00' ∉ e.eventID.toList) (h' : '\x00' ∉ e'.eventID.toList)
    (hk : e.key R = e'.key R) : e.eventID = e'.eventID := by
  have hfirst : ∀ s rest : List Char, '\x00' ∉ s → (s ++ '\x00' :: rest).takeWhile (· ≠ '\x00') = s := by
    intro s rest hs
    rw [takeWhile_append_of_pos fun c hc => decide_eq_true (ne_of_mem_of_not_mem hc hs)]
    simp
  have htext := congrArg (List.takeWhile (· ≠ '\x00')) (hsha hk)
  rw [hfirst _ _ h, hfirst _ _ h'] at htext
  exact String.toList_injective htext

/-! ## The last entry of an event id -/

def lastOf (raw : List Entry) (eventID : String) : Option Entry := raw.reverse.find? fun e => e.eventID == eventID

theorem lookup_byID (raw : List Entry) (id : String) : (byID raw).lookup id = lastOf raw id := by
  induction raw using List.reverseRecOn with
  | nil => exact AList.lookup_empty id
  | append_singleton raw e ih =>
    unfold byID lastOf at ih ⊢
    rw [foldl_append, reverse_append, foldl_cons, foldl_nil, reverse_singleton, singleton_append,
      List.find?_cons]
    rcases eq_or_ne id e.eventID with rfl | hne
    · rw [AList.lookup_insert, beq_self_eq_true]
    · rw [AList.lookup_insert_ne hne, ih, beq_false_of_ne hne.symm]

theorem lastOf_mem {raw : List Entry} {id : String} {e : Entry} (h : lastOf raw id = some e) : e ∈ raw ∧ e.eventID = id :=
  ⟨mem_reverse.1 (mem_of_find?_eq_some h), by simpa using List.find?_some h⟩

/-! ## What a replay delivers -/

def Gives (ledger : List String) (entries : GoMap String Entry) (id : String) (x : String × List Alert) : Prop :=
  ∃ e, entries.lookup id = some e ∧ e.key R ∉ ledger ∧ e.channel = x.1 ∧ e.alerts R = some x.2

theorem check_ready {entries : GoMap String Entry} {ledger : List String} {id : String} {e : Entry} {alerts : List Alert} :
    check R entries ledger id = .ready e alerts ↔ entries.lookup id = some e ∧ e.key R ∉ ledger ∧ e.alerts R = some alerts := by
  unfold check
  cases entries.lookup id with
  | none => simp
  | some e' =>
    dsimp only
    by_cases hmarked : e'.key R ∈ ledger
    · rw [if_pos hmarked]
      constructor
      · intro h; cases h
      · rintro ⟨h, hnot, -⟩; cases h; exact absurd hmarked hnot
    · rw [if_neg hmarked]
      cases ha : e'.alerts R with
      | none =>
        constructor
        · intro h; cases h
        · rintro ⟨h, -, ha'⟩; cases h; rw [ha] at ha'; cases ha'
      | some alerts' =>
        constructor
        · intro h; cases h; exact ⟨rfl, hmarked, ha⟩
        · rintro ⟨h, -, ha'⟩; cases h; rw [ha] at ha'; cases ha'; rfl

/-- **One event id** is delivered where it gives something, and then it is marked. -/
theorem replayOne_spec (entries : GoMap String Entry) (p : Progress Alert) (id : String) :
    (∀ x, x ∈ (replayOne R (fun _ _ => true) entries p id).delivered ↔ x ∈ p.delivered ∨ Gives R p.manager.ledger entries id x) ∧
    (∀ k ∈ p.manager.ledger, k ∈ (replayOne R (fun _ _ => true) entries p id).manager.ledger) ∧
    ∀ k ∈ (replayOne R (fun _ _ => true) entries p id).manager.ledger,
      k ∈ p.manager.ledger ∨ ∃ e, entries.lookup id = some e ∧ e.key R = k ∧ e.key R ∉ p.manager.ledger := by
  have hgives : ∀ x, Gives R p.manager.ledger entries id x ↔
      ∃ e alerts, check R entries p.manager.ledger id = .ready e alerts ∧ x = (e.channel, alerts) := by
    intro x
    simp only [check_ready, Gives]
    constructor
    · rintro ⟨e, he, hnot, hc, ha⟩; exact ⟨e, x.2, ⟨he, hnot, ha⟩, by rw [hc]⟩
    · rintro ⟨e, alerts, ⟨he, hnot, ha⟩, rfl⟩; exact ⟨e, he, hnot, rfl, ha⟩
  unfold replayOne
  cases hc : check R entries p.manager.ledger id with
  | skipped => exact ⟨fun x => by simp [hgives, hc], fun k hk => hk, fun k hk => Or.inl hk⟩
  | unreadable e => exact ⟨fun x => by simp [hgives, hc], fun k hk => hk, fun k hk => Or.inl hk⟩
  | ready e alerts =>
    obtain ⟨he, hnot, -⟩ := (check_ready R).1 hc
    refine ⟨fun x => by simp [hgives, hc], fun k hk => ?_, fun k hk => ?_⟩
    · simp only [if_true, markIfNew]
      split_ifs
      · exact hk
      · exact mem_append_left _ hk
    · simp only [if_true, markIfNew] at hk
      split_ifs at hk
      · exact Or.inl hk
      · rcases mem_append.1 hk with hk | hk
        · exact Or.inl hk
        · exact Or.inr ⟨e, he, (mem_singleton.1 hk).symm, hnot⟩

/-- **A replay** delivers what the event ids give. -/
theorem delivered_iff {entries : GoMap String Entry}
    (hkey : ∀ id id' e e', entries.lookup id = some e → entries.lookup id' = some e' → e.key R = e'.key R → id = id') :
    ∀ (ids : List String) (p : Progress Alert) (x : String × List Alert),
      x ∈ (ids.foldl (replayOne R (fun _ _ => true) entries) p).delivered ↔
        x ∈ p.delivered ∨ ∃ id ∈ ids, Gives R p.manager.ledger entries id x
  | [], p, x => by simp
  | id :: ids, p, x => by
    obtain ⟨hdelivered, hkeeps, hmarks⟩ := replayOne_spec R entries p id
    rw [foldl_cons, delivered_iff hkey ids, hdelivered, exists_mem_cons_iff, or_assoc]
    refine or_congr_right ?_
    constructor
    · rintro (h | ⟨id', hid, e, he, hnot, hx⟩)
      · exact Or.inl h
      · exact Or.inr ⟨id', hid, e, he, fun hk => hnot (hkeeps _ hk), hx⟩
    · rintro (h | ⟨id', hid, e, he, hnot, hx⟩)
      · exact Or.inl h
      · by_cases hk : e.key R ∈ (replayOne R (fun _ _ => true) entries p id).manager.ledger
        · -- it has been delivered by this very event id
          rcases hmarks _ hk with hk | ⟨e', he', hkk, -⟩
          · exact absurd hk hnot
          · rw [← hkey id id' e' e he' he hkk] at he
            exact Or.inl ⟨e, he, hnot, hx⟩
        · exact Or.inr ⟨id', hid, e, he, hk, hx⟩

/-! ## One replay over all event ids -/

def entriesOf (fs : List (Failure Alert × Time)) : List Entry := fs.map fun f => recordTerminalFailure R f.1

def readOf (rotateBytes : Nat) (fs : List (Failure Alert × Time)) : Option (List Entry) :=
  (newSink.writes rotateBytes (fs.map fun f => (recordTerminalFailure R f.1, f.2))).readEntries

def replayAll (raw : Option (List Entry)) (m : Manager) : Option (Progress Alert) :=
  raw.bind fun listed => replayEntries R (fun _ _ => true) raw m ((m.listEntries R listed "" none).map fun x => x.1.eventID)

def Entry.DeliveredBy (e : Entry) (p : Option (Progress Alert)) : Prop :=
  ∃ progress alerts, p = some progress ∧ e.alerts R = some alerts ∧ (e.channel, alerts) ∈ progress.delivered

/-- The last entry of an event id says the same to the same channel, and it has no mark. -/
def Entry.LastIn (e : Entry) (ledger : List String) (raw : Option (List Entry)) : Prop :=
  ∃ read e' alerts, raw = some read ∧ lastOf read e'.eventID = some e' ∧ e'.key R ∉ ledger ∧ e'.channel = e.channel ∧
    e'.alerts R = some alerts ∧ e.alerts R = some alerts

theorem listed (m : Manager) (raw : List Entry) :
    ((m.listEntries R raw "" none).map fun x => x.1.eventID) = raw.map Entry.eventID := by
  simp [Manager.listEntries, filter_eq_self.2]

theorem delivered_iff_last (hsha : Function.Injective R.sha256) {raw : List Entry} (hplain : ∀ e ∈ raw, '\x00' ∉ e.eventID.toList)
    (m : Manager) (e : Entry) : e.DeliveredBy R (replayAll R (some raw) m) ↔ e.LastIn R m.ledger (some raw) := by
  have hkey : ∀ id id' e e', (byID raw).lookup id = some e → (byID raw).lookup id' = some e' → e.key R = e'.key R → id = id' := by
    intro id id' e e' he he' hk
    rw [lookup_byID] at he he'
    obtain ⟨hmem, rfl⟩ := lastOf_mem he
    obtain ⟨hmem', rfl⟩ := lastOf_mem he'
    exact eventID_eq R hsha (hplain e hmem) (hplain e' hmem') hk
  have hall : replayAll R (some raw) m =
      some ((raw.map Entry.eventID).foldl (replayOne R (fun _ _ => true) (byID raw)) ⟨m, ⟨0, 0, 0⟩, []⟩) := by
    rw [replayAll, Option.bind_some, listed]; rfl
  unfold Entry.DeliveredBy Entry.LastIn
  rw [hall]
  constructor
  · rintro ⟨progress, alerts, hp, ha, hd⟩
    cases hp
    rw [delivered_iff R hkey] at hd
    rcases hd with hd | ⟨id, -, e', he', hnot, hc, ha'⟩
    · cases hd
    · rw [lookup_byID] at he'
      obtain ⟨-, rfl⟩ := lastOf_mem he'
      exact ⟨raw, e', alerts, rfl, he', hnot, hc, ha', ha⟩
  · rintro ⟨read, e', alerts, hread, hlast, hnot, hc, ha', ha⟩
    cases hread
    refine ⟨_, alerts, rfl, ha, (delivered_iff R hkey _ _ _).2 (Or.inr ⟨e'.eventID, ?_, e', ?_, hnot, hc, ha'⟩)⟩
    · exact List.mem_map_of_mem (lastOf_mem hlast).1
    · rw [lookup_byID]; exact hlast

/-- **DLQ replay completeness.** -/
theorem replay_complete_iff (hsha : Function.Injective R.sha256) (rotateBytes : Nat) (fs : List (Failure Alert × Time)) (m : Manager) :
    (∀ e ∈ entriesOf R fs, e.DeliveredBy R (replayAll R (readOf R rotateBytes fs) m)) ↔
      ∀ e ∈ entriesOf R fs, e.LastIn R m.ledger (readOf R rotateBytes fs) := by
  refine forall₂_congr fun e _ => ?_
  cases hraw : readOf R rotateBytes fs with
  | none =>
    constructor
    · rintro ⟨_, _, h, -⟩; cases h
    · rintro ⟨_, _, _, h, -⟩; cases h
  | some raw =>
    refine delivered_iff_last R hsha (fun e' he' => ?_) m e
    have hmem := mem_of_readEntries hraw e' he'
    simp only [List.map_map, List.mem_map] at hmem
    obtain ⟨f, -, rfl⟩ := hmem
    exact eventID_plain R f.1

def small : Replayer UInt8 := ⟨fun a => UInt64.ofNat a.toNat, some, some, fun t => String.ofList ('#' :: t)⟩

theorem small_injective : Function.Injective small.sha256 := fun _ _ h => (List.cons.inj (String.ofList_injective h)).2

def apart : List (Failure UInt8 × Time) := [(⟨[1], "slack", "t", ""⟩, 0), (⟨[2], "pager", "t", ""⟩, 0)]

theorem replay_apart : (entriesOf small apart).length = 2 ∧
    ∀ e ∈ entriesOf small apart, e.DeliveredBy small (replayAll small (readOf small 1000 apart) ⟨[], []⟩) := by
  refine ⟨rfl, (replay_complete_iff small small_injective 1000 apart ⟨[], []⟩).2 ?_⟩
  have hread : readOf small 1000 apart = some (entriesOf small apart) := by decide +kernel
  rw [hread]
  intro e he
  simp only [entriesOf, apart, map_cons, map_nil, mem_cons, not_mem_nil, or_false] at he
  rcases he with rfl | rfl
  · exact ⟨_, _, [1], rfl, by decide, not_mem_nil, rfl, rfl, rfl⟩
  · exact ⟨_, _, [2], rfl, by decide, not_mem_nil, rfl, rfl, rfl⟩

def twice : List (Failure UInt8 × Time) := [(⟨[1], "slack", "t", ""⟩, 0), (⟨[1], "pager", "t", ""⟩, 0)]

/-- Only the channel that failed last gets it. -/
theorem one_channel_left : ¬∀ e ∈ entriesOf small twice, e.DeliveredBy small (replayAll small (readOf small 1000 twice) ⟨[], []⟩) := by
  have hall : replayAll small (readOf small 1000 twice) ⟨[], []⟩ =
      some ⟨⟨[idempotencyKey small "0000000000000001" "pager" 0], []⟩, ⟨1, 1, 0⟩, [("pager", [1])]⟩ := by decide +kernel
  intro h
  obtain ⟨progress, alerts, hp, -, hd⟩ := h _ mem_cons_self
  rw [hall] at hp
  cases hp
  have hchannel : "slack" = "pager" := congrArg Prod.fst (mem_singleton.1 hd)
  exact absurd hchannel (by decide)

end Dlq
end DsApm
