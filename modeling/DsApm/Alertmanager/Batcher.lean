import DsApm.Lib.StepRun
import Mathlib.Data.List.Range
import Mathlib.Data.List.Sort
/-!
# Batcher — the queue between the rules and the alertmanager

`batcher.go`: callers add alerts to a bounded queue and leave a signal in a channel of one place; a goroutine takes the
signal, takes a batch off the queue and sends it on the channel `C`.  An action is one call of `Add` or `Stop`, one step
of the goroutine, or the taking of a batch from `C`.  `Add` holds the lock of the queue until it has left its signal, so
it is one step.

An alert is told apart by its position among all that were added.  The queue is always the end of these, so what a step
removes from its front are the positions before it.
-/
namespace DsApm
namespace Alertmanager
namespace Batcher

open StepRun List Option

structure Config where
  capacity : Nat
  size : Nat
  pos : 1 ≤ size
  le : size ≤ capacity

/-- Where the goroutine is; `drain` and on is the loop after the stop. -/
inductive Pc (α : Type) where
  | select
  | next
  | send (alerts : List α)
  | check
  | setMore
  | drain
  | drainNext
  | drainSend (alerts : List α)
  | done
  deriving DecidableEq, Repr

structure State (α : Type) where
  queue : List α := []
  /-- `moreC` holds a signal. -/
  more : Bool := false
  /-- `stopC` is closed. -/
  stopped : Bool := false
  /-- The batches in `C`. -/
  c : List (List α) := []
  pc : Pc α := .select
  deriving DecidableEq, Repr

inductive Action (α : Type) where
  | add (alerts : List α)
  | stop
  /-- The `select` takes the signal. -/
  | receiveMore
  /-- The `select` sees the stop. -/
  | receiveStop
  /-- Any other step of the goroutine. -/
  | run
  /-- A batch is taken from `C`. -/
  | take
  deriving DecidableEq, Repr

section
variable {α : Type} (cfg : Config)

def State.add (s : State α) (alerts : List α) : State α :=
  let alerts := alerts.drop (alerts.length - cfg.capacity)
  let queue := s.queue.drop (s.queue.length + alerts.length - cfg.capacity)
  { s with queue := queue ++ alerts, more := true }

def next (queue : List α) : List α × List α :=
  if cfg.size < queue.length then (queue.take cfg.size, queue.drop cfg.size) else (queue, [])

def State.send (s : State α) (alerts : List α) (pc : Pc α) : State α × Option (List α) :=
  if s.c.length < cfg.size then ({ s with c := s.c ++ [alerts], pc }, some alerts) else (s, none)

def State.run (s : State α) : State α × Option (List α) :=
  match s.pc with
  | .next => ({ s with queue := (next cfg s.queue).2, pc := .send (next cfg s.queue).1 }, none)
  | .send alerts => s.send cfg alerts .check
  | .check => ({ s with pc := if 0 < s.queue.length then .setMore else .select }, none)
  | .setMore => ({ s with more := true, pc := .select }, none)
  | .drain => ({ s with pc := if 0 < s.queue.length then .drainNext else .done }, none)
  | .drainNext => ({ s with queue := (next cfg s.queue).2, pc := .drainSend (next cfg s.queue).1 }, none)
  | .drainSend alerts => s.send cfg alerts .drain
  | .select => (s, none)
  | .done => (s, none)

/-- **One action**: the state, and the batch that was sent.  An action that cannot be taken changes nothing. -/
def step (s : State α) : Action α → State α × Option (List α)
  | .add alerts => (s.add cfg alerts, none)
  | .stop => ({ s with stopped := true }, none)
  | .receiveMore =>
    match s.pc with
    | .select => if s.more then ({ s with more := false, pc := .next }, none) else (s, none)
    | _ => (s, none)
  | .receiveStop =>
    match s.pc with
    | .select => if s.stopped then ({ s with pc := .drain }, none) else (s, none)
    | _ => (s, none)
  | .run => s.run cfg
  | .take => ({ s with c := s.c.tail }, none)

def added (as : List (Action α)) : List α :=
  as.flatMap (fun | .add alerts => alerts | _ => [])

def sent (as : List (Action α)) : List (List α) := (trace (step cfg) {} as).filterMap (fun x => x.2.2)

def State.held (s : State α) : List α :=
  match s.pc with
  | .send alerts | .drainSend alerts => alerts
  | _ => []

/-- The alert at a position was in the queue or came with the call, and so did at least `Capacity` after it. -/
def Dropped (as : List (Action α)) (i : Nat) : Prop :=
  ∃ pre alerts post, as = pre ++ .add alerts :: post ∧
    (added pre).length ≤ i + (final (step cfg) {} pre).queue.length ∧
    i + 1 + cfg.capacity ≤ (added pre).length + alerts.length

def StopLast (as : List (Action α)) : Prop :=
  ∀ pre post, as = pre ++ .stop :: post → added post = [] ∧ .stop ∉ post

end

section
variable {α : Type} {cfg : Config} {s : State α} {as : List (Action α)} {a : Action α}

@[simp] theorem added_append (as bs : List (Action α)) : added (as ++ bs) = added as ++ added bs := flatMap_append
@[simp] theorem added_nil : added ([] : List (Action α)) = [] := rfl
@[simp] theorem added_add (alerts : List α) (as : List (Action α)) : added (.add alerts :: as) = alerts ++ added as := rfl

theorem sent_append (as : List (Action α)) (a : Action α) :
    sent cfg (as ++ [a]) = sent cfg as ++ ((step cfg (final (step cfg) {} as) a).2).toList := by
  unfold sent
  rw [trace_append, filterMap_append]
  cases h : (step cfg (final (step cfg) {} as) a).2 <;> simp [h]

/-! ## What a step does to the alerts -/

theorem next_append (cfg : Config) (queue : List α) : (next cfg queue).1 ++ (next cfg queue).2 = queue := by
  unfold next
  split_ifs
  · exact take_append_drop _ _
  · exact append_nil _

theorem next_length_le (cfg : Config) (queue : List α) : (next cfg queue).1.length ≤ cfg.size := by
  unfold next
  split_ifs with h
  · exact length_take_le _ _
  · exact Nat.le_of_not_lt h

theorem send_cases (cfg : Config) (s : State α) (alerts : List α) :
    (∀ pc, s.send cfg alerts pc = ({ s with c := s.c ++ [alerts], pc }, some alerts)) ∨
      ∀ pc, s.send cfg alerts pc = (s, none) := by
  by_cases hc : s.c.length < cfg.size
  · exact Or.inl (fun _ => if_pos hc)
  · exact Or.inr (fun _ => if_neg hc)

/-- **What an action does to the queue, to the batch that is held and to `C`**: it adds, takes a batch off the queue, sends
the one that is held, or leaves all three. -/
theorem step_cases (cfg : Config) (s : State α) (a : Action α) :
    (∃ alerts, a = .add alerts) ∨
    (added [a] = [] ∧ s.held = [] ∧ (step cfg s a).2 = none ∧ (step cfg s a).1.held.length ≤ cfg.size ∧
      s.queue = (step cfg s a).1.held ++ (step cfg s a).1.queue) ∨
    (added [a] = [] ∧ (step cfg s a).1.queue = s.queue ∧ (step cfg s a).1.held = [] ∧ (step cfg s a).2 = some s.held) ∨
    (added [a] = [] ∧ (step cfg s a).1.queue = s.queue ∧ (step cfg s a).1.held = s.held ∧ (step cfg s a).2 = none) := by
  cases a with
  | add alerts => exact Or.inl ⟨alerts, rfl⟩
  | stop => exact Or.inr (Or.inr (Or.inr ⟨rfl, rfl, rfl, rfl⟩))
  | take => exact Or.inr (Or.inr (Or.inr ⟨rfl, rfl, rfl, rfl⟩))
  | receiveMore =>
    refine Or.inr (Or.inr (Or.inr ⟨rfl, ?_⟩))
    unfold step State.held
    cases hpc : s.pc <;> simp only [hpc, and_self]
    split_ifs <;> simp [hpc]
  | receiveStop =>
    refine Or.inr (Or.inr (Or.inr ⟨rfl, ?_⟩))
    unfold step State.held
    cases hpc : s.pc <;> simp only [hpc, and_self]
    split_ifs <;> simp [hpc]
  | run =>
    refine Or.inr ?_
    have hnext := (next_append cfg s.queue).symm
    have hle := next_length_le cfg s.queue
    unfold step State.run State.held
    cases hpc : s.pc with
    | select | done => exact Or.inr (Or.inr ⟨rfl, rfl, by simp only [hpc], rfl⟩)
    | next | drainNext => exact Or.inl ⟨rfl, rfl, rfl, hle, hnext⟩
    | setMore => exact Or.inr (Or.inr ⟨rfl, rfl, rfl, rfl⟩)
    | check | drain =>
      refine Or.inr (Or.inr ⟨rfl, rfl, ?_, rfl⟩)
      simp only
      split_ifs <;> rfl
    | send alerts | drainSend alerts =>
      dsimp only
      rcases send_cases cfg s alerts with hsend | hsend
      · rw [hsend]
        exact Or.inr (Or.inl ⟨rfl, rfl, rfl, rfl⟩)
      · rw [hsend]
        exact Or.inr (Or.inr ⟨rfl, rfl, by simp only [hpc], rfl⟩)

theorem add_queue (cfg : Config) (s : State α) (alerts : List α) : (s.add cfg alerts).queue =
    (s.queue ++ alerts).drop ((s.queue ++ alerts).length - cfg.capacity) := by
  unfold State.add
  simp only [length_drop, List.length_append]
  by_cases h : alerts.length ≤ cfg.capacity
  · rw [Nat.sub_eq_zero_of_le h, drop_zero, Nat.sub_zero, drop_append_of_le_length (by omega)]
  · have hall : s.queue.length + alerts.length - cfg.capacity = s.queue.length + (alerts.length - cfg.capacity) := by omega
    have hold : s.queue.drop (s.queue.length + (alerts.length - (alerts.length - cfg.capacity)) - cfg.capacity) = [] :=
      drop_eq_nil_of_le (by omega)
    have hnew : (s.queue ++ alerts).drop (s.queue.length + (alerts.length - cfg.capacity)) =
        alerts.drop (alerts.length - cfg.capacity) := by
      rw [drop_append, drop_eq_nil_of_le (Nat.le_add_right _ _), nil_append, Nat.add_sub_cancel_left]
    rw [hold, hall, hnew, nil_append]

/-! ## Where the alerts are -/

/-- The queue is the end of what was added; the alerts before it were sent, are held, or were dropped. -/
structure Placed (cfg : Config) (as : List (Action α)) (s : State α) : Prop where
  ends : s.queue <:+ added as
  queue : s.queue.length ≤ cfg.capacity
  held : s.held.length ≤ cfg.size
  batches : ∀ b ∈ sent cfg as, b.length ≤ cfg.size
  positions : ∃ ps qs : List Nat, (ps ++ qs).Pairwise (· < ·) ∧
    (∀ p ∈ ps ++ qs, p < (added as).length - s.queue.length) ∧
    (sent cfg as).flatten.map some = ps.map (fun p => (added as)[p]?) ∧ s.held.map some = qs.map (fun p => (added as)[p]?) ∧
    ∀ i, i < (added as).length - s.queue.length → i ∉ ps ++ qs → Dropped cfg as i

theorem Dropped.append {i : Nat} (h : Dropped cfg as i) (bs : List (Action α)) : Dropped cfg (as ++ bs) i := by
  obtain ⟨pre, alerts, post, rfl, hin, hafter⟩ := h
  exact ⟨pre, alerts, post ++ bs, by simp, hin, hafter⟩

theorem map_getElem?_append {l l' : List α} {ps : List Nat} {n : Nat} (h : ∀ p ∈ ps, p < n) (hn : n ≤ l.length) :
    ps.map (fun p => (l ++ l')[p]?) = ps.map (fun p => l[p]?) :=
  map_congr_left (fun p hp => List.getElem?_append_left (Nat.lt_of_lt_of_le (h p hp) hn))

theorem map_getElem?_range' (before part rest : List α) :
    part.map some = (List.range' before.length part.length).map (fun p => (before ++ (part ++ rest))[p]?) := by
  refine ext_getElem? (fun j => ?_)
  rw [List.getElem?_map, List.getElem?_map]
  by_cases hj : j < part.length
  · rw [List.getElem?_range' hj, map_some, Nat.one_mul, List.getElem?_append_right (Nat.le_add_right _ _),
      Nat.add_sub_cancel_left, List.getElem?_append_left hj, List.getElem?_eq_getElem hj, map_some]
  · rw [List.getElem?_eq_none (by omega), List.getElem?_eq_none (by simp; omega), map_none, map_none]

theorem placed_add {alerts : List α} (hs : s = final (step cfg) {} as) (h : Placed cfg as s) :
    Placed cfg (as ++ [.add alerts]) (s.add cfg alerts) := by
  have hadd := add_queue cfg s alerts
  have hqueue := h.ends.length_le
  have hadded : added (as ++ [.add alerts]) = added as ++ alerts := by simp
  have hsent : sent cfg (as ++ [.add alerts]) = sent cfg as := by rw [sent_append]; simp [step]
  have hlen : (s.add cfg alerts).queue.length =
      s.queue.length + alerts.length - (s.queue.length + alerts.length - cfg.capacity) := by
    rw [hadd, length_drop, List.length_append]
  obtain ⟨ps, qs, hsorted, hlt, hps, hqs, hmissing⟩ := h.positions
  have hbound : (added as).length - s.queue.length ≤ (added as).length := Nat.sub_le _ _
  refine ⟨?_, by omega, h.held, by rw [hsent]; exact h.batches, ps, qs, hsorted, fun p hp => ?_, ?_, ?_, ?_⟩
  · obtain ⟨before, hbefore⟩ := h.ends
    rw [hadd, hadded, ← hbefore, List.append_assoc]
    exact (drop_suffix _ _).trans (suffix_append _ _)
  · have hp' := hlt p hp
    rw [hadded, List.length_append, hlen]
    omega
  · rw [hsent, hadded, hps, map_getElem?_append (fun p hp => hlt p (mem_append_left _ hp)) hbound]
  · rw [hadded, map_getElem?_append (fun p hp => hlt p (mem_append_right _ hp)) hbound]
    exact hqs
  · intro i hi hmem
    by_cases hold : i < (added as).length - s.queue.length
    · exact (hmissing i hold hmem).append _
    · -- what this call drops is in the queue or in the call, in front of `Capacity` others
      rw [hadded, List.length_append, hlen] at hi
      refine ⟨as, alerts, [], rfl, ?_, by omega⟩
      rw [← hs]
      omega

theorem placed_step (hs : s = final (step cfg) {} as) (h : Placed cfg as s) :
    Placed cfg (as ++ [a]) (step cfg s a).1 := by
  rcases step_cases cfg s a with ⟨alerts, rfl⟩ | ⟨hno, hheld, hout, hle, hqueue⟩ | ⟨hno, hqueue, hheld, hout⟩ |
    ⟨hno, hqueue, hheld, hout⟩
  · exact placed_add hs h
  all_goals
    obtain ⟨ps, qs, hsorted, hlt, hps, hqs, hmissing⟩ := h.positions
    have hadded : added (as ++ [a]) = added as := by rw [added_append, hno, append_nil]
    have hsent : sent cfg (as ++ [a]) = sent cfg as ++ (step cfg s a).2.toList := by rw [sent_append, ← hs]
    rw [hout] at hsent
  · rw [toList_none, append_nil] at hsent
    obtain ⟨before, hbefore⟩ := h.ends
    have hlen : (added as).length = before.length + s.queue.length := by rw [← hbefore, List.length_append]
    have hcut : s.queue.length = (step cfg s a).1.held.length + (step cfg s a).1.queue.length := by
      conv_lhs => rw [hqueue, List.length_append]
    have hnone : qs = [] := by
      rw [hheld] at hqs
      exact map_eq_nil_iff.1 hqs.symm
    subst hnone
    rw [append_nil] at hsorted hlt hmissing
    refine ⟨?_, ?_, hle, by rw [hsent]; exact h.batches, ps, List.range' before.length (step cfg s a).1.held.length, ?_, ?_,
      by rw [hsent, hadded]; exact hps, ?_, ?_⟩
    · rw [hadded, ← hbefore, hqueue]
      exact (suffix_append _ _).trans (suffix_append _ _)
    · have := h.queue
      omega
    · refine pairwise_append.2 ⟨hsorted, pairwise_lt_range', fun p hp q hq => ?_⟩
      have hp' := hlt p hp
      rw [mem_range'_1] at hq
      omega
    · intro p hp
      rw [hadded]
      rcases mem_append.1 hp with hp | hp
      · have hp' := hlt p hp
        omega
      · rw [mem_range'_1] at hp
        omega
    · rw [hadded, ← hbefore, hqueue, map_getElem?_range']
    · intro i hi hmem
      rw [hadded] at hi
      rw [mem_append, not_or, mem_range'_1] at hmem
      exact (hmissing i (by omega) hmem.1).append _
  · refine ⟨?_, ?_, by rw [hheld]; exact Nat.zero_le _, ?_, ps ++ qs, [], ?_, ?_, ?_, by rw [hheld]; rfl, ?_⟩
    · rw [hadded, hqueue]
      exact h.ends
    · rw [hqueue]
      exact h.queue
    · intro b hb
      rw [hsent, mem_append, toList_some, mem_singleton] at hb
      rcases hb with hb | rfl
      · exact h.batches b hb
      · exact h.held
    · rw [append_nil]
      exact hsorted
    · rw [append_nil, hadded, hqueue]
      exact hlt
    · rw [hsent, hadded, List.flatten_append, map_append, hps, map_append, toList_some,
        flatten_singleton, hqs]
    · rw [append_nil, hadded, hqueue]
      exact fun i hi hmem => (hmissing i hi hmem).append _
  · rw [toList_none, append_nil] at hsent
    refine ⟨?_, ?_, ?_, ?_, ps, qs, hsorted, ?_, ?_, ?_, ?_⟩ <;> simp only [hadded, hsent, hqueue, hheld]
    · exact h.ends
    · exact h.queue
    · exact h.held
    · exact h.batches
    · exact hlt
    · exact hps
    · exact hqs
    · exact fun i hi hmem => (hmissing i hi hmem).append _

theorem placed_run (cfg : Config) (as : List (Action α)) : Placed cfg as (final (step cfg) {} as) := by
  refine history_inv (step cfg) (fun s as => Placed cfg as s) (fun _ => True) {} (fun _ _ _ => trivial) ?_
    (fun as a _ h => ?_) as trivial
  · exact ⟨suffix_rfl, Nat.zero_le _, Nat.zero_le _, by simp [sent], [], [], by simp, by simp, by simp [sent], rfl, by simp⟩
  · exact placed_step rfl h

/-! ## The signal -/

/-- The goroutine does not wait in its `select` for a signal that nobody will leave. -/
def Awake (s : State α) : Prop := s.pc = .select → s.queue ≠ [] → s.more = true

theorem awake_step (h : Awake s) : Awake (step cfg s a).1 := by
  unfold Awake at h ⊢
  cases a with
  | add alerts => exact fun _ _ => rfl
  | stop | take => exact h
  | receiveMore | receiveStop =>
    unfold step
    cases hpc : s.pc with
    | select =>
      dsimp only
      split_ifs
      · exact fun hsel => nomatch hsel
      · exact h
    | _ => exact h
  | run =>
    unfold step State.run
    cases hpc : s.pc with
    | select | done => exact h
    | next | drainNext => exact fun hsel => nomatch hsel
    | setMore => exact fun _ _ => rfl
    | check =>
      -- it goes back to wait only when it has seen the queue empty
      intro hsel hne
      simp only at hsel hne
      rw [if_pos (length_pos_of_ne_nil hne)] at hsel
      cases hsel
    | drain =>
      intro hsel
      simp only at hsel
      split_ifs at hsel
    | send alerts | drainSend alerts =>
      dsimp only
      rcases send_cases cfg s alerts with hsend | hsend
      · rw [hsend]
        exact fun hsel => nomatch hsel
      · rw [hsend]
        exact h

/-! ## The stop -/

structure Drained (as : List (Action α)) (s : State α) : Prop where
  stopped : s.stopped = true → .stop ∈ as
  after : (s.pc = .drain ∨ s.pc = .drainNext ∨ (∃ alerts, s.pc = .drainSend alerts) ∨ s.pc = .done) → s.stopped = true
  empty : s.pc = .done → s.queue = []

theorem StopLast.prefix (h : StopLast (as ++ [a])) : StopLast as := by
  rintro pre post rfl
  obtain ⟨hadded, hstop⟩ := h pre (post ++ [a]) (by simp)
  rw [added_append] at hadded
  exact ⟨(append_eq_nil_iff.1 hadded).1, fun hmem => hstop (mem_append_left _ hmem)⟩

theorem StopLast.last (h : StopLast (as ++ [a])) (hstop : .stop ∈ as) : added [a] = [] := by
  obtain ⟨pre, post, rfl⟩ := append_of_mem hstop
  have hadded := (h pre (post ++ [a]) (by simp)).1
  rw [added_append] at hadded
  exact (append_eq_nil_iff.1 hadded).2

theorem drained_step (hlast : StopLast (as ++ [a])) (h : Drained as s) : Drained (as ++ [a]) (step cfg s a).1 := by
  have hold : s.stopped = true → .stop ∈ as ++ [a] := fun hst => mem_append_left _ (h.stopped hst)
  cases a with
  | add alerts =>
    refine ⟨hold, h.after, fun hdone => ?_⟩
    have hnone : alerts = [] := by simpa using hlast.last (h.stopped (h.after (Or.inr (Or.inr (Or.inr hdone)))))
    change (s.add cfg alerts).queue = []
    rw [add_queue, h.empty hdone, hnone]
    simp
  | stop => exact ⟨fun _ => by simp, fun _ => rfl, h.empty⟩
  | take => exact ⟨hold, h.after, h.empty⟩
  | receiveMore =>
    unfold step
    cases hpc : s.pc with
    | select =>
      dsimp only
      split_ifs
      · exact ⟨hold, by simp, fun hdone => nomatch hdone⟩
      · exact ⟨hold, h.after, h.empty⟩
    | _ => exact ⟨hold, h.after, h.empty⟩
  | receiveStop =>
    unfold step
    cases hpc : s.pc with
    | select =>
      dsimp only
      split_ifs with hst
      · exact ⟨hold, fun _ => hst, fun hdone => nomatch hdone⟩
      · exact ⟨hold, h.after, h.empty⟩
    | _ => exact ⟨hold, h.after, h.empty⟩
  | run =>
    unfold step State.run
    cases hpc : s.pc with
    | select | done => exact ⟨hold, h.after, h.empty⟩
    | next | setMore => exact ⟨hold, by simp, fun hdone => nomatch hdone⟩
    | drainNext => exact ⟨hold, fun _ => h.after (by simp [hpc]), fun hdone => nomatch hdone⟩
    | check =>
      refine ⟨hold, fun hafter => ?_, fun hdone => ?_⟩
      · dsimp only at hafter
        split_ifs at hafter <;> simp at hafter
      · dsimp only at hdone
        split_ifs at hdone
    | drain =>
      refine ⟨hold, fun _ => h.after (by simp [hpc]), fun hdone => ?_⟩
      dsimp only at hdone ⊢
      split_ifs at hdone with hlen
      exact List.length_eq_zero_iff.1 (by omega)
    | send alerts =>
      dsimp only
      rcases send_cases cfg s alerts with hsend | hsend
      · rw [hsend]
        exact ⟨hold, by simp, fun hdone => nomatch hdone⟩
      · rw [hsend]
        exact ⟨hold, h.after, h.empty⟩
    | drainSend alerts =>
      dsimp only
      rcases send_cases cfg s alerts with hsend | hsend
      · rw [hsend]
        exact ⟨hold, fun _ => h.after (by simp [hpc]), fun hdone => nomatch hdone⟩
      · rw [hsend]
        exact ⟨hold, h.after, h.empty⟩

theorem drained_run (cfg : Config) (hlast : StopLast as) : Drained as (final (step cfg) {} as) := by
  refine history_inv (step cfg) (fun s as => Drained as s) StopLast {} (fun _ _ => StopLast.prefix) ?_
    (fun as a hl h => drained_step hl h) as hlast
  exact ⟨fun h => by simp at h, by simp, fun h => nomatch h⟩

/-! ## Delivery -/

/-- **The batches are a subsequence of what was added; what is missing was dropped in favour of newer alerts.**  `ps` are
the positions that were sent and `qs` those that are still held or queued, none once the goroutine has ended.  The bounds
of a batch and of the queue hold, and a waiting goroutine has a signal while there is something to send. -/
theorem batches_delivered (cfg : Config) (as : List (Action α)) (hlast : StopLast as) :
    (∃ ps qs : List Nat, (ps ++ qs).Pairwise (· < ·) ∧
      (sent cfg as).flatten.map some = ps.map (fun p => (added as)[p]?) ∧
      ((final (step cfg) {} as).held ++ (final (step cfg) {} as).queue).map some = qs.map (fun p => (added as)[p]?) ∧
      ((final (step cfg) {} as).pc = .done → qs = []) ∧
      ∀ i, i < (added as).length → i ∉ ps ++ qs → Dropped cfg as i) ∧
    (∀ b ∈ sent cfg as, b.length ≤ cfg.size) ∧
    (final (step cfg) {} as).queue.length ≤ cfg.capacity ∧
    ((final (step cfg) {} as).pc = .select → (final (step cfg) {} as).queue ≠ [] → (final (step cfg) {} as).more = true) := by
  have hplaced := placed_run cfg as
  have hdrained := drained_run cfg hlast
  have hawake : Awake (final (step cfg) {} as) :=
    final_inv (step cfg) Awake (fun _ _ => True) (fun _ _ _ h => awake_step h) as {} (fun _ _ => trivial)
      (fun _ hne => absurd rfl hne)
  generalize final (step cfg) {} as = s at hplaced hdrained hawake ⊢
  refine ⟨?_, hplaced.batches, hplaced.queue, hawake⟩
  obtain ⟨ps, qs, hsorted, hlt, hps, hqs, hmissing⟩ := hplaced.positions
  obtain ⟨before, hbefore⟩ := hplaced.ends
  have hlen : (added as).length = before.length + s.queue.length := by rw [← hbefore, List.length_append]
  refine ⟨ps, qs ++ List.range' before.length s.queue.length, ?_, hps, ?_, fun hdone => ?_, fun i hi hmem => ?_⟩
  · rw [← List.append_assoc]
    refine pairwise_append.2 ⟨hsorted, pairwise_lt_range', fun p hp q hq => ?_⟩
    have hp' := hlt p hp
    rw [mem_range'_1] at hq
    omega
  · have hqueue := map_getElem?_range' before s.queue []
    rw [append_nil, hbefore] at hqueue
    rw [map_append, map_append, hqs, hqueue]
  · have hheld : s.held = [] := by rw [State.held, hdone]
    rw [hheld] at hqs
    rw [map_eq_nil_iff.1 hqs.symm, hdrained.empty hdone]
    rfl
  · rw [← List.append_assoc, mem_append, not_or, mem_range'_1] at hmem
    exact hmissing i (by omega) hmem.1

theorem stopLast_append {as bs : List (Action α)} (has : .stop ∉ as) (hbs : .stop ∉ bs) (hadded : added bs = []) :
    StopLast (as ++ .stop :: bs) := by
  intro pre post h
  obtain ⟨-, -, rfl⟩ := (append_cons_inj_of_notMem has hbs).1 h
  exact ⟨hadded, hbs⟩

def smallConfig : Config := ⟨3, 2, by decide, by decide⟩

def busyRun : List (Action Nat) :=
  [.add [1, 2], .receiveMore, .add [3, 4, 5], .run, .add [6], .run, .run, .run] ++ .stop ::
    [.receiveStop, .run, .run, .run, .run]

/-- Two alerts are dropped and the four others are sent. -/
theorem busyRun_delivered : sent smallConfig busyRun = [[3, 4], [5, 6]] ∧
    (final (step smallConfig) {} busyRun).pc = .done ∧
    ∃ ps qs : List Nat, (ps ++ qs).Pairwise (· < ·) ∧
      (sent smallConfig busyRun).flatten.map some = ps.map (fun p => (added busyRun)[p]?) ∧
      ((final (step smallConfig) {} busyRun).pc = .done → qs = []) ∧
      ∀ i, i < (added busyRun).length → i ∉ ps ++ qs → Dropped smallConfig busyRun i := by
  have hlast : StopLast busyRun := stopLast_append (by decide) (by decide) rfl
  obtain ⟨⟨ps, qs, hsorted, hps, -, hqs, hmissing⟩, -⟩ := batches_delivered smallConfig busyRun hlast
  exact ⟨by decide, by decide, ps, qs, hsorted, hps, hqs, hmissing⟩

end
end Batcher
end Alertmanager
end DsApm
