import DsApm.Rules.Hysteresis
import DsApm.Rules.Transitions
/-!
# Delivery — the alerts a task sends

A tick of `RuleTask.Eval` evaluates the rule and, where that succeeds, calls `SendAlerts`: an alert goes out when it has
not been sent for longer than the resend delay, and at once when it was resolved since.  Each send tells the alertmanager
until when the alert is valid, four times the longer of the resend delay and the interval ahead.
-/
namespace DsApm
namespace Rules

open StepRun GoMap List Option
open Schedule (zeroTime)

section
variable {V : Type}

def Alert.needsSending (a : Alert V) (ts resendDelay : Int) : Bool :=
  if a.state = .pending then false
  else if a.lastSentAt < a.resolvedAt then true
  else decide (a.lastSentAt + resendDelay < ts)

def validFor (resendDelay interval : Int) : Int :=
  (4 * (if resendDelay < interval then interval else resendDelay)).bmod (2 ^ 64)

def Alert.sent (a : Alert V) (ts resendDelay interval : Int) : Alert V :=
  { a with lastSentAt := ts, validUntil := ts + validFor resendDelay interval }

/-- A call of the notify function: the alerts by the fingerprint they have in `Active`. -/
structure Notification (V : Type) where
  orgID : String
  alerts : GoMap Nat (Alert V)

def sendAlerts (ts resendDelay interval : Int) (org : Option String) (s : RuleState V) :
    RuleState V × Option (Notification V) :=
  match org with
  | none => (s, none)
  | some orgID =>
    ({ s with active := filterMapVal (fun _ a =>
        some (if a.needsSending ts resendDelay then a.sent ts resendDelay interval else a)) s.active },
      some { orgID, alerts := filterMapVal (fun _ a =>
        if a.needsSending ts resendDelay then some (a.sent ts resendDelay interval) else none) s.active })

/-- What a tick reads: whether a maintenance covers the rule, the evaluation's input, the organisation. -/
structure TickInput (V : Type) where
  shouldSkip : Bool
  input : EvalInput V
  org : Option String

def included (o : Option (Notification V)) (fp : Nat) : Option (Alert V) := o.bind (fun n => n.alerts.lookup fp)

def Ticks (i : Int) : Int → List (TickInput V) → Prop
  | _, [] => True
  | t, x :: xs => x.input.ts = t ∧ Ticks i (t + i) xs

end

variable {V : Type} [Float64 V] (W : World V) (r : Rule V) (resendDelay interval : Int)

def tick (s : RuleState V) (x : TickInput V) : RuleState V × Option (Notification V) :=
  if x.shouldSkip then (s, none)
  else match eval W r s x.input with
    | (s', none) => (s', none)
    | (s', some _) => sendAlerts x.input.ts resendDelay interval x.org s'

structure SendingRun (t₀ : Int) (s : RuleState V) (xs : List (TickInput V)) : Prop where
  ticks : Ticks interval t₀ xs
  sends : ∀ x ∈ trace (tick W r resendDelay interval) s xs, x.2.2 ≠ none

/-- What is to be delivered.  An alert is raised where its entry fires or recovers and did neither before, and resolved
where it did and does no more.  From a send on, while the alert is unresolved and up to the tick that includes it next,
no tick is as late as the instant it was sent with. -/
structure Delivered (s : RuleState V) (xs : List (TickInput V)) : Prop where
  raised : ∀ x ∈ trace (tick W r resendDelay interval) s xs, ∀ fp a,
    (tick W r resendDelay interval x.1 x.2.1).1.active.lookup fp = some a → a.Unresolved → ¬ UnresolvedAt x.1 fp →
      included x.2.2 fp = some a
  resolved : ∀ x ∈ trace (tick W r resendDelay interval) s xs, ∀ fp, UnresolvedAt x.1 fp →
    ¬ UnresolvedAt (tick W r resendDelay interval x.1 x.2.1).1 fp →
      ∃ a, included x.2.2 fp = some a ∧ a.state = .inactive ∧ a.resolvedAt = x.2.1.input.ts
  valid : ∀ pre x mid y post, xs = pre ++ x :: (mid ++ y :: post) → ∀ fp a,
    included (tick W r resendDelay interval (final (tick W r resendDelay interval) s pre) x).2 fp = some a →
    (∀ z ∈ trace (tick W r resendDelay interval) (final (tick W r resendDelay interval) s (pre ++ [x])) (mid ++ [y]),
      UnresolvedAt z.1 fp) →
    (∀ z ∈ trace (tick W r resendDelay interval) (final (tick W r resendDelay interval) s (pre ++ [x])) mid,
      included z.2.2 fp = none) →
    y.input.ts < a.validUntil

/-! ## One tick -/

section
variable {W r resendDelay interval} {s : RuleState V} {x : TickInput V}

theorem tick_entry (hs : Standing s) (hsends : (tick W r resendDelay interval s x).2 ≠ none) (fp : Nat) :
    ∃ o l, AlertStep x.input.ts (s.active.lookup fp) o l ∧
      (tick W r resendDelay interval s x).1.active.lookup fp = o.map (fun a =>
        if a.needsSending x.input.ts resendDelay then a.sent x.input.ts resendDelay interval else a) ∧
      included (tick W r resendDelay interval s x).2 fp = o.bind (fun a =>
        if a.needsSending x.input.ts resendDelay then some (a.sent x.input.ts resendDelay interval) else none) := by
  unfold tick at hsends ⊢
  cases hskip : x.shouldSkip with
  | true => exact absurd (by rw [hskip]; rfl) hsends
  | false =>
    rw [hskip] at hsends
    simp only [Bool.false_eq_true, if_false] at hsends ⊢
    cases heval : eval W r s x.input with
    | mk s' out =>
      rw [heval] at hsends
      cases out with
      | none => exact absurd rfl hsends
      | some out =>
        have hsucc : (eval W r s x.input).2 = some out := by rw [heval]
        obtain ⟨samples, hq, hnd⟩ := eval_succeeded hsucc
        have hstep := alertStep_eval hs hq hnd fp
        rw [heval] at hstep
        cases horg : x.org with
        | none => rw [horg] at hsends; exact absurd rfl hsends
        | some orgID =>
          refine ⟨s'.active.lookup fp, _, hstep, ?_, ?_⟩
          · simp only [sendAlerts, lookup_filterMapVal]
            cases s'.active.lookup fp <;> rfl
          · simp only [sendAlerts, included, bind_some, lookup_filterMapVal]

theorem standing_tick (hs : Standing s) (hsends : (tick W r resendDelay interval s x).2 ≠ none) :
    Standing (tick W r resendDelay interval s x).1 := by
  intro fp b hb
  obtain ⟨o, l, hstep, hafter, -⟩ := tick_entry hs hsends fp
  rw [hafter, map_eq_some_iff] at hb
  obtain ⟨a, rfl, rfl⟩ := hb
  have ha := hstep.standing (hs fp)
  split_ifs
  · exact ha
  · exact ha

structure SentBefore (t : Int) (s : RuleState V) : Prop where
  standing : Standing s
  sent : ∀ fp a, s.active.lookup fp = some a → a.lastSentAt < t

omit [Float64 V] in
theorem sentBefore_init (t : Int) : SentBefore t (RuleState.init V) := ⟨standing_init, fun _ _ h => by cases h⟩

omit [Float64 V] in
theorem needsSending_of_raised {a : Alert V} {ts : Int} (h : a.state ≠ .pending) (hsent : a.lastSentAt = zeroTime)
    (hts : zeroTime + resendDelay < ts) : a.needsSending ts resendDelay = true := by
  unfold Alert.needsSending
  rw [if_neg h, hsent]
  split_ifs
  · rfl
  · exact decide_eq_true hts

omit [Float64 V] in
theorem needsSending_of_resolved {a : Alert V} {ts : Int} (hsent : a.lastSentAt < ts) :
    ({ a with state := .inactive, resolvedAt := ts } : Alert V).needsSending ts resendDelay = true := by
  simp [Alert.needsSending, hsent]

omit [Float64 V] in
theorem le_of_not_needsSending {a : Alert V} {ts : Int} (h : a.state ≠ .pending)
    (hn : a.needsSending ts resendDelay = false) : ts ≤ a.lastSentAt + resendDelay := by
  unfold Alert.needsSending at hn
  rw [if_neg h] at hn
  split_ifs at hn
  simpa using hn

theorem sentBefore_tick (h : SentBefore x.input.ts s) (hsends : (tick W r resendDelay interval s x).2 ≠ none)
    (hts : zeroTime + resendDelay < x.input.ts) (hi : 0 < interval) :
    SentBefore (x.input.ts + interval) (tick W r resendDelay interval s x).1 := by
  refine ⟨standing_tick h.standing hsends, ?_⟩
  intro fp b hb
  obtain ⟨o, l, hstep, hafter, -⟩ := tick_entry h.standing hsends fp
  rw [hafter, map_eq_some_iff] at hb
  obtain ⟨a, rfl, rfl⟩ := hb
  by_cases hneeds : a.needsSending x.input.ts resendDelay = true
  · rw [if_pos hneeds]
    exact lt_add_of_pos_right _ hi
  · rw [if_neg hneeds]
    -- not sent now, so sent before the evaluation and unchanged by it
    generalize hbefore : s.active.lookup fp = before at hstep
    cases hstep with
    | rested hinactive => exact (h.sent fp a hbefore).trans (lt_add_of_pos_right _ hi)
    | resolved hun => exact absurd (needsSending_of_resolved (h.sent fp _ hbefore)) hneeds
    | raised hinactive hstate hresolved hsent =>
      refine absurd (needsSending_of_raised ?_ hsent hts) hneeds
      rw [hstate]
      split_ifs <;> decide
    | kept hun hun' hlabels hresolved hsent hvalid =>
      rw [hsent]
      exact (h.sent fp _ hbefore).trans (lt_add_of_pos_right _ hi)

theorem raised_included (hs : Standing s) (hsends : (tick W r resendDelay interval s x).2 ≠ none)
    (hts : zeroTime + resendDelay < x.input.ts) {fp : Nat} {a : Alert V}
    (ha : (tick W r resendDelay interval s x).1.active.lookup fp = some a) (hun : a.Unresolved)
    (hbefore : ¬ UnresolvedAt s fp) : included (tick W r resendDelay interval s x).2 fp = some a := by
  obtain ⟨o, l, hstep, hafter, hsent⟩ := tick_entry hs hsends fp
  rw [hafter, map_eq_some_iff] at ha
  obtain ⟨b, rfl, rfl⟩ := ha
  rw [hsent, bind_some]
  generalize hlookup : s.active.lookup fp = before at hstep
  cases hstep with
  | rested hinactive =>
    refine absurd hinactive ?_
    split_ifs at hun
    · exact Alert.Unresolved.not_inactive (a := b) hun
    · exact hun.not_inactive
  | resolved hun' => exact absurd ⟨_, hlookup, hun'⟩ hbefore
  | raised hinactive hstate hresolved hzero =>
    have hneeds : b.needsSending x.input.ts resendDelay = true := by
      refine needsSending_of_raised ?_ hzero hts
      rw [hstate]
      split_ifs <;> decide
    rw [if_pos hneeds, if_pos hneeds]
  | kept hun' _ _ _ _ _ => exact absurd ⟨_, hlookup, hun'⟩ hbefore

theorem resolved_included (h : SentBefore x.input.ts s) (hsends : (tick W r resendDelay interval s x).2 ≠ none) {fp : Nat}
    (hbefore : UnresolvedAt s fp) (hafter : ¬ UnresolvedAt (tick W r resendDelay interval s x).1 fp) :
    ∃ a, included (tick W r resendDelay interval s x).2 fp = some a ∧ a.state = .inactive ∧
      a.resolvedAt = x.input.ts := by
  obtain ⟨o, l, hstep, hlookup, hsent⟩ := tick_entry h.standing hsends fp
  obtain ⟨a, ha, hun⟩ := hbefore
  rw [ha] at hstep
  have hstays : ∀ b, o = some b → ¬ b.Unresolved := by
    rintro b rfl hunb
    rw [map_some] at hlookup
    refine hafter ⟨_, hlookup, ?_⟩
    split_ifs
    · exact hunb
    · exact hunb
  cases hstep with
  | expired hinactive => exact absurd hinactive hun.not_inactive
  | rested hinactive => exact absurd hinactive hun.not_inactive
  | resolved _ =>
    rw [bind_some, if_pos (needsSending_of_resolved (h.sent fp a ha))] at hsent
    exact ⟨_, hsent, rfl, rfl⟩
  | raised hinactive _ _ _ => exact absurd (hinactive a rfl) hun.not_inactive
  | kept _ hun' _ _ _ _ => exact absurd hun' (hstays _ rfl)

theorem kept_of_not_included (hs : Standing s) (hsends : (tick W r resendDelay interval s x).2 ≠ none) {fp : Nat}
    {a : Alert V} (ha : s.active.lookup fp = some a) (hun : a.Unresolved)
    (hafter : UnresolvedAt (tick W r resendDelay interval s x).1 fp) (hnot : included (tick W r resendDelay interval s x).2 fp = none) :
    ∃ b, (tick W r resendDelay interval s x).1.active.lookup fp = some b ∧ b.Unresolved ∧
      b.lastSentAt = a.lastSentAt ∧ x.input.ts ≤ a.lastSentAt + resendDelay := by
  obtain ⟨o, l, hstep, hlookup, hsent⟩ := tick_entry hs hsends fp
  obtain ⟨b, hb, hunb⟩ := hafter
  rw [hlookup, map_eq_some_iff] at hb
  obtain ⟨c, rfl, rfl⟩ := hb
  rw [hsent, bind_some] at hnot
  have hneeds : ¬ c.needsSending x.input.ts resendDelay = true := by
    intro hneeds
    rw [if_pos hneeds] at hnot
    cases hnot
  rw [if_neg hneeds] at hunb
  rw [ha] at hstep
  cases hstep with
  | rested hinactive => exact absurd hinactive hun.not_inactive
  | resolved _ => exact absurd rfl hunb.not_inactive
  | raised hinactive _ _ _ => exact absurd (hinactive a rfl) hun.not_inactive
  | kept _ _ _ _ hsame _ =>
    refine ⟨c, ?_, hunb, hsame, ?_⟩
    · rw [hlookup, map_some, if_neg hneeds]
    · rw [← hsame]
      exact le_of_not_needsSending hunb.not_pending (Bool.eq_false_iff.2 hneeds)

theorem lookup_of_included (hs : Standing s) (hsends : (tick W r resendDelay interval s x).2 ≠ none) {fp : Nat} {a : Alert V}
    (h : included (tick W r resendDelay interval s x).2 fp = some a) :
    (tick W r resendDelay interval s x).1.active.lookup fp = some a ∧ a.lastSentAt = x.input.ts ∧
      a.validUntil = x.input.ts + validFor resendDelay interval := by
  obtain ⟨o, l, hstep, hlookup, hsent⟩ := tick_entry hs hsends fp
  rw [hsent, bind_eq_some_iff] at h
  obtain ⟨b, rfl, hb⟩ := h
  split_ifs at hb with hneeds
  cases hb
  rw [hlookup, map_some, if_pos hneeds]
  exact ⟨rfl, rfl, rfl⟩

end

/-! ## Whole runs -/

section
variable {W r resendDelay interval}

theorem SendingRun.suffix (hi : 0 < interval) : ∀ {pre rest : List (TickInput V)} {t₀ : Int} {s : RuleState V},
    SendingRun W r resendDelay interval t₀ s (pre ++ rest) → SentBefore t₀ s → zeroTime + resendDelay < t₀ →
    ∃ t, SendingRun W r resendDelay interval t (final (tick W r resendDelay interval) s pre) rest ∧
      SentBefore t (final (tick W r resendDelay interval) s pre) ∧ zeroTime + resendDelay < t
  | [], rest, t₀, s, hrun, hsent, hpos => ⟨t₀, hrun, hsent, hpos⟩
  | x :: pre, rest, t₀, s, hrun, hsent, hpos => by
    obtain ⟨⟨hts, hticks⟩, hsends⟩ := hrun
    rw [cons_append, trace_cons, forall_mem_cons] at hsends
    subst hts
    have hrest : SendingRun W r resendDelay interval (x.input.ts + interval) (tick W r resendDelay interval s x).1
        (pre ++ rest) := ⟨hticks, hsends.2⟩
    exact hrest.suffix hi (sentBefore_tick hsent hsends.1 hpos hi) (by omega)

theorem ts_le_of_not_included {fp : Nat} (sentAt : Int) {y : TickInput V} {post : List (TickInput V)} (hi : 0 < interval) :
    ∀ {mid : List (TickInput V)} {t : Int} {s : RuleState V},
    SendingRun W r resendDelay interval t s (mid ++ y :: post) → SentBefore t s → zeroTime + resendDelay < t →
    (∃ a, s.active.lookup fp = some a ∧ a.Unresolved ∧ a.lastSentAt = sentAt) → t ≤ sentAt + resendDelay + interval →
    (∀ z ∈ trace (tick W r resendDelay interval) s (mid ++ [y]), UnresolvedAt z.1 fp) →
    (∀ z ∈ trace (tick W r resendDelay interval) s mid, included z.2.2 fp = none) →
    y.input.ts ≤ sentAt + resendDelay + interval
  | [], t, s, hrun, _, _, _, hle, _, _ => hrun.ticks.1.trans_le hle
  | x :: mid, t, s, hrun, hsent, hpos, ⟨a, ha, hun, hat⟩, hle, hunres, hnot => by
    obtain ⟨⟨hts, hticks⟩, hsends⟩ := hrun
    rw [cons_append, trace_cons, forall_mem_cons] at hsends hunres
    rw [trace_cons, forall_mem_cons] at hnot
    subst hts
    have hafter : UnresolvedAt (tick W r resendDelay interval s x).1 fp := by
      cases mid with
      | nil => exact hunres.2 _ mem_cons_self
      | cons z mid => exact hunres.2 _ mem_cons_self
    obtain ⟨b, hb, hunb, hsame, hrecent⟩ := kept_of_not_included hsent.standing hsends.1 ha hun hafter hnot.1
    refine ts_le_of_not_included sentAt hi ⟨hticks, hsends.2⟩ (sentBefore_tick hsent hsends.1 hpos hi) (by omega)
      ⟨b, hb, hunb, hsame.trans hat⟩ ?_ hunres.2 hnot.2
    rw [hat] at hrecent
    omega

theorem lt_validFor (hd : 0 < resendDelay) (hi : 0 < interval) (hmax : 4 * max resendDelay interval < 2 ^ 63) :
    resendDelay + interval < validFor resendDelay interval := by
  have heq : validFor resendDelay interval = 4 * max resendDelay interval := by
    unfold validFor
    rw [show (if resendDelay < interval then interval else resendDelay) = max resendDelay interval by
      split_ifs <;> omega]
    exact Int.bmod_eq_of_le (by omega) (by omega)
  rw [heq]
  omega

end

theorem zeroTime_add_lt {t : Int} (hd : resendDelay < 2 ^ 63) (ht : -2 ^ 63 ≤ t) : zeroTime + resendDelay < t := by
  have hzero : zeroTime = -62135596800 * 1000000000 := by decide
  omega

/-- **Every alert is sent when it is raised and when it is resolved, and is sent again before what it was sent with
runs out**, with durations of which four times the longer fits 64 bits. -/
theorem alerts_delivered (hd : 0 < resendDelay) (hi : 0 < interval) (hmax : 4 * max resendDelay interval < 2 ^ 63)
    {t₀ : Int} (ht : -2 ^ 63 ≤ t₀) {s : RuleState V} (hs : SentBefore t₀ s) {xs : List (TickInput V)}
    (hrun : SendingRun W r resendDelay interval t₀ s xs) : Delivered W r resendDelay interval s xs := by
  have hpos := zeroTime_add_lt resendDelay (by omega) ht
  refine ⟨?_, ?_, ?_⟩
  · intro x hx fp a ha hun hbefore
    obtain ⟨pre, post, rfl, hstate, hout⟩ := (mem_trace _ _ _ _).1 hx
    obtain ⟨t, hrest, hsent, hlate⟩ := hrun.suffix hi hs hpos
    rw [← hstate] at hrest hsent
    rw [hout]
    refine raised_included hsent.standing (hrest.sends _ mem_cons_self) ?_ ha hun hbefore
    rw [hrest.ticks.1]
    exact hlate
  · intro x hx fp hbefore hafter
    obtain ⟨pre, post, rfl, hstate, hout⟩ := (mem_trace _ _ _ _).1 hx
    obtain ⟨t, hrest, hsent, -⟩ := hrun.suffix hi hs hpos
    rw [← hstate] at hrest hsent
    rw [hout]
    rw [← hrest.ticks.1] at hsent
    exact resolved_included hsent (hrest.sends _ mem_cons_self) hbefore hafter
  · intro pre x mid y post hxs fp a ha hunres hnot
    subst hxs
    obtain ⟨t, hrest, hsent, hlate⟩ := hrun.suffix hi hs hpos
    have hts : x.input.ts = t := hrest.ticks.1
    obtain ⟨hlookup, hsentAt, hvalid⟩ := lookup_of_included hsent.standing (hrest.sends _ mem_cons_self) ha
    have hnext : SendingRun W r resendDelay interval (x.input.ts + interval)
        (final (tick W r resendDelay interval) s (pre ++ [x])) (mid ++ y :: post) := by
      rw [final_append, hts]
      exact ⟨hrest.ticks.2, fun z hz => hrest.sends z (mem_cons_of_mem _ hz)⟩
    have hcarried : SentBefore (x.input.ts + interval) (final (tick W r resendDelay interval) s (pre ++ [x])) := by
      rw [final_append]
      rw [← hts] at hsent hlate
      exact sentBefore_tick hsent (hrest.sends _ mem_cons_self) hlate hi
    have hun : a.Unresolved := by
      have hfirst : UnresolvedAt (final (tick W r resendDelay interval) s (pre ++ [x])) fp := by
        cases mid with
        | nil => exact hunres _ mem_cons_self
        | cons z mid => exact hunres _ mem_cons_self
      obtain ⟨b, hb, hunb⟩ := hfirst
      rw [final_append] at hb
      obtain rfl := Option.some.inj (hlookup.symm.trans hb)
      exact hunb
    have hle := ts_le_of_not_included x.input.ts hi hnext hcarried (by omega)
      ⟨a, by rw [final_append]; exact hlookup, hun, hsentAt⟩ (by omega) hunres hnot
    have hlt := lt_validFor hd hi hmax
    omega

def tickAt (minutes v : Int) : TickInput Int :=
  { shouldSkip := false, input := evalAt minutes [("pod", "a")] v, org := some "org" }

def recoveringRun : List (TickInput Int) := [tickAt 0 10, tickAt 1 3, tickAt 2 3, tickAt 3 10]

theorem recoveringRun_sends :
    SendingRun plainWorld (cpuRule .threshold) Calendar.minute Calendar.minute 0 (RuleState.init Int) recoveringRun :=
  ⟨⟨by decide, by decide, by decide, by decide, trivial⟩, by decide +kernel⟩

/-- The alert is raised by the first tick, and sent again by the third. -/
theorem recoveringRun_delivered :
    (included (tick plainWorld (cpuRule .threshold) Calendar.minute Calendar.minute (RuleState.init Int) (tickAt 0 10)).2
      (podFingerprint .threshold [("pod", "a")])).map Alert.validUntil = some (4 * Calendar.minute) ∧
    Delivered plainWorld (cpuRule .threshold) Calendar.minute Calendar.minute (RuleState.init Int) recoveringRun :=
  ⟨by decide +kernel, alerts_delivered plainWorld (cpuRule .threshold) Calendar.minute Calendar.minute (by decide)
    (by decide) (by decide) (by decide) (sentBefore_init 0) recoveringRun_sends⟩

def FiringIncluded (s : RuleState V) (xs : List (TickInput V)) : Prop :=
  ∀ x ∈ trace (tick W r resendDelay interval) s xs, ∀ fp a,
    (tick W r resendDelay interval x.1 x.2.1).1.active.lookup fp = some a → a.state = .firing →
    (∀ b, x.1.active.lookup fp = some b → b.state ≠ .firing) → (included x.2.2 fp).isSome

/-- An alert that recovers and then fires again is not sent for it: the third tick sent it a resend delay before. -/
theorem fired_again_not_sent :
    SendingRun plainWorld (cpuRule .threshold) Calendar.minute Calendar.minute 0 (RuleState.init Int) recoveringRun ∧
    ¬ FiringIncluded plainWorld (cpuRule .threshold) Calendar.minute Calendar.minute (RuleState.init Int)
      recoveringRun := by
  refine ⟨recoveringRun_sends, fun h => ?_⟩
  have hbefore : ((final (tick plainWorld (cpuRule .threshold) Calendar.minute Calendar.minute) (RuleState.init Int)
      (recoveringRun.take 3)).active.lookup (podFingerprint .threshold [("pod", "a")])).map Alert.state =
        some .recovering := by decide +kernel
  have hafter : ((tick plainWorld (cpuRule .threshold) Calendar.minute Calendar.minute
      (final (tick plainWorld (cpuRule .threshold) Calendar.minute Calendar.minute) (RuleState.init Int)
        (recoveringRun.take 3)) (tickAt 3 10)).1.active.lookup (podFingerprint .threshold [("pod", "a")])).map Alert.state =
          some .firing := by decide +kernel
  have hnot : included (tick plainWorld (cpuRule .threshold) Calendar.minute Calendar.minute
      (final (tick plainWorld (cpuRule .threshold) Calendar.minute Calendar.minute) (RuleState.init Int)
        (recoveringRun.take 3)) (tickAt 3 10)).2 (podFingerprint .threshold [("pod", "a")]) = none := by decide +kernel
  generalize hs : final (tick plainWorld (cpuRule .threshold) Calendar.minute Calendar.minute) (RuleState.init Int)
    (recoveringRun.take 3) = s at hbefore hafter hnot
  obtain ⟨a, ha, hfiring⟩ := map_eq_some_iff.1 hafter
  have hx : (s, tickAt 3 10, (tick plainWorld (cpuRule .threshold) Calendar.minute Calendar.minute s (tickAt 3 10)).2) ∈
      trace (tick plainWorld (cpuRule .threshold) Calendar.minute Calendar.minute) (RuleState.init Int) recoveringRun :=
    (mem_trace _ _ _ _).2 ⟨recoveringRun.take 3, [], rfl, hs.symm, rfl⟩
  have hsent := h _ hx _ a ha hfiring (fun b hb hstate => by
    rw [hb, map_some, hstate] at hbefore
    exact absurd (Option.some.inj hbefore) (by decide))
  rw [hnot] at hsent
  cases hsent

end Rules
end DsApm
