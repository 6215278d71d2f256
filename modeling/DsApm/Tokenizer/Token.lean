import DsApm.Lib.GoStd
import DsApm.Lib.StepRun
/-!
# Token — rotating a session's tokens

A token has a current pair and the one before.  Rotating checks the given pair against the one before first: that shall
give the token as it is for a while after the rotation, and the code has the while the other way round (`rotate_iff`).
-/
namespace DsApm
namespace Tokenizer

open GoStd (Time Duration)

structure Failure where
  type : String
  code : String
  message : String
  deriving DecidableEq, Repr

/-- `Token`; a time that is zero is none. -/
structure Token where
  id : String
  prevAccessToken : String
  accessToken : String
  prevRefreshToken : String
  refreshToken : String
  lastObservedAt : Option Time
  rotatedAt : Option Time
  createdAt : Time
  updatedAt : Time
  userID : String
  deriving DecidableEq

structure Config where
  rotationInterval : Duration
  rotationDuration : Duration
  idleDuration : Duration
  maxDuration : Duration

structure Readings where
  idle : Time
  max : Time
  rotated : Time
  updated : Time

def tokenExpired (message : String) : Failure := ⟨"unauthenticated", "token_expired", message⟩

def invalidPair : Failure := ⟨"unauthenticated", "unauthenticated", "invalid token pair"⟩

/-- `t.Before(now - d)` of a time that may be zero. -/
def longAgo (t : Option Time) (now : Time) (d : Duration) : Bool :=
  match t with
  | none => false
  | some t => decide (t < now - d)

def Token.isExpired (t : Token) (c : Config) (now : Readings) : Except Failure Unit :=
  if longAgo t.lastObservedAt now.idle c.idleDuration then .error (tokenExpired "token has not been used for too long")
  else if longAgo (some t.createdAt) now.max c.maxDuration then .error (tokenExpired "token was created a long time ago")
  else .ok ()

def Token.isRotationRequired (t : Token) (c : Config) (now : Time) : Except Failure Unit :=
  let failure : Failure := ⟨"unauthenticated", "token_rotation_required", "token needs to be rotated"⟩
  if longAgo t.rotatedAt now c.rotationInterval then .error failure
  else if t.rotatedAt.isNone && longAgo (some t.createdAt) now c.rotationInterval then .error failure
  else .ok ()

def Token.isValid (t : Token) (c : Config) (now : Readings) : Except Failure Unit :=
  match t.isExpired c now with
  | .error failure => .error failure
  | .ok _ => t.isRotationRequired c now.rotated

def Token.updateLastObservedAt (t : Token) (lastObservedAt now : Time) : Except Failure Token :=
  match t.lastObservedAt with
  | some old =>
    if lastObservedAt < old then .error ⟨"invalid_input", "token_older_last_observed_at", "last observed at is before the current last observed at"⟩
    else .ok { t with lastObservedAt := some lastObservedAt, updatedAt := now }
  | none => .ok { t with lastObservedAt := some lastObservedAt, updatedAt := now }

/-! ## Rotating -/

/-- A call of `Rotate`: the pair, the clock, and the tokens that are generated. -/
structure RotateCall where
  accessToken : String
  refreshToken : String
  now : Readings
  fresh : String × String

def Token.previous (t : Token) (r : RotateCall) : Bool := t.prevAccessToken == r.accessToken && t.prevRefreshToken == r.refreshToken

def Token.current (t : Token) (r : RotateCall) : Bool := t.accessToken == r.accessToken && t.refreshToken == r.refreshToken

def Token.renewed (t : Token) (r : RotateCall) : Token :=
  { t with
    prevAccessToken := t.accessToken, accessToken := r.fresh.1,
    prevRefreshToken := t.refreshToken, refreshToken := r.fresh.2,
    rotatedAt := some r.now.rotated, updatedAt := r.now.updated }

def Token.rotate (t : Token) (c : Config) (r : RotateCall) : Except Failure Token :=
  if t.previous r then
    if longAgo t.rotatedAt r.now.idle c.rotationDuration then .ok t
    else .error invalidPair
  else if !t.current r then .error invalidPair
  else match t.isExpired c r.now with
    | .error failure => .error failure
    | .ok _ => .ok (t.renewed r)

def rotateStep (c : Config) (t : Token) (r : RotateCall) : Token × Bool :=
  match t.rotate c r with
  | .ok t' => (t', true)
  | .error _ => (t, false)

/-! ## What is meant -/

def Token.inGrace (t : Token) (c : Config) (now : Time) : Bool :=
  match t.rotatedAt with
  | none => false
  | some at' => decide (now ≤ at' + c.rotationDuration)

def rotateSpec (c : Config) (t : Token) (r : RotateCall) : Token × Bool :=
  if t.previous r then (t, t.inGrace c r.now.idle)
  else if t.current r && (t.isExpired c r.now).isOk then (t.renewed r, true)
  else (t, false)

/-- A call does what it shall, where it succeeds, and changes nothing where it fails. -/
def SucceedsOnlyAs (c : Config) (t : Token) (r : RotateCall) : Prop :=
  if (rotateStep c t r).2 then rotateStep c t r = rotateSpec c t r else (rotateStep c t r).1 = t

theorem rotateStep_eq (c : Config) (t : Token) (r : RotateCall) :
    rotateStep c t r = if t.previous r then (t, longAgo t.rotatedAt r.now.idle c.rotationDuration) else rotateSpec c t r := by
  unfold rotateStep Token.rotate rotateSpec
  by_cases hp : t.previous r = true
  · simp only [if_pos hp]
    cases longAgo t.rotatedAt r.now.idle c.rotationDuration <;> rfl
  · simp only [if_neg hp]
    cases t.current r with
    | false => rfl
    | true => cases t.isExpired c r.now <;> rfl

theorem inGrace_eq (c : Config) (t : Token) (now : Time) :
    t.inGrace c now = (t.rotatedAt.isSome && !longAgo t.rotatedAt now c.rotationDuration) := by
  unfold Token.inGrace longAgo
  cases t.rotatedAt with
  | none => rfl
  | some at' =>
    rw [Option.isSome_some, Bool.true_and, ← decide_not]
    exact decide_eq_decide.2 (Int.sub_right_le_iff_le_add.symm.trans Int.not_lt.symm)

/-- **One call** is right if and only if it does not present the previous pair of a rotated token, and succeeds wrongly if and
only if it presents that after the duration. -/
theorem rotateStep_iff (c : Config) (t : Token) (r : RotateCall) :
    (rotateStep c t r = rotateSpec c t r ↔ ¬(t.previous r = true ∧ t.rotatedAt.isSome = true)) ∧
    (SucceedsOnlyAs c t r ↔ ¬(t.previous r = true ∧ longAgo t.rotatedAt r.now.idle c.rotationDuration = true)) := by
  unfold SucceedsOnlyAs
  rw [rotateStep_eq]
  by_cases hp : t.previous r = true
  · simp only [rotateSpec, inGrace_eq, hp, true_and]
    cases hr : t.rotatedAt with
    | none => simp [longAgo]
    | some at' => cases longAgo (some at') r.now.idle c.rotationDuration <;> simp
  · simp only [hp, Bool.false_eq_true, false_and, not_false_eq_true, iff_true]
    unfold rotateSpec
    rw [if_neg hp]
    split_ifs <;> simp_all

/-- **Token rotation**, over every sequence of calls. -/
theorem rotate_iff (c : Config) (t : Token) (calls : List RotateCall) :
    ((∀ x ∈ StepRun.trace (rotateStep c) t calls, rotateStep c x.1 x.2.1 = rotateSpec c x.1 x.2.1) ↔
      ∀ x ∈ StepRun.trace (rotateStep c) t calls, ¬(x.1.previous x.2.1 = true ∧ x.1.rotatedAt.isSome = true)) ∧
    ((∀ x ∈ StepRun.trace (rotateStep c) t calls, SucceedsOnlyAs c x.1 x.2.1) ↔
      ∀ x ∈ StepRun.trace (rotateStep c) t calls,
        ¬(x.1.previous x.2.1 = true ∧ longAgo x.1.rotatedAt x.2.1.now.idle c.rotationDuration = true)) :=
  ⟨forall_congr' fun x => imp_congr_right fun _ => (rotateStep_iff c x.1 x.2.1).1,
    forall_congr' fun x => imp_congr_right fun _ => (rotateStep_iff c x.1 x.2.1).2⟩

/-! ## A pair that is gone -/

def Token.Retired (t : Token) (r : RotateCall) : Prop := t.previous r = false ∧ t.current r = false

theorem Token.Retired.rotate {t : Token} {r call : RotateCall} (c : Config) (h : t.Retired r)
    (hfresh : call.fresh ≠ (r.accessToken, r.refreshToken)) : (rotateStep c t call).1.Retired r := by
  unfold rotateStep Token.rotate
  split_ifs
  · exact h
  · exact h
  · exact h
  · cases t.isExpired c call.now with
    | error _ => exact h
    | ok _ =>
      refine ⟨h.2, ?_⟩
      have hne : ¬(call.fresh.1 = r.accessToken ∧ call.fresh.2 = r.refreshToken) := fun he => hfresh (Prod.ext he.1 he.2)
      simpa [Token.renewed, Token.current] using hne

/-- **A pair that a token no longer has gets no token again**, as long as it is not generated anew. -/
theorem retired_pair_refused (c : Config) (r : RotateCall) (t : Token) (calls : List RotateCall) (h : t.Retired r)
    (hfresh : ∀ call ∈ calls, call.fresh ≠ (r.accessToken, r.refreshToken)) :
    ∀ x ∈ StepRun.trace (rotateStep c) t calls,
      x.2.1.accessToken = r.accessToken → x.2.1.refreshToken = r.refreshToken → x.2.2 = false := by
  induction calls generalizing t with
  | nil => exact List.forall_mem_nil _
  | cons call calls ih =>
    obtain ⟨hcall, hcalls⟩ := List.forall_mem_cons.1 hfresh
    rw [StepRun.trace_cons, List.forall_mem_cons]
    refine ⟨fun ha hr => ?_, ih _ (h.rotate c hcall) hcalls⟩
    have hgone : t.previous call = false ∧ t.current call = false := by
      unfold Token.previous Token.current
      rw [show call.accessToken = r.accessToken from ha, show call.refreshToken = r.refreshToken from hr]
      exact h
    rw [rotateStep, Token.rotate, hgone.1, hgone.2]
    rfl

def grace : Config := ⟨1800, 60, 600000, 2000000⟩

/-- A token rotated at 100: its previous pair does not give it at 110, and gives it at 500. -/
theorem rotated_after_grace :
    ¬(∀ x ∈ StepRun.trace (rotateStep grace) ⟨"1", "a", "b", "r", "s", none, some 100, 0, 100, "u"⟩
        [⟨"a", "r", ⟨110, 110, 110, 110⟩, ("c", "t")⟩], rotateStep grace x.1 x.2.1 = rotateSpec grace x.1 x.2.1) ∧
    ¬(∀ x ∈ StepRun.trace (rotateStep grace) ⟨"1", "a", "b", "r", "s", none, some 100, 0, 100, "u"⟩
        [⟨"a", "r", ⟨500, 500, 500, 500⟩, ("c", "t")⟩], SucceedsOnlyAs grace x.1 x.2.1) := by
  simp only [StepRun.trace_cons, StepRun.trace_nil, List.mem_singleton, forall_eq, SucceedsOnlyAs]
  decide

def rotatedTwice : Token := ⟨"1", "b", "c", "s", "u", none, some 200, 0, 200, "u"⟩

def late : RotateCall := ⟨"a", "r", ⟨220, 220, 220, 220⟩, ("d", "v")⟩

theorem late_refused : (rotateStep grace rotatedTwice late).2 = false :=
  retired_pair_refused grace late rotatedTwice [late] ⟨rfl, rfl⟩ (by decide) _ List.mem_cons_self rfl rfl

end Tokenizer
end DsApm
