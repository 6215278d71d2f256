import DsApm.Lib.StepRun
import DsApm.Querier.BucketCache
/-!
# Execute — `executeWithCache`

One fingerprint: the queries that share it differ in their window only, and share the step and the time shift.  The
window is the one `Window()` gives, which for a builder query is already shifted.  The telemetry store is a function of
the time and the window, and what the JSON of a number decodes to is a function of the number; an action of a run is one call, with its window, its clock reading and which of its cache and
store calls fail, or the loss of the entry.
-/
namespace DsApm
namespace Querier

variable {V : Type}

/-- The query types `createRangedQuery` tells apart; a builder query with its request type and the seconds its
`timeShift` function asks for. -/
inductive QueryKind where
  | promql | chSQL | traceOperator | unsupported
  | builder (kind : RequestType) (shiftBy : Int)
  deriving DecidableEq, Repr

def adjustTimeRangeForShift (kind : RequestType) (shiftBy : Int) (tr : TimeRange) : TimeRange :=
  if kind ≠ .timeSeries ∧ kind ≠ .scalar then tr
  else if shiftBy = 0 then tr
  else
    let shiftMS := shiftBy * 1000
    ⟨(((tr.from_ : Int) - shiftMS) % 2 ^ 64).toNat, (((tr.to_ : Int) - shiftMS) % 2 ^ 64).toNat⟩

def createRangedQuery (k : QueryKind) (tr : TimeRange) : Option TimeRange :=
  match k with
  | .promql | .chSQL | .traceOperator => some tr
  | .builder kind shiftBy => some (adjustTimeRangeForShift kind shiftBy tr)
  | .unsupported => none

/-- The query is evaluated at another time than it is asked for. -/
def QueryKind.shifted : QueryKind → Bool
  | .builder kind shiftBy => (decide (kind = .timeSeries) || decide (kind = .scalar)) && decide (shiftBy ≠ 0)
  | _ => false

theorem createRangedQuery_of_unshifted {k : QueryKind} (h : k.shifted = false) (tr : TimeRange) :
    createRangedQuery k tr = some tr ∨ createRangedQuery k tr = none := by
  cases k with
  | promql | chSQL | traceOperator => exact .inl rfl
  | unsupported => exact .inr rfl
  | builder kind shiftBy =>
    refine .inl ?_
    simp only [QueryKind.shifted, Bool.and_eq_false_iff, Bool.or_eq_false_iff, decide_eq_false_iff_not, not_not] at h
    simp only [createRangedQuery, adjustTimeRangeForShift]
    rcases h with h | h
    · rw [if_pos h]
    · rw [if_pos h, ite_self]

structure Setup (V : Type) where
  fluxInterval : Nat
  stepMs : Nat
  kind : QueryKind
  -- the query's `Execute` at a time, for a window
  execute : Nat → TimeRange → Result V
  -- the number read back from the JSON of a stored one
  reads : V → Option V

structure Call where
  window : TimeRange
  now : Nat
  getFails : Bool := false
  rangeFails : TimeRange → Bool := fun _ => false
  fullFails : Bool := false
  putGetFails : Bool := false
  setFails : Bool := false

def Call.seen (c : Call) (entry : Option (CachedData V)) : Option (CachedData V) := if c.getFails then none else entry

def store (S : Setup V) (c : Call) (entry : Option (CachedData V)) (r : Result V) : Option (CachedData V) :=
  match put S.fluxInterval c.now ((if c.putGetFails then none else entry).getD {}) c.window S.stepMs r with
  | none => entry
  | some data => if c.setFails then entry else some data

def executeFull (S : Setup V) (c : Call) (entry : Option (CachedData V)) : Option (CachedData V) × Option (Result V) :=
  if c.fullFails then (entry, none)
  else (store S c entry (S.execute c.now c.window), some (S.execute c.now c.window))

def executeRanges (S : Setup V) (c : Call) (missing : List TimeRange) : Option (List (Result V)) :=
  missing.mapM (fun tr => (createRangedQuery S.kind tr).bind (fun w =>
    if c.rangeFails tr then none else some (S.execute c.now w)))

/-- `executeWithCache`: the entry after the call and its result; nothing for an error, and for the nil result whose
statistics the code adds to. -/
def executeWithCache (S : Setup V) (c : Call) (entry : Option (CachedData V)) :
    Option (CachedData V) × Option (Result V) :=
  let (cached, missing) := getMissRanges S.reads S.fluxInterval c.now (c.seen entry) c.window S.stepMs
  if missing = [] ∧ cached.isSome then (entry, cached)
  else if cached.isNone ∧ missing = [c.window] then executeFull S c entry
  else match executeRanges S c missing with
    | none => executeFull S c entry
    | some fresh => match mergeResults cached fresh with
      | none => (entry, none)
      | some merged =>
        let merged := { merged with stats := fresh.foldl (fun t r => t.add r.stats) merged.stats }
        (store S c entry merged, some merged)

/-! ## Runs -/

structure CacheState (V : Type) where
  entry : Option (CachedData V) := none
  -- the last clock reading
  clock : Nat := 0

inductive Action where
  | call (c : Call)
  | evict

def step (S : Setup V) (st : CacheState V) : Action → CacheState V × Option (Result V)
  | .call c => ({ entry := (executeWithCache S c st.entry).1, clock := c.now }, (executeWithCache S c st.entry).2)
  | .evict => ({ st with entry := none }, none)

end Querier
end DsApm
