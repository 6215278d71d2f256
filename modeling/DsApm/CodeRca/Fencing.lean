import DsApm.CodeRca.Transactions
/-!
# Fencing — what the lease token of a run guards

A worker keeps the token its claim drew.  It may stop for any time, have its lease reaped, and come back while another
worker holds the run.  `rowStep` says what one transaction can do to one run's row; every result here is an induction
over a run with it.

- A run is finalized at most once: that needs a running row and leaves a terminal one, and no transaction leaves a
  terminal row.
- Only the token of the run's last claim is accepted, and a caller with another one changes nothing at all.
- `attempts` counts the claims, and `Reap` requeues a run only below the limit.
-/
namespace DsApm
namespace CodeRca

open SqlTable SqlTable.Table StepRun GoStd

def claimToken (runID : String) : Out → Option String
  | .claimNext res => if res.claimed = true ∧ res.runID = runID then some res.leaseToken else none
  | _ => none

def tokens (runID : String) (tr : List (DB × Op × Out)) : List String := tr.filterMap (fun x => claimToken runID x.2.2)

def finalizes (runID : String) : Op → Out → Bool
  | .finalize p, .finalize ok => ok && decide (p.runID = runID)
  | _, _ => false

inductive RowStep (runID : String) : Op → Out → Option Run → Option Run → Prop
  | same (op : Op) (out : Out) (r : Option Run) (noClaim : claimToken runID out = none)
      (noFinal : finalizes runID op out = false) : RowStep runID op out r r
  | admitted (p : AdmitParams) (out : Out) (noClaim : claimToken runID out = none) :
      RowStep runID (.admitRun p runID) out none (some (p.newRun runID))
  | claimed (p : ClaimParams) (token : String) (r : Run) (hid : r.runID = runID) (hq : r.status = .queued) :
      RowStep runID (.claimNext p token) (.claimNext (claimOf token r)) (some r) (some (p.mark token r))
  | extended (token : String) (u : Time) (r : Run) (hs : r.status = .running) :
      RowStep runID (.heartbeat runID token u) (.heartbeat true) (some r) (some (extendLease u r))
  | finalized (p : FinalizeParams) (r : Run) (hid : p.runID = runID) (hs : r.status = .running) :
      RowStep runID (.finalize p) (.finalize true) (some r) (some (p.mark r))
  | reaped (p : ReapParams) (n : Nat) (r : Run) (hl : lapsed (unix p.now) r = true) :
      RowStep runID (.reap p) (.reap n) (some r) (some (p.mark r))

/-- **Every transaction does one of these to every run.** -/
theorem rowStep (db : DB) (op : Op) (runID : String) :
    RowStep runID op (step db op).2 (db.run.find? runID) ((step db op).1.run.find? runID) := by
  cases op with
  | admitRun p newID =>
    simp only [step]
    have h := admitRun_end db p newID
    rcases hend : admitRun db p newID with ⟨db', res⟩
    rw [hend] at h
    cases h with
    | rejected _ _ _ same => dsimp only; rw [same.run]; exact .same _ _ _ rfl rfl
    | rolledBack _ => exact .same _ _ _ rfl rfl
    | admitted _ ok =>
      dsimp only
      rw [find?_insert ok.run]
      by_cases hid : newID = runID
      · subst hid
        have hnone : db.run.find? newID = none := ((insert?_eq_some _ _ _).1 ok.run).1
        rw [if_pos (show (p.newRun newID).runID = newID from rfl), hnone]
        exact .admitted p _ rfl
      · rw [if_neg (show ¬ (p.newRun newID).runID = runID from hid)]
        exact .same _ _ _ rfl rfl
  | claimNext p token =>
    simp only [step]
    rcases claimNext_cases db p token with ⟨hres, hrun, -⟩ | ⟨r, hr, hq, -, hres, hrun, -⟩
    · rw [hres, hrun]
      exact .same _ _ _ (by simp [claimToken]) rfl
    · rw [hres, hrun, (replaced_pick db (p.mark token) (p.runID_mark token) hr hq).find runID]
      by_cases hid : runID = r.runID
      · subst hid
        rw [if_pos rfl, hr]
        exact .claimed p token r rfl hq
      · rw [if_neg hid]
        exact .same _ _ _ (by simp [claimToken, claimOf, Ne.symm hid]) rfl
  | heartbeat id token u =>
    simp only [step]
    rcases heartbeat_cases db id token u with ⟨-, he⟩ | ⟨⟨r, hr, hst, ht⟩, he⟩
    · rw [he]; exact .same _ _ _ rfl rfl
    · rw [he]
      dsimp only
      rw [(replaced_owned db id token _ (runID_extendLease u) hr hst ht).find runID]
      by_cases hid : runID = id
      · subst hid
        rw [if_pos rfl, hr]
        exact .extended token u r hst
      · rw [if_neg hid]
        exact .same _ _ _ rfl rfl
  | finalize p =>
    simp only [step]
    rcases finalize_cases db p with ⟨-, he⟩ | ⟨⟨r, hr, hst, ht⟩, he⟩
    · rw [he]; exact .same _ _ _ rfl rfl
    · rw [he]
      dsimp only
      rw [(replaced_owned db p.runID p.leaseToken _ p.runID_mark hr hst ht).find runID]
      by_cases hid : runID = p.runID
      · subst hid
        rw [if_pos rfl, hr]
        exact .finalized p r rfl hst
      · rw [if_neg hid]
        exact .same _ _ _ rfl (by simp [finalizes, Ne.symm hid])
  | reap p =>
    simp only [step, reap]
    rw [find?_update]
    cases hr : db.run.find? runID with
    | none => exact .same _ _ _ rfl rfl
    | some r =>
      rw [Option.map_some, setWhere]
      split
      · rename_i hl; exact .reaped p _ r hl
      · exact .same _ _ _ rfl rfl

/-! ## Finalized once -/

def Open (runID : String) (db : DB) : Prop := ∀ r, db.run.find? runID = some r → r.status.terminal = false

theorem finalizes_ends (runID : String) (db : DB) (op : Op) (h : finalizes runID op (step db op).2 = true) :
    Open runID db ∧ ¬ Open runID (step db op).1 := by
  have hrow := rowStep db op runID
  unfold Open
  generalize (step db op).2 = out at h hrow
  generalize db.run.find? runID = r? at hrow
  generalize (step db op).1.run.find? runID = r'? at hrow
  cases hrow with
  | same _ _ _ _ noFinal => rw [noFinal] at h; cases h
  | finalized p r _ hs =>
    refine ⟨fun q hq => ?_, fun hc => ?_⟩
    · cases hq; rw [hs]; rfl
    · have hopen : p.status.terminal = false := hc _ rfl
      rw [p.terminal] at hopen; cases hopen
  | admitted | claimed | extended | reaped => simp [finalizes] at h

theorem terminal_kept (runID : String) (db : DB) (op : Op) (h : ¬ Open runID db) : ¬ Open runID (step db op).1 := by
  unfold Open at h ⊢
  push Not at h ⊢
  obtain ⟨r, hr, ht⟩ := h
  have hrow := rowStep db op runID
  rw [hr] at hrow
  generalize (step db op).1.run.find? runID = r'? at hrow
  generalize (step db op).2 = out at hrow
  have hterm : r.status.terminal = true := by simpa using ht
  cases hrow with
  | same => exact ⟨r, rfl, ht⟩
  | claimed _ _ _ _ hq => rw [hq] at hterm; cases hterm
  | extended _ _ _ hs => rw [hs] at hterm; cases hterm
  | finalized _ _ _ hs => rw [hs] at hterm; cases hterm
  | reaped p _ _ hl =>
    simp only [lapsed, Bool.and_eq_true, decide_eq_true_eq] at hl
    rw [hl.1] at hterm; cases hterm

theorem finalized_once (ops : List Op) (db : DB) (runID : String) :
    (trace step db ops).countP (fun x => finalizes runID x.2.1 x.2.2) ≤ 1 :=
  (countP_trace_le_one step (fun _ => True) (Open runID) _ (fun _ _ h => h)
    (fun db op _ h => finalizes_ends runID db op h) (fun db op _ h => terminal_kept runID db op h) ops db trivial).1

/-! ## Tokens and attempts -/

structure Counted (r : Run) (claims : List String) : Prop where
  attempts : r.attempts = claims.length
  token : r.status = .running → claims.getLast? = some r.leaseToken

def RowCounted (claims : List String) : Option Run → Prop
  | none => claims = []
  | some r => Counted r claims

structure Limited (M : Int) (r : Run) : Prop where
  le : r.attempts ≤ M
  queued : r.status = .queued → r.attempts < M

theorem tokens_snoc (runID : String) (tr : List (DB × Op × Out)) (x : DB × Op × Out) :
    tokens runID (tr ++ [x]) = tokens runID tr ++ (claimToken runID x.2.2).toList := by
  unfold tokens
  rw [List.filterMap_append]
  cases h : claimToken runID x.2.2 <;> simp [h]

/-- **One transaction keeps the row's count.** -/
theorem rowCounted_rowStep {runID : String} {op : Op} {out : Out} {r? r'? : Option Run} {claims : List String}
    (hrow : RowStep runID op out r? r'?) (h : RowCounted claims r?) :
    RowCounted (claims ++ (claimToken runID out).toList) r'? := by
  cases hrow with
  | same _ _ _ noClaim => rw [noClaim]; simpa using h
  | admitted p _ noClaim =>
    have hnil : claims = [] := h
    rw [noClaim, hnil]
    exact ⟨rfl, fun hc => by cases hc⟩
  | claimed p token r hid hq =>
    have hc : Counted r claims := h
    have htok : claimToken runID (.claimNext (claimOf token r)) = some token := by simp [claimToken, claimOf, hid]
    rw [htok]
    refine ⟨?_, fun _ => by simp [ClaimParams.mark]⟩
    show r.attempts + 1 = _
    rw [hc.attempts]; simp
  | extended token u r hs =>
    have hc : Counted r claims := h
    refine ⟨by simpa [claimToken, extendLease] using hc.attempts, fun hs' => ?_⟩
    simpa [claimToken, extendLease] using hc.token hs'
  | finalized p r _ hs =>
    have hc : Counted r claims := h
    refine ⟨by simpa [claimToken, FinalizeParams.mark] using hc.attempts, fun hs' => ?_⟩
    have hterm := p.terminal
    rw [show p.status = .running from hs'] at hterm; cases hterm
  | reaped p n r hl =>
    have hc : Counted r claims := h
    refine ⟨by simpa [claimToken, ReapParams.mark] using hc.attempts, fun hs' => ?_⟩
    simp only [ReapParams.mark] at hs'
    split at hs' <;> cases hs'

/-- **In every run, every row counts the claims made of its run.** -/
theorem rowCounted_run (ops : List Op) (runID : String) :
    RowCounted (tokens runID (trace step DB.empty ops)) ((final step DB.empty ops).run.find? runID) := by
  have hinv := trace_inv step (fun db tr => RowCounted (tokens runID tr) (db.run.find? runID)) (fun _ _ => True)
    (fun db tr op _ h => by
      rw [tokens_snoc]
      exact rowCounted_rowStep (rowStep db op runID) h)
    ops DB.empty [] (fun _ _ => trivial) rfl
  rwa [List.nil_append] at hinv

/-- **One transaction keeps the row within the limit**, when a `Reap` uses that limit. -/
theorem limited_rowStep {M : Int} (hM : 1 ≤ M) {runID : String} {op : Op} {out : Out} {r? r'? : Option Run}
    (hreap : ∀ p, op = .reap p → p.maxAttempts = M) (hrow : RowStep runID op out r? r'?)
    (h : ∀ r ∈ r?, Limited M r) : ∀ r ∈ r'?, Limited M r := by
  cases hrow with
  | same => exact h
  | admitted p =>
    rintro r ⟨⟩
    exact ⟨show (0 : Int) ≤ M by omega, fun _ => show (0 : Int) < M by omega⟩
  | claimed p token r _ hq =>
    rintro r' ⟨⟩
    have hlt := (h r rfl).queued hq
    exact ⟨show r.attempts + 1 ≤ M by omega, fun hq' => (nomatch hq')⟩
  | extended token u r _ =>
    rintro r' ⟨⟩
    exact ⟨(h r rfl).le, (h r rfl).queued⟩
  | finalized p r _ _ =>
    rintro r' ⟨⟩
    refine ⟨(h r rfl).le, fun hq => ?_⟩
    have hterm := p.terminal
    rw [show p.status = .queued from hq] at hterm; cases hterm
  | reaped p n r _ =>
    rintro r' ⟨⟩
    have hmax := hreap p rfl
    refine ⟨(h r rfl).le, fun hq => ?_⟩
    simp only [ReapParams.mark] at hq ⊢
    split at hq
    · cases hq
    · omega

theorem limited_run {M : Int} (hM : 1 ≤ M) (ops : List Op) (hreap : ∀ p, .reap p ∈ ops → p.maxAttempts = M)
    (runID : String) : ∀ r ∈ (final step DB.empty ops).run.find? runID, Limited M r := by
  refine final_inv step (fun db => ∀ r ∈ db.run.find? runID, Limited M r)
    (fun _ op => ∀ p, op = .reap p → p.maxAttempts = M)
    (fun db op hg h => limited_rowStep hM hg (rowStep db op runID) h) ops DB.empty (fun x hx p hp => ?_)
    (fun _ hr => by cases hr)
  obtain ⟨pre, post, rfl, -, -⟩ := (mem_trace step ops DB.empty x).1 hx
  exact hreap p (by rw [← hp]; exact List.mem_append_right _ List.mem_cons_self)

/-- **Lease fencing.** Over every run of the store: a run is finalized at most once; a finalize that reports success
holds the lease, with the token of the run's last claim; a heartbeat or a finalize without the lease reports failure and
changes nothing; and when the reaps have a limit of `M` attempts, a run is claimed at most `M` times. -/
theorem lease_fenced (ops : List Op) :
    (∀ runID, (trace step DB.empty ops).countP (fun x => finalizes runID x.2.1 x.2.2) ≤ 1) ∧
    (∀ pre p post, ops = pre ++ .finalize p :: post →
      (step (final step DB.empty pre) (.finalize p)).2 = .finalize true →
        holds (final step DB.empty pre) p.runID p.leaseToken ∧
        (tokens p.runID (trace step DB.empty pre)).getLast? = some p.leaseToken) ∧
    (∀ pre p post, ops = pre ++ .finalize p :: post → ¬ holds (final step DB.empty pre) p.runID p.leaseToken →
      step (final step DB.empty pre) (.finalize p) = (final step DB.empty pre, .finalize false)) ∧
    (∀ pre runID token u post, ops = pre ++ .heartbeat runID token u :: post →
      ¬ holds (final step DB.empty pre) runID token →
      step (final step DB.empty pre) (.heartbeat runID token u) = (final step DB.empty pre, .heartbeat false)) ∧
    (∀ M : Int, 1 ≤ M → (∀ p, .reap p ∈ ops → p.maxAttempts = M) →
      ∀ runID, ((tokens runID (trace step DB.empty ops)).length : Int) ≤ M) := by
  refine ⟨finalized_once ops DB.empty, ?_, ?_, ?_, fun M hM hreap runID => ?_⟩
  · rintro pre p post rfl hok
    have hpre := rowCounted_run pre p.runID
    simp only [step] at hok
    rcases finalize_cases (final step DB.empty pre) p with ⟨-, he⟩ | ⟨hh, -⟩
    · rw [he] at hok; cases hok
    · refine ⟨hh, ?_⟩
      obtain ⟨r, hr, hs, ht⟩ := hh
      rw [hr] at hpre
      rw [← ht]
      exact hpre.token hs
  · rintro pre p post rfl hno
    rcases finalize_cases (final step DB.empty pre) p with ⟨-, he⟩ | ⟨hh, -⟩
    · simp only [step]; rw [he]
    · exact absurd hh hno
  · rintro pre runID token u post rfl hno
    rcases heartbeat_cases (final step DB.empty pre) runID token u with ⟨-, he⟩ | ⟨hh, -⟩
    · simp only [step]; rw [he]
    · exact absurd hh hno
  · have hcount := rowCounted_run ops runID
    have hlimit := limited_run hM ops hreap runID
    cases hr : (final step DB.empty ops).run.find? runID with
    | none =>
      rw [hr] at hcount
      rw [show tokens runID (trace step DB.empty ops) = [] from hcount, List.length_nil]
      omega
    | some r =>
      rw [hr] at hcount hlimit
      rw [← hcount.attempts]
      exact (hlimit r rfl).le

def staleWorker : List Op :=
  [.admitRun ⟨"o", "api", "k", 100 * second, 0, 5, 5⟩ "r",
   .claimNext ⟨"global", "w1", 101 * second, 10 * second, 1⟩ "t1",
   .reap ⟨"global", 120 * second, 2⟩,
   .claimNext ⟨"global", "w2", 121 * second, 10 * second, 1⟩ "t2",
   .finalize { scope := "global", runID := "r", leaseToken := "t1", status := .done, terminal := RunStatus.terminal_done, now := 122 * second },
   .finalize { scope := "global", runID := "r", leaseToken := "t2", status := .done, terminal := RunStatus.terminal_done, now := 123 * second }]

theorem staleWorker_fenced :
    tokens "r" (trace step DB.empty staleWorker) = ["t1", "t2"] ∧
    (trace step DB.empty staleWorker).countP (fun x => finalizes "r" x.2.1 x.2.2) = 1 ∧
    (∀ runID, ((tokens runID (trace step DB.empty staleWorker)).length : Int) ≤ 2) :=
  ⟨by decide, by decide, (lease_fenced staleWorker).2.2.2.2 2 (by decide) (by simp [staleWorker])⟩

end CodeRca
end DsApm
