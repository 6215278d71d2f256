import DsApm.Alertmanager.Restart
/-!
# LostUpdates — concurrent changes of one configuration

Every call that changes a configuration reads it whole, changes its copy and writes the copy back in a later transaction.
The calls of an organisation run side by side: an action of the model is one access to the database by one of them.
Where each write still finds the configuration that its call had read, the configuration is that of the calls one after
another; a write that finds another one takes back what was written since.
-/
namespace DsApm
namespace Alertmanager

open StepRun GoMap List Option

inductive Edit where
  | createReceiver (r : Receiver)
  | updateReceiver (r : Receiver)
  | deleteReceiver (name : String)
  | addInhibitRules (rules : List InhibitRule)
  | deleteRuleIDInhibitor (ruleID : String)
  deriving DecidableEq

inductive RowWrite where
  | insert (ch : Channel)
  | set (id : String) (data : Receiver)
  | remove (id : String)
  | nothing
  deriving DecidableEq

inductive ConfigCall where
  | createChannel (id : String) (body : Receiver)
  | updateChannelByReceiverAndID (id : String) (body : Receiver)
  | deleteChannelByID (id : String)
  | createInhibitRules (rules : List InhibitRule)
  | deleteAllInhibitRulesByRuleId (ruleID : String)
  deriving DecidableEq

structure PendingWrite where
  edit : Edit
  read : Config
  modified : Config
  rows : RowWrite
  deriving DecidableEq

inductive Progress where
  | called (c : ConfigCall)
  | named (c : ConfigCall) (channel : Channel)
  | writing (w : PendingWrite)
  deriving DecidableEq

structure Serving where
  store : Store
  calls : GoMap Nat Progress

inductive Access where
  | call (i : Nat) (c : ConfigCall)
  /-- `GetChannelByID`, and `GetRoutePoliciesByChannel` with the channels that policies use. -/
  | readChannel (i : Nat) (used : List String)
  | readConfig (i : Nat) (fails : Bool)
  | write (i : Nat) (fails : Bool)

section
variable {H : Type} (U : Upstream H) (orgID : String)

def Edit.apply (e : Edit) (stored : Config) : Option Config :=
  (stored.mapReceivers U.newReceiver).bind (fun c =>
    match e with
    | .createReceiver r => c.createReceiver U r
    | .updateReceiver r => c.updateReceiver U r
    | .deleteReceiver name => c.deleteReceiver name
    | .addInhibitRules rules => some (c.addInhibitRules rules)
    | .deleteRuleIDInhibitor id => some (c.deleteRuleIDInhibitor id))

def RowWrite.apply (channels : List Channel) : RowWrite → Option (List Channel)
  | .insert ch => if channels.any (fun x => x.id == ch.id) then none else some (channels ++ [ch])
  | .set id data => some (channels.map (fun ch => if ch.id == id then { ch with data } else ch))
  | .remove id => some (channels.filter (fun ch => !(ch.orgID == orgID && ch.id == id)))
  | .nothing => some channels

/-- The channel that an update or a deletion is of, with the checks made on it. -/
def nameCall (st : Store) (used : List String) : ConfigCall → Option Progress
  | .updateChannelByReceiverAndID id body =>
    (U.newReceiver body).bind (fun r => (st.getChannelByID orgID id).bind (fun channel =>
      if newChannel U r && channel.name == r.name then some (.named (.updateChannelByReceiverAndID id body) channel)
      else none))
  | .deleteChannelByID id =>
    (st.getChannelByID orgID id).bind (fun channel =>
      if used.contains channel.name then none else some (.named (.deleteChannelByID id) channel))
  | _ => none

def intent : Progress → Option (Edit × RowWrite)
  | .called (.createChannel id body) =>
    (U.newReceiver body).bind (fun r => (U.resolve r).bind (fun data =>
      if newChannel U data then some (.createReceiver r, .insert { id, name := r.name, orgID, data }) else none))
  | .named (.updateChannelByReceiverAndID id body) _ =>
    (U.newReceiver body).map (fun r => (.updateReceiver r, .set id r))
  | .named (.deleteChannelByID id) channel => some (.deleteReceiver channel.name, .remove id)
  | .called (.createInhibitRules rules) => some (.addInhibitRules rules, .nothing)
  | .called (.deleteAllInhibitRulesByRuleId ruleID) => some (.deleteRuleIDInhibitor ruleID, .nothing)
  | _ => none

def prepareWrite (st : Store) (p : Progress) : Option PendingWrite :=
  (intent U orgID p).bind (fun ew => (st.configs.lookup orgID).bind (fun read =>
    (ew.1.apply U read).map (fun modified => { edit := ew.1, read, modified, rows := ew.2 })))

def readConfig (s : Serving) (i : Nat) (fails : Bool) (p : Progress) : Serving :=
  match (if fails then none else prepareWrite U orgID s.store p) with
  | some w => { s with calls := s.calls.insert i (.writing w) }
  | none => { s with calls := s.calls.erase i }

/-- A call whose next access fails is over; the others go on.  The output is the change a call made when it succeeds. -/
def serve (s : Serving) : Access → Serving × Option Edit
  | .call i c =>
    match s.calls.lookup i with
    | some _ => (s, none)
    | none => ({ s with calls := s.calls.insert i (.called c) }, none)
  | .readChannel i used =>
    match s.calls.lookup i with
    | some (.called c) =>
      match nameCall U orgID s.store used c with
      | some p => ({ s with calls := s.calls.insert i p }, none)
      | none => ({ s with calls := s.calls.erase i }, none)
    | _ => (s, none)
  | .readConfig i fails =>
    match s.calls.lookup i with
    | some (.writing _) => (s, none)
    | some p => (readConfig U orgID s i fails p, none)
    | none => (s, none)
  | .write i fails =>
    match s.calls.lookup i with
    | some (.writing w) =>
      match (if fails then none else w.rows.apply orgID s.store.channels) with
      | some channels => ({ store := { channels, configs := s.store.configs.insert orgID w.modified }
                            calls := s.calls.erase i }, some w.edit)
      | none => ({ s with calls := s.calls.erase i }, none)
    | _ => (s, none)

def written (s : Serving) (as : List Access) : List Edit := (trace (serve U orgID) s as).filterMap (fun x => x.2.2)

def Sequential (c₀ : Config) (order : List Edit) (c : Config) : Prop := order.foldlM (fun c e => e.apply U c) c₀ = some c

/-- In some order the changes, one after another, give the configuration; and it has every receiver that was created and
not deleted and every inhibit rule that was added and not deleted. -/
def NothingLost (c₀ : Config) (edits : List Edit) (c : Config) : Prop :=
  ∃ order : List Edit, order.Perm edits ∧ Sequential U c₀ order c ∧
    (∀ pre r post, order = pre ++ .createReceiver r :: post → .deleteReceiver r.name ∉ post →
      ∃ x ∈ c.receivers, x.name = r.name) ∧
    (∀ pre rules post, order = pre ++ .addInhibitRules rules :: post → ∀ rule ∈ rules,
      (∀ id, .deleteRuleIDInhibitor id ∈ post → rule.containsRuleID id = false) → rule ∈ c.inhibitRules)

def aboutToWrite (s : Serving) : Access → Option PendingWrite
  | .write i _ =>
    match s.calls.lookup i with
    | some (.writing w) => some w
    | _ => none
  | _ => none

def FindsItsRead (s : Serving) (a : Access) : Prop := ∀ w ∈ aboutToWrite s a, s.store.configs.lookup orgID = some w.read

instance (s : Serving) (a : Access) : Decidable (FindsItsRead orgID s a) :=
  inferInstanceAs (Decidable (∀ w ∈ aboutToWrite s a, _))

/-! ## One access -/

def Prepared (s : Serving) : Prop :=
  ∀ i w, s.calls.lookup i = some (.writing w) → w.edit.apply U w.read = some w.modified

variable {U orgID} in
theorem apply_of_prepareWrite {st : Store} {p : Progress} {w : PendingWrite} (h : prepareWrite U orgID st p = some w) :
    w.edit.apply U w.read = some w.modified := by
  obtain ⟨ew, -, h⟩ := bind_eq_some_iff.1 h
  obtain ⟨read, -, h⟩ := bind_eq_some_iff.1 h
  obtain ⟨modified, happly, rfl⟩ := map_eq_some_iff.1 h
  exact happly

theorem lookup_calls_insert {calls : GoMap Nat Progress} {i j : Nat} {p q : Progress}
    (h : (calls.insert i p).lookup j = some q) : (j = i ∧ q = p) ∨ calls.lookup j = some q := by
  by_cases hij : j = i
  · subst hij
    rw [AList.lookup_insert] at h
    exact .inl ⟨rfl, (Option.some.inj h).symm⟩
  · rw [AList.lookup_insert_ne hij] at h
    exact .inr h

theorem lookup_calls_erase {calls : GoMap Nat Progress} {i j : Nat} {q : Progress}
    (h : (calls.erase i).lookup j = some q) : calls.lookup j = some q := by
  by_cases hij : j = i
  · subst hij
    rw [AList.lookup_erase] at h
    cases h
  · rwa [AList.lookup_erase_ne hij] at h

theorem nameCall_ne_writing (st : Store) (used : List String) (c : ConfigCall) (w : PendingWrite) :
    nameCall U orgID st used c ≠ some (.writing w) := by
  intro h
  cases c with
  | updateChannelByReceiverAndID id body =>
    obtain ⟨r, -, h⟩ := bind_eq_some_iff.1 h
    obtain ⟨channel, -, h⟩ := bind_eq_some_iff.1 h
    split_ifs at h
    cases h
  | deleteChannelByID id =>
    obtain ⟨channel, -, h⟩ := bind_eq_some_iff.1 h
    split_ifs at h
    cases h
  | _ => cases h

theorem readConfig_cases (s : Serving) (i : Nat) (fails : Bool) (p : Progress) :
    (readConfig U orgID s i fails p).store = s.store ∧ ∀ j w,
      (readConfig U orgID s i fails p).calls.lookup j = some (.writing w) →
        s.calls.lookup j = some (.writing w) ∨ ∃ p, prepareWrite U orgID s.store p = some w := by
  unfold readConfig
  cases hw : (if fails then none else prepareWrite U orgID s.store p) with
  | none => exact ⟨rfl, fun j w h => .inl (lookup_calls_erase h)⟩
  | some w' =>
    refine ⟨rfl, fun j w h => ?_⟩
    rcases lookup_calls_insert h with ⟨-, hq⟩ | h
    · cases hq
      split_ifs at hw
      exact .inr ⟨p, hw⟩
    · exact .inl h

/-- **What an access does**: it writes a copy that a call holds, or leaves the store alone and lets at most one call
read. -/
theorem serve_cases (s : Serving) (a : Access) :
    (∃ i fails w channels, a = .write i fails ∧ s.calls.lookup i = some (.writing w) ∧
      serve U orgID s a = ({ store := { channels, configs := s.store.configs.insert orgID w.modified }
                             calls := s.calls.erase i }, some w.edit)) ∨
    ((serve U orgID s a).1.store = s.store ∧ (serve U orgID s a).2 = none ∧
      ∀ j w, (serve U orgID s a).1.calls.lookup j = some (.writing w) →
        s.calls.lookup j = some (.writing w) ∨ ∃ p, prepareWrite U orgID s.store p = some w) := by
  cases a with
  | call i c =>
    refine .inr ?_
    simp only [serve]
    cases s.calls.lookup i with
    | some p => exact ⟨rfl, rfl, fun j w h => .inl h⟩
    | none =>
      refine ⟨rfl, rfl, fun j w h => ?_⟩
      rcases lookup_calls_insert h with ⟨-, hq⟩ | h
      · cases hq
      · exact .inl h
  | readChannel i used =>
    refine .inr ?_
    simp only [serve]
    cases s.calls.lookup i with
    | none => exact ⟨rfl, rfl, fun j w h => .inl h⟩
    | some p =>
      cases p with
      | named c channel => exact ⟨rfl, rfl, fun j w h => .inl h⟩
      | writing w => exact ⟨rfl, rfl, fun j w h => .inl h⟩
      | called c =>
        simp only
        cases hn : nameCall U orgID s.store used c with
        | none => exact ⟨rfl, rfl, fun j w h => .inl (lookup_calls_erase h)⟩
        | some p =>
          refine ⟨rfl, rfl, fun j w h => ?_⟩
          rcases lookup_calls_insert h with ⟨-, hq⟩ | h
          · subst hq
            exact absurd hn (nameCall_ne_writing _ _ _ _ _ _)
          · exact .inl h
  | readConfig i fails =>
    refine .inr ?_
    simp only [serve]
    cases hp : s.calls.lookup i with
    | none => exact ⟨rfl, rfl, fun j w h => .inl h⟩
    | some p =>
      cases p with
      | writing w => exact ⟨rfl, rfl, fun j w h => .inl h⟩
      | called c =>
        obtain ⟨hstore, hcalls⟩ := readConfig_cases U orgID s i fails (.called c)
        exact ⟨hstore, rfl, hcalls⟩
      | named c channel =>
        obtain ⟨hstore, hcalls⟩ := readConfig_cases U orgID s i fails (.named c channel)
        exact ⟨hstore, rfl, hcalls⟩
  | write i fails =>
    simp only [serve]
    cases hp : s.calls.lookup i with
    | none => exact .inr ⟨rfl, rfl, fun j w h => .inl h⟩
    | some p =>
      cases p with
      | called c => exact .inr ⟨rfl, rfl, fun j w h => .inl h⟩
      | named c channel => exact .inr ⟨rfl, rfl, fun j w h => .inl h⟩
      | writing w =>
        simp only
        cases (if fails then none else w.rows.apply orgID s.store.channels) with
        | none => exact .inr ⟨rfl, rfl, fun j w h => .inl (lookup_calls_erase h)⟩
        | some channels => exact .inl ⟨i, fails, w, channels, rfl, hp, rfl⟩

variable {U orgID} {s : Serving}

theorem prepared_serve (h : Prepared U s) (a : Access) : Prepared U (serve U orgID s a).1 := by
  rcases serve_cases U orgID s a with ⟨i, fails, w, channels, -, -, hserve⟩ | ⟨-, -, hcalls⟩
  · rw [hserve]
    intro j w' hj
    exact h j w' (lookup_calls_erase hj)
  · intro j w' hj
    rcases hcalls j w' hj with hj | ⟨p, hp⟩
    · exact h j w' hj
    · exact apply_of_prepareWrite hp

theorem sequential_serve (h : Prepared U s) {a : Access} (hf : FindsItsRead orgID s a) {c₀ c : Config} {edits : List Edit}
    (hc : s.store.configs.lookup orgID = some c) (hseq : Sequential U c₀ edits c) :
    ∃ c', (serve U orgID s a).1.store.configs.lookup orgID = some c' ∧
      Sequential U c₀ (edits ++ ((serve U orgID s a).2).toList) c' := by
  rcases serve_cases U orgID s a with ⟨i, fails, w, channels, rfl, hw, hserve⟩ | ⟨hstore, hout, -⟩
  · rw [hserve]
    refine ⟨w.modified, AList.lookup_insert _, ?_⟩
    have hwrite : aboutToWrite s (.write i fails) = some w := by
      simp only [aboutToWrite, hw]
    have hread : c = w.read := Option.some.inj (hc.symm.trans (hf w hwrite))
    unfold Sequential at hseq ⊢
    rw [foldlM_append, hseq]
    simp [hread, h i w hw]
  · rw [hstore, hout]
    exact ⟨c, hc, by simpa using hseq⟩

/-! ## What the changes, one after another, leave -/

theorem names_of_map_eq {f : Receiver → Option Receiver} (hf : ∀ r r', f r = some r' → r'.name = r.name) :
    ∀ {l l' : List Receiver}, l.map f = l'.map some → l'.map Receiver.name = l.map Receiver.name
  | [], [], _ => rfl
  | [], _ :: _, h => by cases h
  | _ :: _, [], h => by cases h
  | r :: l, r' :: l', h => by
    rw [map_cons, map_cons, List.cons.injEq] at h
    rw [map_cons, map_cons, hf r r' h.1, names_of_map_eq hf h.2]

variable {c c' : Config}

theorem names_of_mapReceivers {f : Receiver → Option Receiver} (hf : ∀ r r', f r = some r' → r'.name = r.name)
    (h : c.mapReceivers f = some c') : c'.receivers.map Receiver.name = c.receivers.map Receiver.name :=
  names_of_map_eq hf (mapReceivers_eq_some.1 h).1

theorem names_replaceReceiver (r : Receiver) : ∀ l : List Receiver,
    (replaceReceiver r l).map Receiver.name = l.map Receiver.name
  | [] => rfl
  | x :: l => by
    rw [replaceReceiver]
    by_cases hx : (x.name == r.name) = true
    · rw [if_pos hx, map_cons, map_cons, beq_iff_eq.1 hx]
    · rw [if_neg hx, map_cons, map_cons, names_replaceReceiver r l]

theorem mem_names_apply (hU : U.Lawful) {e : Edit} (h : e.apply U c = some c') {name : String}
    (hname : (name ∈ c.receivers.map Receiver.name ∧ e ≠ .deleteReceiver name) ∨ ∃ r, e = .createReceiver r ∧ r.name = name) :
    name ∈ c'.receivers.map Receiver.name := by
  obtain ⟨c₁, hread, h⟩ := bind_eq_some_iff.1 h
  have hnames := names_of_mapReceivers hU.read_name hread
  rw [← hnames] at hname
  cases e with
  | createReceiver r =>
    simp only [Config.createReceiver] at h
    split_ifs at h
    rw [names_of_mapReceivers hU.resolve_name h, map_append, mem_append, map_singleton, mem_singleton]
    rcases hname with ⟨hin, -⟩ | ⟨r', heq, rfl⟩
    · exact .inl hin
    · cases heq
      exact .inr rfl
  | updateReceiver r =>
    rw [names_of_mapReceivers hU.resolve_name h, names_replaceReceiver]
    rcases hname with ⟨hin, -⟩ | ⟨r', heq, -⟩
    · exact hin
    · cases heq
  | deleteReceiver name' =>
    simp only [Config.deleteReceiver] at h
    split_ifs at h
    cases h
    rcases hname with ⟨hin, hne⟩ | ⟨r', heq, -⟩
    · obtain ⟨x, hx, rfl⟩ := List.mem_map.1 hin
      have hother : ¬ (x.name == name') = true := by
        intro heq
        rw [beq_iff_eq] at heq
        exact hne (by rw [heq])
      exact List.mem_map_of_mem ((mem_eraseP_of_neg (by simpa using hother)).2 hx)
    · cases heq
  | addInhibitRules rules =>
    cases h
    rcases hname with ⟨hin, -⟩ | ⟨r', heq, -⟩
    · exact hin
    · cases heq
  | deleteRuleIDInhibitor id =>
    cases h
    rcases hname with ⟨hin, -⟩ | ⟨r', heq, -⟩
    · exact hin
    · cases heq

theorem mem_inhibitRules_apply {e : Edit} (h : e.apply U c = some c') {rule : InhibitRule}
    (hrule : (rule ∈ c.inhibitRules ∧ ∀ id, e = .deleteRuleIDInhibitor id → rule.containsRuleID id = false) ∨
      ∃ rules, e = .addInhibitRules rules ∧ rule ∈ rules) : rule ∈ c'.inhibitRules := by
  obtain ⟨c₁, hread, h⟩ := bind_eq_some_iff.1 h
  obtain ⟨-, -, hinhibit⟩ := mapReceivers_eq_some.1 hread
  rw [← hinhibit] at hrule
  have hresolved : ∀ {d : Config}, d.mapReceivers U.resolve = some c' → c'.inhibitRules = d.inhibitRules :=
    fun hd => (mapReceivers_eq_some.1 hd).2.2
  cases e with
  | createReceiver r =>
    simp only [Config.createReceiver] at h
    split_ifs at h
    rw [hresolved h]
    rcases hrule with ⟨hin, -⟩ | ⟨rules, heq, -⟩
    · exact hin
    · cases heq
  | updateReceiver r =>
    rw [hresolved h]
    rcases hrule with ⟨hin, -⟩ | ⟨rules, heq, -⟩
    · exact hin
    · cases heq
  | deleteReceiver name =>
    simp only [Config.deleteReceiver] at h
    split_ifs at h
    cases h
    rcases hrule with ⟨hin, -⟩ | ⟨rules, heq, -⟩
    · exact hin
    · cases heq
  | addInhibitRules rules =>
    cases h
    rw [Config.addInhibitRules, mem_append]
    rcases hrule with ⟨hin, -⟩ | ⟨rules', heq, hin⟩
    · exact .inl hin
    · cases heq
      exact .inr hin
  | deleteRuleIDInhibitor id =>
    cases h
    rcases hrule with ⟨hin, hkept⟩ | ⟨rules, heq, -⟩
    · exact mem_filter.2 ⟨hin, by rw [hkept id rfl]; rfl⟩
    · cases heq

theorem sequential_keeps {P : Config → Prop} {e : Edit} {pre post : List Edit} {c₀ : Config}
    (hseq : Sequential U c₀ (pre ++ e :: post) c') (hnew : ∀ c d, e.apply U c = some d → P d)
    (hkept : ∀ e' ∈ post, ∀ c d, P c → e'.apply U c = some d → P d) : P c' := by
  have hlater : ∀ (post : List Edit), (∀ e' ∈ post, ∀ c d, P c → e'.apply U c = some d → P d) → ∀ c, P c →
      Sequential U c post c' → P c' := by
    intro post
    induction post with
    | nil =>
      intro _ c hP hs
      cases hs
      exact hP
    | cons e' post ih =>
      intro hk c hP hs
      unfold Sequential at hs
      rw [foldlM_cons] at hs
      obtain ⟨d, hd, hs⟩ := bind_eq_some_iff.1 hs
      exact ih (fun e'' he'' => hk e'' (mem_cons_of_mem _ he'')) d (hk e' mem_cons_self c d hP hd) hs
  unfold Sequential at hseq
  rw [foldlM_append] at hseq
  obtain ⟨c, -, hseq⟩ := bind_eq_some_iff.1 hseq
  rw [foldlM_cons] at hseq
  obtain ⟨d, hd, hseq⟩ := bind_eq_some_iff.1 hseq
  exact hlater post hkept d (hnew c d hd) hseq

theorem nothingLost_of_sequential (hU : U.Lawful) {c₀ : Config} {edits : List Edit} (h : Sequential U c₀ edits c) :
    NothingLost U c₀ edits c := by
  refine ⟨edits, List.Perm.refl _, h, ?_, ?_⟩
  · rintro pre r post rfl hnot
    have hname := sequential_keeps (P := fun d => r.name ∈ d.receivers.map Receiver.name) h
      (fun c d hd => mem_names_apply hU hd (.inr ⟨r, rfl, rfl⟩))
      (fun e' he' c d hP hd => mem_names_apply hU hd (.inl ⟨hP, fun heq => hnot (heq ▸ he')⟩))
    obtain ⟨x, hx, hxname⟩ := List.mem_map.1 hname
    exact ⟨x, hx, hxname⟩
  · rintro pre rules post rfl rule hrule hnot
    exact sequential_keeps (P := fun d => rule ∈ d.inhibitRules) h
      (fun c d hd => mem_inhibitRules_apply hd (.inr ⟨rules, rfl, hrule⟩))
      (fun e' he' c d hP hd => mem_inhibitRules_apply hd (.inl ⟨hP, fun id heq => hnot id (heq ▸ he')⟩))

end

/-! ## Whole runs -/

section
variable {H : Type} (U : Upstream H) (orgID : String)

/-- **Where every write finds the configuration that its call had read, no change is lost**, however the calls of an
organisation interleave. -/
theorem no_lost_update (hU : U.Lawful) {st : Store} {c₀ : Config} (hc : st.configs.lookup orgID = some c₀)
    (as : List Access)
    (hf : ∀ x ∈ trace (serve U orgID) { store := st, calls := ∅ } as, FindsItsRead orgID x.1 x.2.1) :
    ∃ c, (final (serve U orgID) { store := st, calls := ∅ } as).store.configs.lookup orgID = some c ∧
      NothingLost U c₀ (written U orgID { store := st, calls := ∅ } as) c := by
  have hinit : Prepared U { store := st, calls := ∅ } := by
    intro i w h
    cases h
  obtain ⟨-, c, hfinal, hseq⟩ := trace_inv (serve U orgID)
    (fun s l => Prepared U s ∧ ∃ c, s.store.configs.lookup orgID = some c ∧ Sequential U c₀ (l.filterMap (fun x => x.2.2)) c)
    (FindsItsRead orgID) (fun s l a hfa ⟨hp, c, hcs, hseq⟩ => by
      obtain ⟨c', hc', hseq'⟩ := sequential_serve hp hfa hcs hseq
      have hone : [(s, a, (serve U orgID s a).2)].filterMap (fun x => x.2.2) = ((serve U orgID s a).2).toList := by
        cases (serve U orgID s a).2 <;> rfl
      refine ⟨prepared_serve hp a, c', hc', ?_⟩
      rw [filterMap_append, hone]
      exact hseq') as _ [] hf ⟨hinit, c₀, hc, rfl⟩
  exact ⟨c, hfinal, nothingLost_of_sequential hU hseq⟩

end

/-! ## Two channels at once -/

def opsReceiver : Receiver := ⟨"ops", "webhook_configs"⟩
def devReceiver : Receiver := ⟨"dev", "webhook_configs"⟩

def emptyOrg : Serving := { store := { channels := [], configs := (∅ : GoMap String Config).insert "org" defaultConfig }, calls := ∅ }

def overlapping : List Access :=
  [.call 1 (.createChannel "c1" opsReceiver), .call 2 (.createChannel "c2" devReceiver), .readConfig 1 false,
    .readConfig 2 false, .write 1 false, .write 2 false]

def inTurn : List Access :=
  [.call 1 (.createChannel "c1" opsReceiver), .call 2 (.createChannel "c2" devReceiver), .readConfig 1 false,
    .write 1 false, .readConfig 2 false, .write 2 false]

/-- Both receivers are there, in turn. -/
theorem inTurn_keeps :
    (final (serve plainUpstream "org") emptyOrg inTurn).store.configs.lookup "org" =
      some { receivers := [defaultReceiver, opsReceiver, devReceiver], routes := [⟨"ops", ["-1"]⟩, ⟨"dev", ["-1"]⟩]
             inhibitRules := [] } ∧
    ∃ c, (final (serve plainUpstream "org") emptyOrg inTurn).store.configs.lookup "org" = some c ∧
      NothingLost plainUpstream defaultConfig (written plainUpstream "org" emptyOrg inTurn) c :=
  ⟨by decide, no_lost_update plainUpstream "org" lawful_plainUpstream (by decide) inTurn (by decide)⟩

/-- Both creations succeed, and the receiver of the first is gone. -/
theorem overlapping_loses :
    written plainUpstream "org" emptyOrg overlapping = [.createReceiver opsReceiver, .createReceiver devReceiver] ∧
    ∃ c, (final (serve plainUpstream "org") emptyOrg overlapping).store.configs.lookup "org" = some c ∧
      ¬ NothingLost plainUpstream defaultConfig (written plainUpstream "org" emptyOrg overlapping) c := by
  have hwritten : written plainUpstream "org" emptyOrg overlapping =
      [.createReceiver opsReceiver, .createReceiver devReceiver] := by decide
  have hfinal : ((final (serve plainUpstream "org") emptyOrg overlapping).store.configs.lookup "org").map
      (fun c => c.receivers.map Receiver.name) = some ["default-receiver", "dev"] := by decide
  obtain ⟨c, hc, hnames⟩ := map_eq_some_iff.1 hfinal
  refine ⟨hwritten, c, hc, ?_⟩
  rintro ⟨order, hperm, -, hreceivers, -⟩
  rw [hwritten] at hperm
  obtain ⟨pre, post, hsplit⟩ := append_of_mem (hperm.mem_iff.2 mem_cons_self)
  have hnot : Edit.deleteReceiver opsReceiver.name ∉ post := by
    intro hin
    have hmem : Edit.deleteReceiver opsReceiver.name ∈ order := by
      rw [hsplit]
      exact mem_append_right _ (mem_cons_of_mem _ hin)
    exact absurd (hperm.mem_iff.1 hmem) (by decide)
  obtain ⟨x, hx, hname⟩ := hreceivers pre opsReceiver post hsplit hnot
  have hin : opsReceiver.name ∈ c.receivers.map Receiver.name := hname ▸ List.mem_map_of_mem hx
  rw [hnames] at hin
  exact absurd hin (by decide)

end Alertmanager
end DsApm
