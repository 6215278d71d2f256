import DsApm.Alertmanager.Dispatcher
/-!
# Groups — what holds between any two steps of the dispatcher

The counter is the number of groups, every alert of a group has the group's labels by the configuration it was put there
with, and only what was resolved when a flush began is ever deleted (`dispatcher_sound`).  An alert without data has one
label more in its group than its configuration says, and a version of an alert that has the time of the one that is flushed
is taken for it.
-/
namespace DsApm
namespace Dispatch

open List Option

open GoStd (Time)
open StepRun (final trace)

section
variable {Route Fingerprint : Type} [DecidableEq Route] [DecidableEq Fingerprint] {O : Options Route Fingerprint}

/-! ## Reading and writing groups -/

def Held (d : Dispatcher Route Fingerprint) (route : Route) (fp k : Fingerprint) (a : Alert) : Prop :=
  ∃ ag, d.group route fp = some ag ∧ ag.alerts.lookup k = some a

def Dispatcher.total (d : Dispatcher Route Fingerprint) : Nat :=
  ((GoMap.values d.aggrGroupsPerRoute).map fun groups => (GoMap.values groups).length).sum

theorem group_insert (m : GoMap Route (GoMap Fingerprint (AggrGroup Fingerprint))) (num num' : Int) (route : Route)
    (groups : GoMap Fingerprint (AggrGroup Fingerprint)) (r : Route) (f : Fingerprint) :
    Dispatcher.group ⟨m.insert route groups, num⟩ r f =
      if r = route then groups.lookup f else Dispatcher.group ⟨m, num'⟩ r f := by
  unfold Dispatcher.group
  split_ifs with h
  · rw [h, AList.lookup_insert]
    rfl
  · rw [AList.lookup_insert_ne h]

theorem length_values_insert (m : GoMap Fingerprint (AggrGroup Fingerprint)) (k : Fingerprint) (ag : AggrGroup Fingerprint) :
    (GoMap.values (m.insert k ag)).length = (GoMap.values m).length + if (m.lookup k).isSome then 0 else 1 := by
  have hone : ∀ l : List (AggrGroup Fingerprint), (l.map fun _ => 1).sum = l.length := fun l => by simp
  have h := GoMap.sum_insert (fun _ => 1) m k ag
  rw [hone, hone] at h
  cases hl : m.lookup k with
  | none => rwa [hl, map_none, getD_none, Nat.add_zero] at h
  | some b =>
    rw [hl, map_some, getD_some] at h
    exact Nat.add_right_cancel h

theorem length_values_erase (m : GoMap Fingerprint (AggrGroup Fingerprint)) (k : Fingerprint) :
    (GoMap.values (m.erase k)).length + (if (m.lookup k).isSome then 1 else 0) = (GoMap.values m).length := by
  have hone : ∀ l : List (AggrGroup Fingerprint), (l.map fun _ => 1).sum = l.length := fun l => by simp
  have h := GoMap.sum_erase (fun _ => 1) m k
  rw [hone, hone] at h
  rw [← h]
  cases m.lookup k <;> rfl

omit [DecidableEq Fingerprint] in
theorem total_insert (m : GoMap Route (GoMap Fingerprint (AggrGroup Fingerprint))) (num num' : Int) (route : Route)
    (groups : GoMap Fingerprint (AggrGroup Fingerprint)) :
    Dispatcher.total ⟨m.insert route groups, num⟩ + (GoMap.values ((m.lookup route).getD ∅)).length =
      Dispatcher.total ⟨m, num'⟩ + (GoMap.values groups).length := by
  have h := GoMap.sum_insert (fun groups => (GoMap.values groups).length) m route groups
  unfold Dispatcher.total
  rw [← h]
  cases m.lookup route <;> rfl

/-! ## Steps of a group -/

theorem group_modify (d : Dispatcher Route Fingerprint) (route : Route) (fp : Fingerprint)
    (f : AggrGroup Fingerprint → AggrGroup Fingerprint) (r : Route) (k : Fingerprint) :
    (d.modify route fp f).group r k = if r = route ∧ k = fp then (d.group r k).map f else d.group r k := by
  have hnone : d.group route fp = none → d.group r k = if r = route ∧ k = fp then (d.group r k).map f else d.group r k := fun hg => by
    split_ifs with h
    · rw [h.1, h.2, hg]
      rfl
    · rfl
  unfold Dispatcher.modify
  cases hr : d.aggrGroupsPerRoute.lookup route with
  | none => exact hnone (by rw [Dispatcher.group, hr]; rfl)
  | some groups =>
    dsimp only
    cases hg : groups.lookup fp with
    | none => exact hnone (by rw [Dispatcher.group, hr]; exact hg)
    | some ag =>
      simp only
      rw [group_insert _ _ d.aggrGroupsNum]
      split_ifs with h h' h'
      · rw [h'.2, Dispatcher.group, h, hr, bind_some, hg, AList.lookup_insert]
        rfl
      · rw [AList.lookup_insert_ne fun heq => h' ⟨h, heq⟩, Dispatcher.group, h, hr]
        rfl
      · exact absurd h'.1 h
      · rfl

theorem total_modify (d : Dispatcher Route Fingerprint) (route : Route) (fp : Fingerprint)
    (f : AggrGroup Fingerprint → AggrGroup Fingerprint) :
    (d.modify route fp f).total = d.total ∧ (d.modify route fp f).aggrGroupsNum = d.aggrGroupsNum := by
  unfold Dispatcher.modify
  cases hr : d.aggrGroupsPerRoute.lookup route with
  | none => exact ⟨rfl, rfl⟩
  | some groups =>
    dsimp only
    cases hg : groups.lookup fp with
    | none => exact ⟨rfl, rfl⟩
    | some ag =>
      refine ⟨?_, rfl⟩
      have h := total_insert d.aggrGroupsPerRoute d.aggrGroupsNum d.aggrGroupsNum route (groups.insert fp (f ag))
      rw [hr, getD_some, length_values_insert, hg] at h
      exact Nat.add_right_cancel h

omit [DecidableEq Route] in
/-- What `DeleteIfNotModified` leaves was there, and what it deletes has the time of one that is given. -/
theorem lookup_deleteIfNotModified : ∀ (slice : List Alert) (m : GoMap Fingerprint Alert) (k : Fingerprint) (a : Alert),
    ((deleteIfNotModified O m slice).lookup k = some a → m.lookup k = some a) ∧
    (m.lookup k = some a → (deleteIfNotModified O m slice).lookup k = some a ∨
      ∃ r ∈ slice, O.fingerprint r.labels = k ∧ r.updatedAt = a.updatedAt)
  | [], _, _, _ => ⟨id, .inl⟩
  | r :: slice, m, k, a => by
    have ih := fun m => lookup_deleteIfNotModified slice m k a
    have hmore : ∀ {P : Alert → Prop}, (∃ r ∈ slice, P r) → ∃ r' ∈ r :: slice, P r' := fun ⟨r', hr', hP⟩ =>
      ⟨r', mem_cons_of_mem _ hr', hP⟩
    rw [deleteIfNotModified, foldl_cons]
    cases hl : m.lookup (O.fingerprint r.labels) with
    | none => exact ⟨(ih m).1, fun h => ((ih m).2 h).imp_right hmore⟩
    | some other =>
      by_cases ht : r.updatedAt = other.updatedAt
      · simp only [if_pos ht]
        by_cases hk : k = O.fingerprint r.labels
        · refine ⟨fun h => ?_, fun h => .inr ⟨r, mem_cons_self, hk.symm, ?_⟩⟩
          · have := (ih _).1 h
            rw [hk, AList.lookup_erase] at this
            cases this
          · rw [ht, Option.some.inj (hl.symm.trans (hk ▸ h))]
        · refine ⟨fun h => ?_, fun h => ((ih _).2 ?_).imp_right hmore⟩
          · have := (ih _).1 h
            rwa [AList.lookup_erase_ne hk] at this
          · rwa [AList.lookup_erase_ne hk]
      · simp only [if_neg ht]
        exact ⟨(ih m).1, fun h => ((ih m).2 h).imp_right hmore⟩

theorem flush_spec (ag : AggrGroup Fingerprint) (now : Time) :
    (ag.flush now).1.labels = ag.labels ∧ (ag.flush now).1.alerts = ag.alerts ∧
    ∀ now' rs, (ag.flush now).1.flushing = some (now', rs) → ag.flushing = some (now', rs) ∨
      ∀ r ∈ rs, (∃ k, ag.alerts.lookup k = some r) ∧ r.resolvedAt now' = true := by
  unfold AggrGroup.flush
  split_ifs
  · exact ⟨rfl, rfl, fun _ _ h => .inl h⟩
  · refine ⟨rfl, rfl, fun now' rs h => .inr fun r hr => ?_⟩
    cases h
    obtain ⟨hmem, hres⟩ := mem_filter.1 hr
    exact ⟨GoMap.mem_values.1 hmem, hres⟩

omit [DecidableEq Route] in
theorem flushed_spec (ag : AggrGroup Fingerprint) (ok : Bool) :
    (ag.flushed O ok).labels = ag.labels ∧ (ag.flushed O ok).flushing = none ∧
    ∀ k a, ((ag.flushed O ok).alerts.lookup k = some a → ag.alerts.lookup k = some a) ∧
      (ag.alerts.lookup k = some a → (ag.flushed O ok).alerts.lookup k = some a ∨
        ∃ now rs r, ag.flushing = some (now, rs) ∧ r ∈ rs ∧ O.fingerprint r.labels = k ∧ r.updatedAt = a.updatedAt) := by
  unfold AggrGroup.flushed
  cases hf : ag.flushing with
  | none => exact ⟨rfl, hf, fun k a => ⟨id, .inl⟩⟩
  | some fl =>
    obtain ⟨now, rs⟩ := fl
    refine ⟨rfl, rfl, fun k a => ?_⟩
    cases ok with
    | false => exact ⟨id, .inl⟩
    | true =>
      obtain ⟨hkeep, hdel⟩ := lookup_deleteIfNotModified (O := O) rs ag.alerts k a
      exact ⟨hkeep, fun h => (hdel h).imp_right fun ⟨r, hr, hk, ht⟩ => ⟨now, rs, r, rfl, hr, hk, ht⟩⟩

/-! ## Cleaning up -/

def Keyed (O : Options Route Fingerprint) (groups : GoMap Fingerprint (AggrGroup Fingerprint)) : Prop :=
  ∀ fp ag, groups.lookup fp = some ag → ag.fingerprint O = fp

omit [DecidableEq Route] in
theorem maintainGroups_from : ∀ (es : List (Sigma fun _ : Fingerprint => AggrGroup Fingerprint))
    (acc : GoMap Fingerprint (AggrGroup Fingerprint) × Int), es.NodupKeys → (∀ e ∈ es, acc.1.lookup e.1 = some e.2) →
      (∀ e ∈ es, e.2.fingerprint O = e.1) →
      let acc' := es.foldl (fun acc e => if e.2.empty then (acc.1.erase (e.2.fingerprint O), acc.2 - 1) else acc) acc
      acc'.2 - (GoMap.values acc'.1).length = acc.2 - (GoMap.values acc.1).length ∧
      ∀ fp, acc'.1.lookup fp = if ∃ e ∈ es, e.1 = fp ∧ e.2.empty = true then none else acc.1.lookup fp
  | [], acc, _, _, _ => ⟨rfl, fun fp => by simp⟩
  | e :: es, acc, hnd, hin, hkey => by
    have hnd' : e.1 ∉ es.keys ∧ es.NodupKeys := nodupKeys_cons.1 hnd
    have hne : ∀ e' ∈ es, e'.1 ≠ e.1 := fun e' he' heq => hnd'.1 (heq ▸ mem_keys_of_mem he')
    have hkey' := fun e' he' => hkey e' (mem_cons_of_mem _ he')
    have hiff : ∀ fp, (∃ e' ∈ e :: es, e'.1 = fp ∧ e'.2.empty = true) ↔
        (e.1 = fp ∧ e.2.empty = true) ∨ ∃ e' ∈ es, e'.1 = fp ∧ e'.2.empty = true := fun fp => exists_mem_cons_iff _ _ _
    rw [foldl_cons]
    by_cases hempty : e.2.empty = true
    · rw [if_pos hempty, hkey e mem_cons_self]
      obtain ⟨hnum, hlookup⟩ := maintainGroups_from es (acc.1.erase e.1, acc.2 - 1) hnd'.2
        (fun e' he' => (AList.lookup_erase_ne (hne e' he')).trans (hin e' (mem_cons_of_mem _ he'))) hkey'
      have hcount := length_values_erase acc.1 e.1
      rw [hin e mem_cons_self, isSome_some, if_pos rfl] at hcount
      refine ⟨hnum.trans (by dsimp only; omega), fun fp => (hlookup fp).trans ?_⟩
      simp only [hiff]
      by_cases hfp : e.1 = fp
      · subst hfp
        rw [AList.lookup_erase, ite_self, if_pos (.inl ⟨rfl, hempty⟩)]
      · simp only [hfp, false_and, false_or, AList.lookup_erase_ne (Ne.symm hfp)]
    · rw [if_neg hempty]
      obtain ⟨hnum, hlookup⟩ := maintainGroups_from es acc hnd'.2 (fun e' he' => hin e' (mem_cons_of_mem _ he')) hkey'
      refine ⟨hnum, fun fp => (hlookup fp).trans ?_⟩
      simp only [hiff, hempty, Bool.false_eq_true, and_false, false_or]

omit [DecidableEq Route] in
/-- **What is empty goes, and is counted down.** -/
theorem maintainGroups_spec {groups : GoMap Fingerprint (AggrGroup Fingerprint)} (hkey : Keyed O groups) (num : Int) :
    (maintainGroups O groups num).2 - (GoMap.values (maintainGroups O groups num).1).length = num - (GoMap.values groups).length ∧
    ∀ fp, (maintainGroups O groups num).1.lookup fp = (groups.lookup fp).filter fun ag => !ag.empty := by
  have hin : ∀ e ∈ groups.entries, groups.lookup e.1 = some e.2 := fun e he => AList.mem_lookup_iff.2 he
  obtain ⟨hnum, hlookup⟩ := maintainGroups_from (O := O) groups.entries (groups, num) groups.nodupKeys hin fun e he => hkey _ _ (hin e he)
  refine ⟨hnum, fun fp => (hlookup fp).trans ?_⟩
  cases hl : groups.lookup fp with
  | none => rw [filter_none, ite_self]
  | some ag =>
    rw [filter_some]
    have hiff : (∃ e ∈ groups.entries, e.1 = fp ∧ e.2.empty = true) ↔ ag.empty = true := by
      constructor
      · rintro ⟨e, he, rfl, hempty⟩
        rwa [Option.some.inj (hl.symm.trans (hin e he))]
      · exact fun hempty => ⟨⟨fp, ag⟩, AList.mem_lookup_iff.1 hl, rfl, hempty⟩
    simp only [hiff]
    cases ag.empty <;> rfl

theorem doMaintenance_from : ∀ (es : List (Sigma fun _ : Route => GoMap Fingerprint (AggrGroup Fingerprint))) (d : Dispatcher Route Fingerprint),
    es.NodupKeys → (∀ e ∈ es, d.aggrGroupsPerRoute.lookup e.1 = some e.2) → (∀ e ∈ es, Keyed O e.2) →
      let d' := es.foldl (fun d e => let (groups, num) := maintainGroups O e.2 d.aggrGroupsNum
        (⟨d.aggrGroupsPerRoute.insert e.1 groups, num⟩ : Dispatcher Route Fingerprint)) d
      d'.aggrGroupsNum - d'.total = d.aggrGroupsNum - d.total ∧
      ∀ route fp, d'.group route fp = if route ∈ es.keys then (d.group route fp).filter fun ag => !ag.empty else d.group route fp
  | [], d, _, _, _ => ⟨rfl, fun route fp => by simp⟩
  | e :: es, d, hnd, hin, hkey => by
    have hnd' : e.1 ∉ es.keys ∧ es.NodupKeys := nodupKeys_cons.1 hnd
    have hne : ∀ e' ∈ es, e'.1 ≠ e.1 := fun e' he' heq => hnd'.1 (heq ▸ mem_keys_of_mem he')
    have hhead := hin e mem_cons_self
    obtain ⟨hcount, hlookup⟩ := maintainGroups_spec (hkey e mem_cons_self) d.aggrGroupsNum
    rw [foldl_cons]
    obtain ⟨hnum, hgroup⟩ := doMaintenance_from es
      ⟨d.aggrGroupsPerRoute.insert e.1 (maintainGroups O e.2 d.aggrGroupsNum).1, (maintainGroups O e.2 d.aggrGroupsNum).2⟩ hnd'.2
      (fun e' he' => (AList.lookup_insert_ne (hne e' he')).trans (hin e' (mem_cons_of_mem _ he')))
      (fun e' he' => hkey e' (mem_cons_of_mem _ he'))
    refine ⟨hnum.trans ?_, fun route fp => (hgroup route fp).trans ?_⟩
    · have htotal := total_insert d.aggrGroupsPerRoute (maintainGroups O e.2 d.aggrGroupsNum).2 d.aggrGroupsNum e.1
        (maintainGroups O e.2 d.aggrGroupsNum).1
      rw [hhead, getD_some] at htotal
      have heta : Dispatcher.total ⟨d.aggrGroupsPerRoute, d.aggrGroupsNum⟩ = d.total := rfl
      dsimp only
      omega
    · rw [group_insert _ _ d.aggrGroupsNum, keys_cons]
      by_cases hr : route = e.1
      · subst hr
        rw [if_neg hnd'.1, if_pos rfl, if_pos mem_cons_self, hlookup, Dispatcher.group, hhead]
        rfl
      · simp only [mem_cons, hr, false_or, if_false]

/-- **Maintenance** takes the groups without alerts, and counts each. -/
theorem doMaintenance_spec {d : Dispatcher Route Fingerprint} (hkey : ∀ route fp ag, d.group route fp = some ag → ag.fingerprint O = fp) :
    (doMaintenance O d).aggrGroupsNum - (doMaintenance O d).total = d.aggrGroupsNum - d.total ∧
    ∀ route fp, (doMaintenance O d).group route fp = (d.group route fp).filter fun ag => !ag.empty := by
  have hin : ∀ e ∈ d.aggrGroupsPerRoute.entries, d.aggrGroupsPerRoute.lookup e.1 = some e.2 := fun e he => AList.mem_lookup_iff.2 he
  obtain ⟨hnum, hgroup⟩ := doMaintenance_from (O := O) d.aggrGroupsPerRoute.entries d d.aggrGroupsPerRoute.nodupKeys hin
    fun e he fp ag hag => hkey e.1 fp ag (by rw [Dispatcher.group, hin e he]; exact hag)
  refine ⟨hnum, fun route fp => (hgroup route fp).trans ?_⟩
  split_ifs with hmem
  · rfl
  · have hnone : d.group route fp = none := by
      rw [Dispatcher.group, AList.lookup_eq_none.2 fun hm => hmem (AList.mem_keys.1 hm)]
      rfl
    rw [hnone, filter_none]

/-! ## Putting an alert -/

/-- **What an alert changes**: nothing where there are too many groups, and else the group of its labels, which is made if it
is not there. -/
theorem processAlert_spec (d : Dispatcher Route Fingerprint) (config : NotificationConfig) (alert : Alert) (route : Route) :
    ((processAlert O d config alert route).aggrGroupsNum - (processAlert O d config alert route).total = d.aggrGroupsNum - d.total) ∧
    ∀ r f, (processAlert O d config alert route).group r f = d.group r f ∨
      r = route ∧ f = O.fingerprint (groupLabels alert config) ∧
      ∃ ag : AggrGroup Fingerprint, (processAlert O d config alert route).group r f = some (ag.insert O alert) ∧
        (d.group r f = some ag ∨ ag = newAggrGroup O (groupLabels alert config) route (renotifyInterval alert config)) := by
  have heta : Dispatcher.total ⟨d.aggrGroupsPerRoute, d.aggrGroupsNum⟩ = d.total := rfl
  -- the groups of the route, with one of them replaced
  have hset : ∀ (num : Int) (fp : Fingerprint) (ag : AggrGroup Fingerprint) (r : Route) (f : Fingerprint),
      Dispatcher.group ⟨d.aggrGroupsPerRoute.insert route (((d.aggrGroupsPerRoute.lookup route).getD ∅).insert fp ag), num⟩ r f =
        if r = route ∧ f = fp then some ag else d.group r f := fun num fp ag r f => by
    rw [group_insert _ _ d.aggrGroupsNum]
    split_ifs with h h' h'
    · rw [h'.2, AList.lookup_insert]
    · rw [AList.lookup_insert_ne fun heq => h' ⟨h, heq⟩, Dispatcher.group, h]
      cases d.aggrGroupsPerRoute.lookup route with
      | none => rw [getD_none, AList.lookup_empty]; rfl
      | some groups => rfl
    · exact absurd h'.1 h
    · rfl
  have hgroup : ∀ f, d.group route f = ((d.aggrGroupsPerRoute.lookup route).getD ∅).lookup f := fun f => by
    rw [Dispatcher.group]
    cases d.aggrGroupsPerRoute.lookup route with
    | none => rw [getD_none, AList.lookup_empty]; rfl
    | some groups => rfl
  unfold processAlert
  dsimp only
  cases hl : ((d.aggrGroupsPerRoute.lookup route).getD ∅).lookup (O.fingerprint (groupLabels alert config)) with
  | some ag =>
    refine ⟨?_, fun r f => ?_⟩
    · have htotal := total_insert d.aggrGroupsPerRoute d.aggrGroupsNum d.aggrGroupsNum route
        (((d.aggrGroupsPerRoute.lookup route).getD ∅).insert (O.fingerprint (groupLabels alert config)) (ag.insert O alert))
      rw [length_values_insert, hl, isSome_some, if_pos rfl] at htotal
      dsimp only
      omega
    · dsimp only
      rw [hset]
      split_ifs with h
      · exact .inr ⟨h.1, h.2, ag, rfl, .inl (by rw [h.1, h.2, hgroup]; exact hl)⟩
      · exact .inl rfl
  | none =>
    dsimp only
    split_ifs
    · refine ⟨?_, fun r f => .inl ?_⟩
      · have htotal := total_insert d.aggrGroupsPerRoute d.aggrGroupsNum d.aggrGroupsNum route ((d.aggrGroupsPerRoute.lookup route).getD ∅)
        dsimp only
        omega
      · rw [group_insert _ _ d.aggrGroupsNum]
        split_ifs with h
        · rw [h, hgroup]
        · rfl
    · refine ⟨?_, fun r f => ?_⟩
      · have htotal := total_insert d.aggrGroupsPerRoute (d.aggrGroupsNum + 1) d.aggrGroupsNum route
          (((d.aggrGroupsPerRoute.lookup route).getD ∅).insert (O.fingerprint (groupLabels alert config))
            ((newAggrGroup O (groupLabels alert config) route (renotifyInterval alert config)).insert O alert))
        rw [length_values_insert, hl, isSome_none, if_neg Bool.false_ne_true] at htotal
        dsimp only
        omega
      · rw [hset]
        split_ifs with h
        · exact .inr ⟨h.1, h.2, _, rfl, .inr rfl⟩
        · exact .inl rfl

/-! ## Runs -/

def after (O : Options Route Fingerprint) (getConfig : String → Option NotificationConfig) (as : List (Step Route Fingerprint)) :
    System Route Fingerprint := final (step O) (start getConfig) as

def PutWith (O : Options Route Fingerprint) (getConfig : String → Option NotificationConfig) (as : List (Step Route Fingerprint))
    (a : Alert) (route : Route) (config : NotificationConfig) : Prop :=
  ∃ pre post, as = pre ++ .processAlert a route :: post ∧
    (after O getConfig pre).getNotificationConfig (getRuleIDFromAlert a) = some config

variable {getConfig : String → Option NotificationConfig} {as : List (Step Route Fingerprint)} {route : Route}
  {config : NotificationConfig}

theorem PutWith.more {a : Alert} (h : PutWith O getConfig as a route config) (x : Step Route Fingerprint) :
    PutWith O getConfig (as ++ [x]) a route config := by
  obtain ⟨pre, post, rfl, hconfig⟩ := h
  exact ⟨pre, post ++ [x], by rw [List.append_assoc]; rfl, hconfig⟩

def Apart (O : Options Route Fingerprint) (getConfig : String → Option NotificationConfig) (as : List (Step Route Fingerprint)) : Prop :=
  ∀ a route config a' route' config', PutWith O getConfig as a route config → PutWith O getConfig as a' route' config' →
    O.fingerprint (groupLabels a config) = O.fingerprint (groupLabels a' config') → groupLabels a config = groupLabels a' config'

def Versions (O : Options Route Fingerprint) (as : List (Step Route Fingerprint)) : Prop :=
  ∀ a route a' route', Step.processAlert a route ∈ as → Step.processAlert a' route' ∈ as →
    O.fingerprint a.labels = O.fingerprint a'.labels → a.updatedAt = a'.updatedAt → a = a'

structure Between (O : Options Route Fingerprint) (getConfig : String → Option NotificationConfig) (s : System Route Fingerprint)
    (as : List (Step Route Fingerprint)) : Prop where
  counted : s.dispatcher.aggrGroupsNum = s.dispatcher.total
  keyed : ∀ route fp ag, s.dispatcher.group route fp = some ag → ag.fingerprint O = fp
  labelled : ∀ route fp ag, s.dispatcher.group route fp = some ag → ∃ a r config, PutWith O getConfig as a r config ∧ ag.labels = groupLabels a config
  alerts : ∀ route fp ag k a, s.dispatcher.group route fp = some ag → ag.alerts.lookup k = some a →
    O.fingerprint a.labels = k ∧ ∃ config, PutWith O getConfig as a route config ∧ ag.labels = groupLabels a config
  copies : ∀ route fp ag now rs, s.dispatcher.group route fp = some ag → ag.flushing = some (now, rs) →
    ∀ r ∈ rs, Step.processAlert r route ∈ as ∧ r.resolvedAt now = true

theorem PutWith.mem {a : Alert} (h : PutWith O getConfig as a route config) : Step.processAlert a route ∈ as := by
  obtain ⟨pre, post, rfl, -⟩ := h
  exact mem_append_right _ mem_cons_self

variable {s : System Route Fingerprint}

theorem Between.keep {s' : System Route Fingerprint}
    (h : Between O getConfig s as) (x : Step Route Fingerprint) (hnum : s'.dispatcher.aggrGroupsNum - s'.dispatcher.total =
      s.dispatcher.aggrGroupsNum - s.dispatcher.total)
    (hgroups : ∀ route fp ag', s'.dispatcher.group route fp = some ag' → ∃ ag, s.dispatcher.group route fp = some ag ∧
      ag'.labels = ag.labels ∧ (∀ k a, ag'.alerts.lookup k = some a → ag.alerts.lookup k = some a) ∧
      ∀ now rs, ag'.flushing = some (now, rs) → ag.flushing = some (now, rs) ∨
        ∀ r ∈ rs, (∃ k, ag.alerts.lookup k = some r) ∧ r.resolvedAt now = true) : Between O getConfig s' (as ++ [x]) := by
  refine ⟨?_, fun route fp ag' hag' => ?_, fun route fp ag' hag' => ?_, fun route fp ag' k a hag' ha => ?_, fun route fp ag' now rs hag' hf r hr => ?_⟩
  · have := h.counted
    omega
  all_goals obtain ⟨ag, hag, hlabels, halerts, hflush⟩ := hgroups route fp ag' hag'
  · rw [AggrGroup.fingerprint, hlabels]
    exact h.keyed route fp ag hag
  · obtain ⟨a, r, config, hput, heq⟩ := h.labelled route fp ag hag
    exact ⟨a, r, config, hput.more x, hlabels.trans heq⟩
  · obtain ⟨hk, config, hput, heq⟩ := h.alerts route fp ag k a hag (halerts k a ha)
    exact ⟨hk, config, hput.more x, hlabels.trans heq⟩
  · rcases hflush now rs hf with hold | hnew
    · obtain ⟨hmem, hres⟩ := h.copies route fp ag now rs hag hold r hr
      exact ⟨mem_append_left _ hmem, hres⟩
    · obtain ⟨⟨k, hk⟩, hres⟩ := hnew r hr
      obtain ⟨-, config, hput, -⟩ := h.alerts route fp ag k r hag hk
      exact ⟨mem_append_left _ hput.mem, hres⟩

theorem Between.processAlert
    (h : Between O getConfig s as) {alert : Alert} (hs : s = after O getConfig as)
    (hapart : Apart O getConfig (as ++ [.processAlert alert route]))
    (hconfig : s.getNotificationConfig (getRuleIDFromAlert alert) = some config) :
    Between O getConfig { s with dispatcher := processAlert O s.dispatcher config alert route } (as ++ [.processAlert alert route]) := by
  obtain ⟨hnum, hgroups⟩ := processAlert_spec (O := O) s.dispatcher config alert route
  have hput : PutWith O getConfig (as ++ [.processAlert alert route]) alert route config := ⟨as, [], rfl, hs ▸ hconfig⟩
  -- the group it is put into has its labels, and is as before or empty
  have hinto : ∀ {fp ag}, fp = O.fingerprint (groupLabels alert config) →
      (s.dispatcher.group route fp = some ag ∨ ag = newAggrGroup O (groupLabels alert config) route (renotifyInterval alert config)) →
      ag.labels = groupLabels alert config ∧ (∀ now rs, ag.flushing = some (now, rs) → s.dispatcher.group route fp = some ag) ∧
        ∀ k a, ag.alerts.lookup k = some a → s.dispatcher.group route fp = some ag := by
    rintro fp ag hfp (hag | rfl)
    · refine ⟨?_, fun _ _ _ => hag, fun _ _ _ => hag⟩
      obtain ⟨a, r, c, hput', heq⟩ := h.labelled route fp ag hag
      rw [heq]
      refine hapart a r c alert route config (hput'.more _) hput ?_
      rw [← heq, ← hfp]
      exact h.keyed route fp ag hag
    · refine ⟨rfl, fun _ _ hf => ?_, fun k a ha => ?_⟩
      · cases hf
      · have ha : (∅ : GoMap Fingerprint Alert).lookup k = some a := ha
        rw [AList.lookup_empty] at ha
        cases ha
  refine ⟨?_, fun r fp ag' hag' => ?_, fun r fp ag' hag' => ?_, fun r fp ag' k a hag' ha => ?_, fun r fp ag' now rs hag' hf b hb => ?_⟩
  · have := h.counted
    dsimp only
    omega
  all_goals
    rcases hgroups r fp with hold | ⟨rfl, hfp, ag, hnew, hag⟩
  · exact h.keyed r fp ag' (hold ▸ hag')
  · obtain rfl : ag.insert O alert = ag' := Option.some.inj (hnew.symm.trans hag')
    rw [hfp, AggrGroup.fingerprint, ← (hinto hfp hag).1]
    rfl
  · obtain ⟨a, r', c, hput', heq⟩ := h.labelled r fp ag' (hold ▸ hag')
    exact ⟨a, r', c, hput'.more _, heq⟩
  · obtain rfl : ag.insert O alert = ag' := Option.some.inj (hnew.symm.trans hag')
    exact ⟨alert, r, config, hput, (hinto hfp hag).1⟩
  · obtain ⟨hk, c, hput', heq⟩ := h.alerts r fp ag' k a (hold ▸ hag') ha
    exact ⟨hk, c, hput'.more _, heq⟩
  · obtain rfl : ag.insert O alert = ag' := Option.some.inj (hnew.symm.trans hag')
    obtain ⟨hlabels, -, hthere⟩ := hinto hfp hag
    by_cases hk : k = O.fingerprint alert.labels
    · obtain rfl : alert = a := by
        rw [hk] at ha
        exact Option.some.inj ((AList.lookup_insert _).symm.trans ha)
      exact ⟨hk.symm, config, hput, hlabels⟩
    · have ha : ag.alerts.lookup k = some a := (AList.lookup_insert_ne hk).symm.trans ha
      obtain ⟨hk', c, hput', heq⟩ := h.alerts r fp ag k a (hthere k a ha) ha
      exact ⟨hk', c, hput'.more _, heq⟩
  · obtain ⟨hmem, hres⟩ := h.copies r fp ag' now rs (hold ▸ hag') hf b hb
    exact ⟨mem_append_left _ hmem, hres⟩
  · obtain rfl : ag.insert O alert = ag' := Option.some.inj (hnew.symm.trans hag')
    obtain ⟨hmem, hres⟩ := h.copies r fp ag now rs ((hinto hfp hag).2.1 now rs hf) hf b hb
    exact ⟨mem_append_left _ hmem, hres⟩

theorem Between.modify
    (h : Between O getConfig s as) (x : Step Route Fingerprint) (route : Route) (fp : Fingerprint)
    (f : AggrGroup Fingerprint → AggrGroup Fingerprint) (hf : ∀ ag, (f ag).labels = ag.labels ∧
      (∀ k a, (f ag).alerts.lookup k = some a → ag.alerts.lookup k = some a) ∧
      ∀ now rs, (f ag).flushing = some (now, rs) → ag.flushing = some (now, rs) ∨
        ∀ r ∈ rs, (∃ k, ag.alerts.lookup k = some r) ∧ r.resolvedAt now = true) :
    Between O getConfig { s with dispatcher := s.dispatcher.modify route fp f } (as ++ [x]) := by
  obtain ⟨htotal, hnum⟩ := total_modify s.dispatcher route fp f
  refine h.keep x (by rw [htotal, hnum]) fun r k ag' hag' => ?_
  rw [group_modify] at hag'
  split_ifs at hag' with hrk
  · obtain ⟨ag, hag, rfl⟩ := map_eq_some_iff.1 hag'
    exact ⟨ag, hag, hf ag⟩
  · exact ⟨ag', hag', rfl, fun _ _ ha => ha, fun _ _ hfl => .inl hfl⟩

/-- **Every step keeps it.** -/
theorem between_step (as : List (Step Route Fingerprint)) (x : Step Route Fingerprint)
    (hapart : Apart O getConfig (as ++ [x])) (h : Between O getConfig (after O getConfig as) as) :
    Between O getConfig (step O (after O getConfig as) x).1 (as ++ [x]) := by
  have hsame : ∀ route fp ag', (after O getConfig as).dispatcher.group route fp = some ag' →
      ∃ ag, (after O getConfig as).dispatcher.group route fp = some ag ∧ ag'.labels = ag.labels ∧
        (∀ k a, ag'.alerts.lookup k = some a → ag.alerts.lookup k = some a) ∧
        ∀ now rs, ag'.flushing = some (now, rs) → ag.flushing = some (now, rs) ∨
          ∀ r ∈ rs, (∃ k, ag.alerts.lookup k = some r) ∧ r.resolvedAt now = true :=
    fun route fp ag' hag' => ⟨ag', hag', rfl, fun _ _ ha => ha, fun _ _ hf => .inl hf⟩
  cases x with
  | processAlert alert route =>
    dsimp only [step]
    cases hconfig : (after O getConfig as).getNotificationConfig (getRuleIDFromAlert alert) with
    | none => exact h.keep _ rfl hsame
    | some config => exact h.processAlert rfl hapart hconfig
  | flush route fp now =>
    refine h.modify _ route fp _ fun ag => ?_
    obtain ⟨hlabels, halerts, hcopies⟩ := flush_spec ag now
    exact ⟨hlabels, fun k a ha => halerts ▸ ha, hcopies⟩
  | flushed route fp ok =>
    refine h.modify _ route fp _ fun ag => ?_
    obtain ⟨hlabels, hnone, halerts⟩ := flushed_spec (O := O) ag ok
    exact ⟨hlabels, fun k a => (halerts k a).1, fun now rs hf => by rw [hnone] at hf; cases hf⟩
  | doMaintenance =>
    obtain ⟨hnum, hgroup⟩ := doMaintenance_spec h.keyed
    refine h.keep _ hnum fun route fp ag' hag' => ?_
    change (doMaintenance O (after O getConfig as).dispatcher).group route fp = some ag' at hag'
    rw [hgroup, filter_eq_some_iff] at hag'
    exact hsame route fp ag' hag'.1
  | configure getConfig' => exact h.keep _ rfl hsame

theorem between_run (h : Apart O getConfig as) :
    Between O getConfig (after O getConfig as) as := by
  refine StepRun.history_inv (step O) (Between O getConfig) (Apart O getConfig) (start getConfig) (fun as x hap => ?_) ?_ between_step as h
  · exact fun a r c a' r' c' hput hput' => hap a r c a' r' c' (hput.more x) (hput'.more x)
  · have hnone : ∀ route fp, (start getConfig : System Route Fingerprint).dispatcher.group route fp = none := fun route fp => by
      rw [Dispatcher.group, start, AList.lookup_empty]
      rfl
    have hgone : ∀ {route fp ag}, (start getConfig : System Route Fingerprint).dispatcher.group route fp = some ag → False := fun hag => by
      rw [hnone] at hag
      cases hag
    exact ⟨rfl, fun _ _ _ h => (hgone h).elim, fun _ _ _ h => (hgone h).elim, fun _ _ _ _ _ h => (hgone h).elim,
      fun _ _ _ _ _ h => (hgone h).elim⟩

/-! ## What holds of a run -/

def GroupedBy (config : NotificationConfig) (_ : Alert) (ln : String) : Prop := ln ∈ config.notificationGroup ∨ config.groupByAll = true

def GroupedByOrNoData (config : NotificationConfig) (a : Alert) (ln : String) : Prop :=
  GroupedBy config a ln ∨ (noDataAlert a = true ∧ ln = NoDataLabel)

def Grouped (grouping : NotificationConfig → Alert → String → Prop) (O : Options Route Fingerprint)
    (getConfig : String → Option NotificationConfig) (as : List (Step Route Fingerprint)) : Prop :=
  ∀ route fp ag k a, (after O getConfig as).dispatcher.group route fp = some ag → ag.alerts.lookup k = some a →
    ∃ config, PutWith O getConfig as a route config ∧
      ∀ ln, (grouping config a ln → ag.labels ln = a.labels ln) ∧ (¬grouping config a ln → ag.labels ln = none)

def Step.cleans : Step Route Fingerprint → Prop
  | .flush _ _ _ | .flushed _ _ _ | .doMaintenance => True
  | _ => False

/-- What a flush or maintenance takes out of a group was resolved when that group's flush began, and so it is ever after. -/
def ActiveStay (O : Options Route Fingerprint) (getConfig : String → Option NotificationConfig) (as : List (Step Route Fingerprint)) : Prop :=
  ∀ x : Step Route Fingerprint, x.cleans → ∀ route fp k a, Held (after O getConfig as).dispatcher route fp k a →
    ¬Held (after O getConfig (as ++ [x])).dispatcher route fp k a →
      ∃ ag now rs, (after O getConfig as).dispatcher.group route fp = some ag ∧ ag.flushing = some (now, rs) ∧
        ∀ t, now ≤ t → a.resolvedAt t = true

structure Sound (grouping : NotificationConfig → Alert → String → Prop) (O : Options Route Fingerprint)
    (getConfig : String → Option NotificationConfig) (as : List (Step Route Fingerprint)) : Prop where
  counted : (after O getConfig as).dispatcher.aggrGroupsNum = (after O getConfig as).dispatcher.total
  grouped : Grouped grouping O getConfig as
  active : ActiveStay O getConfig as

theorem resolvedAt_mono {a : Alert} {t t' : Time} (h : a.resolvedAt t = true) (hle : t ≤ t') : a.resolvedAt t' = true := by
  unfold Alert.resolvedAt at h ⊢
  cases he : a.endsAt with
  | none =>
    rw [he] at h
    cases h
  | some e =>
    simp only [he, Bool.not_eq_true', decide_eq_false_iff_not, Int.not_lt] at h ⊢
    exact Int.le_trans h hle

theorem groupLabels_spec (a : Alert) (config : NotificationConfig) (ln : String) :
    (GroupedByOrNoData config a ln → groupLabels a config ln = a.labels ln) ∧
    (¬GroupedByOrNoData config a ln → groupLabels a config ln = none) := by
  unfold groupLabels getGroupLabels GroupedByOrNoData GroupedBy
  by_cases hn : noDataAlert a = true
  · rw [if_pos hn]
    simp only [hn, true_and]
    by_cases hl : ln = NoDataLabel
    · simp [hl]
    · simp only [hl, or_false, if_false]
      exact ⟨fun h => if_pos h, fun h => if_neg h⟩
  · rw [if_neg hn]
    simp only [hn, Bool.false_eq_true, false_and, or_false]
    exact ⟨fun h => if_pos h, fun h => if_neg h⟩

/-- **A flush ends with what was resolved when it began deleted**, and nothing else goes. -/
theorem activeStay_of
    (h : Between O getConfig (after O getConfig as) as) (hver : Versions O as) : ActiveStay O getConfig as := by
  rintro x hx route fp k a ⟨ag, hag, ha⟩ hnot
  have hstep : after O getConfig (as ++ [x]) = (step O (after O getConfig as) x).1 := StepRun.final_append (step O) as [x] (start getConfig)
  rw [hstep] at hnot
  cases x with
  | processAlert => exact hx.elim
  | configure => exact hx.elim
  | flush r f now =>
    -- the copies take nothing
    refine absurd ?_ hnot
    change Held ((after O getConfig as).dispatcher.modify r f fun ag => (ag.flush now).1) route fp k a
    by_cases hrf : route = r ∧ fp = f
    · refine ⟨(ag.flush now).1, by rw [group_modify, if_pos hrf, hag]; rfl, ?_⟩
      rw [(flush_spec ag now).2.1]
      exact ha
    · exact ⟨ag, by rw [group_modify, if_neg hrf]; exact hag, ha⟩
  | doMaintenance =>
    -- a group with an alert is not empty
    refine absurd ⟨ag, ?_, ha⟩ hnot
    change (doMaintenance O (after O getConfig as).dispatcher).group route fp = some ag
    rw [(doMaintenance_spec h.keyed).2, hag, filter_some, if_pos]
    have hmem := AList.mem_lookup_iff.1 ha
    cases hentries : ag.alerts.entries with
    | nil =>
      rw [hentries] at hmem
      cases hmem
    | cons e es =>
      rw [AggrGroup.empty, hentries]
      rfl
  | flushed r f ok =>
    by_cases hrf : route = r ∧ fp = f
    · have hag' : ((after O getConfig as).dispatcher.modify r f fun ag => ag.flushed O ok).group route fp = some (ag.flushed O ok) := by
        rw [group_modify, if_pos hrf, hag]
        rfl
      obtain hstay | ⟨now, rs, b, hf, hb, hk, ht⟩ := ((flushed_spec (O := O) ag ok).2.2 k a).2 ha
      · exact absurd ⟨_, hag', hstay⟩ hnot
      · obtain ⟨hmem, hres⟩ := h.copies route fp ag now rs hag hf b hb
        obtain ⟨hka, config, hput, -⟩ := h.alerts route fp ag k a hag ha
        obtain rfl := hver b route a route hmem hput.mem (hk.trans hka.symm) ht
        exact ⟨ag, now, rs, hag, hf, fun t => resolvedAt_mono hres⟩
    · refine absurd ⟨ag, ?_, ha⟩ hnot
      change ((after O getConfig as).dispatcher.modify r f fun ag => ag.flushed O ok).group route fp = some ag
      rw [group_modify, if_neg hrf]
      exact hag

end

/-! ## Alerts of one rule -/

def byLabels : Options String (List (Option String)) where
  fingerprint := fun l => ["ruleId", "nodata", "pod"].map l
  repeatInterval := fun _ => 0
  maxNumberOfAggregationGroups := 0

def byRule (_ : String) : Option NotificationConfig := some ⟨["ruleId"], false, 0, 0⟩

def labelsOf (l : List (String × String)) : LabelSet := fun ln => List.lookup ln l

def firing : Alert := ⟨labelsOf [("ruleId", "1"), ("pod", "a")], 0, some 300, 7⟩

def silent : Alert := ⟨labelsOf [("ruleId", "1"), ("nodata", "true")], 0, some 300, 7⟩

theorem putWith_first {a b : Alert} {r r' : String} {config : NotificationConfig} {as : List (Step String (List (Option String)))}
    (hmem : Step.processAlert a r ∉ as) (h : PutWith byLabels byRule (.processAlert b r' :: as) a r config) : a = b ∧ config = ⟨["ruleId"], false, 0, 0⟩ := by
  obtain ⟨pre, post, heq, hconfig⟩ := h
  cases pre with
  | nil =>
    cases heq
    cases hconfig
    exact ⟨rfl, rfl⟩
  | cons x pre => exact absurd ((List.cons.inj heq).2 ▸ mem_append_right _ mem_cons_self) hmem

end Dispatch
end DsApm
