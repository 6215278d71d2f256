import DsApm.Lib.Lists
import DsApm.Alertmanager.Config
import DsApm.Lib.GoMap
/-!
# Channels — notification channels and the receivers of a configuration

A channel is a row of its own table and a receiver, with a route, in the configuration of its organisation.  Both are
written in one transaction.  `Mirrors` says that they agree: the receivers of a configuration are the default one and what
the channels' texts read as, in some order.
-/
namespace DsApm
namespace Alertmanager

open List Option Bool

/-! ## Receivers of a configuration -/

def defaultReceiver : Receiver := ⟨"default-receiver", ""⟩

def defaultConfig : Config := { receivers := [defaultReceiver], routes := [], inhibitRules := [] }

/-- What is done to receivers and configurations by code that is not part of the program. -/
structure Upstream (H : Type) where
  /-- `NewReceiver`: the text of a receiver read with the defaults of its integrations. -/
  newReceiver : Receiver → Option Receiver
  /-- A receiver with the global settings filled in, as `UnmarshalYAML` of the configuration leaves it. -/
  resolve : Receiver → Option Receiver
  /-- The receiver has a notification configuration. -/
  hasType : Receiver → Bool
  hash : Config → H

/-- Defaults are filled in once: a receiver that has been read, or read and resolved, stays as it is. -/
structure Upstream.Lawful {H : Type} (U : Upstream H) : Prop where
  read_name : ∀ r r', U.newReceiver r = some r' → r'.name = r.name
  resolve_name : ∀ r r', U.resolve r = some r' → r'.name = r.name
  read_idem : ∀ r r', U.newReceiver r = some r' → U.newReceiver r' = some r'
  read_resolved : ∀ x r r', U.newReceiver x = some r → U.resolve r = some r' → U.newReceiver r' = some r'
  resolve_idem : ∀ x r r', U.newReceiver x = some r → U.resolve r = some r' → U.resolve r' = some r'
  read_default : U.newReceiver defaultReceiver = some defaultReceiver
  resolve_default : U.resolve defaultReceiver = some defaultReceiver

def Config.mapReceivers (f : Receiver → Option Receiver) (c : Config) : Option Config :=
  (c.receivers.mapM f).map (fun receivers => { c with receivers })

def replaceReceiver (r : Receiver) : List Receiver → List Receiver
  | [] => []
  | x :: xs => if x.name == r.name then r :: xs else x :: replaceReceiver r xs

section
variable {H : Type} (U : Upstream H)

def Config.createReceiver (c : Config) (r : Receiver) : Option Config :=
  if c.receivers.any (fun x => x.name == r.name) then none
  else ({ c with receivers := c.receivers ++ [r], routes := c.routes ++ [⟨r.name, ["-1"]⟩] } : Config).mapReceivers U.resolve

def Config.updateReceiver (c : Config) (r : Receiver) : Option Config :=
  ({ c with receivers := replaceReceiver r c.receivers } : Config).mapReceivers U.resolve

def Config.deleteReceiver (c : Config) (name : String) : Option Config :=
  if name = "" then none
  else some { c with
    routes := c.routes.eraseP (fun route => route.receiver == name)
    receivers := c.receivers.eraseP (fun r => r.name == name) }

/-- `configStore.Get`: the receivers are read anew. -/
def configStoreGet (configs : GoMap String Config) (orgID : String) : Option Config :=
  (configs.lookup orgID).bind (Config.mapReceivers U.newReceiver)

/-! ## Channel operations -/

structure Channel where
  id : String
  name : String
  orgID : String
  data : Receiver
  deriving DecidableEq, Repr

structure Store where
  channels : List Channel
  configs : GoMap String Config

def orgChannels (channels : List Channel) (orgID : String) : List Channel := channels.filter (fun ch => ch.orgID == orgID)

def Store.getChannelByID (st : Store) (orgID id : String) : Option Channel :=
  st.channels.find? (fun ch => ch.orgID == orgID && ch.id == id)

/-- The checks of `NewChannelFromReceiver`. -/
def newChannel (r : Receiver) : Bool := r.name != defaultReceiver.name && U.hasType r

/-- The channel's text is written after the receiver has been resolved as part of the configuration. -/
def createChannel (st : Store) (orgID id : String) (body : Receiver) (fails : Bool) : Option Store :=
  (U.newReceiver body).bind (fun r => (configStoreGet U st.configs orgID).bind (fun c =>
    (c.createReceiver U r).bind (fun c => (U.resolve r).bind (fun data =>
      if newChannel U data && !fails && !st.channels.any (fun ch => ch.id == id) then
        some { channels := st.channels ++ [{ id, name := r.name, orgID, data }], configs := st.configs.insert orgID c }
      else none))))

def updateChannelByReceiverAndID (st : Store) (orgID id : String) (body : Receiver) (fails : Bool) : Option Store :=
  (U.newReceiver body).bind (fun r => (st.getChannelByID orgID id).bind (fun channel =>
    if newChannel U r && channel.name == r.name then
      (configStoreGet U st.configs orgID).bind (fun c => (c.updateReceiver U r).bind (fun c =>
        if fails then none
        else some { channels := st.channels.map (fun ch => if ch.id == id then { ch with data := r } else ch)
                    configs := st.configs.insert orgID c }))
    else none))

/-- `used` are the channels that route policies of the organisation name. -/
def deleteChannelByID (st : Store) (orgID id : String) (used : List String) (fails : Bool) : Option Store :=
  (st.getChannelByID orgID id).bind (fun channel =>
    if used.contains channel.name then none
    else (configStoreGet U st.configs orgID).bind (fun c => (c.deleteReceiver channel.name).bind (fun c =>
      if fails then none
      else some { channels := st.channels.filter (fun ch => !(ch.orgID == orgID && ch.id == id))
                  configs := st.configs.insert orgID c })))

/-! ## Channels and receivers agree -/

def Channel.receiver (ch : Channel) : Option Receiver := (U.newReceiver ch.data).bind U.resolve

structure Config.Of (c : Config) (channels : List Channel) : Prop where
  receivers : (c.receivers.map some).Perm (some defaultReceiver :: channels.map (Channel.receiver U))
  routes : (c.routes.map Route.receiver).Perm (channels.map Channel.name)

structure Mirrors (st : Store) : Prop where
  ids : (st.channels.map Channel.id).Nodup
  names : ∀ orgID, ((orgChannels st.channels orgID).map Channel.name).Nodup
  named : ∀ ch ∈ st.channels, ch.name ≠ defaultReceiver.name ∧ ∃ r, ch.receiver U = some r ∧ r.name = ch.name
  home : ∀ ch ∈ st.channels, (st.configs.lookup ch.orgID).isSome = true
  configs : ∀ orgID c, st.configs.lookup orgID = some c → c.Of U (orgChannels st.channels orgID)

end

/-! ## Lists of receivers -/

theorem mapReceivers_eq_some {f : Receiver → Option Receiver} {c c' : Config} :
    c.mapReceivers f = some c' ↔
      c.receivers.map f = c'.receivers.map some ∧ c'.routes = c.routes ∧ c'.inhibitRules = c.inhibitRules := by
  unfold Config.mapReceivers
  rw [map_eq_some_iff]
  constructor
  · rintro ⟨receivers, hm, rfl⟩
    exact ⟨MapM.mapM_eq_some_iff_map.1 hm, rfl, rfl⟩
  · rintro ⟨hm, hroutes, hinhibit⟩
    refine ⟨c'.receivers, MapM.mapM_eq_some_iff_map.2 hm, ?_⟩
    rw [← hroutes, ← hinhibit]

theorem eraseP_of_nodup {α : Type} (f : α → String) (k : String) : ∀ l : List α, (l.map f).Nodup →
    l.eraseP (fun x => f x == k) = l.filter (fun x => !(f x == k))
  | [], _ => rfl
  | x :: l, h => by
    rw [map_cons, nodup_cons] at h
    rw [eraseP_cons, filter_cons]
    by_cases hx : (f x == k) = true
    · have hrest : ∀ y ∈ l, (!(f y == k)) = true := by
        intro y hy
        rw [not_eq_true', beq_eq_false_iff_ne]
        rintro rfl
        exact h.1 (beq_iff_eq.1 hx ▸ List.mem_map_of_mem hy)
      rw [hx, filter_eq_self.2 hrest]
      rfl
    · rw [eq_false_iff.2 hx, eraseP_of_nodup f k l h.2]
      rfl

theorem replaceReceiver_of_nodup (r : Receiver) : ∀ l : List Receiver, (l.map Receiver.name).Nodup →
    replaceReceiver r l = l.map (fun x => if x.name == r.name then r else x)
  | [], _ => rfl
  | x :: l, h => by
    rw [map_cons, nodup_cons] at h
    rw [replaceReceiver, map_cons]
    by_cases hx : (x.name == r.name) = true
    · have hrest : l.map (fun y => if y.name == r.name then r else y) = l := by
        refine (map_congr_left (fun y hy => ?_)).trans (List.map_id l)
        have hne : ¬ (y.name == r.name) = true := by
          intro hy'
          rw [beq_iff_eq] at hx hy'
          exact h.1 (hx.trans hy'.symm ▸ List.mem_map_of_mem hy)
        rw [if_neg hne]
        rfl
      rw [if_pos hx, if_pos hx, hrest]
    · rw [if_neg hx, if_neg hx, replaceReceiver_of_nodup r l h.2]

section
variable {H : Type} {U : Upstream H} {c c' : Config} {channels : List Channel} {r : Receiver}

variable {ch : Channel}

theorem settled_of_receiver (hU : U.Lawful) (h : ch.receiver U = some r) :
    U.newReceiver r = some r ∧ U.resolve r = some r := by
  obtain ⟨x, hx, hr⟩ := bind_eq_some_iff.1 h
  exact ⟨hU.read_resolved _ _ _ hx hr, hU.resolve_idem _ _ _ hx hr⟩

theorem Config.Of.settled (hU : U.Lawful) (h : c.Of U channels) :
    ∀ r ∈ c.receivers, U.newReceiver r = some r ∧ U.resolve r = some r := by
  intro r hr
  have hmem := h.receivers.mem_iff.1 (List.mem_map_of_mem hr)
  rcases mem_cons.1 hmem with heq | hmem
  · rw [some_inj.1 heq]
    exact ⟨hU.read_default, hU.resolve_default⟩
  · obtain ⟨ch, -, hch⟩ := List.mem_map.1 hmem
    exact settled_of_receiver hU hch

theorem Config.Of.read (hU : U.Lawful) (h : c.Of U channels) : c.mapReceivers U.newReceiver = some c :=
  mapReceivers_eq_some.2 ⟨map_congr_left (fun r hr => (h.settled hU r hr).1), rfl, rfl⟩

theorem createReceiver_eq_some (hc : ∀ x ∈ c.receivers, U.resolve x = some x) :
    c.createReceiver U r = some c' ↔ (∀ x ∈ c.receivers, x.name ≠ r.name) ∧ ∃ r', U.resolve r = some r' ∧
      c' = ⟨c.receivers ++ [r'], c.routes ++ [⟨r.name, ["-1"]⟩], c.inhibitRules⟩ := by
  unfold Config.createReceiver
  have hany : c.receivers.any (fun x => x.name == r.name) = true ↔ ¬ ∀ x ∈ c.receivers, x.name ≠ r.name := by
    rw [List.any_eq_true, not_forall]
    simp
  by_cases hnew : ∀ x ∈ c.receivers, x.name ≠ r.name
  · rw [if_neg (fun h => hany.1 h hnew), mapReceivers_eq_some, map_append, map_congr_left hc, map_singleton]
    constructor
    · rintro ⟨hm, hroutes, hinhibit⟩
      cases hr : U.resolve r with
      | none =>
        have hmem : none ∈ c'.receivers.map some := by
          rw [← hm, hr]
          exact mem_append_right _ (mem_singleton_self _)
        obtain ⟨x, -, hx⟩ := List.mem_map.1 hmem
        cases hx
      | some r' =>
        have hrecv : c'.receivers = c.receivers ++ [r'] := by
          apply map_injective_iff.2 (some_injective _)
          rw [← hm, hr, map_append, map_singleton]
        simp only at hroutes hinhibit
        exact ⟨hnew, r', rfl, by rw [← hrecv, ← hroutes, ← hinhibit]⟩
    · rintro ⟨-, r', hr, rfl⟩
      exact ⟨by rw [hr, map_append, map_singleton], rfl, rfl⟩
  · rw [if_pos (hany.2 hnew)]
    constructor
    · intro h
      cases h
    · rintro ⟨h, -⟩
      exact absurd h hnew

theorem Config.Of.names (h : c.Of U channels) (hn : ∀ ch ∈ channels, ∃ r, ch.receiver U = some r ∧ r.name = ch.name) :
    (c.receivers.map Receiver.name).Perm (defaultReceiver.name :: channels.map Channel.name) := by
  have hperm := h.receivers.map (fun o => o.elim "" Receiver.name)
  rw [List.map_map, map_cons, List.map_map] at hperm
  have hright : channels.map ((fun o => o.elim "" Receiver.name) ∘ Channel.receiver U) = channels.map Channel.name := by
    refine map_congr_left (fun ch hch => ?_)
    obtain ⟨r, hr, hname⟩ := hn ch hch
    simp only [Function.comp_apply, hr, elim_some, hname]
  rw [hright] at hperm
  exact hperm

/-! ## The operations keep it so -/

variable {st st' : Store}

variable {orgID : String}

theorem configStoreGet_of_mirrors (hU : U.Lawful) (h : Mirrors U st)
    (hg : configStoreGet U st.configs orgID = some c) :
    st.configs.lookup orgID = some c ∧ c.Of U (orgChannels st.channels orgID) := by
  obtain ⟨c₀, hl, hread⟩ := bind_eq_some_iff.1 hg
  have hof := h.configs orgID c₀ hl
  rw [hof.read hU, some_inj] at hread
  exact ⟨hread ▸ hl, hread ▸ hof⟩

theorem configs_insert {configs : GoMap String Config} {P : String → Config → Prop}
    (h : ∀ o c, o ≠ orgID → configs.lookup o = some c → P o c) (hc : P orgID c) :
    ∀ o c', (configs.insert orgID c).lookup o = some c' → P o c' := by
  intro o c' hl
  by_cases ho : o = orgID
  · subst ho
    rw [AList.lookup_insert, some_inj] at hl
    exact hl ▸ hc
  · rw [AList.lookup_insert_ne ho] at hl
    exact h o c' ho hl

theorem isSome_insert {configs : GoMap String Config} {o : String} (orgID : String) (h : (configs.lookup o).isSome = true) :
    ((configs.insert orgID c).lookup o).isSome = true := by
  by_cases ho : o = orgID
  · rw [ho, AList.lookup_insert]
    rfl
  · rw [AList.lookup_insert_ne ho]
    exact h

theorem Mirrors.ofOrg (h : Mirrors U st) (hch : ch ∈ orgChannels st.channels orgID) :
    ch.name ≠ defaultReceiver.name ∧ ∃ r, ch.receiver U = some r ∧ r.name = ch.name :=
  h.named ch (mem_filter.1 hch).1

variable {id : String} {body : Receiver} {fails : Bool}

theorem Mirrors.create (hU : U.Lawful) (h : Mirrors U st)
    (hop : createChannel U st orgID id body fails = some st') : Mirrors U st' := by
  unfold createChannel at hop
  obtain ⟨r, hread, hop⟩ := bind_eq_some_iff.1 hop
  obtain ⟨c, hget, hop⟩ := bind_eq_some_iff.1 hop
  obtain ⟨c', hcreate, hop⟩ := bind_eq_some_iff.1 hop
  obtain ⟨data, hdata, hop⟩ := bind_eq_some_iff.1 hop
  obtain ⟨hl, hof⟩ := configStoreGet_of_mirrors hU h hget
  obtain ⟨hnew, r', hr', rfl⟩ := (createReceiver_eq_some (fun x hx => (hof.settled hU x hx).2)).1 hcreate
  rw [hdata, some_inj] at hr'
  subst hr'
  split_ifs at hop with hcheck
  rw [some_inj] at hop
  subst hop
  simp only [newChannel, and_eq_true, bne_iff_ne, not_eq_true', List.any_eq_false, beq_iff_eq] at hcheck
  obtain ⟨⟨⟨hdefault, -⟩, -⟩, hid⟩ := hcheck
  have hname : data.name = r.name := hU.resolve_name _ _ hdata
  have hrecv : Channel.receiver U { id, name := r.name, orgID, data } = some data := by
    unfold Channel.receiver
    rw [hU.read_resolved _ _ _ hread hdata]
    exact hU.resolve_idem _ _ _ hread hdata
  have hfresh : r.name ∉ (orgChannels st.channels orgID).map Channel.name := by
    intro hmem
    have hmem' := (hof.names (fun ch hch => (h.ofOrg hch).2)).mem_iff.2 (mem_cons_of_mem _ hmem)
    obtain ⟨x, hx, hxname⟩ := List.mem_map.1 hmem'
    exact hnew x hx hxname
  have horg : ∀ o, orgChannels (st.channels ++ [{ id, name := r.name, orgID, data }]) o =
      orgChannels st.channels o ++ if orgID = o then [{ id, name := r.name, orgID, data }] else [] := by
    intro o
    unfold orgChannels
    rw [filter_append, filter_cons, filter_nil]
    simp only [beq_iff_eq]
  refine ⟨?_, fun o => ?_, fun ch hch => ?_, fun ch hch => ?_, ?_⟩
  · rw [map_append, nodup_append]
    refine ⟨h.ids, nodup_singleton _, fun a ha b hb => ?_⟩
    obtain ⟨ch, hch, rfl⟩ := List.mem_map.1 ha
    rw [mem_singleton.1 hb]
    exact hid ch hch
  · rw [horg, map_append, nodup_append]
    split_ifs with ho
    · subst ho
      refine ⟨h.names orgID, nodup_singleton _, fun a ha b hb => ?_⟩
      rw [mem_singleton.1 hb]
      rintro rfl
      exact hfresh ha
    · exact ⟨h.names o, nodup_nil, fun _ _ _ hb => by cases hb⟩
  · rcases mem_append.1 hch with hch | hch
    · exact h.named ch hch
    · rw [mem_singleton.1 hch]
      exact ⟨hname ▸ hdefault, data, hrecv, hname⟩
  · rcases mem_append.1 hch with hch | hch
    · exact isSome_insert orgID (h.home ch hch)
    · rw [mem_singleton.1 hch, AList.lookup_insert]
      rfl
  · refine configs_insert (P := fun o c => c.Of U (orgChannels _ o)) (fun o c ho hc => ?_) ?_
    · rw [horg, if_neg (fun heq => ho heq.symm), append_nil]
      exact h.configs o c hc
    · rw [horg, if_pos rfl]
      constructor
      · rw [map_append, map_append, ← cons_append]
        exact hof.receivers.append (List.Perm.of_eq (by simp [hrecv]))
      · rw [map_append, map_append]
        exact hof.routes.append (List.Perm.refl _)

theorem Mirrors.id_iff_name (h : Mirrors U st) {x y : Channel} (hx : x ∈ orgChannels st.channels orgID)
    (hy : y ∈ orgChannels st.channels orgID) : x.id = y.id ↔ x.name = y.name := by
  constructor
  · intro heq
    rw [inj_on_of_nodup_map h.ids (mem_filter.1 hx).1 (mem_filter.1 hy).1 heq]
  · intro heq
    rw [inj_on_of_nodup_map (h.names orgID) hx hy heq]

theorem getChannelByID_eq_some (h : st.getChannelByID orgID id = some ch) :
    ch ∈ orgChannels st.channels orgID ∧ ch.id = id := by
  have hp := List.find?_some h
  rw [and_eq_true, beq_iff_eq, beq_iff_eq] at hp
  exact ⟨mem_filter.2 ⟨mem_of_find?_eq_some h, beq_iff_eq.2 hp.1⟩, hp.2⟩

theorem Mirrors.receivers_nodup (h : Mirrors U st) (hof : c.Of U (orgChannels st.channels orgID)) :
    (c.receivers.map Receiver.name).Nodup := by
  refine (hof.names (fun ch hch => (h.ofOrg hch).2)).nodup_iff.2 (nodup_cons.2 ⟨fun hmem => ?_, h.names orgID⟩)
  obtain ⟨ch, hch, hname⟩ := List.mem_map.1 hmem
  exact (h.ofOrg hch).1 hname

theorem deleteChannelByID_eq_some {used : List String}
    (hop : deleteChannelByID U st orgID id used fails = some st') :
    ∃ channel c, st.getChannelByID orgID id = some channel ∧ configStoreGet U st.configs orgID = some c ∧
      st' = { channels := st.channels.filter (fun ch => !(ch.orgID == orgID && ch.id == id))
              configs := st.configs.insert orgID { c with
                routes := c.routes.eraseP (fun route => route.receiver == channel.name)
                receivers := c.receivers.eraseP (fun r => r.name == channel.name) } } := by
  unfold deleteChannelByID at hop
  obtain ⟨channel, hfind, hop⟩ := bind_eq_some_iff.1 hop
  by_cases hused : used.contains channel.name = true
  · rw [if_pos hused] at hop
    cases hop
  · rw [if_neg hused] at hop
    obtain ⟨c, hget, hop⟩ := bind_eq_some_iff.1 hop
    obtain ⟨c', hdelete, hop⟩ := bind_eq_some_iff.1 hop
    unfold Config.deleteReceiver at hdelete
    split_ifs at hop hdelete
    rw [some_inj] at hop hdelete
    exact ⟨channel, c, hfind, hget, by rw [← hop, ← hdelete]⟩

theorem orgChannels_filter (p : Channel → Bool) (l : List Channel) (orgID : String) :
    orgChannels (l.filter p) orgID = (orgChannels l orgID).filter p := by
  unfold orgChannels
  rw [List.filter_filter, List.filter_filter]
  exact filter_congr (fun _ _ => Bool.and_comm _ _)

theorem Mirrors.delete (hU : U.Lawful) (h : Mirrors U st) {used : List String}
    (hop : deleteChannelByID U st orgID id used fails = some st') : Mirrors U st' := by
  obtain ⟨channel, c, hfind, hget, rfl⟩ := deleteChannelByID_eq_some hop
  obtain ⟨hl, hof⟩ := configStoreGet_of_mirrors hU h hget
  obtain ⟨hchannel, hid⟩ := getChannelByID_eq_some hfind
  have hroutes : (c.routes.map Route.receiver).Nodup := hof.routes.nodup_iff.2 (h.names orgID)
  rw [eraseP_of_nodup _ _ _ (h.receivers_nodup hof), eraseP_of_nodup _ _ _ hroutes]
  refine ⟨?_, fun o => ?_, fun ch hch => h.named ch (mem_filter.1 hch).1,
    fun ch hch => isSome_insert orgID (h.home ch (mem_filter.1 hch).1), ?_⟩
  · exact (filter_sublist.map _).nodup h.ids
  · rw [orgChannels_filter]
    exact (filter_sublist.map _).nodup (h.names o)
  · refine configs_insert (P := fun o c => c.Of U (orgChannels _ o)) (fun o c ho hc => ?_) ?_
    · rw [orgChannels_filter, filter_eq_self.2]
      · exact h.configs o c hc
      · intro ch hch
        have horg : ch.orgID = o := beq_iff_eq.1 (mem_filter.1 hch).2
        simp [horg, ho]
    · -- within the organisation the row with the id is the one with the name
      have hsame : orgChannels (st.channels.filter (fun ch => !(ch.orgID == orgID && ch.id == id))) orgID =
          (orgChannels st.channels orgID).filter (fun ch => !(ch.name == channel.name)) := by
        rw [orgChannels_filter]
        refine filter_congr (fun ch hch => ?_)
        have horg : ch.orgID = orgID := beq_iff_eq.1 (mem_filter.1 hch).2
        have hiff := h.id_iff_name hch hchannel
        rw [hid] at hiff
        rw [horg, beq_self_eq_true, Bool.true_and, Bool.eq_iff_iff, not_eq_true', not_eq_true',
          beq_eq_false_iff_ne, beq_eq_false_iff_ne]
        exact not_congr hiff
      rw [hsame]
      constructor
      · have hperm := hof.receivers.filter (fun o => !(o.elim "" Receiver.name == channel.name))
        have hdefault : (!((some defaultReceiver).elim "" Receiver.name == channel.name)) = true := by
          rw [not_eq_true', beq_eq_false_iff_ne]
          exact (h.ofOrg hchannel).1.symm
        have hname : ∀ ch ∈ orgChannels st.channels orgID,
            (!((ch.receiver U).elim "" Receiver.name == channel.name)) = !(ch.name == channel.name) := by
          intro ch hch
          obtain ⟨r, hr, hname⟩ := (h.ofOrg hch).2
          rw [hr, elim_some, hname]
        rw [List.filter_map, filter_cons, if_pos hdefault, List.filter_map] at hperm
        rw [← filter_congr hname]
        exact hperm
      · have hperm := hof.routes.filter (fun name => !(name == channel.name))
        rw [List.filter_map, List.filter_map] at hperm
        exact hperm

theorem updateChannel_eq_some
    (hop : updateChannelByReceiverAndID U st orgID id body fails = some st') :
    ∃ r channel c c', U.newReceiver body = some r ∧ st.getChannelByID orgID id = some channel ∧ channel.name = r.name ∧
      configStoreGet U st.configs orgID = some c ∧ c.updateReceiver U r = some c' ∧
      st' = { channels := st.channels.map (fun ch => if ch.id == id then { ch with data := r } else ch)
              configs := st.configs.insert orgID c' } := by
  unfold updateChannelByReceiverAndID at hop
  obtain ⟨r, hread, hop⟩ := bind_eq_some_iff.1 hop
  obtain ⟨channel, hfind, hop⟩ := bind_eq_some_iff.1 hop
  by_cases hcheck : (newChannel U r && channel.name == r.name) = true
  · rw [if_pos hcheck] at hop
    rw [and_eq_true, beq_iff_eq] at hcheck
    obtain ⟨c, hget, hop⟩ := bind_eq_some_iff.1 hop
    obtain ⟨c', hupdate, hop⟩ := bind_eq_some_iff.1 hop
    split_ifs at hop
    rw [some_inj] at hop
    exact ⟨r, channel, c, c', hread, hfind, hcheck.2, hget, hupdate, hop.symm⟩
  · rw [if_neg hcheck] at hop
    cases hop

theorem updateReceiver_eq_some (hc : ∀ x ∈ c.receivers, U.resolve x = some x) (hn : (c.receivers.map Receiver.name).Nodup)
    (h : c.updateReceiver U r = some c') :
    c'.receivers.map some = c.receivers.map (fun x => if x.name == r.name then U.resolve r else some x) ∧
      c'.routes = c.routes ∧ c'.inhibitRules = c.inhibitRules := by
  obtain ⟨hm, hroutes, hinhibit⟩ := mapReceivers_eq_some.1 h
  rw [replaceReceiver_of_nodup r _ hn, List.map_map] at hm
  refine ⟨?_, hroutes, hinhibit⟩
  rw [← hm]
  refine map_congr_left (fun x hx => ?_)
  rw [Function.comp_apply]
  split_ifs
  · rfl
  · exact hc x hx

def Channel.withData (id : String) (r : Receiver) (ch : Channel) : Channel := if ch.id == id then { ch with data := r } else ch

@[simp] theorem withData_id (id : String) (r : Receiver) (ch : Channel) : (ch.withData id r).id = ch.id := by
  unfold Channel.withData
  split_ifs <;> rfl

@[simp] theorem withData_name (id : String) (r : Receiver) (ch : Channel) : (ch.withData id r).name = ch.name := by
  unfold Channel.withData
  split_ifs <;> rfl

@[simp] theorem withData_orgID (id : String) (r : Receiver) (ch : Channel) : (ch.withData id r).orgID = ch.orgID := by
  unfold Channel.withData
  split_ifs <;> rfl

theorem orgChannels_withData (id : String) (r : Receiver) (l : List Channel) (orgID : String) :
    orgChannels (l.map (Channel.withData id r)) orgID = (orgChannels l orgID).map (Channel.withData id r) := by
  unfold orgChannels
  rw [List.filter_map]
  congr 1
  exact filter_congr (fun ch _ => by simp)

theorem map_name_withData (id : String) (r : Receiver) (l : List Channel) :
    (l.map (Channel.withData id r)).map Channel.name = l.map Channel.name := by
  rw [List.map_map]
  exact map_congr_left (fun ch _ => by simp)

theorem withData_of_ne (r : Receiver) (h : ch.id ≠ id) : ch.withData id r = ch :=
  if_neg (fun heq => h (beq_iff_eq.1 heq))

theorem receiver_withData (hU : U.Lawful) {r' : Receiver} (hread : U.newReceiver body = some r)
    (hr : U.resolve r = some r') (h : ch.id = id) : (ch.withData id r).receiver U = some r' := by
  unfold Channel.withData Channel.receiver
  rw [if_pos (beq_iff_eq.2 h), hU.read_idem _ _ hread]
  exact hr

theorem Mirrors.resolves (h : Mirrors U st) (hof : c.Of U (orgChannels st.channels orgID)) {channel : Channel}
    (hchannel : channel ∈ orgChannels st.channels orgID) (hname : channel.name = r.name)
    (hrecv : c'.receivers.map some = c.receivers.map (fun x => if x.name == r.name then U.resolve r else some x)) :
    ∃ r', U.resolve r = some r' := by
  obtain ⟨x, hx, hxname⟩ := (h.ofOrg hchannel).2
  have hmem : some x ∈ c.receivers.map some :=
    hof.receivers.mem_iff.2 (mem_cons_of_mem _ (List.mem_map.2 ⟨channel, hchannel, hx⟩))
  obtain ⟨y, hy, hxy⟩ := List.mem_map.1 hmem
  rw [some_inj.1 hxy] at hy
  have hres : U.resolve r ∈ c'.receivers.map some := by
    rw [hrecv]
    refine List.mem_map.2 ⟨x, hy, if_pos ?_⟩
    rw [hxname, hname, beq_self_eq_true]
  obtain ⟨r', -, hr'⟩ := List.mem_map.1 hres
  exact ⟨r', hr'.symm⟩

theorem Mirrors.receivers_update (hU : U.Lawful) (h : Mirrors U st)
    (hof : c.Of U (orgChannels st.channels orgID)) {channel : Channel} (hchannel : channel ∈ orgChannels st.channels orgID)
    (hname : channel.name = r.name) {r' : Receiver} (hread : U.newReceiver body = some r) (hr : U.resolve r = some r')
    (hrecv : c'.receivers.map some = c.receivers.map (fun x => if x.name == r.name then U.resolve r else some x)) :
    (c'.receivers.map some).Perm (some defaultReceiver ::
      ((orgChannels st.channels orgID).map (Channel.withData channel.id r)).map (Channel.receiver U)) := by
  have hdefault : ¬ (defaultReceiver.name == r.name) = true := by
    rw [beq_iff_eq, ← hname]
    exact (h.ofOrg hchannel).1.symm
  have hperm := hof.receivers.map (fun o => o.bind (fun x => if x.name == r.name then U.resolve r else some x))
  rw [List.map_map, map_cons, List.map_map, bind_some, if_neg hdefault] at hperm
  have hchannels : (orgChannels st.channels orgID).map
        ((fun o => o.bind (fun x => if x.name == r.name then U.resolve r else some x)) ∘ Channel.receiver U) =
      ((orgChannels st.channels orgID).map (Channel.withData channel.id r)).map (Channel.receiver U) := by
    rw [List.map_map]
    refine map_congr_left (fun ch hch => ?_)
    obtain ⟨x, hx, hxname⟩ := (h.ofOrg hch).2
    have hiff := h.id_iff_name hch hchannel
    rw [hname] at hiff
    rw [Function.comp_apply, Function.comp_apply, hx, bind_some, hxname]
    by_cases heq : ch.id = channel.id
    · rw [if_pos (beq_iff_eq.2 (hiff.1 heq)), receiver_withData hU hread hr heq, hr]
    · rw [if_neg (fun hn => heq (hiff.2 (beq_iff_eq.1 hn))), withData_of_ne r heq, hx]
  rw [hrecv, ← hchannels]
  exact hperm

theorem Mirrors.update (hU : U.Lawful) (h : Mirrors U st)
    (hop : updateChannelByReceiverAndID U st orgID id body fails = some st') : Mirrors U st' := by
  obtain ⟨r, channel, c, c', hread, hfind, hchname, hget, hupdate, rfl⟩ := updateChannel_eq_some hop
  obtain ⟨hl, hof⟩ := configStoreGet_of_mirrors hU h hget
  obtain ⟨hchannel, rfl⟩ := getChannelByID_eq_some hfind
  obtain ⟨hchst, hchorg⟩ := mem_filter.1 hchannel
  obtain ⟨hrecv, hroutes, -⟩ := updateReceiver_eq_some (fun x hx => (hof.settled hU x hx).2) (h.receivers_nodup hof) hupdate
  obtain ⟨r', hr'⟩ := h.resolves hof hchannel hchname hrecv
  have hrow : ∀ ch ∈ st.channels, ch.id = channel.id → ch = channel := fun ch hch => inj_on_of_nodup_map h.ids hch hchst
  change Mirrors U { channels := st.channels.map (Channel.withData channel.id r), configs := st.configs.insert orgID c' }
  refine ⟨?_, fun o => ?_, fun ch' hch' => ?_, fun ch' hch' => ?_, ?_⟩
  · have hids : (st.channels.map (Channel.withData channel.id r)).map Channel.id = st.channels.map Channel.id := by
      rw [List.map_map]
      exact map_congr_left (fun ch _ => withData_id channel.id r ch)
    rw [hids]
    exact h.ids
  · rw [orgChannels_withData, map_name_withData]
    exact h.names o
  · obtain ⟨ch, hch, rfl⟩ := List.mem_map.1 hch'
    rw [withData_name]
    refine ⟨(h.named ch hch).1, ?_⟩
    by_cases heq : ch.id = channel.id
    · refine ⟨r', receiver_withData hU hread hr' heq, ?_⟩
      rw [hU.resolve_name _ _ hr', ← hchname, hrow ch hch heq]
    · rw [withData_of_ne r heq]
      exact (h.named ch hch).2
  · obtain ⟨ch, hch, rfl⟩ := List.mem_map.1 hch'
    rw [withData_orgID]
    exact isSome_insert orgID (h.home ch hch)
  · refine configs_insert (P := fun o c => c.Of U (orgChannels _ o)) (fun o c ho hc => ?_) ?_
    · -- another organisation has no channel of the id
      have hsame : (orgChannels st.channels o).map (Channel.withData channel.id r) = orgChannels st.channels o := by
        refine (map_congr_left (fun ch hch => ?_)).trans (List.map_id _)
        obtain ⟨hst, horg⟩ := mem_filter.1 hch
        refine withData_of_ne r (fun heq => ho ?_)
        rw [← beq_iff_eq.1 horg, hrow ch hst heq]
        exact beq_iff_eq.1 hchorg
      rw [orgChannels_withData, hsame]
      exact h.configs o c hc
    · rw [orgChannels_withData]
      refine ⟨h.receivers_update hU hof hchannel hchname hread hr' hrecv, ?_⟩
      rw [hroutes, map_name_withData]
      exact hof.routes

end

end Alertmanager
end DsApm
