import DsApm.Alertmanager.Reachable
import DsApm.Rules.Routes
/-!
# Restart — when a start keeps the stored configuration

A start leaves an organisation the same receivers.  It leaves it the same matchers and inhibit rules exactly where these
follow from the rules by themselves.
-/
namespace DsApm
namespace Alertmanager

open Rules StepRun Option

section
variable {V H : Type} {U : Upstream H} {s : System V}

/-- The same receivers, the same matchers for the organisation's rules and the same inhibit rules. -/
structure SameRouting (db : Database V) (orgID : String) (c c' : Config) : Prop where
  receivers : c'.receivers.Perm c.receivers
  matchers : ∀ row ∈ GoMap.values db.stored, row.orgID = orgID → ∀ name, c'.Matches row.id name ↔ c.Matches row.id name
  inhibit : c'.inhibitRules.Perm c.inhibitRules

/-- Nothing inhibits, and a rule is in the matcher of a route exactly when the route's receiver is among its preferred
channels. -/
def Derivable (db : Database V) (orgID : String) (c : Config) : Prop :=
  c.inhibitRules = [] ∧ ∀ row ∈ GoMap.values db.stored, row.orgID = orgID →
    ∀ route ∈ c.routes, (row.id ∈ route.ruleIDs ↔ route.receiver ∈ preferredChannels row)

def HashTells (U : Upstream H) (A : StartAnswers V) (orgID : String) (s : System V) (c : Config) : Prop :=
  ∀ built, builtConfig U A (orgChannels s.channels orgID) (GoMap.values s.rules.db.stored) = some built →
    U.hash c = U.hash built → c = built

theorem Config.Of.receivers_perm {c c' : Config} {channels : List Channel} (h : c.Of U channels) (h' : c'.Of U channels) :
    c'.receivers.Perm c.receivers :=
  (List.map_perm_map_iff (some_injective _)).1 (h'.receivers.trans h.receivers.symm)

theorem built_matches {orgID : String} {built : Config} (h : Sound U s)
    (hb : Built U (orgChannels s.channels orgID) (GoMap.values s.rules.db.stored) built) {row : StorableRule V}
    (hrow : row ∈ GoMap.values s.rules.db.stored) (name : String) :
    built.Matches row.id name ↔ name ∈ preferredChannels row ∧ name ∈ (orgChannels s.channels orgID).map Channel.name := by
  have hkeyed : Keyed s.rules.db := fun id row hl => (h.ids id row hl).1
  rw [hb.matchers]
  constructor
  · rintro ⟨hid | ⟨row', hrow', hid, hmem⟩, hname⟩
    · obtain ⟨k, hk⟩ := GoMap.mem_values.1 hrow
      obtain ⟨hkid, hne⟩ := h.ids k row hk
      exact absurd (hkid ▸ hid) hne
    · rw [hkeyed.eq_of_id hrow' hrow hid] at hmem
      exact ⟨hmem, hname⟩
  · rintro ⟨hmem, hname⟩
    exact ⟨Or.inr ⟨row, hrow, rfl, hmem⟩, hname⟩

theorem same_built_iff {orgID : String} {c built : Config} (h : Sound U s) (hc : c.Of U (orgChannels s.channels orgID))
    (hb : Built U (orgChannels s.channels orgID) (GoMap.values s.rules.db.stored) built) :
    SameRouting s.rules.db orgID c built ↔ Derivable s.rules.db orgID c := by
  have hnames : ∀ route ∈ c.routes, route.receiver ∈ (orgChannels s.channels orgID).map Channel.name :=
    fun route hroute => hc.routes.mem_iff.1 (List.mem_map_of_mem hroute)
  have hnodup : (c.routes.map Route.receiver).Nodup := hc.routes.nodup_iff.2 (h.mirrors.names orgID)
  -- a receiver has one route, so matching it is being in the matcher of that route
  have hroute : ∀ route ∈ c.routes, ∀ k, c.Matches k route.receiver ↔ k ∈ route.ruleIDs := by
    intro route hmem k
    constructor
    · rintro ⟨route', hmem', heq, hk⟩
      rw [List.inj_on_of_nodup_map hnodup hmem' hmem heq] at hk
      exact hk
    · intro hk
      exact ⟨route, hmem, rfl, hk⟩
  constructor
  · intro hsame
    refine ⟨?_, fun row hrow horg route hmem => ?_⟩
    · have hnil := hsame.inhibit
      rw [hb.inhibit] at hnil
      exact List.nil_perm.1 hnil
    · rw [← hroute route hmem, ← hsame.matchers row hrow horg, built_matches h hb hrow]
      exact ⟨And.left, fun hpref => ⟨hpref, hnames route hmem⟩⟩
  · rintro ⟨hinhibit, hmatch⟩
    refine ⟨hc.receivers_perm hb.of, fun row hrow horg name => ?_, by rw [hb.inhibit, hinhibit]⟩
    rw [built_matches h hb hrow]
    constructor
    · rintro ⟨hpref, hname⟩
      obtain ⟨route, hmem, rfl⟩ := List.mem_map.1 (hc.routes.mem_iff.2 hname)
      exact (hroute route hmem row.id).2 ((hmatch row hrow horg route hmem).2 hpref)
    · rintro ⟨route, hmem, rfl, hk⟩
      exact ⟨(hmatch row hrow horg route hmem).1 hk, hnames route hmem⟩

variable [DecidableEq H] [Float64 V] {E : Checks V}

/-- **In every reachable state a start keeps the stored configuration exactly when it can be derived from the rules**: it
has no inhibit rules, and its matchers for the organisation's rules are their preferred channels. -/
theorem startup_keeps_iff (hU : U.Lawful) (orgs : List String) (ops : List (Op V)) (hops : ∀ op ∈ ops, op.Issued)
    (orgID : String) (A : StartAnswers V) {c loaded : Config}
    (hhash : HashTells U A orgID (final (System.step U E) (initial orgs) ops) c)
    (hc : (final (System.step U E) (initial orgs) ops).rules.db.configs.lookup orgID = some c)
    (hok : (syncServer U A orgID (final (System.step U E) (initial orgs) ops)).2 = some loaded) :
    (∃ c', (syncServer U A orgID (final (System.step U E) (initial orgs) ops)).1.rules.db.configs.lookup orgID = some c' ∧
      SameRouting (final (System.step U E) (initial orgs) ops).rules.db orgID c c' ∧
      SameRouting (final (System.step U E) (initial orgs) ops).rules.db orgID c loaded) ↔
      Derivable (final (System.step U E) (initial orgs) ops).rules.db orgID c := by
  have hs := sound_run (E := E) hU orgs ops hops
  generalize final (System.step U E) (initial orgs) ops = s at hs hhash hc hok ⊢
  have hof : c.Of U (orgChannels s.channels orgID) := hs.mirrors.configs orgID c hc
  have hrefl : SameRouting s.rules.db orgID c c := ⟨List.Perm.refl _, fun _ _ _ _ => Iff.rfl, List.Perm.refl _⟩
  obtain ⟨⟨p, hp, rfl⟩, hn⟩ := syncServer_loaded hok
  have hread : p.1 = c := by
    unfold getConfig at hp
    rw [hc] at hp
    simp only [hof.read hU, map_some, some_inj] at hp
    rw [← hp]
  obtain ⟨built, hgiven, hbuilt, hstate⟩ := newServer_stored hU hs.mirrors hc hn
  rw [hread, hstate, ← same_built_iff hs hof hbuilt]
  by_cases heq : U.hash c = U.hash built
  · have hsame : c = built := hhash built hgiven heq
    rw [if_neg (fun hne => hne heq), ← hsame]
    exact ⟨fun _ => hrefl, fun _ => ⟨c, hc, hrefl, hrefl⟩⟩
  · rw [if_pos heq]
    have hl : (s.setConfig orgID built).rules.db.configs.lookup orgID = some built := AList.lookup_insert _
    constructor
    · rintro ⟨c', hc', hsame, -⟩
      rw [hl, some_inj] at hc'
      rw [hc']
      exact hsame
    · intro hsame
      exact ⟨built, hl, hsame, hrefl⟩

end

/-! ## Two starts -/

def plainUpstream : Upstream Config :=
  { newReceiver := some, resolve := some, hasType := fun r => r.body != "", hash := id }

theorem lawful_plainUpstream : plainUpstream.Lawful := by
  constructor
  · intro r r' h
    rw [← some_inj.1 h]
  · intro r r' h
    rw [← some_inj.1 h]
  · intro r r' _
    rfl
  · intro x r r' _ _
    rfl
  · intro x r r' _ _
    rfl
  · rfl
  · rfl

def plainStart : StartAnswers Int :=
  { channels := .asStored, matchers := .asStored, fails := fun _ => false }

def opsAndRule (r : PostableRule Int) : List (Op Int) :=
  [.createChannel "org" "c1" ⟨"ops", "webhook_configs"⟩ false,
    .rule (.create "org" "r1" (some { r with preferredChannels := ["ops"] }) nothingFails)]

def afterOps (ops : List (Op Int)) : System Int := final (System.step plainUpstream passing) (initial ["org"]) ops

def oneLevel : List (Op Int) := opsAndRule (cpuDefinition false false [alertAbove "critical" 5]) ++ [.start "org" plainStart]

def matchedConfig : Config :=
  { receivers := [defaultReceiver, ⟨"ops", "webhook_configs"⟩], routes := [⟨"ops", ["-1", "r1"]⟩], inhibitRules := [] }

theorem second_start_keeps : (afterOps oneLevel).rules.db.configs.lookup "org" = some matchedConfig ∧
    ∃ c', (syncServer plainUpstream plainStart "org" (afterOps oneLevel)).1.rules.db.configs.lookup "org" = some c' ∧
      SameRouting (afterOps oneLevel).rules.db "org" matchedConfig c' ∧
      SameRouting (afterOps oneLevel).rules.db "org" matchedConfig matchedConfig := by
  have hc : (afterOps oneLevel).rules.db.configs.lookup "org" = some matchedConfig := by decide
  have hok : (syncServer plainUpstream plainStart "org" (afterOps oneLevel)).2 = some matchedConfig := by decide
  have hops : ∀ op ∈ oneLevel, op.Issued := by
    intro op hop
    simp only [oneLevel, opsAndRule, List.cons_append, List.nil_append, List.mem_cons, List.not_mem_nil, or_false] at hop
    rcases hop with rfl | rfl | rfl
    · trivial
    · change "r1" ≠ "-1"
      decide
    · trivial
  have hderivable : Derivable (afterOps oneLevel).rules.db "org" matchedConfig := by
    refine ⟨rfl, ?_⟩
    decide
  exact ⟨hc, (startup_keeps_iff lawful_plainUpstream ["org"] oneLevel hops "org" plainStart (fun _ _ h => h) hc hok).2
    hderivable⟩

def twoLevel : List (Op Int) := opsAndRule (twoLevels false)

/-- The start drops the inhibit rule between the two levels from the stored configuration. -/
theorem start_drops_inhibit_rules : ∃ c, (afterOps twoLevel).rules.db.configs.lookup "org" = some c ∧
    (syncServer plainUpstream plainStart "org" (afterOps twoLevel)).2 = some c ∧
    ¬ ∃ c', (syncServer plainUpstream plainStart "org" (afterOps twoLevel)).1.rules.db.configs.lookup "org" = some c' ∧
      SameRouting (afterOps twoLevel).rules.db "org" c c' ∧ SameRouting (afterOps twoLevel).rules.db "org" c c := by
  refine ⟨((afterOps twoLevel).rules.db.configs.lookup "org").getD defaultConfig, by decide, by decide, ?_⟩
  rintro ⟨c', hc', hsame, -⟩
  have hafter : ((syncServer plainUpstream plainStart "org" (afterOps twoLevel)).1.rules.db.configs.lookup "org").map
      (fun c => c.inhibitRules.length) = some 0 := by decide
  rw [hc', map_some, some_inj, hsame.inhibit.length_eq] at hafter
  revert hafter
  decide

end Alertmanager
end DsApm
