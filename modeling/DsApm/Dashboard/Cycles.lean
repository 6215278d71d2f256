import DsApm.Dashboard.DependencyGraph
import Mathlib.Data.List.TakeWhile
/-!
# Cycles — the cycle that is shown to the user

`DashboardVariablesSelection/util.ts`: `buildDependencyGraph` with its search.  `detectCycle` finds an edge back to a node it
has come from, and `collectCyclePath` takes from there the first parent of a node, and so on, until it is back.  A first
parent need not be on the cycle.

The search comes to the closing edge (`someKey_eq`): it goes from the first key that leads to a cycle to the first child that
does.  The path is a cycle exactly when the first parents lead from one end of this edge to the other, and otherwise may
have no end.
-/
namespace DsApm
namespace Dashboard

open Relation Kahn List Option

/-- A dependency map: every child is a key, and no list names a child twice.  `buildDependencies` gives no variable without
a name a key. -/
structure DependencyMap where
  keys : List String
  children : VariableGraph
  nodup : keys.Nodup
  closed : ∀ node ∈ keys, ∀ child ∈ children node, child ∈ keys
  simple : ∀ node, (children node).Nodup
  outside : ∀ node ∉ keys, children node = []
  named : "" ∉ keys

structure IDependencyData extends DependencyData where
  hasCycle : Bool
  cycleNodes : Option (List String)

structure Search where
  visited : List String := []
  recStack : List String := []

namespace DependencyMap

variable (D : DependencyMap)

/-! ## The path of a cycle -/

def findParent (node : String) : Option String := D.keys.find? (fun key => decide (node ∈ D.children key))

/-- The loop of `collectCyclePath`, of so many turns; the path it has pushed when it ends. -/
def walk (stop : String) : Nat → String → Option (List String)
  | 0, _ => none
  | turns + 1, current =>
    if current = stop then some []
    else match D.findParent current with
      | none => some []
      | some parent => (walk stop turns parent).map (parent :: ·)

def collectCyclePath (turns : Nat) (start stop : String) : Option (List String) :=
  (D.walk stop turns start).map (start :: ·)

/-! ## The search -/

section
variable {β : Type} (collect : String → String → β)

def someNeighbor (detect : String → Search → Option β × Search) (node : String) : List String → Search → Option β × Search
  | [], s => (none, s)
  | neighbor :: rest, s =>
    if neighbor ∉ s.visited then
      match detect neighbor s with
      | (some cycleNodes, s') => (some cycleNodes, s')
      | (none, s') => someNeighbor detect node rest s'
    else if neighbor ∈ s.recStack then (some (collect node neighbor), s)
    else someNeighbor detect node rest s

def detectCycle : Nat → String → Search → Option β × Search
  | 0, _, s => (none, s)
  | fuel + 1, node, s =>
    let entered : Search := { visited := node :: s.visited, recStack := node :: s.recStack }
    match if node ∈ s.visited then (none, s) else someNeighbor collect (detectCycle fuel) node (D.children node) entered with
    | (some cycleNodes, s') => (some cycleNodes, s')
    | (none, s') => (none, { s' with recStack := s'.recStack.filter (fun other => decide (other ≠ node)) })

def someKey : List String → Search → Option β
  | [], _ => none
  | node :: rest, s =>
    if node ∉ s.visited then
      match D.detectCycle collect D.keys.length node s with
      | (some cycleNodes, _) => some cycleNodes
      | (none, s') => someKey rest s'
    else someKey rest s

end

def result (cycleNodes : Option (List String)) : IDependencyData :=
  let data := Dashboard.buildDependencyGraph D.keys D.children
  { data with hasCycle := decide (data.order.length ≠ D.keys.length), cycleNodes }

/-- `buildDependencyGraph`, where the loop of `collectCyclePath` takes so many turns at most. -/
def buildDependencyGraph (turns : Nat) : Option IDependencyData :=
  match D.someKey (D.collectCyclePath turns) D.keys {} with
  | none => some (D.result none)
  | some cycleNodes => cycleNodes.map (fun nodes => D.result (some nodes))

/-! ## What it is for -/

/-- The nodes, in some order, of a path back to its start that meets each of them once. -/
def IsCycle (nodes : List String) : Prop :=
  ∃ v rest, (v :: rest).Perm nodes ∧ (v :: rest).Nodup ∧ List.IsChain (Edge D.children) (v :: rest ++ [v])

structure Right (data : IDependencyData) : Prop where
  mem_order : ∀ v, v ∈ data.order ↔ v ∈ D.keys ∧ ¬ Tainted D.children v
  once : data.order.Nodup
  after : AfterParents D.children D.keys data.order
  hasCycle : data.hasCycle = true ↔ ∃ v, TransGen (Edge D.children) v v
  cycleNodes : data.hasCycle = true → ∃ nodes, data.cycleNodes = some nodes ∧ D.IsCycle nodes
  descendants : (∀ v, ¬ TransGen (Edge D.children) v v) → ∀ node ∈ D.keys, ∀ v,
    v ∈ data.transitiveDescendants node ↔ TransGen (Edge D.children) node v

def Leads (v : String) : Prop := ∃ w, ReflTransGen (Edge D.children) v w ∧ TransGen (Edge D.children) w w

open Classical in
/-- From the end of a path, the first child that leads to a cycle, and so on: the edge by which the path comes back to itself. -/
noncomputable def closing : Nat → List String → Option (String × String)
  | 0, _ => none
  | _, [] => none
  | fuel + 1, node :: path =>
    ((D.children node).find? (fun v => decide (D.Leads v))).bind fun child =>
      if child ∈ node :: path then some (node, child) else closing fuel (child :: node :: path)

open Classical in
/-- The edge that closes a cycle on the way from the first key that leads to one, always to the first child that does. -/
noncomputable def closingEdge : Option (String × String) :=
  (D.keys.find? (fun v => decide (D.Leads v))).bind fun node => D.closing D.keys.length [node]

def Climbs : String → String → Prop := ReflTransGen (fun node parent => D.findParent node = some parent)

/-! ## The walk -/

variable {D}

theorem edge_of_findParent {node parent : String} (h : D.findParent node = some parent) : Edge D.children parent node :=
  by simpa [Edge] using List.find?_some h

theorem findParent_isSome {u v : String} (h : Edge D.children u v) : ∃ parent, D.findParent v = some parent := by
  have hu : u ∈ D.keys := by
    by_contra hu
    rw [Edge, D.outside u hu] at h
    cases h
  exact isSome_iff_exists.1 (List.find?_isSome.2 ⟨u, hu, decide_eq_true h⟩)

theorem walk_mono {stop : String} : ∀ {turns turns' : Nat} {node : String} {nodes : List String}, turns ≤ turns' →
    D.walk stop turns node = some nodes → D.walk stop turns' node = some nodes
  | turns + 1, turns' + 1, node, nodes, hle, h => by
    rw [walk] at h ⊢
    split at h
    · rename_i hstop
      rw [if_pos hstop]
      exact h
    · rename_i hstop
      rw [if_neg hstop]
      cases hp : D.findParent node with
      | none => rw [hp] at h; exact h
      | some parent =>
        rw [hp] at h
        obtain ⟨rest, hrest, rfl⟩ := map_eq_some_iff.1 h
        exact map_eq_some_iff.2 ⟨rest, walk_mono (Nat.le_of_succ_le_succ hle) hrest, rfl⟩

theorem walk_unique {stop node : String} {turns turns' : Nat} {nodes nodes' : List String}
    (h : D.walk stop turns node = some nodes) (h' : D.walk stop turns' node = some nodes') : nodes = nodes' :=
  Option.some.inj ((walk_mono (Nat.le_max_left turns turns') h).symm.trans (walk_mono (Nat.le_max_right turns turns') h'))

theorem walk_from {stop : String} : ∀ {turns : Nat} {node : String} {nodes : List String}, D.walk stop turns node = some nodes →
    ∀ v ∈ nodes, ∃ turns' nodes', D.walk stop turns' v = some nodes' ∧ nodes'.length < nodes.length
  | turns + 1, node, nodes, h, v, hv => by
    rw [walk] at h
    split at h
    · cases h
      cases hv
    · cases hp : D.findParent node with
      | none => rw [hp] at h; cases h; cases hv
      | some parent =>
        rw [hp] at h
        obtain ⟨rest, hrest, rfl⟩ := map_eq_some_iff.1 h
        rcases mem_cons.1 hv with rfl | hv
        · exact ⟨turns, rest, hrest, Nat.lt_succ_self _⟩
        · obtain ⟨turns', nodes', hw, hlt⟩ := walk_from hrest v hv
          exact ⟨turns', nodes', hw, hlt.trans (Nat.lt_succ_self _)⟩

theorem walk_nodup {stop : String} : ∀ {turns : Nat} {node : String} {nodes : List String}, D.walk stop turns node = some nodes →
    (node :: nodes).Nodup
  | turns + 1, node, nodes, h => by
    refine nodup_cons.2 ⟨fun hv => ?_, ?_⟩
    · obtain ⟨turns', nodes', hw, hlt⟩ := walk_from h node hv
      rw [walk_unique hw h] at hlt
      exact lt_irrefl _ hlt
    · rw [walk] at h
      split at h
      · cases h
        exact nodup_nil
      · cases hp : D.findParent node with
        | none => rw [hp] at h; cases h; exact nodup_nil
        | some parent =>
          rw [hp] at h
          obtain ⟨rest, hrest, rfl⟩ := map_eq_some_iff.1 h
          exact walk_nodup hrest

theorem walk_ends {stop : String} : ∀ {turns : Nat} {node : String} {nodes : List String}, D.walk stop turns node = some nodes →
    D.Climbs node stop ∨ ∃ v ∈ node :: nodes, D.findParent v = none
  | turns + 1, node, nodes, h => by
    rw [walk] at h
    split at h
    · rename_i hstop
      rw [hstop]
      exact .inl .refl
    · cases hp : D.findParent node with
      | none => exact .inr ⟨node, mem_cons_self, hp⟩
      | some parent =>
        rw [hp] at h
        obtain ⟨rest, hrest, rfl⟩ := map_eq_some_iff.1 h
        rcases walk_ends hrest with hclimbs | ⟨v, hv, hnone⟩
        · exact .inl (hclimbs.head hp)
        · exact .inr ⟨v, mem_cons_of_mem _ hv, hnone⟩

theorem walk_of_climbs {node stop : String} (h : D.Climbs node stop) : ∃ turns nodes, D.walk stop turns node = some nodes ∧
    ∀ tail, List.IsChain (Edge D.children) (node :: tail) →
      ∃ rest, nodes.reverse ++ node :: tail = stop :: rest ∧ List.IsChain (Edge D.children) (stop :: rest) := by
  induction h using ReflTransGen.head_induction_on with
  | refl => exact ⟨1, [], by rw [walk, if_pos rfl], fun tail htail => ⟨tail, rfl, htail⟩⟩
  | @head node parent hp _ ih =>
    by_cases hstop : node = stop
    · subst hstop
      exact ⟨1, [], by rw [walk, if_pos rfl], fun tail htail => ⟨tail, rfl, htail⟩⟩
    obtain ⟨turns, nodes, hw, hchain⟩ := ih
    refine ⟨turns + 1, parent :: nodes, ?_, fun tail htail => ?_⟩
    · rw [walk, if_neg hstop, hp]
      exact congrArg (Option.map (parent :: ·)) hw
    · obtain ⟨rest, hrest, hchain⟩ := hchain (node :: tail) (isChain_cons_cons.2 ⟨edge_of_findParent hp, htail⟩)
      refine ⟨rest, ?_, hchain⟩
      rw [← hrest, reverse_cons, List.append_assoc, singleton_append]

/-- **The path is a cycle exactly when the parents lead to its start.** -/
theorem collectCyclePath_iff {u w : String} (hedge : Edge D.children u w) :
    (∃ turns nodes, D.collectCyclePath turns u w = some nodes ∧ D.IsCycle nodes) ↔ D.Climbs u w := by
  constructor
  · rintro ⟨turns, nodes, hpath, v, rest, hperm, -, hchain⟩
    obtain ⟨walked, hwalk, rfl⟩ := map_eq_some_iff.1 hpath
    refine (walk_ends hwalk).resolve_right ?_
    rintro ⟨x, hx, hnone⟩
    -- every node of a cycle has a parent
    have hparent : ∀ (l : List String) (a : String), List.IsChain (Edge D.children) (a :: l) → ∀ x ∈ l, ∃ y, Edge D.children y x := by
      intro l
      induction l with
      | nil => exact fun _ _ _ hx => by cases hx
      | cons b l ih =>
        intro a hchain x hx
        obtain ⟨hab, hchain⟩ := isChain_cons_cons.1 hchain
        rcases mem_cons.1 hx with rfl | hx
        · exact ⟨a, hab⟩
        · exact ih b hchain x hx
    obtain ⟨y, hy⟩ := hparent (rest ++ [v]) v hchain x (by
      have hx := hperm.mem_iff.2 hx
      rw [mem_cons] at hx
      rw [mem_append, mem_singleton]
      exact hx.symm)
    obtain ⟨parent, hp⟩ := findParent_isSome hy
    rw [hnone] at hp
    cases hp
  · intro h
    obtain ⟨turns, nodes, hwalk, hchain⟩ := walk_of_climbs h
    obtain ⟨rest, hrest, hchain⟩ := hchain [w] (List.isChain_pair.2 hedge)
    refine ⟨turns, u :: nodes, congrArg _ hwalk, ?_⟩
    -- the path, from its start to the node whose edge closes it
    have hsplit : nodes.reverse ++ [u] ++ [w] = w :: rest := by rw [← hrest, List.append_assoc, singleton_append]
    have hperm : (nodes.reverse ++ [u]).Perm (u :: nodes) := by
      rw [← reverse_cons]
      exact reverse_perm _
    cases hpath : nodes.reverse ++ [u] with
    | nil => simp at hpath
    | cons v path =>
      rw [hpath] at hsplit hperm
      rw [cons_append, List.cons.injEq] at hsplit
      obtain ⟨rfl, rfl⟩ := hsplit
      exact ⟨v, path, hperm, hperm.nodup_iff.2 (walk_nodup hwalk), hchain⟩


/-! ## What the search finds -/

theorem leads_iff {v : String} : D.Leads v ↔ ∃ child ∈ D.children v, D.Leads child := by
  constructor
  · rintro ⟨w, hvw, hcycle⟩
    rcases hvw.cases_head with rfl | ⟨c, hedge, hcw⟩
    · obtain ⟨c, hedge, hcv⟩ := TransGen.head'_iff.1 hcycle
      exact ⟨c, hedge, v, hcv, hcycle⟩
    · exact ⟨c, hedge, w, hcw, hcycle⟩
  · rintro ⟨c, hedge, w, hcw, hcycle⟩
    exact ⟨w, hcw.head hedge, hcycle⟩

theorem mem_keys_of_leads {v : String} (h : D.Leads v) : v ∈ D.keys := by
  by_contra hv
  obtain ⟨c, hc, -⟩ := leads_iff.1 h
  rw [D.outside v hv] at hc
  cases hc

/-- The search under way: the nodes of the path are on the stack, and what else was visited leads to no cycle. -/
structure OnPath (D : DependencyMap) (path : List String) (s : Search) : Prop where
  stack : ∀ v, v ∈ s.recStack ↔ v ∈ path
  seen : ∀ v ∈ path, v ∈ s.visited
  clear : ∀ v ∈ s.visited, v ∈ path ∨ ¬ D.Leads v

theorem OnPath.enter {path : List String} {s : Search} (h : D.OnPath path s) (node : String) :
    D.OnPath (node :: path) ⟨node :: s.visited, node :: s.recStack⟩ where
  stack v := by rw [mem_cons, mem_cons, h.stack]
  seen v hv := by
    rcases mem_cons.1 hv with rfl | hv
    · exact mem_cons_self
    · exact mem_cons_of_mem _ (h.seen v hv)
  clear v hv := by
    rcases mem_cons.1 hv with rfl | hv
    · exact .inl mem_cons_self
    · exact (h.clear v hv).imp_left (mem_cons_of_mem _)

theorem OnPath.leave {path : List String} {s : Search} {node : String} (h : D.OnPath (node :: path) s) (hnode : node ∉ path)
    (hleads : ¬ D.Leads node) :
    D.OnPath path { s with recStack := s.recStack.filter (fun other => decide (other ≠ node)) } where
  stack v := by
    rw [mem_filter, h.stack, mem_cons, decide_eq_true_eq]
    constructor
    · rintro ⟨hv, hne⟩
      exact hv.resolve_left hne
    · exact fun hv => ⟨.inr hv, fun heq => hnode (heq ▸ hv)⟩
  seen v hv := h.seen v (mem_cons_of_mem _ hv)
  clear v hv := by
    rcases h.clear v hv with hin | hclear
    · rcases mem_cons.1 hin with rfl | hin
      · exact .inr hleads
      · exact .inl hin
    · exact .inr hclear

open Classical in
theorem find?_leads {l : List String} {child : String} (h : l.find? (fun v => decide (D.Leads v)) = some child) :
    D.Leads child ∧ ∃ rest, l.dropWhile (fun v => !decide (D.Leads v)) = child :: rest := by
  obtain ⟨hchild, before, rest, rfl, hbefore⟩ := List.find?_eq_some_iff_append.1 h
  refine ⟨of_decide_eq_true hchild, rest, ?_⟩
  rw [dropWhile_append_of_pos hbefore, dropWhile_cons_of_neg (by rw [hchild]; decide)]

section
variable {β : Type} (collect : String → String → β)

open Classical in
theorem someNeighbor_pass (detect : String → Search → Option β × Search) {node : String} {path : List String}
    (hdetect : ∀ child s, Edge D.children node child → D.OnPath path s → child ∉ s.visited → ¬ D.Leads child →
      ∃ s', detect child s = (none, s') ∧ D.OnPath path s') : ∀ (l : List String) (s : Search),
    (∀ v ∈ l, Edge D.children node v) → (∀ v ∈ l, v ∈ path → D.Leads v) → D.OnPath path s →
    ∃ s', D.OnPath path s' ∧ someNeighbor collect detect node l s =
      someNeighbor collect detect node (l.dropWhile (fun v => !decide (D.Leads v))) s'
  | [], s, _, _, h => ⟨s, h, rfl⟩
  | v :: l, s, hedges, hpath, h => by
    by_cases hv : D.Leads v
    · exact ⟨s, h, by rw [dropWhile_cons_of_neg (by simp [hv])]⟩
    rw [dropWhile_cons_of_pos (by simp [hv])]
    obtain ⟨hedge, hedges⟩ := forall_mem_cons.1 hedges
    obtain ⟨hon, hpath⟩ := forall_mem_cons.1 hpath
    rw [someNeighbor]
    by_cases hvisited : v ∈ s.visited
    · rw [if_neg (not_not_intro hvisited), if_neg (fun hs => hv (hon ((h.stack v).1 hs)))]
      exact someNeighbor_pass detect hdetect l s hedges hpath h
    · obtain ⟨s', hs', h'⟩ := hdetect v s hedge h hvisited hv
      rw [if_pos hvisited, hs']
      exact someNeighbor_pass detect hdetect l s' hedges hpath h'

open Classical in
/-- **The search finds the closing edge**, below a node that leads to a cycle, and nothing below another. -/
theorem detectCycle_spec : ∀ (fuel : Nat) {node : String} {path : List String} {s : Search}, D.OnPath path s →
    node ∉ s.visited → (∀ v ∈ path, ReflTransGen (Edge D.children) v node) →
    (¬ D.Leads node → ∃ s', D.detectCycle collect fuel node s = (none, s') ∧ D.OnPath path s') ∧
    ∀ e, D.closing fuel (node :: path) = some e → ∃ s', D.detectCycle collect fuel node s = (some (collect e.1 e.2), s')
  | 0, node, path, s, h, _, _ => ⟨fun _ => ⟨s, rfl, h⟩, fun e he => by cases he⟩
  | fuel + 1, node, path, s, h, hnew, hpath => by
    have hback : ∀ v ∈ node :: path, ReflTransGen (Edge D.children) v node := forall_mem_cons.2 ⟨.refl, hpath⟩
    have hchild : ∀ child, Edge D.children node child → ∀ v ∈ node :: path, ReflTransGen (Edge D.children) v child :=
      fun child hedge v hv => (hback v hv).tail hedge
    obtain ⟨s', h', hpass⟩ := someNeighbor_pass collect (D.detectCycle collect fuel)
      (fun child s hedge hs hnew => (detectCycle_spec fuel hs hnew (hchild child hedge)).1)
      (D.children node) ⟨node :: s.visited, node :: s.recStack⟩ (fun _ hv => hv)
      (fun v hv hin => ⟨v, .refl, .tail' (hback v hin) hv⟩) (h.enter node)
    constructor
    · intro hleads
      have hnone : ∀ v ∈ D.children node, ¬ D.Leads v := fun v hv hl => hleads (leads_iff.2 ⟨v, hv, hl⟩)
      rw [dropWhile_eq_nil_iff.2 (fun v hv => by simp [hnone v hv]), someNeighbor] at hpass
      refine ⟨_, ?_, h'.leave (fun hin => hnew (h.seen node hin)) hleads⟩
      rw [detectCycle, if_neg hnew, hpass]
    · intro e he
      obtain ⟨child, hfind, he⟩ := bind_eq_some_iff.1 he
      obtain ⟨hleads, rest, hrest⟩ := find?_leads hfind
      rw [hrest, someNeighbor] at hpass
      rw [detectCycle, if_neg hnew, hpass]
      split at he
      · rename_i hin
        cases he
        rw [if_neg (not_not_intro (h'.seen child hin)), if_pos ((h'.stack child).2 hin)]
        exact ⟨_, rfl⟩
      · rename_i hout
        have hfresh : child ∉ s'.visited := fun hv => (h'.clear child hv).elim hout (fun hc => hc hleads)
        obtain ⟨s'', hfound⟩ := (detectCycle_spec fuel h' hfresh (hchild child (mem_of_find?_eq_some hfind))).2 e he
        rw [if_pos hfresh, hfound]
        exact ⟨_, rfl⟩

open Classical in
theorem someKey_pass : ∀ (l : List String) (s : Search), D.OnPath [] s → ∃ s', D.OnPath [] s' ∧
    D.someKey collect l s = D.someKey collect (l.dropWhile (fun v => !decide (D.Leads v))) s'
  | [], s, h => ⟨s, h, rfl⟩
  | v :: l, s, h => by
    by_cases hv : D.Leads v
    · exact ⟨s, h, by rw [dropWhile_cons_of_neg (by simp [hv])]⟩
    rw [dropWhile_cons_of_pos (by simp [hv]), someKey]
    by_cases hvisited : v ∈ s.visited
    · rw [if_neg (not_not_intro hvisited)]
      exact someKey_pass l s h
    · obtain ⟨s', hs', h'⟩ := (detectCycle_spec collect D.keys.length h hvisited (fun _ hp => by cases hp)).1 hv
      rw [if_pos hvisited, hs']
      exact someKey_pass l s' h'

end

open Classical in
/-- From a node that leads to a cycle a path comes back to itself before it has more nodes than there are. -/
theorem closing_isSome : ∀ (fuel : Nat) {node : String} {path : List String}, D.Leads node → (node :: path).Nodup →
    node :: path ⊆ D.keys → D.keys.length < fuel + (node :: path).length → ∃ e, D.closing fuel (node :: path) = some e
  | 0, node, path, _, hnodup, hsub, hlt => by
    have hle := (subperm_of_subset hnodup hsub).length_le
    omega
  | fuel + 1, node, path, hleads, hnodup, hsub, hlt => by
    obtain ⟨v, hv, hvleads⟩ := leads_iff.1 hleads
    obtain ⟨child, hchild⟩ : ∃ child, (D.children node).find? (fun v => decide (D.Leads v)) = some child :=
      isSome_iff_exists.1 (List.find?_isSome.2 ⟨v, hv, decide_eq_true hvleads⟩)
    rw [closing, hchild, bind_some]
    split
    · exact ⟨_, rfl⟩
    · rename_i hout
      have hc := (find?_leads hchild).1
      refine closing_isSome fuel hc (nodup_cons.2 ⟨hout, hnodup⟩) (cons_subset.2 ⟨mem_keys_of_leads hc, hsub⟩) ?_
      rw [length_cons]
      omega

theorem edge_of_closing : ∀ {fuel : Nat} {path : List String} {u w : String}, D.closing fuel path = some (u, w) →
    Edge D.children u w
  | fuel + 1, node :: path, u, w, h => by
    obtain ⟨child, hchild, h⟩ := bind_eq_some_iff.1 h
    split at h
    · cases h
      exact mem_of_find?_eq_some hchild
    · exact edge_of_closing h

theorem edge_of_closingEdge {u w : String} (h : D.closingEdge = some (u, w)) : Edge D.children u w := by
  obtain ⟨node, -, h⟩ := bind_eq_some_iff.1 h
  exact edge_of_closing h

open Classical in
theorem closingEdge_eq_none : D.closingEdge = none ↔ ∀ v, ¬ TransGen (Edge D.children) v v := by
  rw [closingEdge]
  cases hfind : D.keys.find? (fun v => decide (D.Leads v)) with
  | none =>
    refine iff_of_true rfl (fun v hcycle => ?_)
    have hleads : D.Leads v := ⟨v, .refl, hcycle⟩
    exact List.find?_eq_none.1 hfind v (mem_keys_of_leads hleads) (decide_eq_true hleads)
  | some node =>
    obtain ⟨hleads, -⟩ := find?_leads hfind
    obtain ⟨e, he⟩ := closing_isSome D.keys.length hleads (nodup_singleton node)
      (cons_subset.2 ⟨mem_keys_of_leads hleads, List.nil_subset _⟩) (Nat.lt_succ_self _)
    obtain ⟨w, -, hcycle⟩ := hleads
    rw [bind_some, he]
    exact iff_of_false nofun (fun h => h w hcycle)

open Classical in
/-- **The search comes to the closing edge.** -/
theorem someKey_eq {β : Type} (collect : String → String → β) :
    D.someKey collect D.keys {} = D.closingEdge.map (fun e => collect e.1 e.2) := by
  have hstart : D.OnPath [] {} := ⟨fun _ => Iff.rfl, fun _ h => (by cases h), fun _ h => (by cases h)⟩
  obtain ⟨s, hs, hpass⟩ := someKey_pass collect D.keys {} hstart
  rw [hpass]
  cases hclosing : D.closingEdge with
  | none =>
    have hnone : ∀ v, ¬ D.Leads v := fun v hv => by
      obtain ⟨w, -, hcycle⟩ := hv
      exact closingEdge_eq_none.1 hclosing w hcycle
    rw [dropWhile_eq_nil_iff.2 (fun v _ => by simp [hnone v])]
    rfl
  | some e =>
    obtain ⟨node, hfind, he⟩ := bind_eq_some_iff.1 hclosing
    obtain ⟨hleads, rest, hrest⟩ := find?_leads hfind
    have hfresh : node ∉ s.visited := fun hv => (hs.clear node hv).elim (fun h => by cases h) (fun h => h hleads)
    obtain ⟨s', hfound⟩ := (detectCycle_spec collect D.keys.length hs hfresh (fun _ hp => by cases hp)).2 e he
    rw [hrest, someKey, if_pos hfresh, hfound]
    rfl

/-! ## What is built -/

theorem right_result_iff (cycleNodes : Option (List String)) : D.Right (D.result cycleNodes) ↔
    ((∃ v, TransGen (Edge D.children) v v) → ∃ nodes, cycleNodes = some nodes ∧ D.IsCycle nodes) := by
  have hperm := inDegreeKeys_perm D.nodup D.closed
  obtain ⟨honce, hafter, hmem⟩ := kahn_spec D.nodup hperm D.closed D.outside
  have hcycle : (D.result cycleNodes).hasCycle = true ↔ ∃ v, TransGen (Edge D.children) v v := by
    have hsub : (D.result cycleNodes).order.Subperm D.keys := subperm_of_subset honce (fun v hv => ((hmem v).1 hv).1)
    rw [result, decide_eq_true_iff]
    constructor
    · intro hne
      by_contra hno
      refine hne (le_antisymm hsub.length_le (subperm_of_subset D.nodup (fun v hv => (hmem v).2 ⟨hv, ?_⟩)).length_le)
      rintro ⟨w, hw, -⟩
      exact hno ⟨w, hw⟩
    · rintro ⟨v, hv⟩ heq
      have hin : v ∈ D.keys := mem_keys_of_leads ⟨v, .refl, hv⟩
      exact ((hmem v).1 ((hsub.perm_of_length_le heq.ge).mem_iff.2 hin)).2 ⟨v, hv, .refl⟩
  constructor
  · exact fun h hcyclic => h.cycleNodes (hcycle.2 hcyclic)
  · refine fun h => ⟨hmem, honce, hafter, hcycle, fun hcyclic => h (hcycle.1 hcyclic), fun hacyclic node hnode v => ?_⟩
    obtain ⟨hsorted, hall⟩ := kahn_sorted D.nodup hperm D.closed hacyclic
    exact mem_descendants hsorted ((hall node).2 hnode)

def selfReferring : DependencyMap where
  keys := ["p", "n", "e"]
  children node := if node = "p" then ["n", "e", "p"] else if node = "n" then ["e"] else if node = "e" then ["n"] else []
  nodup := by decide
  closed := by decide
  simple node := by
    split
    · decide
    · split
      · decide
      · split <;> decide
  outside node hnode := by
    simp only [List.mem_cons, List.not_mem_nil, or_false, not_or] at hnode
    rw [if_neg hnode.1, if_neg hnode.2.1, if_neg hnode.2.2]
  named := by decide

end DependencyMap
end Dashboard
end DsApm
