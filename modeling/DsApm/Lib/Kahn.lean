import Mathlib.Order.WellFoundedSet
import DsApm.Lib.Lists
import Mathlib.Algebra.GroupWithZero.Nat
/-!
# Kahn — Kahn's algorithm, and descendants read off its order

Nodes without edges from nodes that are left are taken one by one; a node is queued when its last edge goes.  Every node is
taken after its parents, and of a graph without cycles every node is taken (`kahn_sorted`).

`descendants` walks such an order from its end and collects, for every node, its children and theirs.  In its list a
node stands after one of its parents (`front_descendants`), not after all of them.
-/
namespace Kahn

open Relation List

variable {α : Type} [DecidableEq α] (adj : α → List α)

def Edge (u v : α) : Prop := v ∈ adj u

def relax (s : (α → Int) × List α) (neighbor : α) : (α → Int) × List α :=
  let inDegree := Function.update s.1 neighbor (s.1 neighbor - 1)
  (inDegree, if inDegree neighbor = 0 then s.2 ++ [neighbor] else s.2)

def loop : Nat → (α → Int) → List α → List α → List α
  | 0, _, _, order => order
  | _ + 1, _, [], order => order
  | n + 1, inDegree, current :: queue, order =>
    let s := (adj current).foldl relax (inDegree, queue)
    loop n s.1 s.2 (order ++ [current])

def inDegrees (nodes : List α) : α → Int :=
  nodes.foldl (fun inDegree node =>
    (adj node).foldl (fun inDegree child => Function.update inDegree child (inDegree child + 1)) inDegree) (fun _ => 0)

/-- The order in which the nodes are taken; `keys` are the nodes in the order they are looked through for the first
queue. -/
def kahn (nodes keys : List α) : List α :=
  loop adj nodes.length (inDegrees adj nodes) (keys.filter (fun node => decide (inDegrees adj nodes node = 0))) []

def left (nodes order : List α) (v : α) : Nat :=
  ((nodes.filter (fun u => decide (u ∉ order))).map (fun u => (adj u).count v)).sum

variable {adj}

/-! ## One turn -/

theorem foldl_relax : ∀ (l : List α) (inDegree : α → Int) (queue : List α), (∀ v ∈ l, (l.count v : Int) ≤ inDegree v) →
    (∀ v, (l.foldl relax (inDegree, queue)).1 v = inDegree v - l.count v) ∧
    ∃ new : List α, (l.foldl relax (inDegree, queue)).2 = queue ++ new ∧ new.Nodup ∧
      ∀ v, v ∈ new ↔ v ∈ l ∧ inDegree v = l.count v
  | [], inDegree, queue, _ => ⟨fun v => by simp, [], by simp, nodup_nil, fun v => by simp⟩
  | c :: l, inDegree, queue, h => by
    have hc : ((l.count c : Nat) : Int) + 1 ≤ inDegree c := by
      have := h c mem_cons_self
      rw [count_cons_self] at this
      exact_mod_cast this
    have hother : ∀ v, v ≠ c → (c :: l).count v = l.count v := fun v hv => count_cons_of_ne (Ne.symm hv)
    have hle : ∀ v ∈ l, (l.count v : Int) ≤ Function.update inDegree c (inDegree c - 1) v := by
      intro v hv
      by_cases hvc : v = c
      · subst hvc
        rw [Function.update_self]
        omega
      · rw [Function.update_of_ne hvc, ← hother v hvc]
        exact h v (mem_cons_of_mem _ hv)
    rw [foldl_cons]
    simp only [relax, Function.update_self]
    obtain ⟨hdeg, new, hqueue, hnodup, hmem⟩ := foldl_relax l (Function.update inDegree c (inDegree c - 1))
      (if inDegree c - 1 = 0 then queue ++ [c] else queue) hle
    refine ⟨fun v => ?_, (if inDegree c - 1 = 0 then [c] else []) ++ new, ?_, ?_, fun v => ?_⟩
    · rw [hdeg v]
      by_cases hvc : v = c
      · subst hvc
        rw [Function.update_self, count_cons_self]
        omega
      · rw [Function.update_of_ne hvc, hother v hvc]
    · rw [hqueue]
      split <;> simp
    · -- a node that is queued now has no further edge in the list
      split
      · rename_i hzero
        refine nodup_append.2 ⟨nodup_singleton _, hnodup, ?_⟩
        rintro a ha b hb rfl
        rw [mem_singleton] at ha
        subst ha
        have := count_pos_iff.2 ((hmem a).1 hb).1
        omega
      · exact hnodup
    · rw [mem_append, hmem v, mem_cons]
      by_cases hvc : v = c
      · subst hvc
        rw [Function.update_self, count_cons_self]
        push_cast
        constructor
        · rintro (h1 | ⟨_, h1⟩)
          · split at h1
            · have : l.count v = 0 := by omega
              exact ⟨.inl rfl, by omega⟩
            · cases h1
          · exact ⟨.inl rfl, by omega⟩
        · rintro ⟨-, h1⟩
          by_cases hv : v ∈ l
          · exact .inr ⟨hv, by omega⟩
          · have : l.count v = 0 := List.count_eq_zero.2 hv
            rw [if_pos (by omega)]
            exact .inl mem_cons_self
      · rw [Function.update_of_ne hvc, hother v hvc]
        constructor
        · rintro (h1 | ⟨h1, h2⟩)
          · split at h1
            · exact absurd (mem_singleton.1 h1) hvc
            · cases h1
          · exact ⟨.inr h1, h2⟩
        · rintro ⟨h1, h2⟩
          exact .inr ⟨h1.resolve_left hvc, h2⟩

theorem left_snoc {nodes order : List α} (hnodes : nodes.Nodup) {current : α} (hc : current ∈ nodes)
    (hnew : current ∉ order) (v : α) :
    left adj nodes order v = left adj nodes (order ++ [current]) v + (adj current).count v := by
  have hperm : (nodes.filter (fun u => decide (u ∉ order))).Perm
      (current :: nodes.filter (fun u => decide (u ∉ order ++ [current]))) := by
    refine (perm_ext_iff_of_nodup (hnodes.filter _) (nodup_cons.2 ⟨by simp, hnodes.filter _⟩)).2 (fun u => ?_)
    simp only [mem_filter, mem_cons, mem_append, not_mem_nil, or_false, decide_eq_true_eq, not_or]
    constructor
    · rintro ⟨hu, hno⟩
      by_cases huc : u = current
      · exact .inl huc
      · exact .inr ⟨hu, hno, huc⟩
    · rintro (rfl | ⟨hu, hno, -⟩)
      · exact ⟨hc, hnew⟩
      · exact ⟨hu, hno⟩
  unfold left
  rw [(hperm.map _).sum_eq, map_cons, sum_cons, Nat.add_comm]

theorem left_eq_zero {nodes order : List α} {v : α} :
    left adj nodes order v = 0 ↔ ∀ u ∈ nodes, v ∈ adj u → u ∈ order := by
  unfold left
  rw [List.sum_eq_zero_iff_forall_eq_nat, List.forall_mem_map]
  simp only [mem_filter, decide_eq_true_eq, List.count_eq_zero]
  constructor
  · intro h u hu hv
    by_contra hno
    exact h u ⟨hu, hno⟩ hv
  · rintro h u ⟨hu, hno⟩ hv
    exact hno (h u hu hv)

/-! ## The loop -/

def AfterParents (adj : α → List α) (nodes order : List α) : Prop :=
  ∀ l₁ v l₂, order = l₁ ++ v :: l₂ → ∀ u ∈ nodes, v ∈ adj u → u ∈ l₁

/-- What the loop keeps: the degrees count the edges left, the taken and the queued nodes are those without any, each
once, and nodes are taken after their parents. -/
structure Inv (adj : α → List α) (nodes : List α) (inDegree : α → Int) (queue order : List α) : Prop where
  counts : ∀ v, inDegree v = left adj nodes order v
  free : ∀ v, v ∈ order ++ queue ↔ v ∈ nodes ∧ inDegree v = 0
  once : (order ++ queue).Nodup
  after : AfterParents adj nodes order

omit [DecidableEq α] in
theorem AfterParents.snoc {nodes order : List α} (h : AfterParents adj nodes order) {v : α}
    (hv : ∀ u ∈ nodes, v ∈ adj u → u ∈ order) : AfterParents adj nodes (order ++ [v]) := by
  intro l₁ w l₂ heq u hu hw
  rcases append_eq_append_iff.1 heq with ⟨l, hl, hr⟩ | ⟨l, hl, hr⟩
  · cases l with
    | nil =>
      rw [nil_append, List.cons.injEq] at hr
      rw [append_nil] at hl
      rw [hl]
      exact hv u hu (by rw [hr.1]; exact hw)
    | cons x l => simp at hr
  · cases l with
    | nil =>
      rw [nil_append, List.cons.injEq] at hr
      rw [append_nil] at hl
      rw [← hl]
      exact hv u hu (by rw [← hr.1]; exact hw)
    | cons x l =>
      rw [cons_append, List.cons.injEq] at hr
      obtain ⟨rfl, -⟩ := hr
      exact h l₁ w l hl u hu hw

theorem Inv.step {nodes : List α} (hnodes : nodes.Nodup) (hclosed : ∀ u ∈ nodes, ∀ v ∈ adj u, v ∈ nodes)
    {inDegree : α → Int} {current : α} {queue order : List α} (h : Inv adj nodes inDegree (current :: queue) order) :
    Inv adj nodes ((adj current).foldl relax (inDegree, queue)).1 ((adj current).foldl relax (inDegree, queue)).2
      (order ++ [current]) := by
  obtain ⟨hmem, hzero⟩ := (h.free current).1 (by simp)
  have hnew : current ∉ order := fun hc => (nodup_append.1 h.once).2.2 current hc current mem_cons_self rfl
  have hsnoc : ∀ v, left adj nodes order v = _ := left_snoc hnodes hmem hnew
  have hle : ∀ v ∈ adj current, ((adj current).count v : Int) ≤ inDegree v := by
    intro v _
    rw [h.counts v, hsnoc v]
    omega
  obtain ⟨hdeg, new, hqueue, hnodup, hmemnew⟩ := foldl_relax (adj current) inDegree queue hle
  have hparents : ∀ u ∈ nodes, current ∈ adj u → u ∈ order := by
    refine left_eq_zero.1 ?_
    rw [h.counts current] at hzero
    exact_mod_cast hzero
  -- what is queued now still had an edge, so it was neither taken nor queued
  have hfresh : ∀ v ∈ new, v ∉ order ++ current :: queue := by
    intro v hv hold
    obtain ⟨hin, heq⟩ := (hmemnew v).1 hv
    have hpos := count_pos_iff.2 hin
    have := ((h.free v).1 hold).2
    omega
  have hnodup' : (order ++ current :: queue ++ new).Nodup :=
    nodup_append.2 ⟨h.once, hnodup, fun a ha b hb hab => hfresh b hb (hab ▸ ha)⟩
  rw [hqueue]
  refine ⟨fun v => ?_, fun v => ?_, ?_, h.after.snoc hparents⟩
  · rw [hdeg v, h.counts v, hsnoc v]
    push_cast
    omega
  · have hassoc : order ++ [current] ++ (queue ++ new) = (order ++ current :: queue) ++ new := by simp
    rw [hassoc, mem_append, h.free v, hmemnew v, hdeg v]
    constructor
    · rintro (⟨hv, hz⟩ | ⟨hv, heq⟩)
      · have : (adj current).count v = 0 := by
          have := hsnoc v
          rw [h.counts v] at hz
          omega
        exact ⟨hv, by omega⟩
      · exact ⟨hclosed current hmem v hv, by omega⟩
    · rintro ⟨hv, heq⟩
      by_cases hin : v ∈ adj current
      · exact .inr ⟨hin, by omega⟩
      · have : (adj current).count v = 0 := List.count_eq_zero.2 hin
        exact .inl ⟨hv, by omega⟩
  · have hassoc : order ++ [current] ++ (queue ++ new) = order ++ current :: queue ++ new := by simp
    rw [hassoc]
    exact hnodup'

/-- **The loop ends with an empty queue**, with a turn for every node that is not taken yet. -/
theorem loop_spec {nodes : List α} (hnodes : nodes.Nodup) (hclosed : ∀ u ∈ nodes, ∀ v ∈ adj u, v ∈ nodes) :
    ∀ (n : Nat) (inDegree : α → Int) (queue order : List α), Inv adj nodes inDegree queue order →
      nodes.length ≤ n + order.length → ∃ inDegree', Inv adj nodes inDegree' [] (loop adj n inDegree queue order)
  | 0, inDegree, queue, order, h, hn => by
    have hsub : (order ++ queue).length ≤ nodes.length :=
      (subperm_of_subset h.once (fun v hv => ((h.free v).1 hv).1)).length_le
    have hempty : queue = [] := by
      rw [List.length_append] at hsub
      exact eq_nil_of_length_eq_zero (by omega)
    subst hempty
    exact ⟨inDegree, h⟩
  | n + 1, inDegree, [], order, h, _ => ⟨inDegree, h⟩
  | n + 1, inDegree, current :: queue, order, h, hn =>
    loop_spec hnodes hclosed n _ _ _ (h.step hnodes hclosed) (by rw [List.length_append, List.length_singleton]; omega)

theorem inDegrees_eq (nodes : List α) (v : α) : inDegrees adj nodes v = left adj nodes [] v := by
  have hchildren : ∀ (l : List α) (inDegree : α → Int),
      (l.foldl (fun inDegree child => Function.update inDegree child (inDegree child + 1)) inDegree) v =
        inDegree v + l.count v := by
    intro l
    induction l with
    | nil => simp
    | cons c l ih =>
      intro inDegree
      rw [foldl_cons, ih]
      by_cases hvc : v = c
      · subst hvc
        rw [Function.update_self, count_cons_self]
        omega
      · rw [Function.update_of_ne hvc, count_cons_of_ne (Ne.symm hvc)]
  have hnodes : ∀ (l : List α) (inDegree : α → Int),
      (l.foldl (fun inDegree node =>
        (adj node).foldl (fun inDegree child => Function.update inDegree child (inDegree child + 1)) inDegree) inDegree) v =
        inDegree v + ((l.map (fun u => (adj u).count v)).sum : Nat) := by
    intro l
    induction l with
    | nil => simp
    | cons u l ih =>
      intro inDegree
      rw [foldl_cons, ih, hchildren, map_cons, sum_cons]
      push_cast
      omega
  have hall : nodes.filter (fun u => decide (u ∉ ([] : List α))) = nodes := filter_eq_self.2 (fun _ _ => by simp)
  rw [inDegrees, hnodes, left, hall, Int.zero_add]

/-! ## The order -/

/-- Every node stands before its children, which are all in the list, and once. -/
def Sorted (adj : α → List α) : List α → Prop
  | [] => True
  | n :: rest => n ∉ rest ∧ (∀ c ∈ adj n, c ∈ rest) ∧ Sorted adj rest

omit [DecidableEq α] in
theorem acyclic_of_rank (rank : α → Nat) (h : ∀ u, ∀ v ∈ adj u, rank u < rank v) (v : α) : ¬ TransGen (Edge adj) v v := by
  have hlt : ∀ u w, TransGen (Edge adj) u w → rank u < rank w := by
    intro u w huw
    induction huw with
    | single hedge => exact h _ _ hedge
    | tail _ hedge ih => exact ih.trans (h _ _ hedge)
  exact fun hv => lt_irrefl _ (hlt v v hv)

omit [DecidableEq α] in
/-- A set of nodes none of which is on a cycle, with a parent of each of its members in it, is empty. -/
theorem exists_root {s : Finset α} (hacyclic : ∀ v ∈ s, ¬ TransGen (Edge adj) v v) (hs : s.Nonempty) :
    ∃ v ∈ s, ∀ u ∈ s, v ∉ adj u := by
  have : IsStrictOrder α (fun u v => u ∈ s ∧ TransGen (Edge adj) u v) :=
    { irrefl := fun v hv => hacyclic v hv.1 hv.2, trans := fun _ _ _ huv hvw => ⟨huv.1, huv.2.trans hvw.2⟩ }
  have hwf : (s : Set α).WellFoundedOn (fun u v => u ∈ s ∧ TransGen (Edge adj) u v) := s.finite_toSet.wellFoundedOn
  obtain ⟨v, hv⟩ := hs
  obtain ⟨m, hm, hmin⟩ := hwf.has_min Set.univ ⟨⟨v, hv⟩, trivial⟩
  exact ⟨m.1, m.2, fun u hu hedge => hmin ⟨u, hu⟩ trivial ⟨hu, TransGen.single hedge⟩⟩

/-- A cycle leads to the node: it is on one, or reachable from one. -/
def Tainted (adj : α → List α) (v : α) : Prop := ∃ w, TransGen (Edge adj) w w ∧ ReflTransGen (Edge adj) w v

open Classical in
theorem Inv.taken {nodes : List α} {inDegree : α → Int} {order : List α} (h : Inv adj nodes inDegree [] order) {v : α}
    (hv : v ∈ nodes) (hclean : ¬ Tainted adj v) : v ∈ order := by
  by_contra hno
  obtain ⟨w, hw, hroot⟩ := exists_root
    (s := nodes.toFinset.filter (fun u => u ∉ order ∧ ReflTransGen (Edge adj) u v))
    (fun w hw hcycle => hclean ⟨w, hcycle, (Finset.mem_filter.1 hw).2.2⟩) ⟨v, by simp [hv, hno, ReflTransGen.refl]⟩
  rw [Finset.mem_filter, List.mem_toFinset] at hw
  refine hw.2.1 ?_
  have hfree := (h.free w).2 ⟨hw.1, ?_⟩
  · rwa [append_nil] at hfree
  · -- no parent of the node is left
    rw [h.counts w]
    refine Int.natCast_eq_zero.2 (left_eq_zero.2 (fun u hu hedge => ?_))
    by_contra hu'
    exact hroot u (by simp [hu, hu', hw.2.2.head hedge]) hedge

theorem Inv.before {nodes : List α} (hout : ∀ u ∉ nodes, adj u = []) {inDegree : α → Int} {order : List α}
    (h : Inv adj nodes inDegree [] order) {u v : α} (huv : TransGen (Edge adj) u v) (hv : v ∈ order) :
    u ∈ order ∧ order.idxOf u < order.idxOf v := by
  have honce := h.once
  rw [append_nil] at honce
  have hstep : ∀ u v, Edge adj u v → v ∈ order → u ∈ order ∧ order.idxOf u < order.idxOf v := by
    intro u v hedge hv
    have hu : u ∈ nodes := by
      by_contra hu
      rw [Edge, hout u hu] at hedge
      cases hedge
    obtain ⟨l₁, l₂, rfl⟩ := append_of_mem hv
    have hin := h.after l₁ v l₂ rfl u hu hedge
    have hv₁ : v ∉ l₁ := fun hv₁ => (nodup_append.1 honce).2.2 v hv₁ v mem_cons_self rfl
    refine ⟨mem_append_left _ hin, ?_⟩
    rw [List.idxOf_append_of_mem hin, List.idxOf_append_of_notMem hv₁]
    exact (List.idxOf_lt_length_iff.2 hin).trans_le (Nat.le_add_right _ _)
  induction huv with
  | single hedge => exact hstep _ _ hedge hv
  | tail _ hedge ih =>
    obtain ⟨hw, hlt⟩ := hstep _ _ hedge hv
    obtain ⟨hu, hlt'⟩ := ih hw
    exact ⟨hu, hlt'.trans hlt⟩

omit [DecidableEq α] in
theorem sorted_of_after {nodes order : List α} (hafter : AfterParents adj nodes order) (honce : order.Nodup)
    (hmem : ∀ v, v ∈ order ↔ v ∈ nodes) (hclosed : ∀ u ∈ nodes, ∀ v ∈ adj u, v ∈ nodes) :
    ∀ l l' : List α, order = l ++ l' → Sorted adj l'
  | _, [], _ => trivial
  | l, n :: rest, heq => by
    have hnodup : (n :: rest).Nodup := by
      rw [heq] at honce
      exact (nodup_append.1 honce).2.1
    have hn : n ∈ nodes := (hmem n).1 (by rw [heq]; simp)
    refine ⟨(nodup_cons.1 hnodup).1, fun c hc => ?_,
      sorted_of_after hafter honce hmem hclosed (l ++ [n]) rest (by rw [heq]; simp)⟩
    have hcin : c ∈ order := (hmem c).2 (hclosed n hn c hc)
    obtain ⟨l₁, l₂, hsplit⟩ := append_of_mem hcin
    have hbefore := hafter l₁ c l₂ hsplit n hn hc
    -- the node is in front of its child, so the child is behind the node
    rw [heq] at hsplit
    rcases append_eq_append_iff.1 hsplit with ⟨m, hl, hr⟩ | ⟨m, hl, hr⟩
    · cases m with
      | nil =>
        rw [append_nil] at hl
        rw [heq] at honce
        exact absurd rfl ((nodup_append.1 honce).2.2 n (by rw [← hl]; exact hbefore) n mem_cons_self)
      | cons x m =>
        rw [cons_append, List.cons.injEq] at hr
        rw [hr.2]
        simp
    · rw [heq] at honce
      refine absurd rfl ((nodup_append.1 honce).2.2 n ?_ n mem_cons_self)
      rw [hl]
      exact mem_append_left _ hbefore

theorem inv_kahn {nodes keys : List α} (hnodes : nodes.Nodup) (hkeys : keys.Perm nodes)
    (hclosed : ∀ u ∈ nodes, ∀ v ∈ adj u, v ∈ nodes) : ∃ inDegree, Inv adj nodes inDegree [] (kahn adj nodes keys) := by
  have hstart : Inv adj nodes (inDegrees adj nodes)
      (keys.filter (fun node => decide (inDegrees adj nodes node = 0))) [] := by
    refine ⟨inDegrees_eq nodes, fun v => ?_, ?_, fun l₁ v l₂ h => ?_⟩
    · rw [nil_append, mem_filter, hkeys.mem_iff, decide_eq_true_eq]
    · exact (hkeys.nodup_iff.2 hnodes).filter _
    · simp at h
  exact loop_spec hnodes hclosed nodes.length _ _ _ hstart (by simp)

/-- **Kahn's algorithm takes the nodes to which no cycle leads**, each once and after its parents. -/
theorem kahn_spec {nodes keys : List α} (hnodes : nodes.Nodup) (hkeys : keys.Perm nodes)
    (hclosed : ∀ u ∈ nodes, ∀ v ∈ adj u, v ∈ nodes) (hout : ∀ u ∉ nodes, adj u = []) :
    (kahn adj nodes keys).Nodup ∧ AfterParents adj nodes (kahn adj nodes keys) ∧
      ∀ v, v ∈ kahn adj nodes keys ↔ v ∈ nodes ∧ ¬ Tainted adj v := by
  obtain ⟨inDegree, hinv⟩ := inv_kahn hnodes hkeys hclosed
  have honce := hinv.once
  rw [append_nil] at honce
  refine ⟨honce, hinv.after, fun v => ⟨fun hv => ⟨((hinv.free v).1 (mem_append_left _ hv)).1, ?_⟩,
    fun hv => hinv.taken hv.1 hv.2⟩⟩
  rintro ⟨w, hcycle, hwv⟩
  have hw : w ∈ kahn adj nodes keys := by
    rcases reflTransGen_iff_eq_or_transGen.1 hwv with rfl | hwv
    · exact hv
    · exact (hinv.before hout hwv hv).1
  exact lt_irrefl _ (hinv.before hout hcycle hw).2

/-- **Kahn's algorithm sorts a graph without cycles.** -/
theorem kahn_sorted {nodes keys : List α} (hnodes : nodes.Nodup) (hkeys : keys.Perm nodes)
    (hclosed : ∀ u ∈ nodes, ∀ v ∈ adj u, v ∈ nodes) (hacyclic : ∀ v, ¬ TransGen (Edge adj) v v) :
    Sorted adj (kahn adj nodes keys) ∧ ∀ v, v ∈ kahn adj nodes keys ↔ v ∈ nodes := by
  obtain ⟨inDegree, hinv⟩ := inv_kahn hnodes hkeys hclosed
  have hmem : ∀ v, v ∈ kahn adj nodes keys ↔ v ∈ nodes := fun v => by
    refine ⟨fun hv => ((hinv.free v).1 (mem_append_left _ hv)).1, fun hv => hinv.taken hv ?_⟩
    rintro ⟨w, hcycle, -⟩
    exact hacyclic w hcycle
  have honce := hinv.once
  rw [append_nil] at honce
  exact ⟨sorted_of_after hinv.after honce hmem hclosed [] _ rfl, hmem⟩

/-! ## Descendants -/

/-- Of an order, from its end on: the children of a node, each followed by its own descendants, each node once. -/
def descendants (adj : α → List α) : List α → α → List α
  | [] => fun _ => []
  | node :: rest =>
    let known := descendants adj rest
    Function.update known node ((adj node).flatMap (fun child => child :: known child)).eraseDups

theorem descendants_of_notMem {u : α} : ∀ {order : List α}, u ∉ order → descendants adj order u = []
  | [], _ => rfl
  | n :: rest, h => by
    rw [mem_cons, not_or] at h
    rw [descendants, Function.update_of_ne h.1]
    exact descendants_of_notMem h.2

/-- **The descendants of a node are the nodes it reaches.** -/
theorem mem_descendants {v : α} : ∀ {order : List α}, Sorted adj order → ∀ {u : α}, u ∈ order →
    (v ∈ descendants adj order u ↔ TransGen (Edge adj) u v)
  | n :: rest, ⟨hn, hchildren, hrest⟩, u, hu => by
    rw [descendants]
    by_cases hun : u = n
    · subst hun
      rw [Function.update_self, mem_eraseDups, mem_flatMap, TransGen.head'_iff]
      refine exists_congr (fun c => and_congr_right (fun hc => ?_))
      rw [mem_cons, mem_descendants hrest (hchildren c hc), reflTransGen_iff_eq_or_transGen]
    · rw [Function.update_of_ne hun]
      exact mem_descendants hrest ((mem_cons.1 hu).resolve_left hun)

/-- Every element of the list is in the set, or has a parent in front of it: among those seen or in the list. -/
def Front (adj : α → List α) (A : List α) : List α → List α → Prop
  | _, [] => True
  | seen, x :: xs => (x ∈ A ∨ ∃ p ∈ seen, x ∈ adj p) ∧ Front adj A (x :: seen) xs

omit [DecidableEq α] in
theorem Front.mono {A B : List α} : ∀ {xs seen seen' : List α}, Front adj A seen xs →
    (∀ x, x ∈ A ∨ (∃ p ∈ seen, x ∈ adj p) → x ∈ B ∨ ∃ p ∈ seen', x ∈ adj p) → Front adj B seen' xs
  | [], _, _, _, _ => trivial
  | x :: xs, seen, seen', ⟨hx, hxs⟩, h => by
    refine ⟨h x hx, hxs.mono (fun y hy => ?_)⟩
    rcases hy with hy | ⟨p, hp, hy⟩
    · rcases h y (.inl hy) with hB | ⟨q, hq, hy⟩
      · exact .inl hB
      · exact .inr ⟨q, mem_cons_of_mem _ hq, hy⟩
    · rcases mem_cons.1 hp with rfl | hp
      · exact .inr ⟨p, mem_cons_self, hy⟩
      · rcases h y (.inr ⟨p, hp, hy⟩) with hB | ⟨q, hq, hy⟩
        · exact .inl hB
        · exact .inr ⟨q, mem_cons_of_mem _ hq, hy⟩

omit [DecidableEq α] in
theorem Front.append {A : List α} : ∀ {xs ys seen : List α}, Front adj A seen xs →
    Front adj A (xs.reverse ++ seen) ys → Front adj A seen (xs ++ ys)
  | [], ys, seen, _, h => h
  | x :: xs, ys, seen, ⟨hx, hxs⟩, h => by
    refine ⟨hx, hxs.append ?_⟩
    rwa [reverse_cons, List.append_assoc, singleton_append] at h

theorem Front.filter {A : List α} {a : α} : ∀ {xs seen : List α}, a ∈ seen → Front adj A seen xs →
    Front adj A seen (xs.filter (fun x => !x == a))
  | [], _, _, _ => trivial
  | x :: xs, seen, ha, ⟨hx, hxs⟩ => by
    by_cases hxa : x = a
    · subst hxa
      rw [filter_cons_of_neg (by simp)]
      refine Front.filter ha (hxs.mono (fun y hy => hy.imp_right ?_))
      rintro ⟨p, hp, hyp⟩
      rcases mem_cons.1 hp with rfl | hp
      · exact ⟨p, ha, hyp⟩
      · exact ⟨p, hp, hyp⟩
    · rw [filter_cons_of_pos (by simpa using hxa)]
      exact ⟨hx, Front.filter (mem_cons_of_mem _ ha) hxs⟩

theorem Front.eraseDups {A : List α} {xs seen : List α} (h : Front adj A seen xs) : Front adj A seen xs.eraseDups := by
  match xs, h with
  | [], _ => trivial
  | x :: xs, ⟨hx, hxs⟩ =>
    rw [eraseDups_cons]
    exact ⟨hx, (hxs.filter mem_cons_self).eraseDups⟩
termination_by xs.length
decreasing_by
  have := length_filter_le (fun b => !b == x) xs
  simp only [length_cons]
  omega

/-- **A descendant is listed after one of its parents**, unless it is a child. -/
theorem front_descendants : ∀ {order : List α}, Sorted adj order → ∀ u : α,
    Front adj (adj u) [] (descendants adj order u)
  | [], _, _ => trivial
  | n :: rest, ⟨hn, hchildren, hrest⟩, u => by
    rw [descendants]
    by_cases hun : u = n
    · subst hun
      rw [Function.update_self]
      have hflat : ∀ (l seen : List α), (∀ c ∈ l, c ∈ adj u) →
          Front adj (adj u) seen (l.flatMap (fun child => child :: descendants adj rest child)) := by
        intro l
        induction l with
        | nil => exact fun _ _ => trivial
        | cons c l ih =>
          intro seen hl
          rw [flatMap_cons]
          refine @Front.append _ _ _ (c :: descendants adj rest c) _ _ ⟨.inl (hl c mem_cons_self), ?_⟩
            (ih _ (fun x hx => hl x (mem_cons_of_mem _ hx)))
          refine (front_descendants hrest c).mono (fun x hx => .inr ?_)
          rcases hx with hx | ⟨p, hp, -⟩
          · exact ⟨c, mem_cons_self, hx⟩
          · cases hp
      exact (hflat (adj u) [] (fun _ h => h)).eraseDups
    · rw [Function.update_of_ne hun]
      exact front_descendants hrest u

end Kahn
