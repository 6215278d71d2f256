import DsApm.Lib.Lists
import Mathlib.Data.List.Pairwise
import Mathlib.Data.List.Perm.Subperm
/-!
# Rose — trees with any number of children, and the parent pointers they are built from

A tree is read off nodes that know their children (`grow`), as far as the fuel goes.  Where every node has one parent at
most, the nodes of a tree are those below its root (`mem_values`), each once (`nodup_values`), and fuel for as many nodes
as there are is enough under a node whose chain of parents ends (`grow_isSome`).
-/
inductive Rose (α : Type)
  | node (value : α) (children : List (Rose α))

namespace Rose

open List Option

variable {α β κ : Type}

def value : Rose α → α
  | node a _ => a

def children : Rose α → List (Rose α)
  | node _ cs => cs

@[simp] theorem value_node (a : α) (cs : List (Rose α)) : (node a cs).value = a := rfl
@[simp] theorem children_node (a : α) (cs : List (Rose α)) : (node a cs).children = cs := rfl

theorem ind {P : Rose α → Prop} (h : ∀ a cs, (∀ c ∈ cs, P c) → P (node a cs)) : ∀ t, P t
  | node a cs => h a cs (each cs)
where
  each : ∀ cs : List (Rose α), ∀ c ∈ cs, P c
    | [], _, hc => by cases hc
    | d :: cs, c, hc => (mem_cons.1 hc).elim (fun heq => heq ▸ ind h d) (each cs c)

mutual
def values : Rose α → List α
  | node a cs => a :: valuesEach cs

def valuesEach : List (Rose α) → List α
  | [] => []
  | c :: cs => values c ++ valuesEach cs
end

theorem valuesEach_eq : ∀ cs : List (Rose α), valuesEach cs = cs.flatMap values
  | [] => rfl
  | c :: cs => by rw [valuesEach, valuesEach_eq cs, flatMap_cons]

theorem values_node (a : α) (cs : List (Rose α)) : values (node a cs) = a :: cs.flatMap values := by
  rw [values, valuesEach_eq]

theorem value_mem_values : ∀ t : Rose α, t.value ∈ t.values
  | node a cs => by rw [values_node]; exact mem_cons_self

mutual
def map (f : α → β) : Rose α → Rose β
  | node a cs => node (f a) (mapEach f cs)

def mapEach (f : α → β) : List (Rose α) → List (Rose β)
  | [] => []
  | c :: cs => map f c :: mapEach f cs
end

theorem mapEach_eq (f : α → β) : ∀ cs : List (Rose α), mapEach f cs = cs.map (map f)
  | [] => rfl
  | c :: cs => by rw [mapEach, mapEach_eq f cs, map_cons]

theorem map_node (f : α → β) (a : α) (cs : List (Rose α)) : map f (node a cs) = node (f a) (cs.map (map f)) := by
  rw [map, mapEach_eq]

@[simp] theorem value_map (f : α → β) : ∀ t : Rose α, (map f t).value = f t.value
  | node a cs => by rw [map_node]; rfl

theorem values_map (f : α → β) (t : Rose α) : (map f t).values = t.values.map f := by
  induction t using ind with
  | h a cs ih =>
    rw [map_node, values_node, values_node, map_cons, flatMap_map, map_flatMap]
    exact congrArg _ (flatMap_congr ih)

mutual
def subtrees : Rose α → List (Rose α)
  | node a cs => node a cs :: subtreesEach cs

def subtreesEach : List (Rose α) → List (Rose α)
  | [] => []
  | c :: cs => subtrees c ++ subtreesEach cs
end

theorem subtreesEach_eq : ∀ cs : List (Rose α), subtreesEach cs = cs.flatMap subtrees
  | [] => rfl
  | c :: cs => by rw [subtreesEach, subtreesEach_eq cs, flatMap_cons]

theorem subtrees_node (a : α) (cs : List (Rose α)) : subtrees (node a cs) = node a cs :: cs.flatMap subtrees := by
  rw [subtrees, subtreesEach_eq]

theorem self_mem_subtrees : ∀ t : Rose α, t ∈ t.subtrees
  | node a cs => by rw [subtrees_node]; exact mem_cons_self

theorem map_value_subtrees (t : Rose α) : t.subtrees.map value = t.values := by
  induction t using ind with
  | h a cs ih =>
    rw [subtrees_node, values_node, map_cons, map_flatMap]
    exact congrArg _ (flatMap_congr ih)

theorem subtrees_map (f : α → β) (t : Rose α) : (map f t).subtrees = t.subtrees.map (map f) := by
  induction t using ind with
  | h a cs ih =>
    rw [map_node, subtrees_node, subtrees_node, map_cons, map_node, flatMap_map, map_flatMap]
    exact congrArg _ (flatMap_congr ih)

theorem child_mem_subtrees (t : Rose α) : ∀ s ∈ t.subtrees, ∀ c ∈ s.children, c ∈ t.subtrees := by
  induction t using ind with
  | h a cs ih =>
    intro s hs c hc
    rw [subtrees_node, mem_cons] at hs ⊢
    refine Or.inr (mem_flatMap.2 ?_)
    rcases hs with rfl | hs
    · exact ⟨c, hc, self_mem_subtrees c⟩
    · obtain ⟨d, hd, hs⟩ := mem_flatMap.1 hs
      exact ⟨d, hd, ih d hd s hs c hc⟩

/-- **Every node is the root or the child of one subtree.** -/
theorem values_perm (t : Rose α) : t.values.Perm (t.value :: t.subtrees.flatMap fun s => s.children.map value) := by
  induction t using ind with
  | h a cs ih =>
    rw [values_node, subtrees_node, flatMap_cons, value_node, children_node, perm_cons, flatMap_assoc]
    refine (List.Perm.flatMap_left cs ih).trans ?_
    have hcons := (flatMap_append_perm cs (fun c => [c.value]) fun c => c.subtrees.flatMap fun s => s.children.map value).symm
    rw [← map_eq_flatMap] at hcons
    exact hcons

/-! ## Chains of parents -/

section
variable (parent : κ → Option κ)

/-- The chain of a node's parents ends after so many steps. -/
inductive At : κ → Nat → Prop
  | root {x : κ} (h : parent x = none) : At x 0
  | child {x p : κ} {d : Nat} (h : parent x = some p) (hp : At p d) : At x (d + 1)

abbrev Below : κ → κ → Prop := Relation.ReflTransGen (fun p x => parent x = some p)

variable {parent}

variable {x : κ} {d : Nat}

theorem At.unique {e : Nat} (h : At parent x d) (h' : At parent x e) : d = e := by
  induction h generalizing e with
  | root h =>
    cases h' with
    | root => rfl
    | child h'' => rw [h] at h''; cases h''
  | child h _ ih =>
    cases h' with
    | root h'' => rw [h] at h''; cases h''
    | child h'' hp =>
      rw [h, some_inj] at h''
      rw [ih (h'' ▸ hp)]

theorem At.under {a : κ} (ha : At parent a d) (h : Below parent a x) : ∃ k, At parent x (d + k) := by
  induction h with
  | refl => exact ⟨0, ha⟩
  | tail _ hx ih =>
    obtain ⟨k, hk⟩ := ih
    exact ⟨k + 1, At.child hx hk⟩

theorem At.eq_of_below {a : κ} (ha : At parent a d) (hx : At parent x d) (h : Below parent a x) : a = x := by
  rcases Relation.ReflTransGen.cases_tail h with heq | ⟨p, hp, hpx⟩
  · exact heq.symm
  · obtain ⟨k, hk⟩ := ha.under hp
    have := (At.child hpx hk).unique hx
    omega

theorem below_or_below {a b : κ} (ha : Below parent a x) (hb : Below parent b x) : Below parent a b ∨ Below parent b a := by
  induction ha with
  | refl => exact Or.inr hb
  | tail h hx ih =>
    rcases Relation.ReflTransGen.cases_tail hb with rfl | ⟨p, hp, hpx⟩
    · exact Or.inl (h.tail hx)
    · rw [hx, some_inj] at hpx
      exact ih (hpx ▸ hp)

theorem At.lt_length (h : At parent x d) {N : List κ} (hx : x ∈ N)
    (hN : ∀ y ∈ N, ∀ p, parent y = some p → p ∈ N) : d < N.length := by
  have hchain : ∃ l : List κ, l.Nodup ∧ l.length = d + 1 ∧ l ⊆ N ∧ ∀ y ∈ l, ∃ e ≤ d, At parent y e := by
    induction h with
    | @root x hr =>
      refine ⟨[x], nodup_singleton _, rfl, by simpa using hx, fun y hy => ?_⟩
      rw [mem_singleton.1 hy]
      exact ⟨0, Nat.le_refl _, At.root hr⟩
    | @child x p d hp hd ih =>
      obtain ⟨l, hnd, hlen, hsub, hat⟩ := ih (hN x hx p hp)
      refine ⟨x :: l, nodup_cons.2 ⟨fun hin => ?_, hnd⟩, by simp [hlen], cons_subset.2 ⟨hx, hsub⟩, fun y hy => ?_⟩
      · obtain ⟨e, he, hxe⟩ := hat x hin
        have := (At.child hp hd).unique hxe
        omega
      · rcases mem_cons.1 hy with rfl | hy
        · exact ⟨d + 1, Nat.le_refl _, At.child hp hd⟩
        · obtain ⟨e, he, hye⟩ := hat y hy
          exact ⟨e, by omega, hye⟩
  obtain ⟨l, hnd, hlen, hsub, -⟩ := hchain
  have := (subperm_of_subset hnd hsub).length_le
  omega

/-! ## Trees of the nodes below one -/

inductive Built (kids : κ → List κ) : Rose κ → Prop
  | node {x : κ} {cs : List (Rose κ)} (h : (cs.map value).Perm (kids x)) (hcs : ∀ c ∈ cs, Built kids c) : Built kids (Rose.node x cs)

variable {kids : κ → List κ}

theorem mem_values (hkids : ∀ p x, x ∈ kids p ↔ parent x = some p) {t : Rose κ} (ht : Built kids t) (x : κ) :
    x ∈ t.values ↔ Below parent t.value x := by
  induction ht with
  | @node a cs h _ ih =>
    rw [values_node, mem_cons, mem_flatMap, value_node]
    have hchild : ∀ y, y ∈ cs.map value ↔ parent y = some a := fun y => (h.mem_iff).trans (hkids a y)
    constructor
    · rintro (rfl | ⟨c, hc, hx⟩)
      · exact Relation.ReflTransGen.refl
      · exact Relation.ReflTransGen.head ((hchild c.value).1 (List.mem_map_of_mem hc)) ((ih c hc).1 hx)
    · intro hx
      rcases Relation.ReflTransGen.cases_head hx with rfl | ⟨y, hy, hyx⟩
      · exact Or.inl rfl
      · obtain ⟨c, hc, rfl⟩ := List.mem_map.1 ((hchild y).2 hy)
        exact Or.inr ⟨c, hc, (ih c hc).2 hyx⟩

theorem nodup_forest (hkids : ∀ p x, x ∈ kids p ↔ parent x = some p) {ts : List (Rose κ)} (hbuilt : ∀ t ∈ ts, Built kids t)
    (hat : ∀ t ∈ ts, At parent t.value d) (hroots : (ts.map value).Nodup) (hnd : ∀ t ∈ ts, t.values.Nodup) :
    (ts.flatMap values).Nodup := by
  refine nodup_flatMap.2 ⟨hnd, pairwise_iff_forall_sublist.2 fun {t t'} hsub => ?_⟩
  have ht : t ∈ ts := hsub.subset mem_cons_self
  have ht' : t' ∈ ts := hsub.subset (mem_cons_of_mem _ mem_cons_self)
  have hne : t.value ≠ t'.value := pairwise_iff_forall_sublist.1 (pairwise_map.1 hroots) hsub
  intro x hx hx'
  rw [mem_values hkids (hbuilt t ht)] at hx
  rw [mem_values hkids (hbuilt t' ht')] at hx'
  rcases below_or_below hx hx' with hb | hb
  · exact hne ((hat t ht).eq_of_below (hat t' ht') hb)
  · exact hne ((hat t' ht').eq_of_below (hat t ht) hb).symm

/-- **Every node is in the tree once.** -/
theorem nodup_values (hkids : ∀ p x, x ∈ kids p ↔ parent x = some p) (hnd : ∀ p, (kids p).Nodup) {t : Rose κ} (ht : Built kids t) (hd : At parent t.value d) : t.values.Nodup := by
  induction ht generalizing d with
  | @node a cs h hcs ih =>
    have hat : ∀ c ∈ cs, At parent c.value (d + 1) := fun c hc =>
      At.child ((hkids a c.value).1 (h.mem_iff.1 (List.mem_map_of_mem hc))) hd
    rw [values_node, nodup_cons]
    refine ⟨fun hin => ?_, nodup_forest hkids hcs hat (h.nodup_iff.2 (hnd a)) fun c hc => ih c hc (hat c hc)⟩
    -- the root is less deep than what is under its children
    obtain ⟨c, hc, ha⟩ := mem_flatMap.1 hin
    obtain ⟨k, hk⟩ := (hat c hc).under ((mem_values hkids (hcs c hc) a).1 ha)
    have := hk.unique hd
    omega

/-! ### A forest of different nodes has its own parents -/

section
variable [DecidableEq κ]

def kidsIn (forest : List (Rose κ)) (p : κ) : List κ :=
  match (forest.flatMap subtrees).find? (fun s => decide (s.value = p)) with
  | some s => s.children.map value
  | none => []

def parentIn (forest : List (Rose κ)) (x : κ) : Option κ :=
  ((forest.flatMap subtrees).find? (fun s => decide (x ∈ s.children.map value))).map value

theorem mem_subtrees_of_mem_kidsIn {forest : List (Rose κ)} {p x : κ} (h : x ∈ kidsIn forest p) :
    ∃ s ∈ forest.flatMap subtrees, s.value = p ∧ x ∈ s.children.map value := by
  unfold kidsIn at h
  cases hf : (forest.flatMap subtrees).find? (fun s => decide (s.value = p)) with
  | none =>
    rw [hf] at h
    cases h
  | some s =>
    rw [hf] at h
    exact ⟨s, mem_of_find?_eq_some hf, by simpa using List.find?_some hf, h⟩

variable {forest : List (Rose κ)} (hnd : (forest.flatMap values).Nodup)
include hnd

omit [DecidableEq κ] in
theorem subtree_unique {s s' : Rose κ} (hs : s ∈ forest.flatMap subtrees) (hs' : s' ∈ forest.flatMap subtrees) (h : s.value = s'.value) :
    s = s' := by
  have hmap : (forest.flatMap subtrees).map value = forest.flatMap values := by
    rw [map_flatMap]
    exact flatMap_congr fun t _ => map_value_subtrees t
  exact inj_on_of_nodup_map (hmap ▸ hnd) hs hs' h

omit [DecidableEq κ] in
theorem nodup_children : (forest.map value ++ (forest.flatMap subtrees).flatMap fun s => s.children.map value).Nodup := by
  have hperm : (forest.flatMap values).Perm (forest.map value ++ (forest.flatMap subtrees).flatMap fun s => s.children.map value) := by
    rw [flatMap_assoc, map_eq_flatMap]
    exact (List.Perm.flatMap_left forest fun t _ => values_perm t).trans
      (flatMap_append_perm forest (fun t : Rose κ => [t.value]) fun t => t.subtrees.flatMap fun s : Rose κ => s.children.map value).symm
  exact hperm.nodup_iff.1 hnd

omit [DecidableEq κ] in
theorem one_parent {s s' : Rose κ} (hs : s ∈ forest.flatMap subtrees) (hs' : s' ∈ forest.flatMap subtrees) {x : κ}
    (h : x ∈ s.children.map value) (h' : x ∈ s'.children.map value) : s = s' := by
  by_contra hne
  have hdisjoint := (nodup_flatMap.1 (nodup_append.1 (nodup_children hnd)).2.1).2
  have : Std.Symm (Function.onFun List.Disjoint fun s : Rose κ => s.children.map value) := ⟨fun _ _ hab => disjoint_symm hab⟩
  exact hdisjoint.forall hs hs' hne h h'

theorem kidsIn_value {s : Rose κ} (hs : s ∈ forest.flatMap subtrees) : kidsIn forest s.value = s.children.map value := by
  unfold kidsIn
  cases hf : (forest.flatMap subtrees).find? (fun s' => decide (s'.value = s.value)) with
  | none =>
    have := List.find?_eq_none.1 hf s hs
    simp at this
  | some s' =>
    rw [subtree_unique hnd (mem_of_find?_eq_some hf) hs (by simpa using List.find?_some hf)]

theorem mem_kidsIn (p x : κ) : x ∈ kidsIn forest p ↔ parentIn forest x = some p := by
  unfold parentIn
  rw [map_eq_some_iff]
  constructor
  · intro h
    obtain ⟨s, hs, rfl, hx⟩ := mem_subtrees_of_mem_kidsIn h
    cases hf : (forest.flatMap subtrees).find? (fun s => decide (x ∈ s.children.map value)) with
    | none => exact absurd (decide_eq_true hx) (List.find?_eq_none.1 hf s hs)
    | some s' =>
      have hx' : x ∈ s'.children.map value := by simpa using List.find?_some hf
      exact ⟨s', rfl, by rw [one_parent hnd (mem_of_find?_eq_some hf) hs hx' hx]⟩
  · rintro ⟨s, hf, rfl⟩
    rw [kidsIn_value hnd (mem_of_find?_eq_some hf)]
    simpa using List.find?_some hf

theorem parentIn_root {t : Rose κ} (ht : t ∈ forest) : parentIn forest t.value = none := by
  unfold parentIn
  rw [map_eq_none_iff, List.find?_eq_none]
  intro s hs hx
  exact (nodup_append.1 (nodup_children hnd)).2.2 _ (List.mem_map_of_mem ht) _
    (mem_flatMap.2 ⟨s, hs, of_decide_eq_true hx⟩) rfl

theorem built_kidsIn (t : Rose κ) : t ∈ forest.flatMap subtrees → Built (kidsIn forest) t := by
  induction t using ind with
  | h a cs ih =>
    intro ht
    refine Built.node ?_ fun c hc => ih c hc ?_
    · rw [show kidsIn forest a = cs.map value from kidsIn_value hnd ht]
    · obtain ⟨u, hu, hin⟩ := mem_flatMap.1 ht
      exact mem_flatMap.2 ⟨u, hu, child_mem_subtrees u _ hin c hc⟩

end

inductive Ordered (R : κ → κ → Prop) : Rose κ → Prop
  | node {x : κ} {cs : List (Rose κ)} (h : (cs.map value).Pairwise R) (hcs : ∀ c ∈ cs, Ordered R c) : Ordered R (Rose.node x cs)

theorem eq_of_map_eq {f : α → β} : ∀ {l l' : List α}, (∀ a ∈ l, ∀ b ∈ l', f a = f b → a = b) → l.map f = l'.map f → l = l'
  | [], [], _, _ => rfl
  | [], _ :: _, _, h => by simp at h
  | _ :: _, [], _, h => by simp at h
  | a :: l, b :: l', hinj, h => by
    rw [map_cons, map_cons, List.cons.injEq] at h
    rw [hinj a mem_cons_self b mem_cons_self h.1,
      eq_of_map_eq (fun c hc d hd => hinj c (mem_cons_of_mem _ hc) d (mem_cons_of_mem _ hd)) h.2]

/-- **One tree**: where no two children of a node go both ways round, the order leaves one tree under a root. -/
theorem built_unique {R : κ → κ → Prop} {kids' : κ → List κ} (hkids : ∀ p, (kids p).Perm (kids' p)) (t : Rose κ) : ∀ {t' : Rose κ},
    Built kids t → Built kids' t' → Ordered R t → Ordered R t' →
      (∀ p ∈ t.values, ∀ x ∈ kids p, ∀ y ∈ kids p, R x y → R y x → x = y) → t.value = t'.value → t = t' := by
  induction t using ind with
  | h a cs ih =>
    rintro ⟨a', cs'⟩ hbuilt hbuilt' hord hord' hanti hroot
    rw [value_node, value_node] at hroot
    subst hroot
    cases hbuilt with
    | node hkids₁ hcs₁ =>
    cases hbuilt' with
    | node hkids₂ hcs₂ =>
    cases hord with
    | node hpair₁ hord₁ =>
    cases hord' with
    | node hpair₂ hord₂ =>
    have hperm : (cs.map value).Perm (cs'.map value) := hkids₁.trans ((hkids a).trans hkids₂.symm)
    have hself : a ∈ (node a cs).values := value_mem_values _
    have hroots : cs.map value = cs'.map value :=
      hperm.eq_of_pairwise (fun x y hx hy => hanti a hself x (hkids₁.mem_iff.1 hx) y (hkids₁.mem_iff.1 (hperm.mem_iff.2 hy)))
        hpair₁ hpair₂
    rw [eq_of_map_eq (fun c hc c' hc' => ?_) hroots]
    refine ih c hc (hcs₁ c hc) (hcs₂ c' hc') (hord₁ c hc) (hord₂ c' hc') fun p hp => hanti p ?_
    rw [values_node]
    exact mem_cons_of_mem _ (mem_flatMap.2 ⟨c, hc, hp⟩)

/-! ## Subtrees in the list of the nodes -/

theorem children_sublist : ∀ cs : List (Rose α), (cs.map value).Sublist (cs.flatMap values)
  | [] => List.Sublist.slnil
  | node a ds :: cs => by
    rw [map_cons, flatMap_cons, values_node, cons_append]
    exact ((children_sublist cs).trans (sublist_append_right _ _)).cons_cons a

theorem exists_sub {P : Rose α → Prop} (hP : ∀ a cs, P (node a cs) → ∀ c ∈ cs, P c) (t : Rose α) : P t → ∀ x ∈ t.values,
    ∃ sub, P sub ∧ sub.value = x ∧ sub.values.Sublist t.values := by
  induction t using ind with
  | h a cs ih =>
    intro ht x hx
    rw [values_node, mem_cons] at hx
    rcases hx with rfl | hx
    · exact ⟨_, ht, rfl, List.Sublist.refl _⟩
    · obtain ⟨c, hc, hx⟩ := mem_flatMap.1 hx
      obtain ⟨sub, hsub, hval, hlist⟩ := ih c hc (hP a cs ht c hc) x hx
      refine ⟨sub, hsub, hval, hlist.trans ?_⟩
      rw [values_node]
      rw [flatMap_def]
      exact (sublist_flatten_of_mem (List.mem_map_of_mem hc)).cons a

/-! ## Reading a tree off its nodes -/

/-- The tree under a node, from what each node holds and which children it has; nothing without enough fuel. -/
def grow (look : κ → Option (α × List κ)) : Nat → κ → Option (Rose α)
  | 0, _ => none
  | n + 1, x => (look x).bind fun e => (e.2.mapM (grow look n)).map (node e.1)

variable {look : κ → Option (α × List κ)}

theorem grow_succ_eq_some {n : Nat} {t : Rose α} :
    grow look (n + 1) x = some t ↔
      ∃ a ks cs, look x = some (a, ks) ∧ List.Forall₂ (fun k c => grow look n k = some c) ks cs ∧ t = node a cs := by
  rw [grow, bind_eq_some_iff]
  constructor
  · rintro ⟨⟨a, ks⟩, hlook, h⟩
    obtain ⟨cs, hcs, rfl⟩ := map_eq_some_iff.1 h
    exact ⟨a, ks, cs, hlook, MapM.mapM_eq_some.1 hcs, rfl⟩
  · rintro ⟨a, ks, cs, hlook, hcs, rfl⟩
    exact ⟨(a, ks), hlook, map_eq_some_iff.2 ⟨cs, MapM.mapM_eq_some.2 hcs, rfl⟩⟩

/-- **Fuel for the nodes there are is enough** under a node whose chain of parents ends. -/
theorem grow_isSome {N : List κ} (hlook : ∀ x ∈ N, look x ≠ none)
    (hkids : ∀ x ∈ N, ∀ a ks, look x = some (a, ks) → ∀ k ∈ ks, k ∈ N ∧ parent k = some x)
    (hN : ∀ y ∈ N, ∀ p, parent y = some p → p ∈ N) : ∀ (n : Nat) {x : κ} {d : Nat}, x ∈ N → At parent x d → N.length ≤ n + d →
      ∃ t, grow look n x = some t
  | 0, x, d, hx, hd, hn => by
    have := hd.lt_length hx hN
    omega
  | n + 1, x, d, hx, hd, hn => by
    obtain ⟨⟨a, ks⟩, heq⟩ := ne_none_iff_exists'.1 (hlook x hx)
    have hall : ∀ k ∈ ks, ∃ c, grow look n k = some c := fun k hk => by
      obtain ⟨hkN, hkp⟩ := hkids x hx a ks heq k hk
      exact grow_isSome hlook hkids hN n hkN (At.child hkp hd) (by omega)
    have hcs : ∃ cs, List.Forall₂ (fun k c => grow look n k = some c) ks cs := by
      clear heq
      induction ks with
      | nil => exact ⟨[], List.Forall₂.nil⟩
      | cons k ks ih =>
        obtain ⟨c, hc⟩ := hall k mem_cons_self
        obtain ⟨cs, hcs⟩ := ih fun k' hk' => hall k' (mem_cons_of_mem _ hk')
        exact ⟨c :: cs, List.Forall₂.cons hc hcs⟩
    obtain ⟨cs, hcs⟩ := hcs
    exact ⟨_, grow_succ_eq_some.2 ⟨a, ks, cs, heq, hcs, rfl⟩⟩

theorem grow_mono : ∀ {n : Nat} {x : κ} {t : Rose α}, grow look n x = some t →
    grow look (n + 1) x = some t
  | 0, _, _, h => by cases h
  | n + 1, x, t, h => by
    obtain ⟨a, ks, cs, heq, hcs, rfl⟩ := grow_succ_eq_some.1 h
    exact grow_succ_eq_some.2 ⟨a, ks, cs, heq, hcs.imp fun _ _ hk => grow_mono hk, rfl⟩

theorem grow_of_le {n m : Nat} (h : n ≤ m) {t : Rose α} (ht : grow look n x = some t) :
    grow look m x = some t := by
  induction h with
  | refl => exact ht
  | step _ ih => exact grow_mono ih

theorem forall₂_right {R : α → β → Prop} {l : List α} {bs : List β} (h : List.Forall₂ R l bs) : ∀ b ∈ bs, ∃ a ∈ l, R a b := by
  induction h with
  | nil => intro b hb; cases hb
  | cons hab _ ih =>
    intro b hb
    rcases mem_cons.1 hb with rfl | hb
    · exact ⟨_, mem_cons_self, hab⟩
    · obtain ⟨a, ha, h⟩ := ih b hb
      exact ⟨a, mem_cons_of_mem _ ha, h⟩

theorem map_eq_of_forall₂ {f : β → κ} {l : List κ} {bs : List β} (h : List.Forall₂ (fun k b => f b = k) l bs) : bs.map f = l := by
  induction h with
  | nil => rfl
  | cons hab _ ih => rw [map_cons, hab, ih]

/-- **A tree that was read has the nodes' children** and what they hold. -/
theorem built_of_grow {key : α → κ} {kids : κ → List κ}
    (hlook : ∀ x a ks, look x = some (a, ks) → key a = x ∧ ks.Perm (kids x)) :
    ∀ (n : Nat) {x : κ} {t : Rose α}, grow look n x = some t →
      (key t.value = x ∧ Built kids (t.map key)) ∧ ∀ a ∈ t.values, ∃ ks, look (key a) = some (a, ks)
  | 0, _, _, h => by cases h
  | n + 1, x, t, h => by
    obtain ⟨a, ks, cs, heq, hcs, rfl⟩ := grow_succ_eq_some.1 h
    obtain ⟨hkey, hperm⟩ := hlook x a ks heq
    have hchild : ∀ c ∈ cs, ∃ k ∈ ks, grow look n k = some c := fun c hc => forall₂_right hcs c hc
    have hroots : cs.map (fun c => key c.value) = ks :=
      map_eq_of_forall₂ (hcs.imp fun k c hc => (built_of_grow hlook n hc).1.1)
    refine ⟨⟨hkey, ?_⟩, fun b hb => ?_⟩
    · rw [map_node, hkey]
      refine Built.node ?_ fun c hc => ?_
      · rw [List.map_map, show (value ∘ map key) = fun c => key c.value from funext fun c => value_map key c, hroots]
        exact hperm
      · obtain ⟨c', hc', rfl⟩ := List.mem_map.1 hc
        obtain ⟨k, -, hk⟩ := hchild c' hc'
        exact (built_of_grow hlook n hk).1.2
    · rw [values_node, mem_cons, mem_flatMap] at hb
      rcases hb with rfl | ⟨c, hc, hb⟩
      · exact ⟨ks, by rw [hkey]; exact heq⟩
      · obtain ⟨k, -, hk⟩ := hchild c hc
        exact (built_of_grow hlook n hk).2 b hb

end

end Rose
