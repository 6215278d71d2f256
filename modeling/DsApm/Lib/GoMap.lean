import Mathlib.Data.List.AList
import Mathlib.Algebra.GroupWithZero.Nat
/-!
# GoMap — maps, and the loops over them

A `map` is an association list of distinct keys, read through `lookup`: the order of its entries says nothing.  The two
loops are a list of distinct keys written into a map entry by entry, each from what the key held before
(`lookup_foldl_put_of_mem`), and a loop over the map itself that changes or deletes the entry it is at (`lookup_filterMapVal`).
-/
/-- `map[κ]α`. -/
abbrev GoMap (κ α : Type) := AList (fun _ : κ => α)

namespace GoMap

open List Option

variable {κ α β : Type}

section
variable [DecidableEq κ]

def values (m : GoMap κ α) : List α := m.entries.map Sigma.snd

theorem mem_values {m : GoMap κ α} {a : α} : a ∈ values m ↔ ∃ k, m.lookup k = some a := by
  unfold values
  rw [List.mem_map]
  constructor
  · rintro ⟨⟨k, b⟩, hk, rfl⟩
    exact ⟨k, AList.mem_lookup_iff.2 hk⟩
  · rintro ⟨k, hk⟩
    exact ⟨⟨k, a⟩, AList.mem_lookup_iff.1 hk, rfl⟩

theorem lookup_same {m : GoMap κ α} {k : κ} {a : Option α} (h : m.lookup k = a) (k' : κ) :
    m.lookup k' = if k' = k then a else m.lookup k' := by
  split_ifs with hk
  · rw [hk, h]
  · rfl

/-- `m[k] = g(m[k])`. -/
def put (g : Option α → α) (m : GoMap κ α) (k : κ) : GoMap κ α := m.insert k (g (m.lookup k))

theorem lookup_put (g : Option α → α) (m : GoMap κ α) (k k' : κ) :
    (put g m k).lookup k' = if k' = k then some (g (m.lookup k)) else m.lookup k' := by
  unfold put
  split_ifs with h
  · subst h
    exact AList.lookup_insert m
  · exact AList.lookup_insert_ne h

theorem lookup_foldl_put_of_not_mem (g : β → Option α → α) : ∀ (l : List (κ × β)) (m : GoMap κ α) {k : κ},
    k ∉ l.map Prod.fst → (l.foldl (fun m e => put (g e.2) m e.1) m).lookup k = m.lookup k
  | [], _, _, _ => rfl
  | e :: l, m, k, h => by
    rw [map_cons, mem_cons, not_or] at h
    rw [foldl_cons, lookup_foldl_put_of_not_mem g l _ h.2, lookup_put, if_neg h.1]

theorem lookup_foldl_put_of_mem (g : β → Option α → α) : ∀ (l : List (κ × β)) (m : GoMap κ α) {k : κ} {b : β},
    (l.map Prod.fst).Nodup → (k, b) ∈ l → (l.foldl (fun m e => put (g e.2) m e.1) m).lookup k = some (g b (m.lookup k))
  | e :: l, m, k, b, h, hk => by
    rw [map_cons, nodup_cons] at h
    rw [foldl_cons]
    rcases mem_cons.1 hk with rfl | hk
    · rw [lookup_foldl_put_of_not_mem g l _ h.1, lookup_put, if_pos rfl]
    · have hne : k ≠ e.1 := fun heq => h.1 (heq ▸ List.mem_map.2 ⟨(k, b), hk, rfl⟩)
      rw [lookup_foldl_put_of_mem g l _ h.2 hk, lookup_put, if_neg hne]

/-- `if a, ok := g(m[k]); ok { m[k] = a }`. -/
def putIf (g : Option α → Option α) (m : GoMap κ α) (k : κ) : GoMap κ α :=
  match g (m.lookup k) with
  | some a => m.insert k a
  | none => m

theorem lookup_putIf (g : Option α → Option α) (m : GoMap κ α) (k k' : κ) :
    (putIf g m k).lookup k' = if k' = k then (g (m.lookup k)).or (m.lookup k) else m.lookup k' := by
  unfold putIf
  split_ifs with h
  · subst h
    cases hg : g (m.lookup k') with
    | none => rw [none_or]
    | some a => exact AList.lookup_insert m
  · cases g (m.lookup k) with
    | none => rfl
    | some a => exact AList.lookup_insert_ne h

theorem lookup_foldl_putIf (key : β → κ) (g : β → Option α → Option α) : ∀ (l : List β) (m : GoMap κ α) (k : κ),
    (l.map key).Nodup → (l.foldl (fun m e => putIf (g e) m (key e)) m).lookup k =
      ((l.find? (fun e => key e = k)).bind fun e => g e (m.lookup k)).or (m.lookup k)
  | [], _, _, _ => rfl
  | e :: l, m, k, h => by
    rw [map_cons, nodup_cons] at h
    rw [foldl_cons, lookup_foldl_putIf key g l _ k h.2, lookup_putIf]
    by_cases hk : key e = k
    · have hnone : l.find? (fun e => key e = k) = none := by
        rw [List.find?_eq_none]
        intro e' he'
        rw [decide_eq_true_eq]
        exact fun heq => h.1 (hk ▸ heq ▸ List.mem_map_of_mem he')
      rw [hnone, List.find?_cons_of_pos (by simpa using hk), if_pos hk.symm, hk]
      rfl
    · rw [List.find?_cons_of_neg (by simpa using hk), if_neg (Ne.symm hk)]

/-- `for k, v := range src { dst[k] = v }`. -/
def copyInto (src dst : GoMap κ α) : GoMap κ α :=
  (src.entries.map (fun e => (e.1, e.2))).foldl (fun m e => put (fun _ => e.2) m e.1) dst

theorem lookup_copyInto (src dst : GoMap κ α) (k : κ) :
    (copyInto src dst).lookup k = (src.lookup k).or (dst.lookup k) := by
  have hkeys : (src.entries.map (fun e => (e.1, e.2))).map Prod.fst = src.keys := by
    rw [List.map_map]
    rfl
  unfold copyInto
  cases h : src.lookup k with
  | none =>
    rw [none_or]
    refine lookup_foldl_put_of_not_mem (fun b _ => b) _ dst ?_
    rw [hkeys, ← AList.mem_keys]
    exact AList.lookup_eq_none.1 h
  | some a =>
    rw [some_or]
    refine lookup_foldl_put_of_mem (fun b _ => b) _ dst ?_ (List.mem_map.2 ⟨⟨k, a⟩, AList.mem_lookup_iff.1 h, rfl⟩)
    rw [hkeys]
    exact src.nodupKeys

end

theorem flatMap_of_one {l : List α} {f : α → List β} {a : α} (hnd : l.Nodup) (ha : a ∈ l)
    (h : ∀ b ∈ l, b ≠ a → f b = []) : l.flatMap f = f a := by
  induction l with
  | nil => cases ha
  | cons x l ih =>
    rw [nodup_cons] at hnd
    rw [flatMap_cons]
    rcases mem_cons.1 ha with rfl | hin
    · have hrest : l.flatMap f = [] := by
        rw [flatMap_eq_nil_iff]
        exact fun b hb => h b (mem_cons_of_mem _ hb) (fun heq => hnd.1 (heq ▸ hb))
      rw [hrest, append_nil]
    · have hx : f x = [] := h x mem_cons_self (fun heq => hnd.1 (heq ▸ hin))
      rw [hx, nil_append]
      exact ih hnd.2 hin (fun b hb => h b (mem_cons_of_mem _ hb))

def entry (f : κ → α → Option β) (e : Sigma (fun _ : κ => α)) : Option (Sigma (fun _ : κ => β)) :=
  (f e.1 e.2).map (fun b => ⟨e.1, b⟩)

theorem keys_filterMap_sublist (f : κ → α → Option β) : ∀ l : List (Sigma (fun _ : κ => α)),
    (l.filterMap (entry f)).keys.Sublist l.keys
  | [] => List.Sublist.refl _
  | ⟨k, a⟩ :: l => by
    have ih := keys_filterMap_sublist f l
    rw [filterMap_cons, entry]
    cases f k a with
    | none => exact ih.trans (sublist_cons_self _ _)
    | some b => exact ih.cons_cons k

/-- A loop over a map: each entry is replaced, or deleted where `f` gives nothing. -/
def filterMapVal (f : κ → α → Option β) (m : GoMap κ α) : GoMap κ β where
  entries := m.entries.filterMap (entry f)
  nodupKeys := (keys_filterMap_sublist f m.entries).nodup m.nodupKeys

theorem lookup_filterMapVal [DecidableEq κ] (f : κ → α → Option β) (m : GoMap κ α) (k : κ) :
    (filterMapVal f m).lookup k = (m.lookup k).bind (f k) := by
  rw [Option.ext_iff]
  intro b
  rw [← mem_def, AList.mem_lookup_iff, ← mem_def, mem_bind_iff]
  simp only [filterMapVal, mem_filterMap, entry, map_eq_some_iff]
  constructor
  · rintro ⟨⟨k', a⟩, hmem, b', hb, heq⟩
    cases heq
    exact ⟨a, AList.mem_lookup_iff.2 hmem, hb⟩
  · rintro ⟨a, ha, hb⟩
    exact ⟨⟨k, a⟩, AList.mem_lookup_iff.1 ha, b, hb, rfl⟩

/-! ## Sums over a map -/

section
variable [DecidableEq κ]

theorem sum_kerase (f : α → Nat) (k : κ) : ∀ l : List (Sigma fun _ : κ => α),
    ((l.kerase k).map fun e => f e.2).sum + ((l.dlookup k).map f).getD 0 = (l.map fun e => f e.2).sum
  | [] => rfl
  | ⟨k', a⟩ :: l => by
    by_cases hk : k = k'
    · subst hk
      have herase : List.kerase k ((⟨k, a⟩ : Sigma fun _ : κ => α) :: l) = l := kerase_cons_eq rfl
      have hlookup : List.dlookup k ((⟨k, a⟩ : Sigma fun _ : κ => α) :: l) = some a := dlookup_cons_eq _ _ _
      rw [herase, hlookup, map_cons, sum_cons]
      exact Nat.add_comm _ _
    · have herase : List.kerase k ((⟨k', a⟩ : Sigma fun _ : κ => α) :: l) = ⟨k', a⟩ :: List.kerase k l := kerase_cons_ne hk
      have hlookup : List.dlookup k ((⟨k', a⟩ : Sigma fun _ : κ => α) :: l) = List.dlookup k l := dlookup_cons_ne _ _ hk
      rw [herase, hlookup, map_cons, map_cons, sum_cons, sum_cons, ← sum_kerase f k l]
      exact Nat.add_assoc _ _ _

theorem sum_erase (f : α → Nat) (m : GoMap κ α) (k : κ) :
    ((values (m.erase k)).map f).sum + ((m.lookup k).map f).getD 0 = ((values m).map f).sum := by
  rw [values, values, List.map_map, List.map_map]
  exact sum_kerase f k m.entries

theorem sum_insert (f : α → Nat) (m : GoMap κ α) (k : κ) (a : α) :
    ((values (m.insert k a)).map f).sum + ((m.lookup k).map f).getD 0 = ((values m).map f).sum + f a := by
  rw [← sum_erase f m k, values, AList.entries_insert, map_cons, map_cons, sum_cons]
  exact (Nat.add_assoc _ _ _).trans (Nat.add_comm _ _)

end

end GoMap
