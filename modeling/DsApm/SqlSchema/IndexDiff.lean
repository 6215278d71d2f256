import DsApm.SqlSchema.Indexes
import Mathlib.Data.Finmap
/-!
# IndexDiff — what the difference of two lists of indexes does

Name by name: a statement about another name changes nothing.  An index that is in both lists and named is dropped, and is there
in the end exactly when the new list has it at its place or at a later one where something is made again.
-/
namespace DsApm
namespace SqlSchema

open List Option

variable {news : List Index}

def IndexStmt.effect (n : String) (s : Option IndexDef) : IndexStmt → Option IndexDef
  | .create name table columns where_ => if name = n then s.or (some ⟨table, columns, where_.map normalize⟩) else s
  | .drop name => if name = n then none else s

theorem lookup_apply (db : GoMap String IndexDef) (q : IndexStmt) (n : String) :
    (q.apply db).lookup n = q.effect n (db.lookup n) := by
  cases q with
  | create name table columns where_ =>
    rw [IndexStmt.apply, IndexStmt.effect]
    by_cases hn : name = n
    · subst hn
      rw [if_pos rfl]
      cases hdb : db.lookup name with
      | none => rw [if_neg (by simp), AList.lookup_insert, none_or]
      | some d => rw [if_pos (by simp), hdb, some_or]
    · rw [if_neg hn]
      split
      · rfl
      · exact AList.lookup_insert_ne (Ne.symm hn)
  | drop name =>
    rw [IndexStmt.apply, IndexStmt.effect]
    by_cases hn : name = n
    · subst hn
      rw [if_pos rfl, AList.lookup_erase]
    · rw [if_neg hn, AList.lookup_erase_ne (Ne.symm hn)]

theorem lookup_runIndexes (n : String) : ∀ (sqls : List IndexStmt) (db : GoMap String IndexDef),
    (runIndexes sqls db).lookup n = sqls.foldl (IndexStmt.effect n) (db.lookup n)
  | [], _ => rfl
  | q :: sqls, db => by
    rw [foldl_cons, ← lookup_apply]
    exact lookup_runIndexes n sqls (q.apply db)

theorem effect_toCreateSQL (n : String) (s : Option IndexDef) (index : Index) :
    index.toCreateSQL.effect n s = if index.name = n then s.or (some index.definition) else s := by
  cases index <;> rfl

theorem effect_toDropSQL (n : String) (s : Option IndexDef) (index : Index) :
    index.toDropSQL.effect n s = if index.name = n then none else s := rfl

/-! ## Equal indexes -/

theorem Index.equals_iff {a b : Index} : a.equals b = true ↔
    a.name = b.name ∧ a.definition.columns = b.definition.columns ∧ a.definition.predicate = b.definition.predicate := by
  cases a <;> cases b <;> simp [Index.equals, Index.definition, and_assoc]

theorem Index.equals_symm {a b : Index} (h : a.equals b = true) : b.equals a = true := by
  obtain ⟨hname, hcols, hpred⟩ := Index.equals_iff.1 h
  exact Index.equals_iff.2 ⟨hname.symm, hcols.symm, hpred.symm⟩

theorem findIndex_isNone {indices : List Index} {index : Index} :
    (findIndex indices index).isNone = true ↔ ∀ other ∈ indices, index.equals other = false := by
  rw [isNone_iff_eq_none, findIndex, List.findIdx?_eq_none_iff]

theorem definition_table (index : Index) : index.definition.table = index.tableName := by cases index <;> rfl

theorem definition_ext {a b : Index} (h : a.equals b = true) : a.definition = b.definition ↔ a.tableName = b.tableName := by
  obtain ⟨-, hcols, hpred⟩ := Index.equals_iff.1 h
  rw [← definition_table, ← definition_table]
  constructor
  · exact congrArg IndexDef.table
  · intro htable
    exact IndexDef.ext htable hcols hpred

/-! ## The loop over the old indexes -/

def Kept (news : List Index) (old : Index) : Prop := ∃ new ∈ news, old.equals new = true

def Remade (news : List Index) (old : Index) : Prop := Kept news old ∧ old.isNamed = true

theorem diffPass_of_not_kept {i : Nat} {old : Index} (h : ¬Kept news old) : diffPass news i old = some [old.toDropSQL] := by
  have hnone : (findIndex news old).isNone = true :=
    findIndex_isNone.2 fun new hnew => Bool.eq_false_iff.2 fun heq => h ⟨new, hnew, heq⟩
  rw [diffPass, if_pos hnone]

theorem diffPass_of_kept {i : Nat} {old : Index} (h : Kept news old) : diffPass news i old =
    if old.isNamed then news[i]?.map fun new => [old.toDropSQL, new.toCreateSQL] else some [] := by
  obtain ⟨new, hnew, heq⟩ := h
  have hsome : ¬(findIndex news old).isNone = true := fun hnone => by
    rw [findIndex_isNone.1 hnone new hnew] at heq
    cases heq
  rw [diffPass, if_neg hsome]

/-- **In range**: the loop ends exactly when the new list has a place for every index that is made again. -/
theorem diffOld_isSome : ∀ (olds : List Index) (k : Nat), (diffOld news k olds).isSome = true ↔
    ∀ i old, olds[i]? = some old → Remade news old → k + i < news.length
  | [], k => by simp [diffOld]
  | old :: olds, k => by
    have ih := diffOld_isSome olds (k + 1)
    have hpass : (diffPass news k old).isSome = true ↔ (Remade news old → k < news.length) := by
      by_cases hkept : Kept news old
      · rw [diffPass_of_kept hkept]
        by_cases hnamed : old.isNamed = true
        · rw [if_pos hnamed, isSome_map, isSome_getElem?]
          exact ⟨fun h _ => h, fun h => h ⟨hkept, hnamed⟩⟩
        · rw [if_neg hnamed]
          exact ⟨fun _ h => absurd h.2 hnamed, fun _ => rfl⟩
      · rw [diffPass_of_not_kept hkept]
        exact ⟨fun _ h => absurd h.1 hkept, fun _ => rfl⟩
    have hcons : (diffOld news k (old :: olds)).isSome = true ↔
        (diffPass news k old).isSome = true ∧ (diffOld news (k + 1) olds).isSome = true := by
      rw [diffOld]
      cases diffPass news k old with
      | none => simp
      | some sqls => simp
    rw [hcons, hpass, ih]
    constructor
    · rintro ⟨hhead, htail⟩ i o ho hremade
      cases i with
      | zero =>
        cases ho
        exact hhead hremade
      | succ i =>
        have := htail i o ho hremade
        omega
    · intro h
      refine ⟨fun hremade => h 0 old rfl hremade, ?_⟩
      intro i o ho hremade
      have := h (i + 1) o ho hremade
      omega

def MadeFrom (news : List Index) (n : String) (k : Nat) (olds : List Index) : Prop :=
  ∃ i old new, olds[i]? = some old ∧ Remade news old ∧ news[k + i]? = some new ∧ new.name = n

theorem madeFrom_cons {n : String} {k : Nat} {old : Index} {olds : List Index} : MadeFrom news n k (old :: olds) ↔
    (Remade news old ∧ ∃ new, news[k]? = some new ∧ new.name = n) ∨ MadeFrom news n (k + 1) olds := by
  constructor
  · rintro ⟨i, o, new, ho, hremade, hnew, hname⟩
    cases i with
    | zero =>
      cases ho
      exact .inl ⟨hremade, new, hnew, hname⟩
    | succ i => exact .inr ⟨i, o, new, ho, hremade, by rwa [Nat.add_right_comm, Nat.add_assoc], hname⟩
  · rintro (⟨hremade, new, hnew, hname⟩ | ⟨i, o, new, ho, hremade, hnew, hname⟩)
    · exact ⟨0, old, new, rfl, hremade, hnew, hname⟩
    · exact ⟨i + 1, o, new, ho, hremade, by rwa [Nat.add_right_comm, Nat.add_assoc] at hnew, hname⟩

/-! ## One name -/

def Dropped (news : List Index) (old : Index) : Prop := ¬Kept news old ∨ old.isNamed = true

theorem Remade.dropped {old : Index} (h : Remade news old) : Dropped news old := .inr h.2

variable {n : String} {r : IndexDef}

/-- **One turn**: the old index is dropped, and then one of the new ones made. -/
theorem effect_pass (hr : ∀ new ∈ news, new.name = n → new.definition = r) {k : Nat} {old : Index} {sqls : List IndexStmt}
    (h : diffPass news k old = some sqls) (s : Option IndexDef) :
    ∃ s', (old.name = n → Dropped news old → s' = none) ∧ (¬(old.name = n ∧ Dropped news old) → s' = s) ∧
      ((Remade news old ∧ ∃ new, news[k]? = some new ∧ new.name = n) → sqls.foldl (IndexStmt.effect n) s = s'.or (some r)) ∧
      (¬(Remade news old ∧ ∃ new, news[k]? = some new ∧ new.name = n) → sqls.foldl (IndexStmt.effect n) s = s') := by
  by_cases hkept : Kept news old
  · rw [diffPass_of_kept hkept] at h
    by_cases hnamed : old.isNamed = true
    · rw [if_pos hnamed, map_eq_some_iff] at h
      obtain ⟨new, hnew, rfl⟩ := h
      refine ⟨if old.name = n then none else s, fun hn _ => if_pos hn, fun hnot => if_neg fun hn => hnot ⟨hn, .inr hnamed⟩, ?_, ?_⟩
      · rintro ⟨-, new', hnew', hname⟩
        cases hnew.symm.trans hnew'
        rw [foldl_cons, foldl_cons, foldl_nil, effect_toDropSQL, effect_toCreateSQL, if_pos hname,
          hr new (mem_of_getElem? hnew) hname]
      · intro hnot
        have hname : new.name ≠ n := fun hname => hnot ⟨⟨hkept, hnamed⟩, new, hnew, hname⟩
        rw [foldl_cons, foldl_cons, foldl_nil, effect_toDropSQL, effect_toCreateSQL, if_neg hname]
    · rw [if_neg hnamed] at h
      cases h
      refine ⟨s, ?_, fun _ => rfl, fun h => absurd h.1.2 hnamed, fun _ => rfl⟩
      rintro - (hdrop | hdrop)
      · exact absurd hkept hdrop
      · exact absurd hdrop hnamed
  · rw [diffPass_of_not_kept hkept] at h
    cases h
    refine ⟨if old.name = n then none else s, fun hn _ => if_pos hn, fun hnot => if_neg fun hn => hnot ⟨hn, .inl hkept⟩, ?_, ?_⟩
    · intro h
      exact absurd h.1.1 hkept
    · intro _
      rfl

theorem diffOld_cons {k : Nat} {old : Index} {olds : List Index} {sqls : List IndexStmt}
    (h : diffOld news k (old :: olds) = some sqls) :
    ∃ s₁ s₂, diffPass news k old = some s₁ ∧ diffOld news (k + 1) olds = some s₂ ∧ sqls = s₁ ++ s₂ := by
  rw [diffOld] at h
  split at h
  · cases h
  · rename_i s₁ hpass
    obtain ⟨s₂, hrest, rfl⟩ := map_eq_some_iff.1 h
    exact ⟨s₁, s₂, hpass, hrest, rfl⟩

theorem stays_none (hr : ∀ new ∈ news, new.name = n → new.definition = r) : ∀ {olds : List Index} {k : Nat}
    {sqls : List IndexStmt}, diffOld news k olds = some sqls → ¬MadeFrom news n k olds →
    sqls.foldl (IndexStmt.effect n) none = none
  | [], _, _, h, _ => by cases h; rfl
  | old :: olds, k, _, h, hnot => by
    obtain ⟨s₁, s₂, hpass, hrest, rfl⟩ := diffOld_cons h
    rw [madeFrom_cons, not_or] at hnot
    obtain ⟨s', hdrop, hsame, -, hunmade⟩ := effect_pass hr hpass none
    have hnone : s' = none := by
      by_cases hd : old.name = n ∧ Dropped news old
      · exact hdrop hd.1 hd.2
      · exact hsame hd
    rw [foldl_append, hunmade hnot.1, hnone]
    exact stays_none hr hrest hnot.2

theorem stays_some (hr : ∀ new ∈ news, new.name = n → new.definition = r) (d : IndexDef) : ∀ {olds : List Index} {k : Nat}
    {sqls : List IndexStmt}, diffOld news k olds = some sqls → (∀ old ∈ olds, old.name = n → ¬Dropped news old) →
    sqls.foldl (IndexStmt.effect n) (some d) = some d
  | [], _, _, h, _ => by cases h; rfl
  | old :: olds, k, _, h, hkeep => by
    obtain ⟨s₁, s₂, hpass, hrest, rfl⟩ := diffOld_cons h
    obtain ⟨s', -, hsame, hmade, hunmade⟩ := effect_pass hr hpass (some d)
    have hs' : s' = some d := hsame fun hd => hkeep old mem_cons_self hd.1 hd.2
    have hhead : s₁.foldl (IndexStmt.effect n) (some d) = some d := by
      by_cases hm : Remade news old ∧ ∃ new, news[k]? = some new ∧ new.name = n
      · rw [hmade hm, hs', some_or]
      · rw [hunmade hm, hs']
    rw [foldl_append, hhead]
    exact stays_some hr d hrest fun o ho => hkeep o (mem_cons_of_mem _ ho)

theorem made (hr : ∀ new ∈ news, new.name = n → new.definition = r) : ∀ {olds : List Index} {k : Nat} {sqls : List IndexStmt},
    diffOld news k olds = some sqls → (∀ old ∈ olds, old.name = n → ¬Dropped news old) → MadeFrom news n k olds →
    sqls.foldl (IndexStmt.effect n) none = some r
  | [], _, _, _, _, ⟨_, _, _, h, _⟩ => by cases h
  | old :: olds, k, _, h, hkeep, hmade => by
    obtain ⟨s₁, s₂, hpass, hrest, rfl⟩ := diffOld_cons h
    have hkeep' : ∀ o ∈ olds, o.name = n → ¬Dropped news o := fun o ho => hkeep o (mem_cons_of_mem _ ho)
    obtain ⟨s', -, hsame, hhead, hunmade⟩ := effect_pass hr hpass none
    have hs' : s' = none := hsame fun hd => hkeep old mem_cons_self hd.1 hd.2
    rw [foldl_append]
    by_cases hm : Remade news old ∧ ∃ new, news[k]? = some new ∧ new.name = n
    · rw [hhead hm, hs', none_or]
      exact stays_some hr r hrest hkeep'
    · rw [hunmade hm, hs']
      exact made hr hrest hkeep' ((madeFrom_cons.1 hmade).resolve_left hm)

theorem dropped_last (hr : ∀ new ∈ news, new.name = n → new.definition = r) : ∀ {olds : List Index} {k : Nat}
    {sqls : List IndexStmt} (s : Option IndexDef), diffOld news k olds = some sqls →
    (∃ i old, olds[i]? = some old ∧ old.name = n ∧ Dropped news old ∧ ¬MadeFrom news n (k + i) (olds.drop i)) →
    sqls.foldl (IndexStmt.effect n) s = none
  | [], _, _, _, _, ⟨_, _, h, _⟩ => by cases h
  | old :: olds, k, _, s, h, ⟨i, o, ho, hname, hdrop, hnot⟩ => by
    obtain ⟨s₁, s₂, hpass, hrest, rfl⟩ := diffOld_cons h
    rw [foldl_append]
    cases i with
    | zero =>
      cases ho
      rw [drop_zero, Nat.add_zero, madeFrom_cons, not_or] at hnot
      obtain ⟨s', hgone, -, -, hunmade⟩ := effect_pass hr hpass s
      rw [hunmade hnot.1, hgone hname hdrop]
      exact stays_none hr hrest hnot.2
    | succ i =>
      refine dropped_last hr _ hrest ⟨i, o, ho, hname, hdrop, ?_⟩
      rwa [drop_succ_cons, ← Nat.add_assoc, Nat.add_right_comm] at hnot

theorem made_last (hr : ∀ new ∈ news, new.name = n → new.definition = r) : ∀ {olds : List Index} {k : Nat}
    {sqls : List IndexStmt} (s : Option IndexDef), diffOld news k olds = some sqls →
    (∃ old ∈ olds, old.name = n ∧ Dropped news old) →
    (∀ i old, olds[i]? = some old → old.name = n → Dropped news old → MadeFrom news n (k + i) (olds.drop i)) →
    sqls.foldl (IndexStmt.effect n) s = some r
  | [], _, _, _, _, ⟨_, h, _⟩, _ => by cases h
  | old :: olds, k, _, s, h, hex, hall => by
    obtain ⟨s₁, s₂, hpass, hrest, rfl⟩ := diffOld_cons h
    have hall' : ∀ i o, olds[i]? = some o → o.name = n → Dropped news o → MadeFrom news n (k + 1 + i) (olds.drop i) := by
      intro i o ho hname hdrop
      have := hall (i + 1) o ho hname hdrop
      rwa [drop_succ_cons, ← Nat.add_assoc, Nat.add_right_comm] at this
    rw [foldl_append]
    by_cases htail : ∃ o ∈ olds, o.name = n ∧ Dropped news o
    · exact made_last hr _ hrest htail hall'
    · have hkeep : ∀ o ∈ olds, o.name = n → ¬Dropped news o := fun o ho hname hdrop => htail ⟨o, ho, hname, hdrop⟩
      obtain ⟨o, ho, hname, hdrop⟩ := hex
      have hold : o = old := (mem_cons.1 ho).resolve_right fun ho => htail ⟨o, ho, hname, hdrop⟩
      subst hold
      obtain ⟨s', hgone, -, hhead, hunmade⟩ := effect_pass hr hpass s
      have hs' : s' = none := hgone hname hdrop
      by_cases hm : Remade news o ∧ ∃ new, news[k]? = some new ∧ new.name = n
      · rw [hhead hm, hs', none_or]
        exact stays_some hr r hrest hkeep
      · rw [hunmade hm, hs']
        exact made hr hrest hkeep ((madeFrom_cons.1 (hall 0 o rfl hname hdrop)).resolve_left hm)

theorem none_or_made (hr : ∀ new ∈ news, new.name = n → new.definition = r) : ∀ {olds : List Index} {k : Nat}
    {sqls : List IndexStmt} {s : Option IndexDef}, diffOld news k olds = some sqls →
    (s = none ∨ s = some r ∨ ∃ old ∈ olds, old.name = n ∧ Dropped news old) →
    sqls.foldl (IndexStmt.effect n) s = none ∨ sqls.foldl (IndexStmt.effect n) s = some r
  | [], _, _, s, h, hs => by
    cases h
    rcases hs with rfl | rfl | ⟨_, h, _⟩
    · exact .inl rfl
    · exact .inr rfl
    · cases h
  | old :: olds, k, _, s, h, hs => by
    obtain ⟨s₁, s₂, hpass, hrest, rfl⟩ := diffOld_cons h
    obtain ⟨s', hgone, hsame, hmade, hunmade⟩ := effect_pass hr hpass s
    rw [foldl_append]
    refine none_or_made hr hrest ?_
    by_cases htail : ∃ o ∈ olds, o.name = n ∧ Dropped news o
    · exact .inr (.inr htail)
    · have hs' : s' = none ∨ s' = some r := by
        by_cases hd : old.name = n ∧ Dropped news old
        · exact .inl (hgone hd.1 hd.2)
        · rw [hsame hd]
          rcases hs with hs | hs | ⟨o, ho, hname, hdrop⟩
          · exact .inl hs
          · exact .inr hs
          · rcases mem_cons.1 ho with rfl | ho
            · exact absurd ⟨hname, hdrop⟩ hd
            · exact absurd ⟨o, ho, hname, hdrop⟩ htail
      by_cases hm : Remade news old ∧ ∃ new, news[k]? = some new ∧ new.name = n
      · rw [hmade hm]
        rcases hs' with rfl | rfl
        · exact .inr (.inl rfl)
        · exact .inr (.inl rfl)
      · rw [hunmade hm]
        exact hs'.imp_right .inl

theorem effect_creates (n : String) (d : IndexDef) : ∀ indices : List Index,
    (indices.map Index.toCreateSQL).foldl (IndexStmt.effect n) (some d) = some d
  | [] => rfl
  | index :: indices => by
    have hhead : index.toCreateSQL.effect n (some d) = some d := by
      rw [effect_toCreateSQL, some_or, ite_self]
    rw [map_cons, foldl_cons, hhead]
    exact effect_creates n d indices

theorem effect_creates_none : ∀ {indices : List Index}, (∀ new ∈ indices, new.name = n → new.definition = r) →
    (indices.map Index.toCreateSQL).foldl (IndexStmt.effect n) none = if n ∈ indices.map Index.name then some r else none
  | [], _ => rfl
  | index :: indices, hr => by
    rw [map_cons, foldl_cons, effect_toCreateSQL, none_or, map_cons]
    by_cases hn : index.name = n
    · rw [if_pos hn, effect_creates, if_pos (mem_cons.2 (.inl hn.symm)), hr index mem_cons_self hn]
    · rw [if_neg hn, effect_creates_none fun new hnew => hr new (mem_cons_of_mem _ hnew)]
      simp [Ne.symm hn]

/-! ## The two lists -/

/-- Where an index is made again, the new list has it at that place or at a later one where one is made again; and an index that is
only kept is on the same table. -/
def Replaced (olds news : List Index) : Prop :=
  (∀ i old, olds[i]? = some old → Remade news old →
    ∃ (j : Nat) (old' new : Index), i ≤ j ∧ olds[j]? = some old' ∧ Remade news old' ∧ news[j]? = some new ∧ new.name = old.name) ∧
  ∀ old ∈ olds, ∀ new ∈ news, old.equals new = true → old.tableName = new.tableName ∨
    ∃ old' ∈ olds, old'.name = old.name ∧ old'.isNamed = true

theorem madeFrom_drop {i : Nat} {olds news : List Index} : MadeFrom news n (0 + i) (olds.drop i) ↔
    ∃ j old new, i ≤ j ∧ olds[j]? = some old ∧ Remade news old ∧ news[j]? = some new ∧ new.name = n := by
  constructor
  · rintro ⟨j, old, new, hold, hremade, hnew, hname⟩
    rw [List.getElem?_drop] at hold
    rw [Nat.zero_add] at hnew
    exact ⟨i + j, old, new, Nat.le_add_right i j, hold, hremade, hnew, hname⟩
  · rintro ⟨j, old, new, hle, hold, hremade, hnew, hname⟩
    refine ⟨j - i, old, new, ?_, hremade, ?_, hname⟩
    · rwa [List.getElem?_drop, Nat.add_sub_cancel' hle]
    · rwa [Nat.zero_add, Nat.add_sub_cancel' hle]

namespace HasExactly

variable {db : GoMap String IndexDef} {indices : List Index}

theorem lookup (h : HasExactly db indices) {index : Index} (hmem : index ∈ indices) :
    db.lookup index.name = some index.definition := (h _ _).2 ⟨index, hmem, rfl, rfl⟩

theorem definition_eq (h : HasExactly db indices) {a b : Index} (ha : a ∈ indices) (hb : b ∈ indices) (hname : a.name = b.name) :
    a.definition = b.definition := by
  have hsome := (h.lookup ha).symm.trans (hname ▸ h.lookup hb)
  exact Option.some.inj hsome

theorem lookup_none (h : HasExactly db indices) (hn : ∀ index ∈ indices, index.name ≠ n) : db.lookup n = none := by
  cases hdb : db.lookup n with
  | none => rfl
  | some d =>
    obtain ⟨index, hmem, hname, -⟩ := (h n d).1 hdb
    exact absurd hname (hn index hmem)

end HasExactly

section
variable {olds : List Index} {db target : GoMap String IndexDef}

theorem kept_congr (hold : HasExactly db olds) {a b : Index} (ha : a ∈ olds) (hb : b ∈ olds) (hname : a.name = b.name)
    (hkept : Kept news a) : Kept news b := by
  obtain ⟨new, hnew, heq⟩ := hkept
  obtain ⟨hname', hcols, hpred⟩ := Index.equals_iff.1 heq
  have hdef := hold.definition_eq ha hb hname
  exact ⟨new, hnew, Index.equals_iff.2 ⟨hname ▸ hname', hdef ▸ hcols, hdef ▸ hpred⟩⟩

theorem equals_new (hnew : HasExactly target news) {old a b : Index} (ha : a ∈ news) (hb : b ∈ news) (hname : a.name = b.name)
    (h : old.equals a = true) : old.equals b = true := by
  obtain ⟨hname', hcols, hpred⟩ := Index.equals_iff.1 h
  have hdef := hnew.definition_eq ha hb hname
  exact Index.equals_iff.2 ⟨hname'.trans hname, hcols.trans (congrArg IndexDef.columns hdef),
    hpred.trans (congrArg IndexDef.predicate hdef)⟩

theorem effect_diffNew (hnew : HasExactly target news) {new : Index} (hmem : new ∈ news) (s : Option IndexDef) :
    (diffNew olds news).foldl (IndexStmt.effect new.name) s =
      if (∀ old ∈ olds, new.equals old = false) then s.or (some new.definition) else s := by
  have hr : ∀ other ∈ news.filter (fun new => (findIndex olds new).isNone), other.name = new.name →
      other.definition = new.definition := by
    intro other hother hname
    exact hnew.definition_eq (mem_filter.1 hother).1 hmem hname
  unfold diffNew
  cases s with
  | some d => rw [effect_creates, some_or, ite_self]
  | none =>
    rw [effect_creates_none hr, none_or]
    refine if_congr ?_ rfl rfl
    rw [List.mem_map]
    constructor
    · rintro ⟨other, hother, hname⟩ old hold
      obtain ⟨hmem', hnone⟩ := mem_filter.1 hother
      rw [Bool.eq_false_iff]
      intro heq
      have hother' : other.equals old = true := Index.equals_symm (equals_new hnew hmem hmem' hname.symm (Index.equals_symm heq))
      rw [findIndex_isNone.1 hnone old hold] at hother'
      cases hother'
    · intro hnot
      exact ⟨new, mem_filter.2 ⟨hmem, findIndex_isNone.2 hnot⟩, rfl⟩

theorem effect_diffNew_of_not_mem (hn : ∀ new ∈ news, new.name ≠ n) (s : Option IndexDef) :
    (diffNew olds news).foldl (IndexStmt.effect n) s = s := by
  cases s with
  | some d => exact effect_creates n d _
  | none =>
    have hr : ∀ new ∈ news.filter (fun new => (findIndex olds new).isNone), new.name = n → new.definition = ⟨"", [], none⟩ :=
      fun new hnew hname => absurd hname (hn new (mem_filter.1 hnew).1)
    rw [diffNew, effect_creates_none hr, if_neg]
    rw [List.mem_map]
    rintro ⟨new, hnew, hname⟩
    exact hn new (mem_filter.1 hnew).1 hname

theorem gone (hold : HasExactly db olds) (hn : ∀ new ∈ news, new.name ≠ n) {sqls : List IndexStmt}
    (h : diffOld news 0 olds = some sqls) : sqls.foldl (IndexStmt.effect n) (db.lookup n) = none := by
  have hr : ∀ new ∈ news, new.name = n → new.definition = ⟨"", [], none⟩ := fun new hnew hname => absurd hname (hn new hnew)
  have hnot : ∀ k l, ¬MadeFrom news n k l := fun k l ⟨i, _, new, _, _, hget, hname⟩ => hn new (mem_of_getElem? hget) hname
  by_cases hex : ∃ old ∈ olds, old.name = n
  · obtain ⟨old, hmem, hname⟩ := hex
    obtain ⟨i, hget⟩ := mem_iff_getElem?.1 hmem
    refine dropped_last hr _ h ⟨i, old, hget, hname, .inl ?_, hnot _ _⟩
    rintro ⟨new, hnew, heq⟩
    exact hn new hnew ((Index.equals_iff.1 heq).1.symm.trans hname)
  · rw [hold.lookup_none fun old hmem hname => hex ⟨old, hmem, hname⟩]
    exact stays_none hr h (hnot _ _)

theorem there_iff (hold : HasExactly db olds) (hnew : HasExactly target news) {new : Index} (hmem : new ∈ news)
    {sqls : List IndexStmt} (h : diffOld news 0 olds = some sqls) :
    (sqls ++ diffNew olds news).foldl (IndexStmt.effect new.name) (db.lookup new.name) = some new.definition ↔
      (∀ i old, olds[i]? = some old → old.name = new.name → Remade news old → MadeFrom news new.name (0 + i) (olds.drop i)) ∧
      ∀ old ∈ olds, old.equals new = true → old.tableName = new.tableName ∨
        ∃ old' ∈ olds, old'.name = old.name ∧ old'.isNamed = true := by
  have hr : ∀ other ∈ news, other.name = new.name → other.definition = new.definition :=
    fun other hother hname => hnew.definition_eq hother hmem hname
  rw [foldl_append, effect_diffNew hnew hmem]
  by_cases hkept : ∃ old ∈ olds, old.equals new = true
  · obtain ⟨old, hmemOld, heq⟩ := hkept
    have hname : old.name = new.name := (Index.equals_iff.1 heq).1
    have hall : ∀ o ∈ olds, o.name = new.name → Kept news o :=
      fun o ho hon => kept_congr hold hmemOld ho (hname.trans hon.symm) ⟨new, hmem, heq⟩
    have hremade : ∀ o ∈ olds, o.name = new.name → Dropped news o → Remade news o :=
      fun o ho hon hdrop => ⟨hall o ho hon, hdrop.resolve_left fun hnot => hnot (hall o ho hon)⟩
    have hsome : ¬∀ old ∈ olds, new.equals old = false := by
      intro hnone
      have heq' := Index.equals_symm heq
      rw [hnone old hmemOld] at heq'
      cases heq'
    rw [if_neg hsome]
    by_cases hdrop : ∃ o ∈ olds, o.name = new.name ∧ Dropped news o
    · constructor
      · intro hthere
        refine ⟨?_, ?_⟩
        · intro i o ho hon hrem
          by_contra hnot
          rw [dropped_last hr _ h ⟨i, o, ho, hon, hrem.dropped, hnot⟩] at hthere
          cases hthere
        · intro o ho hoeq
          obtain ⟨o', ho', hon', hdrop'⟩ := hdrop
          exact .inr ⟨o', ho', hon'.trans (Index.equals_iff.1 hoeq).1.symm, (hremade o' ho' hon' hdrop').2⟩
      · rintro ⟨hmade, -⟩
        exact made_last hr _ h hdrop fun i o ho hon hd => hmade i o ho hon (hremade o (mem_of_getElem? ho) hon hd)
    · have hkeep : ∀ o ∈ olds, o.name = new.name → ¬Dropped news o := fun o ho hon hd => hdrop ⟨o, ho, hon, hd⟩
      have hdb : db.lookup new.name = some old.definition := hname ▸ hold.lookup hmemOld
      rw [hdb, stays_some hr _ h hkeep, some_inj, definition_ext heq]
      constructor
      · intro htable
        refine ⟨fun i o ho hon hrem => absurd hrem.dropped (hkeep o (mem_of_getElem? ho) hon), ?_⟩
        intro o ho hoeq
        refine .inl ?_
        have hdef := hold.definition_eq ho hmemOld ((Index.equals_iff.1 hoeq).1.trans hname.symm)
        rw [← definition_table, hdef, definition_table, htable]
      · rintro ⟨-, htable⟩
        refine (htable old hmemOld heq).resolve_right ?_
        rintro ⟨o, ho, hon, hnamed⟩
        exact hkeep o ho (hon.trans hname) (.inr hnamed)
  · have hnone : ∀ old ∈ olds, new.equals old = false := by
      intro old hmemOld
      exact Bool.eq_false_iff.2 fun heq => hkept ⟨old, hmemOld, Index.equals_symm heq⟩
    have hnotKept : ∀ old ∈ olds, old.name = new.name → ¬Kept news old := by
      rintro old hmemOld hname ⟨other, hother, heq⟩
      exact hkept ⟨old, hmemOld, equals_new hnew hother hmem ((Index.equals_iff.1 heq).1.symm.trans hname) heq⟩
    have hstart : db.lookup new.name = none ∨ db.lookup new.name = some new.definition ∨
        ∃ old ∈ olds, old.name = new.name ∧ Dropped news old := by
      by_cases hex : ∃ old ∈ olds, old.name = new.name
      · obtain ⟨old, hmemOld, hname⟩ := hex
        exact .inr (.inr ⟨old, hmemOld, hname, .inl (hnotKept old hmemOld hname)⟩)
      · exact .inl (hold.lookup_none fun old hmemOld hname => hex ⟨old, hmemOld, hname⟩)
    rw [if_pos hnone]
    constructor
    · intro _
      refine ⟨fun i o ho hon hrem => absurd hrem.1 (hnotKept o (mem_of_getElem? ho) hon), ?_⟩
      intro o ho hoeq
      exact absurd ⟨o, ho, hoeq⟩ hkept
    · intro _
      rcases none_or_made hr h hstart with heq | heq <;> rw [heq] <;> rfl

/-- **Index migration**: the statements for two lists of indexes exist, and bring a database with the old ones to the new ones, exactly
when what is made again is made at its place or later, and what is kept is on the same table. -/
theorem diffIndices_iff (hold : HasExactly db olds) (hnew : HasExactly target news) :
    (∃ sqls, diffIndices olds news = some sqls ∧ HasExactly (runIndexes sqls db) news) ↔ Replaced olds news := by
  constructor
  · rintro ⟨sqls, hdiff, hexact⟩
    obtain ⟨dropped, hloop, rfl⟩ := map_eq_some_iff.1 hdiff
    have hthere : ∀ new ∈ news, (dropped ++ diffNew olds news).foldl (IndexStmt.effect new.name) (db.lookup new.name) =
        some new.definition := by
      intro new hmem
      rw [← lookup_runIndexes]
      exact hexact.lookup hmem
    refine ⟨?_, fun old hmemOld new hmem => ((there_iff hold hnew hmem hloop).1 (hthere new hmem)).2 old hmemOld⟩
    intro i old hget hremade
    obtain ⟨new, hmem, heq⟩ := hremade.1
    have hname := (Index.equals_iff.1 heq).1
    rw [hname]
    exact madeFrom_drop.1 (((there_iff hold hnew hmem hloop).1 (hthere new hmem)).1 i old hget hname hremade)
  · rintro ⟨hmade, htable⟩
    have hrange : ∀ i old, olds[i]? = some old → Remade news old → 0 + i < news.length := by
      intro i old hget hremade
      obtain ⟨j, -, new, hle, -, -, hnewj, -⟩ := hmade i old hget hremade
      have := (List.getElem?_eq_some_iff.1 hnewj).1
      omega
    obtain ⟨dropped, hloop⟩ := isSome_iff_exists.1 ((diffOld_isSome olds 0).2 hrange)
    refine ⟨dropped ++ diffNew olds news, by rw [diffIndices, hloop]; rfl, ?_⟩
    have hthere : ∀ new ∈ news, (runIndexes (dropped ++ diffNew olds news) db).lookup new.name = some new.definition := by
      intro new hmem
      rw [lookup_runIndexes]
      refine (there_iff hold hnew hmem hloop).2 ⟨?_, fun old hmemOld => htable old hmemOld new hmem⟩
      intro i old hget hname hremade
      exact madeFrom_drop.2 (hname ▸ hmade i old hget hremade)
    intro name d
    constructor
    · intro hlookup
      by_cases hn : ∀ new ∈ news, new.name ≠ name
      · rw [lookup_runIndexes, foldl_append, gone hold hn hloop, effect_diffNew_of_not_mem hn] at hlookup
        cases hlookup
      · push Not at hn
        obtain ⟨new, hmem, hname⟩ := hn
        have hsame := (hthere new hmem).symm.trans (hname ▸ hlookup)
        exact ⟨new, hmem, hname, Option.some.inj hsame⟩
    · rintro ⟨new, hmem, rfl, rfl⟩
      exact hthere new hmem

/-- With an index before it to drop, a named one has no place in the shorter list; and of two that change places, one is lost. -/
theorem named_out_of_place :
    diffIndices [.unique ⟨"users", ["email"], ""⟩, .unique ⟨"users", ["org_id"], "users_org"⟩]
        [.unique ⟨"users", ["org_id"], "users_org"⟩] = none ∧
      (diffIndices [.unique ⟨"users", ["org_id"], "users_org"⟩, .unique ⟨"users", ["email"], "users_email"⟩]
        [.unique ⟨"users", ["email"], "users_email"⟩, .unique ⟨"users", ["org_id"], "users_org"⟩]).map
          (fun sqls => ((runIndexes sqls (((∅ : GoMap String IndexDef).insert "users_org" ⟨"users", ["org_id"], none⟩).insert
            "users_email" ⟨"users", ["email"], none⟩)).lookup "users_email").isNone) = some true := by
  decide +kernel

theorem hasExactly_singleton (index : Index) :
    HasExactly (AList.singleton index.name index.definition) [index] := by
  intro name d
  rw [← mem_def, AList.mem_lookup_iff]
  simp [AList.singleton, eq_comm]

theorem named_alone : ∃ sqls,
    diffIndices [.unique ⟨"users", ["email"], "users_email"⟩] [.unique ⟨"users", ["email"], "users_email"⟩] = some sqls ∧
      HasExactly (runIndexes sqls (AList.singleton "users_email" ⟨"users", ["email"], none⟩))
        [.unique ⟨"users", ["email"], "users_email"⟩] := by
  have hdb := hasExactly_singleton (.unique ⟨"users", ["email"], "users_email"⟩)
  refine (diffIndices_iff hdb hdb).2 ⟨?_, ?_⟩
  · intro i old hold hremade
    have hi : i < 1 := (List.getElem?_eq_some_iff.1 hold).1
    cases Nat.lt_one_iff.1 hi
    cases hold
    exact ⟨0, _, _, Nat.le_refl 0, rfl, hremade, rfl, rfl⟩
  · intro old hold new hnew _
    rw [mem_singleton] at hold hnew
    exact .inl (hold ▸ hnew ▸ rfl)

end

end SqlSchema
end DsApm
