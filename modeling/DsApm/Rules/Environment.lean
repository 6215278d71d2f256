import DsApm.Lib.Lists
import DsApm.Lib.Separated
import DsApm.Rules.Routing
/-!
# Environment — the nested map of a label set

`convertLabelSetToEnv` over keys without spaces: each label is put under the segments of its key, a map stays where a leaf
would go, and a leaf gives way to a map.  Different keys have different segments, so the map is the same whichever order the
labels are ranged over in.
-/
namespace DsApm
namespace Rules

open Latest List

def segments (key : String) : List String := Separated.split '.' key

def DottedPrefix (key key' : String) : Prop := ∃ rest, key' = key ++ "." ++ rest

structure PlainKeys (set : Labels) : Prop where
  nodup : (set.map Prod.fst).Nodup
  noSpace : ∀ l ∈ set, ∀ c ∈ l.1.toList, GoStd.isSpace c = false

theorem labelPath_eq {key : String} (h : ∀ c ∈ key.toList, GoStd.isSpace c = false) : labelPath key = segments key := by
  have hparts : ∀ part ∈ key.toList.splitOn '.', ∀ c ∈ part, GoStd.isSpace c = false := by
    have hall := Separated.all_intercalate (q := fun c => !GoStd.isSpace c) (by decide : (!GoStd.isSpace '.') = true) (key.toList.splitOn '.')
    rw [intercalate_splitOn, List.all_eq_true.2 (fun c hc => by rw [h c hc]; rfl), eq_comm, List.all_eq_true] at hall
    intro part hpart c hc
    simpa using List.all_eq_true.1 (hall part hpart) c hc
  unfold labelPath segments Separated.split
  simp only [GoStd.trimSpace_eq_self h]
  split_ifs with hdot
  · refine map_congr_left (fun part hpart => GoStd.trimSpace_eq_self (fun c hc => hparts part hpart c ?_))
    rwa [String.toList_ofList] at hc
  · rw [splitOn_eq_singleton hdot, map_singleton, String.ofList_toList]

theorem below_segments_iff {key key' : String} : PathMap.Below (segments key) (segments key') ↔ DottedPrefix key key' :=
  Separated.split_eq_append_iff

def placed (set : Labels) : List (List String × String) := set.map (fun l => (segments l.1, l.2))

theorem nodup_placed {set : Labels} (h : (set.map Prod.fst).Nodup) : ((placed set).map Prod.fst).Nodup := by
  have hmap : (placed set).map Prod.fst = (set.map Prod.fst).map segments := by
    unfold placed
    rw [List.map_map, List.map_map]
    rfl
  rw [hmap]
  exact h.map (fun _ _ heq => Separated.split_inj heq)

theorem convertLabelSetToEnv_eq {set : Labels} (h : PlainKeys set) (visit : Visit (String × String)) :
    convertLabelSetToEnv visit set = PathMap.build (placed set) := by
  have hmap : (visit.order set).map (fun l => (labelPath l.1, l.2)) = placed (visit.order set) := by
    refine map_congr_left (fun l hl => ?_)
    rw [labelPath_eq (h.noSpace l ((visit.perm set).mem_iff.1 hl))]
  have hperm : (placed (visit.order set)).Perm (placed set) := (visit.perm set).map _
  unfold convertLabelSetToEnv
  rw [hmap]
  exact PathMap.build_perm hperm ((hperm.map Prod.fst).nodup_iff.2 (nodup_placed h.nodup))

theorem find?_placed {set : Labels} (h : (set.map Prod.fst).Nodup) {path : List String} {value : String} :
    ((placed set).reverse.find? (fun x => x.1 == path)).map Prod.snd = some value ↔
      ∃ l ∈ set, segments l.1 = path ∧ l.2 = value := by
  constructor
  · intro hfind
    obtain ⟨x, hx, rfl⟩ := Option.map_eq_some_iff.1 hfind
    obtain ⟨l, hl, rfl⟩ := List.mem_map.1 (mem_reverse.1 (mem_of_find?_eq_some hx))
    exact ⟨l, hl, by simpa using List.find?_some hx, rfl⟩
  · rintro ⟨l, hl, rfl, rfl⟩
    have hin : (segments l.1, l.2) ∈ (placed set).reverse := mem_reverse.2 (List.mem_map_of_mem hl)
    cases hfind : (placed set).reverse.find? (fun x => x.1 == segments l.1) with
    | none => exact absurd (beq_self_eq_true _) (List.find?_eq_none.1 hfind _ hin)
    | some x =>
      have hkey : x.1 = segments l.1 := by simpa using List.find?_some hfind
      have hx : x ∈ placed set := mem_reverse.1 (mem_of_find?_eq_some hfind)
      rw [inj_on_of_nodup_map (nodup_placed h) hx (mem_reverse.1 hin) hkey]
      rfl

/-- **The environment of a label set**: one nested map for every order, whose leaves are the labels that no other key goes on
from, each under its segments. -/
theorem convertLabelSetToEnv_leaves {set : Labels} (h : PlainKeys set) : ∃ env : Env,
    (∀ visit, convertLabelSetToEnv visit set = env) ∧
    ∀ path value, PathMap.read path env = some value ↔
      ∃ l ∈ set, segments l.1 = path ∧ l.2 = value ∧ ∀ l' ∈ set, ¬ DottedPrefix l.1 l'.1 := by
  refine ⟨PathMap.build (placed set), convertLabelSetToEnv_eq h, fun path value => ?_⟩
  have hbelow : (∃ x ∈ placed set, PathMap.Below path x.1) ↔ ∃ l' ∈ set, PathMap.Below path (segments l'.1) := by
    constructor
    · rintro ⟨x, hx, hb⟩
      obtain ⟨l', hl', rfl⟩ := List.mem_map.1 hx
      exact ⟨l', hl', hb⟩
    · exact fun ⟨l', hl', hb⟩ => ⟨_, List.mem_map_of_mem hl', hb⟩
  by_cases hpath : path = []
  · subst hpath
    refine iff_of_false (by simp [PathMap.read]) ?_
    rintro ⟨l, -, hnil, -⟩
    exact Separated.split_ne_nil '.' l.1 hnil
  · rw [PathMap.read_build hpath]
    by_cases hb : ∃ l' ∈ set, PathMap.Below path (segments l'.1)
    · rw [if_pos (hbelow.2 hb)]
      refine iff_of_false (Option.some_ne_none _).symm ?_
      rintro ⟨l, -, rfl, -, hfree⟩
      obtain ⟨l', hl', hlow⟩ := hb
      exact hfree l' hl' (below_segments_iff.1 hlow)
    · rw [if_neg (fun hx => hb (hbelow.1 hx)), find?_placed h.nodup]
      refine exists_congr (fun l => and_congr_right (fun _ => ?_))
      constructor
      · rintro ⟨rfl, hvalue⟩
        exact ⟨rfl, hvalue, fun l' hl' hlow => hb ⟨l', hl', below_segments_iff.2 hlow⟩⟩
      · exact fun hl => ⟨hl.1, hl.2.1⟩

def nestedKeys : Labels := [("foo", "1"), ("foo.bar", "2"), ("foo..baz", "3")]

theorem plainKeys_nested : PlainKeys nestedKeys := by
  have hspace : ∀ l ∈ nestedKeys, l.1.toList.any GoStd.isSpace = false := by decide
  exact ⟨by decide, fun l hl c hc => Bool.eq_false_of_not_eq_true (List.any_eq_false.1 (hspace l hl) c hc)⟩

theorem nestedKeys_env : PlainKeys nestedKeys ∧ ∃ env : Env, (∀ visit, convertLabelSetToEnv visit nestedKeys = env) ∧
    ∀ path value, PathMap.read path env = some value ↔
      ∃ l ∈ nestedKeys, segments l.1 = path ∧ l.2 = value ∧ ∀ l' ∈ nestedKeys, ¬ DottedPrefix l.1 l'.1 :=
  ⟨plainKeys_nested, convertLabelSetToEnv_leaves plainKeys_nested⟩

end Rules
end DsApm
