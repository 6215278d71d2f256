import DsApm.Lib.GoStd
import DsApm.Lib.Latest
import Mathlib.Data.String.Basic
/-!
# Labels — label sets and their builder

`labels.go` of the rule types.  A label set is sorted by name; the builder removes and sets names over a base and sorts
what it hands out.
-/
namespace DsApm
namespace Rules

open Latest List

abbrev Labels := List (String × String)

def metricNameLabel : String := "__name__"
def temporalityLabel : String := "__temporality__"
def alertNameLabel : String := "alertname"
def alertRuleIDLabel : String := "ruleId"
def ruleSourceLabel : String := "ruleSource"
def noDataLabel : String := "nodata"
def labelThresholdName : String := "threshold.name"
def labelSeverityName : String := "severity"
def labelLastSeen : String := "lastSeen"

def sortLabels (ls : Labels) : Labels := sortBy Prod.fst ls

structure Builder where
  base : Labels
  del : List String
  add : Labels

def newBuilder (base : Labels) : Builder := { base, del := [], add := [] }

def Builder.delete (b : Builder) (n : String) : Builder :=
  { b with add := b.add.filter (fun a => a.1 != n), del := b.del ++ [n] }

def setLabel : Labels → String → String → Labels
  | [], n, v => [(n, v)]
  | (k, w) :: ls, n, v => if k = n then (n, v) :: ls else (k, w) :: setLabel ls n v

def Builder.set (b : Builder) (n v : String) : Builder := { b with add := setLabel b.add n v }

def Builder.labels (b : Builder) : Labels :=
  if b.del.isEmpty && b.add.isEmpty then b.base
  else sortLabels (b.base.filter (fun l => !b.del.contains l.1 && !(b.add.map Prod.fst).contains l.1) ++ b.add)

def labelValue (ls : Labels) (name : String) : Option String := (ls.reverse.find? (fun l => l.1 == name)).map Prod.snd

def Builder.setAll (b : Builder) (m : Labels) : Builder := m.foldl (fun b l => b.set l.1 l.2) b

/-! ## What a builder hands out -/

theorem mem_names_setLabel (ls : Labels) (n v m : String) :
    m ∈ (setLabel ls n v).map Prod.fst ↔ m = n ∨ m ∈ ls.map Prod.fst := by
  induction ls with
  | nil => simp [setLabel]
  | cons l ls ih =>
    obtain ⟨k, w⟩ := l
    rw [setLabel]
    by_cases h : k = n
    · simp [h]
    · rw [if_neg h, map_cons, mem_cons, ih, map_cons, mem_cons]
      tauto

theorem mem_names_setAll (m : Labels) : ∀ (b : Builder) (n : String),
    n ∈ (b.setAll m).add.map Prod.fst ↔ n ∈ m.map Prod.fst ∨ n ∈ b.add.map Prod.fst := by
  induction m with
  | nil => simp [Builder.setAll]
  | cons l m ih =>
    intro b n
    have hstep : (b.setAll (l :: m)) = (b.set l.1 l.2).setAll m := rfl
    rw [hstep, ih, Builder.set, mem_names_setLabel, map_cons, mem_cons]
    tauto

theorem setAll_add (m : Labels) (b : Builder) : (b.setAll m).add = m.foldl (fun a l => setLabel a l.1 l.2) b.add := by
  induction m generalizing b with
  | nil => rfl
  | cons l m ih => exact ih _

@[simp] theorem setAll_base (m : Labels) (b : Builder) : (b.setAll m).base = b.base := by
  induction m generalizing b with
  | nil => rfl
  | cons l m ih => exact ih _

@[simp] theorem setAll_del (m : Labels) (b : Builder) : (b.setAll m).del = b.del := by
  induction m generalizing b with
  | nil => rfl
  | cons l m ih => exact ih _

theorem labels_of_base_nil {b : Builder} (hb : b.base = []) : b.labels = sortLabels b.add := by
  unfold Builder.labels
  split_ifs with h
  · rw [Bool.and_eq_true, List.isEmpty_iff, List.isEmpty_iff] at h
    rw [hb, h.2]
    rfl
  · rw [hb]
    rfl

theorem foldl_delete (ls : Labels) (names del : List String) :
    names.foldl Builder.delete { base := ls, del, add := [] } = { base := ls, del := del ++ names, add := [] } := by
  induction names generalizing del with
  | nil => simp
  | cons n names ih => rw [foldl_cons, Builder.delete, filter_nil, ih, List.append_assoc, singleton_append]

theorem labels_delete_absent {ls : Labels} (hs : ls.Pairwise (fun a b => a.1 ≤ b.1)) {names : List String}
    (h : ∀ l ∈ ls, l.1 ∉ names) : (names.foldl Builder.delete (newBuilder ls)).labels = ls := by
  rw [newBuilder, foldl_delete, nil_append, Builder.labels]
  split_ifs
  · rfl
  · have hall : ls.filter (fun l => !names.contains l.1 && !(([] : Labels).map Prod.fst).contains l.1) = ls := by
      rw [filter_eq_self]
      intro l hl
      simpa using h l hl
    rw [hall, append_nil]
    exact hs.insertionSort_eq

theorem mem_setLabel_self (ls : Labels) (n v : String) : (n, v) ∈ setLabel ls n v := by
  induction ls with
  | nil => simp [setLabel]
  | cons l ls ih =>
    obtain ⟨k, w⟩ := l
    rw [setLabel]
    split
    · exact mem_cons_self
    · exact mem_cons_of_mem _ ih

theorem mem_setLabel_of_ne {ls : Labels} {l : String × String} (hl : l ∈ ls) {n : String} (hne : l.1 ≠ n) (v : String) :
    l ∈ setLabel ls n v := by
  induction ls with
  | nil => cases hl
  | cons m ls ih =>
    obtain ⟨k, w⟩ := m
    rw [setLabel]
    rcases mem_cons.1 hl with rfl | hl
    · rw [if_neg hne]
      exact mem_cons_self
    · split
      · exact mem_cons_of_mem _ hl
      · exact mem_cons_of_mem _ (ih hl)

theorem mem_labels_of_add {b : Builder} {l : String × String} (h : l ∈ b.add) : l ∈ b.labels := by
  unfold Builder.labels
  rw [if_neg (by cases hadd : b.add with
    | nil => rw [hadd] at h; cases h
    | cons x xs => simp)]
  exact (sortBy_perm Prod.fst _).mem_iff.2 (mem_append_right _ h)

theorem mem_names_labels_of_base {b : Builder} {n : String} (h : n ∈ b.base.map Prod.fst) (hdel : n ∉ b.del) :
    n ∈ b.labels.map Prod.fst := by
  obtain ⟨l, hl, rfl⟩ := List.mem_map.1 h
  by_cases hadd : l.1 ∈ b.add.map Prod.fst
  · obtain ⟨l', hl', hn⟩ := List.mem_map.1 hadd
    exact List.mem_map.2 ⟨l', mem_labels_of_add hl', hn⟩
  · refine List.mem_map_of_mem ?_
    unfold Builder.labels
    split
    · exact hl
    · refine (sortBy_perm Prod.fst _).mem_iff.2 (mem_append_left _ (mem_filter.2 ⟨hl, ?_⟩))
      simpa using ⟨hdel, fun v hv => hadd (List.mem_map.2 ⟨_, hv, rfl⟩)⟩

theorem nodup_setLabel {ls : Labels} (h : (ls.map Prod.fst).Nodup) (n v : String) :
    ((setLabel ls n v).map Prod.fst).Nodup := by
  induction ls with
  | nil => simp [setLabel]
  | cons l ls ih =>
    obtain ⟨k, w⟩ := l
    rw [map_cons, nodup_cons] at h
    rw [setLabel]
    split_ifs with hk
    · subst hk
      exact nodup_cons.2 h
    · rw [map_cons, nodup_cons, mem_names_setLabel]
      exact ⟨fun hin => hin.elim hk h.1, ih h.2⟩

theorem nodup_foldl_setLabel (m : Labels) : ∀ {a : Labels}, (a.map Prod.fst).Nodup →
    ((m.foldl (fun a l => setLabel a l.1 l.2) a).map Prod.fst).Nodup := by
  induction m with
  | nil => exact id
  | cons l m ih => exact fun h => ih (nodup_setLabel h l.1 l.2)

theorem setLabel_of_not_mem {ls : Labels} {n : String} (h : n ∉ ls.map Prod.fst) (v : String) :
    setLabel ls n v = ls ++ [(n, v)] := by
  induction ls with
  | nil => rfl
  | cons l ls ih =>
    obtain ⟨k, w⟩ := l
    rw [map_cons, mem_cons, not_or] at h
    rw [setLabel, if_neg (Ne.symm h.1), ih h.2, cons_append]

theorem mem_setLabel {ls : Labels} (h : (ls.map Prod.fst).Nodup) {n v : String} {l : String × String} :
    l ∈ setLabel ls n v ↔ l = (n, v) ∨ (l.1 ≠ n ∧ l ∈ ls) := by
  constructor
  · intro hl
    by_cases hn : l.1 = n
    · refine .inl (inj_on_of_nodup_map (nodup_setLabel h n v) hl (mem_setLabel_self ls n v) hn)
    · refine .inr ⟨hn, ?_⟩
      clear h
      induction ls with
      | nil =>
        rw [setLabel, mem_singleton] at hl
        exact absurd (by rw [hl]) hn
      | cons m ls ih =>
        obtain ⟨k, w⟩ := m
        rw [setLabel] at hl
        split_ifs at hl with hk
        · rcases mem_cons.1 hl with rfl | hl
          · exact absurd rfl hn
          · exact mem_cons_of_mem _ hl
        · rcases mem_cons.1 hl with rfl | hl
          · exact mem_cons_self
          · exact mem_cons_of_mem _ (ih hl)
  · rintro (rfl | ⟨hn, hl⟩)
    · exact mem_setLabel_self ls n v
    · exact mem_setLabel_of_ne hl hn v

theorem foldl_setLabel_of_nodup (m : Labels) : ∀ {a : Labels}, ((a ++ m).map Prod.fst).Nodup →
    m.foldl (fun a l => setLabel a l.1 l.2) a = a ++ m := by
  induction m with
  | nil => exact fun _ => (append_nil _).symm
  | cons l m ih =>
    intro a h
    have hl : l.1 ∉ a.map Prod.fst := by
      rw [map_append, nodup_append] at h
      exact fun hin => h.2.2 _ hin _ (List.mem_map_of_mem mem_cons_self) rfl
    rw [foldl_cons, setLabel_of_not_mem hl, ih (by rwa [List.append_assoc]), List.append_assoc,
      singleton_append]

theorem sortLabels_eq_iff {ls ls' : Labels} (h : (ls.map Prod.fst).Nodup) : sortLabels ls = sortLabels ls' ↔ ls.Perm ls' := by
  constructor
  · intro heq
    have hperm : (sortLabels ls).Perm (sortLabels ls') := by rw [heq]
    exact (sortBy_perm Prod.fst ls).symm.trans (hperm.trans (sortBy_perm Prod.fst ls'))
  · exact fun hperm => sortBy_eq hperm (fun a ha b hb hab => inj_on_of_nodup_map h ha hb hab)

theorem sorted_sortLabels (ls : Labels) : (sortLabels ls).Pairwise (fun a b => a.1 ≤ b.1) := pairwise_sortBy Prod.fst ls

end Rules
end DsApm
