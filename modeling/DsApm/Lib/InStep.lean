import DsApm.Lib.GoMap
/-!
# InStep — two maps that go through the same writes

Two maps are in step when their entries correspond one by one, the keys by `K` and the values by `D`.  Where `K` tells the
keys on both sides apart alike, writing corresponding keys and looping over both maps keeps them in step
(`InStep.foldl_put`, `InStep.filterMapVal`), and corresponding keys hold corresponding values (`InStep.lookup`).
-/
namespace GoMap

open List

variable {κ κ' α α' β β' γ : Type}

def EntryRel (K : κ → κ' → Prop) (D : α → α' → Prop) (e : Sigma (fun _ : κ => α)) (e' : Sigma (fun _ : κ' => α')) : Prop :=
  K e.1 e'.1 ∧ D e.2 e'.2

def InStep (K : κ → κ' → Prop) (D : α → α' → Prop) (m : GoMap κ α) (m' : GoMap κ' α') : Prop :=
  List.Forall₂ (EntryRel K D) m.entries m'.entries

def TellsAlike (K : κ → κ' → Prop) : Prop := ∀ a a' b b', K a a' → K b b' → (a = b ↔ a' = b')

variable {K : κ → κ' → Prop} {D : α → α' → Prop} {m : GoMap κ α} {m' : GoMap κ' α'}

theorem inStep_empty : InStep K D (∅ : GoMap κ α) (∅ : GoMap κ' α') := List.Forall₂.nil

theorem InStep.mono {K' : κ → κ' → Prop} (h : InStep K D m m') (hK : ∀ a a', K a a' → K' a a') : InStep K' D m m' :=
  List.Forall₂.imp (fun _ _ he => ⟨hK _ _ he.1, he.2⟩) h

theorem InStep.exists_entry (h : InStep K D m m') {e' : Sigma (fun _ : κ' => α')} (he' : e' ∈ m'.entries) :
    ∃ e ∈ m.entries, EntryRel K D e e' := by
  unfold InStep at h
  generalize m.entries = l at h
  generalize m'.entries = l' at h he'
  induction h with
  | nil => cases he'
  | @cons a b l l' hab _ ih =>
    rcases mem_cons.1 he' with rfl | hin
    · exact ⟨a, mem_cons_self, hab⟩
    · obtain ⟨e, he, hrel⟩ := ih hin
      exact ⟨e, mem_cons_of_mem _ he, hrel⟩

section
variable [DecidableEq κ] [DecidableEq κ']

theorem forall₂_kerase {k : κ} {k' : κ'} (hK : TellsAlike K) (hk : K k k') {l : List (Sigma (fun _ : κ => α))}
    {l' : List (Sigma (fun _ : κ' => α'))} (h : List.Forall₂ (EntryRel K D) l l') :
    List.Forall₂ (EntryRel K D) (l.kerase k) (l'.kerase k') := by
  induction h with
  | nil => exact List.Forall₂.nil
  | @cons e e' l l' he hl ih =>
    by_cases heq : k = e.1
    · rw [kerase_cons_eq heq, kerase_cons_eq ((hK _ _ _ _ hk he.1).1 heq)]
      exact hl
    · rw [kerase_cons_ne heq, kerase_cons_ne (fun h => heq ((hK _ _ _ _ hk he.1).2 h))]
      exact List.Forall₂.cons he ih

theorem forall₂_dlookup {k : κ} {k' : κ'} (hK : TellsAlike K) (hk : K k k') {l : List (Sigma (fun _ : κ => α))}
    {l' : List (Sigma (fun _ : κ' => α'))} (h : List.Forall₂ (EntryRel K D) l l') :
    Option.Rel D (l.dlookup k) (l'.dlookup k') := by
  induction h with
  | nil => exact Option.Rel.none
  | @cons e e' l l' he hl ih =>
    obtain ⟨a, b⟩ := e
    obtain ⟨a', b'⟩ := e'
    by_cases heq : k = a
    · obtain rfl := heq
      obtain rfl := (hK _ _ _ _ hk he.1).1 rfl
      rw [dlookup_cons_eq, dlookup_cons_eq]
      exact Option.Rel.some he.2
    · have hne : k' ≠ a' := fun h => heq ((hK _ _ _ _ hk he.1).2 h)
      rw [dlookup_cons_ne _ _ heq, dlookup_cons_ne _ _ hne]
      exact ih

/-- **Corresponding keys hold corresponding values.** -/
theorem InStep.lookup (h : InStep K D m m') (hK : TellsAlike K) {k : κ} {k' : κ'} (hk : K k k') :
    Option.Rel D (m.lookup k) (m'.lookup k') := forall₂_dlookup hK hk h

theorem InStep.put (h : InStep K D m m') (hK : TellsAlike K) {k : κ} {k' : κ'} (hk : K k k') {g : Option α → α}
    {g' : Option α' → α'} (hg : ∀ o o', Option.Rel D o o' → D (g o) (g' o')) :
    InStep K D (put g m k) (put g' m' k') :=
  List.Forall₂.cons ⟨hk, hg _ _ (h.lookup hK hk)⟩ (forall₂_kerase hK hk h)

theorem InStep.foldl_put (hK : TellsAlike K) {g : β → Option α → α} {g' : β' → Option α' → α'}
    {l : List (κ × β)} {l' : List (κ' × β')}
    (hl : List.Forall₂ (fun e e' => K e.1 e'.1 ∧ ∀ o o', Option.Rel D o o' → D (g e.2 o) (g' e'.2 o')) l l') :
    ∀ {m : GoMap κ α} {m' : GoMap κ' α'}, InStep K D m m' →
      InStep K D (l.foldl (fun m e => GoMap.put (g e.2) m e.1) m) (l'.foldl (fun m e => GoMap.put (g' e.2) m e.1) m') := by
  induction hl with
  | nil => exact fun h => h
  | cons he _ ih => exact fun h => ih (h.put hK he.1 he.2)

end

theorem InStep.filterMapVal {D' : β → β' → Prop} {f : κ → α → Option β} {f' : κ' → α' → Option β'} (h : InStep K D m m')
    (hf : ∀ k k' a a', K k k' → D a a' → Option.Rel D' (f k a) (f' k' a')) :
    InStep K D' (GoMap.filterMapVal f m) (GoMap.filterMapVal f' m') := by
  unfold InStep GoMap.filterMapVal at *
  simp only
  generalize m.entries = l at h
  generalize m'.entries = l' at h
  induction h with
  | nil => exact List.Forall₂.nil
  | @cons e e' l l' he _ ih =>
    have hrel := hf _ _ _ _ he.1 he.2
    rw [filterMap_cons, filterMap_cons, entry, entry]
    generalize f e.1 e.2 = o at hrel
    generalize f' e'.1 e'.2 = o' at hrel
    cases hrel with
    | none => exact ih
    | some hd => exact List.Forall₂.cons ⟨he.1, hd⟩ ih

theorem InStep.flatMap_eq {f : Sigma (fun _ : κ => α) → List γ} {f' : Sigma (fun _ : κ' => α') → List γ}
    (h : InStep K D m m') (hf : ∀ e ∈ m.entries, ∀ e', EntryRel K D e e' → f e = f' e') :
    m.entries.flatMap f = m'.entries.flatMap f' := by
  unfold InStep at h
  generalize m.entries = l at h hf
  generalize m'.entries = l' at h
  induction h with
  | nil => rfl
  | cons he _ ih =>
    rw [forall_mem_cons] at hf
    rw [flatMap_cons, flatMap_cons, hf.1 _ he, ih hf.2]

end GoMap
