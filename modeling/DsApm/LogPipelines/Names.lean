import DsApm.LogPipelines.Ids
import DsApm.LogPipelines.CollectorConfig
/-!
# Names — the names of the processors

A pipeline's name is taken from its alias, and gets the pipeline's place behind it if an earlier one has it already.  The
name with the place is not looked up again (`nodup_assigned`): it is another's whose alias comes to just that.
-/
namespace DsApm
namespace LogPipelines

open List

/-! ## Names with places -/

theorem toList_suffixed (b : String) (k : Nat) : (suffixed b k).toList = b.toList ++ '-' :: Nat.toDigits 10 k := by
  rw [suffixed, String.toList_append, String.toList_append, List.append_assoc]
  exact congrArg (fun l => b.toList ++ '-' :: l) Nat.toList_repr

theorem suffixed_place {b c : String} {k l : Nat} (h : suffixed b k = suffixed c l) : k = l := by
  have hchars := congrArg (fun s : String => s.toList.reverse.takeWhile (· ≠ '-')) h
  have hstop : ∀ (b : String) (k : Nat), (suffixed b k).toList.reverse.takeWhile (· ≠ '-') = (Nat.toDigits 10 k).reverse := fun b k => by
    rw [toList_suffixed, reverse_append, reverse_cons, List.append_assoc, takeWhile_append_of_pos fun c hc => ?_]
    · simp
    · have hne : c ≠ '-' := fun heq => GoStd.not_mem_toDigits (c := '-') rfl k (heq ▸ mem_reverse.1 hc)
      simpa using hne
  simp only [hstop] at hchars
  exact GoStd.toDigits_inj (reverse_injective hchars)

/-- The names of pipelines that come with their places and their names by the alias, the latest first. -/
def assigned : List (Nat × String) → List String
  | [] => []
  | (k, b) :: earlier => (if b ∈ assigned earlier then suffixed b k else b) :: assigned earlier

def taken : List (Nat × String) → String → Prop
  | [], _ => False
  | (k, b) :: earlier, n => b = n ∨ (suffixed b k = n ∧ taken earlier b) ∨ taken earlier n

/-- Some pipeline's name by the alias is taken, and with its place it is an earlier one's by the alias. -/
def Clash : List (Nat × String) → Prop
  | [] => False
  | (k, b) :: earlier => (taken earlier b ∧ ∃ e ∈ earlier, e.2 = suffixed b k) ∨ Clash earlier

theorem mem_assigned : ∀ (es : List (Nat × String)) {n : String}, n ∈ assigned es ↔ taken es n
  | [], _ => mem_nil_iff _
  | (k, b) :: earlier, n => by
    have ih := fun {n} => mem_assigned earlier (n := n)
    rw [assigned, mem_cons, taken, ← ih, ← ih]
    split_ifs with hb
    · constructor
      · rintro (rfl | h)
        · exact .inr (.inl ⟨rfl, hb⟩)
        · exact .inr (.inr h)
      · rintro (rfl | ⟨rfl, -⟩ | h)
        · exact .inr hb
        · exact .inl rfl
        · exact .inr h
    · simp only [hb, and_false, false_or, eq_comm]

theorem taken_suffixed {b : String} {k : Nat} : ∀ (es : List (Nat × String)), (∀ e ∈ es, e.1 ≠ k) →
    (taken es (suffixed b k) ↔ ∃ e ∈ es, e.2 = suffixed b k)
  | [], _ => by simp [taken]
  | (j, c) :: earlier, h => by
    rw [taken, taken_suffixed earlier fun e he => h e (mem_cons_of_mem _ he), exists_mem_cons_iff]
    have hplace : ¬(suffixed c j = suffixed b k ∧ taken earlier c) := fun hs =>
      h (j, c) mem_cons_self (suffixed_place hs.1)
    simp only [hplace, false_or]

/-- **No name is there twice if and only if there is no clash.** -/
theorem nodup_assigned : ∀ (es : List (Nat × String)), (es.map Prod.fst).Nodup → ((assigned es).Nodup ↔ ¬Clash es)
  | [], _ => by simp [assigned, Clash]
  | (k, b) :: earlier, hnd => by
    rw [map_cons, nodup_cons] at hnd
    have hplaces : ∀ e ∈ earlier, e.1 ≠ k := fun e he heq => hnd.1 (List.mem_map.2 ⟨e, he, heq⟩)
    rw [assigned, nodup_cons, Clash, not_or, nodup_assigned earlier hnd.2]
    refine and_congr_left fun _ => ?_
    split_ifs with hb
    · rw [mem_assigned, taken_suffixed earlier hplaces, and_iff_right ((mem_assigned earlier).1 hb)]
    · exact iff_of_true hb fun h => hb ((mem_assigned earlier).2 h.1)

/-! ## What the names begin with -/

theorem hasPrefix_append (s t : String) : hasPrefix (s ++ t) s = true := by
  rw [hasPrefix, String.toList_append, isPrefixOf_iff_prefix]
  exact prefix_append _ _

theorem collectorConfProcessorName_ours {φ : Type} (p : GettablePipeline φ) :
    hasSignozPipelineProcessorPrefix (collectorConfProcessorName p) = true := by
  rw [hasSignozPipelineProcessorPrefix, collectorConfProcessorName, hasPrefix_append]
  rfl

theorem suffixed_ours {b : String} (h : hasSignozPipelineProcessorPrefix b = true) (k : Nat) :
    hasSignozPipelineProcessorPrefix (suffixed b k) = true := by
  have hlonger : ∀ pre, hasPrefix b pre = true → hasPrefix (suffixed b k) pre = true := fun pre hb => by
    rw [hasPrefix, isPrefixOf_iff_prefix] at hb ⊢
    rw [toList_suffixed]
    exact hb.trans (prefix_append _ _)
  rw [hasSignozPipelineProcessorPrefix, Bool.or_eq_true] at h ⊢
  exact h.imp (hlonger _) (hlonger _)

theorem assigned_ours : ∀ (es : List (Nat × String)), (∀ e ∈ es, hasSignozPipelineProcessorPrefix e.2 = true) →
    ∀ n ∈ assigned es, hasSignozPipelineProcessorPrefix n = true
  | [], _, n, hn => by cases hn
  | (k, b) :: earlier, h, n, hn => by
    rcases mem_cons.1 hn with rfl | hn
    · have hb := h (k, b) mem_cons_self
      split_ifs
      · exact suffixed_ours hb k
      · exact hb
    · exact assigned_ours earlier (fun e he => h e (mem_cons_of_mem _ he)) n hn

/-! ## The loop -/

section
variable {φ : Type}

/-- The pipeline gets a processor: it is enabled, and so is one of its operators. -/
def GettablePipeline.kept (v : GettablePipeline φ) : Bool := v.enabled && v.config.any PipelineOperator.enabled

/-- The pipelines that get a processor, with their places from one on and their names by the alias, the latest first. -/
def aliases (pipelineIdx : Nat) (pipelines : List (GettablePipeline φ)) : List (Nat × String) :=
  (((pipelines.zipIdx pipelineIdx).filter fun e => e.1.kept).map fun e => (e.2, collectorConfProcessorName e.1)).reverse

theorem aliases_kept {v : GettablePipeline φ} (h : v.kept = true) (i : Nat) (vs : List (GettablePipeline φ)) :
    aliases i (v :: vs) = aliases (i + 1) vs ++ [(i, collectorConfProcessorName v)] := by
  rw [aliases, zipIdx_cons, filter_cons_of_pos (by exact h), map_cons, reverse_cons]
  rfl

theorem aliases_skipped {v : GettablePipeline φ} (h : v.kept = false) (i : Nat) (vs : List (GettablePipeline φ)) :
    aliases i (v :: vs) = aliases (i + 1) vs := by
  rw [aliases, zipIdx_cons, filter_cons_of_neg (by rw [h]; exact Bool.false_ne_true)]
  rfl

theorem aliases_ours (i : Nat) (vs : List (GettablePipeline φ)) : ∀ e ∈ aliases i vs, hasSignozPipelineProcessorPrefix e.2 = true := by
  intro e he
  obtain ⟨e', -, rfl⟩ := List.mem_map.1 (mem_reverse.1 he)
  exact collectorConfProcessorName_ours e'.1

theorem nodup_places (i : Nat) (vs : List (GettablePipeline φ)) : ((aliases i vs).map Prod.fst).Nodup := by
  rw [aliases, map_reverse, nodup_reverse, List.map_map]
  refine List.Nodup.sublist (filter_sublist.map _) ?_
  rw [Function.comp_def, zipIdx_map_snd]
  exact nodup_range'

/-- The processors of pipelines, each with the number from which on its ids are drawn. -/
inductive Built (K : Checks φ) : List (GettablePipeline φ) → Nat → List (Processor × Nat) → Nat → Prop
  | nil (n : Nat) : Built K [] n [] n
  | cons {v : GettablePipeline φ} {vs : List (GettablePipeline φ)} {n n' n'' : Nat} {p : Processor} {ps : List (Processor × Nat)}
      (head : buildProcessor K v n = some (some p, n')) (tail : Built K vs n' ps n'') : Built K (v :: vs) n ((p, n) :: ps) n''

def definitions (names : List String) (ps : List (Processor × Nat)) (processors : GoMap String Processor) : GoMap String Processor :=
  (names.zip ps).foldl (fun m e => m.insert e.1 e.2.1) processors

variable {K : Checks φ}

theorem drawn_of_none {ops : List PipelineOperator} (h : ops.any PipelineOperator.enabled = false) : drawn ops = 0 := by
  induction ops with
  | nil => rfl
  | cons op ops ih =>
    rw [any_cons, Bool.or_eq_false_iff] at h
    rw [drawn, h.1, if_neg Bool.false_ne_true, ih h.2]

/-- **What the loop has built**: the processors, under the names that are assigned. -/
theorem prepareFrom_built : ∀ (vs : List (GettablePipeline φ)) {i : Nat} {s r : Prepared} {n n' : Nat} (seen : List (Nat × String)),
    prepareFrom K i vs s n = some (r, n') → (∀ m, (s.processors.lookup m).isSome = true ↔ m ∈ s.names) → s.names.reverse = assigned seen →
      ∃ new ps, Built K (vs.filter GettablePipeline.kept) n ps n' ∧ new.length = ps.length ∧ r.names = s.names ++ new ∧
        r.processors = definitions new ps s.processors ∧ r.names.reverse = assigned (aliases i vs ++ seen)
  | [], i, s, r, n, n', seen, h, _, hseen => by
    cases h
    exact ⟨[], [], .nil n, rfl, (append_nil _).symm, rfl, hseen⟩
  | v :: vs, i, s, r, n, n', seen, h, hkeys, hseen => by
    rw [prepareFrom] at h
    by_cases hen : v.enabled = true
    · rw [if_pos hen] at h
      obtain ⟨⟨p, n₁⟩, hp, h⟩ := Option.bind_eq_some_iff.1 h
      obtain ⟨rfl, hsome, -⟩ := buildProcessor_ids hp
      cases p with
      | none =>
        -- no operator is enabled
        have hkept : v.kept = false := by rw [GettablePipeline.kept, ← hsome, Bool.and_comm]; rfl
        rw [drawn_of_none hsome.symm] at h
        rw [filter_cons_of_neg (by rw [hkept]; exact Bool.false_ne_true), aliases_skipped hkept]
        exact prepareFrom_built vs seen h hkeys hseen
      | some p =>
        have hkept : v.kept = true := by rw [GettablePipeline.kept, hen, ← hsome]; rfl
        have hname : (if (s.processors.lookup (collectorConfProcessorName v)).isSome = true then suffixed (collectorConfProcessorName v) i
            else collectorConfProcessorName v) :: assigned seen = assigned ((i, collectorConfProcessorName v) :: seen) := by
          rw [assigned]
          refine congrArg (· :: assigned seen) (if_congr ?_ rfl rfl)
          rw [hkeys, ← mem_reverse, hseen]
        dsimp only at h
        generalize hn : (if (s.processors.lookup (collectorConfProcessorName v)).isSome = true then suffixed (collectorConfProcessorName v) i
            else collectorConfProcessorName v) = name at h hname
        obtain ⟨new, ps, hbuilt, hlen, hnames, hprocs, hassigned⟩ := prepareFrom_built vs ((i, collectorConfProcessorName v) :: seen) h
          (fun m => by
            by_cases hm : m = name
            · subst hm
              simp
            · rw [AList.lookup_insert_ne hm, hkeys]
              simp [hm])
          (by rw [reverse_append, hseen]; exact hname)
        rw [filter_cons_of_pos hkept, aliases_kept hkept]
        refine ⟨name :: new, (p, n) :: ps, .cons hp hbuilt, congrArg (· + 1) hlen, ?_, hprocs, ?_⟩
        · rw [hnames, List.append_assoc]
          rfl
        · rw [hassigned, List.append_assoc]
          rfl
    · have hkept : v.kept = false := by rw [GettablePipeline.kept, Bool.not_eq_true _ |>.mp hen]; rfl
      rw [if_neg hen] at h
      rw [filter_cons_of_neg (by rw [hkept]; exact Bool.false_ne_true), aliases_skipped hkept]
      exact prepareFrom_built vs seen h hkeys hseen

/-- **The processors and the names that are prepared.** -/
theorem preparePipelineProcessor_built {vs : List (GettablePipeline φ)} {r : Prepared} {n n' : Nat}
    (h : preparePipelineProcessor K vs n = some (r, n')) :
    ∃ ps, Built K (vs.filter GettablePipeline.kept) n ps n' ∧ r.names.length = ps.length ∧ r.processors = definitions r.names ps ∅ ∧
      r.names = (assigned (aliases 0 vs)).reverse := by
  obtain ⟨new, ps, hbuilt, hlen, hnames, hprocs, hassigned⟩ := prepareFrom_built vs [] h (fun m => by simp) rfl
  rw [nil_append] at hnames
  rw [append_nil] at hassigned
  refine ⟨ps, hbuilt, hnames ▸ hlen, hnames ▸ hprocs, ?_⟩
  rw [← hassigned, reverse_reverse]

theorem prepareFrom_start : ∀ (vs : List (GettablePipeline φ)), (∀ v ∈ vs, v.kept = true → drawn v.config = 0) → ∀ i s,
    ∃ r : Option Prepared, ∀ n, prepareFrom K i vs s n = r.map fun s => (s, n)
  | [], _, _, s => ⟨some s, fun _ => rfl⟩
  | v :: vs, h, i, s => by
    have ih := prepareFrom_start vs fun v' hv' => h v' (mem_cons_of_mem _ hv')
    simp only [prepareFrom]
    by_cases hen : v.enabled = true
    · have hdrawn : drawn v.config = 0 := by
        cases hany : v.config.any PipelineOperator.enabled with
        | false => exact drawn_of_none hany
        | true => exact h v mem_cons_self (by rw [GettablePipeline.kept, hen, hany]; rfl)
      obtain ⟨r, hr⟩ := buildProcessor_start (K := K) (v := v) hdrawn
      simp only [if_pos hen, hr]
      cases r with
      | none => exact ⟨none, fun _ => rfl⟩
      | some p =>
        cases p with
        | none => exact ih (i + 1) s
        | some p => exact ih (i + 1) _
    · simp only [if_neg hen]
      exact ih (i + 1) s

end

end LogPipelines
end DsApm
