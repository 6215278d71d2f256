import DsApm.LogPipelines.Builder
import Mathlib.Data.List.Induction
import Mathlib.Data.List.ModifyLast
/-!
# Ids — which ids the operators of a processor have

An operator keeps its id, and a `json_parser` with a mapping puts one operator behind itself for each keyword, with ids that
are drawn one after the other (`filterOperators_ids`).  So the ids tell from where on they were drawn (`idsFrom_inj`), and
where none is drawn all is the same wherever the drawing starts (`filterOperators_start`).
-/
namespace DsApm
namespace LogPipelines

open List Option

def mappingKeys : List String :=
  ["host", "service", "trace_id", "span_id", "trace_flags", "severity", "environment", "message"]

def draws (op : PipelineOperator) : Nat :=
  if op.type = "json_parser" then
    match op.mapping with
    | none => 0
    | some mapping => (mappingKeys.map fun key => (keywords mapping key).length).sum
  else 0

section
variable {φ : Type} (K : Checks φ)

theorem keys_kinds (parseTo : String) : (kinds K parseTo).map Prod.fst = mappingKeys := rfl

def drawn : List PipelineOperator → Nat
  | [] => 0
  | op :: ops => if op.enabled then draws op + drawn ops else drawn ops

def generated (n k : Nat) : List String := (List.range' n k).map (generateCustomID K)

def idsFrom : List PipelineOperator → Nat → List String
  | [], _ => []
  | op :: ops, n => if op.enabled then op.id :: generated K n (draws op) ++ idsFrom ops (n + draws op) else idsFrom ops n

/-! ## One operator -/

theorem generated_add (n k l : Nat) : generated K n (k + l) = generated K n k ++ generated K (n + k) l := by
  rw [generated, ← range'_append_1, map_append]
  rfl

variable {K}

variable {op : PipelineOperator}

theorem processSeverityParser_kept {op' : PipelineOperator} (h : processSeverityParser K op = some op') :
    op'.id = op.id ∧ op'.output = op.output := by
  unfold processSeverityParser at h
  split at h
  · cases h
  · obtain ⟨check, -, rfl⟩ := map_eq_some_iff.1 h
    exact ⟨rfl, rfl⟩

theorem generateOperators_ids {make : String → String → Option PipelineOperator} (hmake : ∀ {id k op}, make id k = some op → op.id = id) :
    ∀ (ks : List String) {n n' : Nat} {ops : List PipelineOperator}, generateOperators K make ks n = some (ops, n') →
      n' = n + ks.length ∧ ops.map PipelineOperator.id = generated K n ks.length
  | [], n, n', ops, h => by
    cases h
    exact ⟨rfl, rfl⟩
  | k :: ks, n, n', ops, h => by
    obtain ⟨op, hop, h⟩ := bind_eq_some_iff.1 h
    obtain ⟨⟨ops', n''⟩, hops, heq⟩ := map_eq_some_iff.1 h
    cases heq
    obtain ⟨rfl, hids⟩ := generateOperators_ids hmake ks hops
    rw [map_cons, length_cons, hids, hmake hop, Nat.add_comm ks.length 1, generated_add]
    exact ⟨Nat.add_assoc n 1 ks.length, rfl⟩

theorem kinds_id {parseTo : String} : ∀ e ∈ kinds K parseTo, ∀ {id k op}, e.2 id k = some op → op.id = id := by
  have hmove : ∀ {target id k op}, moveOperator K parseTo target id k = some op → op.id = id := fun h => by
    obtain ⟨check, -, rfl⟩ := map_eq_some_iff.1 h
    rfl
  have htrace : ∀ parser, ∀ {id k op}, traceOperator K parser parseTo id k = some op → op.id = id := fun parser id k op h => by
    cases h
    rfl
  have hseverity : ∀ {id k op}, severityOperator K parseTo id k = some op → op.id = id := fun h => by
    obtain ⟨op', hop', rfl⟩ := map_eq_some_iff.1 h
    exact (processSeverityParser_kept hop').1
  intro e he
  simp only [kinds, mem_cons, not_mem_nil, or_false] at he
  rcases he with rfl | rfl | rfl | rfl | rfl | rfl | rfl | rfl
  · exact hmove
  · exact hmove
  · exact htrace fun p => ⟨some p, none, none⟩
  · exact htrace fun p => ⟨none, some p, none⟩
  · exact htrace fun p => ⟨none, none, some p⟩
  · exact hseverity
  · exact hmove
  · exact hmove

theorem generateKinds_ids {mapping : List (String × List String)} :
    ∀ (es : List (String × (String → String → Option PipelineOperator))), (∀ e ∈ es, ∀ {id k op}, e.2 id k = some op → op.id = id) →
      ∀ {n n' : Nat} {ops : List PipelineOperator}, generateKinds K mapping es n = some (ops, n') →
        n' = n + (es.map fun e => (keywords mapping e.1).length).sum ∧
        ops.map PipelineOperator.id = generated K n (es.map fun e => (keywords mapping e.1).length).sum
  | [], _, n, n', ops, h => by
    cases h
    exact ⟨rfl, rfl⟩
  | e :: es, hes, n, n', ops, h => by
    obtain ⟨⟨ops₁, n₁⟩, h₁, h⟩ := bind_eq_some_iff.1 h
    obtain ⟨⟨ops₂, n₂⟩, h₂, heq⟩ := map_eq_some_iff.1 h
    cases heq
    obtain ⟨rfl, hids₁⟩ := generateOperators_ids (hes e mem_cons_self) _ h₁
    obtain ⟨rfl, hids₂⟩ := generateKinds_ids es (fun e' he' => hes e' (mem_cons_of_mem _ he')) h₂
    rw [map_append, hids₁, hids₂, map_cons, sum_cons, generated_add, length_reverse]
    exact ⟨Nat.add_assoc _ _ _, rfl⟩

theorem conditioned_id (op : PipelineOperator) (check : String) : (conditioned op check).id = op.id := by
  unfold conditioned
  dsimp only
  split <;> rfl

variable {ops : List PipelineOperator}

theorem processJSONParser_ids {n n' : Nat}
    (h : processJSONParser K op n = some (ops, n')) :
    n' = n + draws op ∧ ops.map PipelineOperator.id = op.id :: generated K n (draws op) := by
  unfold processJSONParser at h
  split at h
  · cases h
  · rename_i htype
    obtain ⟨check, -, h⟩ := bind_eq_some_iff.1 h
    rw [draws, if_pos (not_not.1 htype)]
    cases hm : op.mapping with
    | none =>
      rw [hm] at h
      cases h
      exact ⟨rfl, congrArg (fun i => [i]) (conditioned_id op check)⟩
    | some mapping =>
      rw [hm] at h
      obtain ⟨⟨children, n''⟩, hchildren, heq⟩ := map_eq_some_iff.1 h
      cases heq
      have hkeys := generateKinds_ids (kinds K op.parseTo) kinds_id hchildren
      rw [← Function.comp_def (fun key => (keywords mapping key).length) Prod.fst, ← List.map_map, keys_kinds] at hkeys
      rw [map_cons, hkeys.2]
      exact ⟨hkeys.1, congrArg (fun i => i :: _) (conditioned_id op check)⟩

theorem processOperator_one (htype : op.type ≠ "json_parser") :
    ∃ r : Option PipelineOperator, (∀ n, processOperator K op n = r.map fun op => ([op], n)) ∧
      ∀ op', r = some op' → op'.id = op.id ∧ op'.output = op.output := by
  have hmap : ∀ {β : Type} (o : Option β) (f : β → PipelineOperator), (∀ b, (f b).id = op.id ∧ (f b).output = op.output) →
      ∀ op', o.map f = some op' → op'.id = op.id ∧ op'.output = op.output := fun o f hf op' h => by
    obtain ⟨b, -, rfl⟩ := map_eq_some_iff.1 h
    exact hf b
  have hself : ∀ op', some op = some op' → op'.id = op.id ∧ op'.output = op.output := fun op' h => by
    cases h
    exact ⟨rfl, rfl⟩
  unfold processOperator
  dsimp only
  simp only [if_neg htype]
  by_cases h₁ : op.type = "regex_parser"
  · simp only [if_pos h₁]
    exact ⟨_, fun _ => rfl, hmap _ _ fun _ => ⟨rfl, rfl⟩⟩
  simp only [if_neg h₁]
  by_cases h₂ : op.type = "grok_parser"
  · simp only [if_pos h₂]
    exact ⟨_, fun _ => rfl, hmap _ _ fun _ => ⟨rfl, rfl⟩⟩
  simp only [if_neg h₂]
  by_cases h₃ : op.type = "add"
  · simp only [if_pos h₃]
    by_cases hexpr : (hasPrefix op.value "EXPR(" && hasSuffix op.value ")") = true
    · simp only [if_pos hexpr]
      exact ⟨_, fun _ => rfl, hmap _ _ fun check => by split <;> exact ⟨rfl, rfl⟩⟩
    · simp only [if_neg hexpr]
      exact ⟨_, fun _ => rfl, hself⟩
  simp only [if_neg h₃]
  by_cases h₄ : op.type = "move" ∨ op.type = "copy"
  · simp only [if_pos h₄]
    exact ⟨_, fun _ => rfl, hmap _ _ fun _ => ⟨rfl, rfl⟩⟩
  simp only [if_neg h₄]
  by_cases h₅ : op.type = "remove"
  · simp only [if_pos h₅]
    exact ⟨_, fun _ => rfl, hmap _ _ fun _ => ⟨rfl, rfl⟩⟩
  simp only [if_neg h₅]
  by_cases h₆ : op.type = "trace_parser"
  · simp only [if_pos h₆]
    exact ⟨_, fun _ => rfl, hmap _ _ fun _ => ⟨rfl, rfl⟩⟩
  simp only [if_neg h₆]
  by_cases h₇ : op.type = "time_parser"
  · simp only [if_pos h₇]
    refine ⟨_, fun _ => rfl, fun op' h => ?_⟩
    obtain ⟨check, -, h⟩ := bind_eq_some_iff.1 h
    by_cases hs : op.layoutType = "strptime"
    · rw [if_pos hs] at h
      obtain ⟨regex, -, rfl⟩ := map_eq_some_iff.1 h
      exact ⟨rfl, rfl⟩
    · rw [if_neg hs] at h
      by_cases he : op.layoutType = "epoch"
      · rw [if_pos he] at h
        cases h
        exact ⟨rfl, rfl⟩
      · rw [if_neg he] at h
        cases h
        exact ⟨rfl, rfl⟩
  simp only [if_neg h₇]
  by_cases h₈ : op.type = "severity_parser"
  · simp only [if_pos h₈]
    exact ⟨_, fun _ => rfl, fun op' h => processSeverityParser_kept h⟩
  simp only [if_neg h₈]
  exact ⟨_, fun _ => rfl, hself⟩

theorem processOperator_json (htype : op.type = "json_parser") (n : Nat) :
    processOperator K op n = processJSONParser K op n := by
  rw [processOperator, if_neg (by rw [htype]; decide), if_neg (by rw [htype]; decide), if_pos htype]

theorem processOperator_ids {n n' : Nat}
    (h : processOperator K op n = some (ops, n')) :
    n' = n + draws op ∧ ops.map PipelineOperator.id = op.id :: generated K n (draws op) := by
  by_cases htype : op.type = "json_parser"
  · rw [processOperator_json htype] at h
    exact processJSONParser_ids h
  · obtain ⟨r, hr, hid⟩ := processOperator_one (K := K) htype
    obtain ⟨op', hop', heq⟩ := map_eq_some_iff.1 ((hr n).symm.trans h)
    cases heq
    rw [draws, if_neg htype]
    exact ⟨rfl, congrArg (fun i => [i]) (hid op' hop').1⟩

/-! ## All of them -/

theorem map_id_dropLastOutput (ops : List PipelineOperator) : (dropLastOutput ops).map PipelineOperator.id = ops.map PipelineOperator.id := by
  refine ops.reverseRecOn rfl fun ops op _ => ?_
  rw [dropLastOutput, modifyLast_concat, map_append, map_append]
  rfl

theorem map_id_chainOutputs : ∀ ops : List PipelineOperator, (chainOutputs ops).map PipelineOperator.id = ops.map PipelineOperator.id
  | [] => rfl
  | [_] => rfl
  | op :: next :: ops => congrArg (op.id :: ·) (map_id_chainOutputs (next :: ops))

/-- **The ids of what is put.** -/
theorem filterOperators_ids : ∀ (ops : List PipelineOperator) {filteredOp out : List PipelineOperator} {n n' : Nat},
    filterOperators K ops filteredOp n = some (out, n') →
      n' = n + drawn ops ∧ out.map PipelineOperator.id = filteredOp.map PipelineOperator.id ++ idsFrom K ops n
  | [], filteredOp, out, n, n', h => by
    cases h
    exact ⟨rfl, (append_nil _).symm⟩
  | op :: ops, filteredOp, out, n, n', h => by
    rw [filterOperators] at h
    rw [drawn, idsFrom]
    split_ifs at h ⊢ with hen
    · obtain ⟨⟨ops₁, n₁⟩, h₁, h⟩ := bind_eq_some_iff.1 h
      obtain ⟨rfl, hids₁⟩ := processOperator_ids h₁
      obtain ⟨rfl, hids⟩ := filterOperators_ids ops h
      rw [hids, map_append, hids₁, List.append_assoc]
      exact ⟨Nat.add_assoc _ _ _, rfl⟩
    all_goals
      obtain ⟨rfl, hids⟩ := filterOperators_ids ops h
      exact ⟨rfl, by simpa only [map_id_dropLastOutput] using hids⟩

theorem getOperators_ids {out : List PipelineOperator} {n n' : Nat} (h : getOperators K ops n = some (out, n')) :
    n' = n + drawn ops ∧ out.map PipelineOperator.id = idsFrom K ops n := by
  obtain ⟨⟨out', n''⟩, h', heq⟩ := map_eq_some_iff.1 h
  cases heq
  obtain ⟨hn, hids⟩ := filterOperators_ids ops h'
  exact ⟨hn, (map_id_chainOutputs out').trans hids⟩

theorem idsFrom_eq_nil {n : Nat} : idsFrom K ops n = [] ↔ ∀ op ∈ ops, op.enabled = false := by
  induction ops with
  | nil => simp [idsFrom]
  | cons op ops ih => cases hen : op.enabled <;> simp [idsFrom, hen, ih]

/-- **The ids tell where the drawing started**, if any is drawn. -/
theorem idsFrom_inj (hnew : Function.Injective K.newString) : ∀ (ops : List PipelineOperator) {n m : Nat},
    idsFrom K ops n = idsFrom K ops m → drawn ops ≠ 0 → n = m
  | [], _, _, _, h => absurd rfl h
  | op :: ops, n, m, heq, h => by
    rw [drawn] at h
    rw [idsFrom, idsFrom] at heq
    split_ifs at heq h with hen
    · rw [cons_append, cons_append, List.cons.injEq] at heq
      cases hd : draws op with
      | zero =>
        rw [hd] at heq h
        exact idsFrom_inj hnew ops heq.2 (by rwa [Nat.zero_add] at h)
      | succ d =>
        -- the first that is drawn
        rw [hd] at heq
        have hfirst := (List.cons.inj heq.2).1
        exact hnew (String.append_left_inj _ |>.1 hfirst)
    · exact idsFrom_inj hnew ops heq h

/-! ## Where none is drawn -/

theorem generateKinds_none {mapping : List (String × List String)} : ∀ (es : List (String × (String → String → Option PipelineOperator))),
    (∀ e ∈ es, keywords mapping e.1 = []) → ∀ n, generateKinds K mapping es n = some ([], n)
  | [], _, _ => rfl
  | e :: es, h, n => by
    rw [generateKinds, h e mem_cons_self]
    change (generateKinds K mapping es n).map _ = _
    rw [generateKinds_none es (fun e' he' => h e' (mem_cons_of_mem _ he')) n]
    rfl

theorem processOperator_start (h : draws op = 0) :
    ∃ r : Option (List PipelineOperator), ∀ n, processOperator K op n = r.map fun ops => (ops, n) := by
  by_cases htype : op.type = "json_parser"
  · simp only [processOperator_json htype, processJSONParser, if_neg (not_not.2 htype)]
    rw [draws, if_pos htype] at h
    cases K.fieldNotNilCheck op.parseFrom with
    | none => exact ⟨none, fun _ => rfl⟩
    | some check =>
      cases hm : op.mapping with
      | none => exact ⟨some [conditioned op check], fun _ => rfl⟩
      | some mapping =>
        simp only [hm, List.sum_eq_zero_iff_forall_eq_nat, List.forall_mem_map, List.length_eq_zero_iff] at h
        have hnone : ∀ n, generateKinds K mapping (kinds K op.parseTo) n = some ([], n) := generateKinds_none _ fun e he =>
          h e.1 (keys_kinds K op.parseTo ▸ List.mem_map_of_mem he)
        exact ⟨some [{ conditioned op check with mapping := none }], fun n => by simp only [bind_some, hnone]; rfl⟩
  · obtain ⟨r, hr, -⟩ := processOperator_one (K := K) htype
    exact ⟨r.map fun op => [op], fun n => by rw [hr, Option.map_map]; rfl⟩

theorem filterOperators_start : ∀ (ops : List PipelineOperator), drawn ops = 0 → ∀ filteredOp,
    ∃ r : Option (List PipelineOperator), ∀ n, filterOperators K ops filteredOp n = r.map fun out => (out, n)
  | [], _, filteredOp => ⟨some filteredOp, fun _ => rfl⟩
  | op :: ops, h, filteredOp => by
    rw [drawn] at h
    simp only [filterOperators]
    by_cases hen : op.enabled = true
    · rw [if_pos hen, Nat.add_eq_zero_iff] at h
      simp only [if_pos hen]
      obtain ⟨r₁, hr₁⟩ := processOperator_start (K := K) h.1
      cases r₁ with
      | none => exact ⟨none, fun n => by rw [hr₁]; rfl⟩
      | some ops₁ =>
        obtain ⟨r, hr⟩ := filterOperators_start ops h.2 (filteredOp ++ ops₁)
        exact ⟨r, fun n => by rw [hr₁]; exact hr n⟩
    · rw [if_neg hen] at h
      simp only [if_neg hen]
      exact filterOperators_start ops h _

theorem getOperators_start (h : drawn ops = 0) :
    ∃ r : Option (List PipelineOperator), ∀ n, getOperators K ops n = r.map fun out => (out, n) := by
  obtain ⟨r, hr⟩ := filterOperators_start (K := K) ops h []
  refine ⟨r.map chainOutputs, fun n => ?_⟩
  rw [getOperators, hr, Option.map_map, Option.map_map]
  rfl

/-! ## The processor -/

variable {v : GettablePipeline φ} {n n' : Nat}

theorem buildProcessor_ids {p : Option Processor} (h : buildProcessor K v n = some (p, n')) :
    n' = n + drawn v.config ∧ (p.isSome = v.config.any PipelineOperator.enabled) ∧
    ∀ processor, p = some processor → processor.operators.map PipelineOperator.id = "router_signoz" :: idsFrom K v.config n ++ ["noop"] := by
  obtain ⟨⟨out, n''⟩, hout, h⟩ := bind_eq_some_iff.1 h
  obtain ⟨rfl, hids⟩ := getOperators_ids hout
  cases out with
  | nil =>
    cases h
    have hnone := idsFrom_eq_nil.1 hids.symm
    exact ⟨rfl, (List.any_eq_false.2 fun op hop => by rw [hnone op hop]; exact Bool.false_ne_true).symm, fun _ h => by cases h⟩
  | cons first ops =>
    obtain ⟨filterExpr, -, heq⟩ := map_eq_some_iff.1 h
    cases heq
    refine ⟨rfl, ?_, fun processor h => ?_⟩
    · by_contra hne
      rw [isSome_some, eq_comm, Bool.not_eq_true] at hne
      have hnil := (idsFrom_eq_nil (K := K) (n := n)).2 fun op hop => by simpa using List.any_eq_false.1 hne op hop
      rw [← hids] at hnil
      cases hnil
    · cases h
      rw [map_append, map_append, hids]
      rfl

theorem buildProcessor_start (h : drawn v.config = 0) :
    ∃ r : Option (Option Processor), ∀ n, buildProcessor K v n = r.map fun p => (p, n) := by
  obtain ⟨r, hr⟩ := getOperators_start (K := K) h
  cases r with
  | none => exact ⟨none, fun n => by rw [buildProcessor, hr]; rfl⟩
  | some out =>
    cases out with
    | nil => exact ⟨some none, fun n => by rw [buildProcessor, hr]; rfl⟩
    | cons first ops =>
      refine ⟨(K.parse v.filter).map fun filterExpr =>
        some ⟨[{ type := "router", id := "router_signoz", routes := some [⟨first.id, filterExpr⟩], default := "noop" }] ++
          (first :: ops) ++ [{ id := "noop", type := "noop" }]⟩, fun n => ?_⟩
      rw [buildProcessor, hr, Option.map_map]
      rfl

end

end LogPipelines
end DsApm
