import DsApm.LogPipelines.Deploying
import Mathlib.Algebra.BigOperators.Group.List.Basic
/-!
# Wiring — the operators of a processor, one after the other

`IsValid` of `pipeline.go`, and what `PreparePipelineProcessor` makes of a pipeline that it accepts.  The operators hang together
unless one has the id of the router or the noop; and a mapping's keys are accepted in any case, but are looked up in small letters
only, so that the keywords of the others bring no operator (`buildProcessor_iff`).
-/
namespace DsApm
namespace LogPipelines

open List Option

/-! ## Which pipelines are accepted -/

/-- `PipelineOperator` with what only its checks read; a mapping is a map. -/
structure PostableOperator extends PipelineOperator where
  orderId : Int
  pattern : String := ""
  fields : List String := []
  keys : ∀ m, mapping = some m → (m.map Prod.fst).Nodup

structure PostablePipeline (φ : Type) where
  orderID : Int
  name : String
  pipelineAlias : String
  enabled : Bool
  filter : φ
  config : List PostableOperator

/-- The error of a check, with its message where it is not the filter parser's. -/
inductive Invalid
  | input (message : String)
  | filter
  deriving DecidableEq

def toLowerString (s : String) : String := String.ofList (s.toList.map GoStd.toLower)

def validMappingLevels : List String := ["trace", "debug", "info", "warn", "error", "fatal"]

def validMappingVariableTypes : List String :=
  ["host", "service", "environment", "severity", "trace_id", "span_id", "trace_flags", "message"]

def isValidOtelValue (val : String) : Bool := val == "" || hasPrefix val "body" || hasPrefix val "attributes" || hasPrefix val "resource"

/-- The first key of a mapping that is not one of these, in any case. -/
def badKey (valid : List String) (mapping : Option (List (String × List String))) : Option String :=
  (mapping.getD []).map Prod.fst |>.find? fun k => !valid.contains (toLowerString k)

section
variable {φ : Type} (K : Checks φ) (subexpNames : String → Option (List String))

/-- The `switch` of `isValidOperator`; `subexpNames` is `regexp.Compile` and the names of the groups. -/
def checkType (op : PostableOperator) : Except Invalid Unit :=
  let invalid (message : String) : Except Invalid Unit := .error (.input message)
  if op.type = "json_parser" then
    if op.parseFrom = "" ∧ op.parseTo = "" then invalid ("parse from and parse to of " ++ op.id ++ " json operator cannot be empty")
    else match badKey validMappingVariableTypes op.mapping with
      | some k => invalid (k ++ " is not a valid mapping type in processor " ++ op.id)
      | none => .ok ()
  else if op.type = "grok_parser" then
    if op.pattern = "" then invalid ("pattern of " ++ op.id ++ " grok operator cannot be empty") else .ok ()
  else if op.type = "regex_parser" then
    if op.regex = "" then invalid ("regex of " ++ op.id ++ " regex operator cannot be empty")
    else match subexpNames op.regex with
      | none => invalid ("error compiling regex expression of " ++ op.id ++ " regex operator")
      | some names =>
        if names.all (· == "") then invalid ("no capture groups in regex expression of " ++ op.id ++ " regex operator") else .ok ()
  else if op.type = "copy" then
    if op.moveFrom = "" ∨ op.moveTo = "" then invalid ("from or to of " ++ op.id ++ " copy operator cannot be empty") else .ok ()
  else if op.type = "move" then
    if op.moveFrom = "" ∨ op.moveTo = "" then invalid ("from or to of " ++ op.id ++ " move operator cannot be empty") else .ok ()
  else if op.type = "add" then
    if op.field = "" ∨ op.value = "" then invalid ("field or value of " ++ op.id ++ " add operator cannot be empty") else .ok ()
  else if op.type = "remove" then
    if op.field = "" then invalid ("field of " ++ op.id ++ " remove operator cannot be empty") else .ok ()
  else if op.type = "trace_parser" then
    match op.traceParser with
    | none => invalid ("field of " ++ op.id ++ " remove operator cannot be empty")
    | some t =>
      let traceId := t.traceId.getD ""
      let spanId := t.spanId.getD ""
      let traceFlags := t.traceFlags.getD ""
      if traceId = "" ∧ spanId = "" ∧ traceFlags = "" then
        invalid ("one of trace_id, span_id, trace_flags of " ++ op.id ++ " trace_parser operator must be present")
      else if traceId ≠ "" ∧ !isValidOtelValue traceId then invalid ("trace id can't be parsed from " ++ traceId)
      else if spanId ≠ "" ∧ !isValidOtelValue spanId then invalid ("span id can't be parsed from " ++ spanId)
      else if traceFlags ≠ "" ∧ !isValidOtelValue traceFlags then invalid ("trace flags can't be parsed from " ++ traceFlags)
      else .ok ()
  else if op.type = "retain" then
    if op.fields = [] then invalid ("fields of " ++ op.id ++ " retain operator cannot be empty") else .ok ()
  else if op.type = "time_parser" then
    if op.parseFrom = "" then invalid ("parse from of time parsing processor " ++ op.id ++ " cannot be empty")
    else if op.layoutType ≠ "epoch" ∧ op.layoutType ≠ "strptime" then
      invalid ("invalid format type '" ++ op.layoutType ++ "' of time parsing processor " ++ op.id)
    else if op.layout = "" then invalid ("format can not be empty for time parsing processor " ++ op.id)
    else if op.layoutType = "epoch" ∧ op.layout ∉ ["s", "ms", "us", "ns", "s.ms", "s.us", "s.ns"] then
      invalid ("invalid epoch format '" ++ op.layoutType ++ "' of time parsing processor " ++ op.id)
    else if op.layoutType = "strptime" ∧ (K.regexForStrptimeLayout op.layout).isNone then
      invalid ("invalid strptime format '" ++ op.layoutType ++ "' of time parsing processor " ++ op.id)
    else .ok ()
  else if op.type = "severity_parser" then
    if op.parseFrom = "" then invalid ("parse from of severity parsing processor " ++ op.id ++ " cannot be empty")
    else match badKey validMappingLevels op.mapping with
      | some k => invalid (k ++ " is not a valid severity in processor " ++ op.id)
      | none => .ok ()
  else
    invalid ("operator type " ++ op.type ++ " not supported for " ++ op.id ++
      ", use one of (grok_parser, regex_parser, copy, move, add, remove, trace_parser, retain)")

def isValidOperator (op : PostableOperator) : Except Invalid Unit :=
  if op.id = "" then .error (.input "PipelineOperator.ID is required")
  else (checkType K subexpNames op).bind fun _ =>
    if !isValidOtelValue op.parseFrom || !isValidOtelValue op.parseTo || !isValidOtelValue op.moveFrom ||
        !isValidOtelValue op.moveTo || !isValidOtelValue op.field then
      .error (.input ("value should have prefix of body, attributes, resource for operator: " ++ op.type ++ " in position: " ++
        toString op.orderId ++ " with id: " ++ op.id))
    else .ok ()

def checkOperators : List PostableOperator → (idUnique outputUnique : List String) → Except Invalid Unit
  | [], _, _ => .ok ()
  | op :: ops, idUnique, outputUnique =>
    if op.orderId = 0 then .error (.input "orderId with value > 1 is required in operator")
    else if op.id = "" then .error (.input "id of an operator cannot be empty")
    else if op.type = "" then .error (.input "type of an operator cannot be empty")
    else if ops ≠ [] ∧ op.output = "" then .error (.input ("output of operator " ++ op.id ++ " cannot be nil"))
    else if ops = [] ∧ op.output ≠ "" then .error (.input ("output of operator " ++ op.id ++ " should be empty"))
    else if op.id ∈ idUnique then .error (.input "duplicate id cannot be present")
    else if op.output ∈ outputUnique then .error (.input "duplicate output cannot be present")
    else if op.id = op.output then .error (.input "id and output cannot be same")
    else (isValidOperator K subexpNames op).bind fun _ => checkOperators ops (op.id :: idUnique) (op.output :: outputUnique)

def PostablePipeline.isValid (p : PostablePipeline φ) : Except Invalid Unit :=
  if p.orderID = 0 then .error (.input "orderId with value > 1 is required")
  else if p.name = "" then .error (.input "pipeline name is required")
  else if p.pipelineAlias = "" then .error (.input "pipeline alias is required")
  else if (K.parse p.filter).isNone then .error .filter
  else checkOperators K subexpNames p.config [] []

theorem checkOperators_ok : ∀ (ops : List PostableOperator) {idUnique outputUnique : List String},
    checkOperators K subexpNames ops idUnique outputUnique = .ok () →
      (∀ op ∈ ops, op.id ≠ "" ∧ op.id ∉ idUnique) ∧ (ops.map fun op => op.id).Nodup ∧ ∀ op ∈ ops.getLast?, op.output = ""
  | [], _, _, _ => ⟨fun _ h => (nomatch h), nodup_nil, fun _ h => (nomatch h)⟩
  | op :: ops, idUnique, outputUnique, h => by
    rw [checkOperators] at h
    split_ifs at h with horder hid htype hnil hlast hunique houtput hsame
    cases hop : isValidOperator K subexpNames op with
    | error e =>
      rw [hop] at h
      cases h
    | ok _ =>
    rw [hop] at h
    obtain ⟨hids, hnodup, hend⟩ := checkOperators_ok ops h
    refine ⟨forall_mem_cons.2 ⟨⟨hid, hunique⟩, fun op' hop' => ⟨(hids op' hop').1, ?_⟩⟩, ?_, fun op' hop' => ?_⟩
    · exact fun hmem => (hids op' hop').2 (mem_cons_of_mem _ hmem)
    · refine nodup_cons.2 ⟨fun hmem => ?_, hnodup⟩
      obtain ⟨op', hop', heq⟩ := List.mem_map.1 hmem
      exact (hids op' hop').2 (heq ▸ mem_cons_self)
    · cases ops with
      | nil =>
        cases hop'
        by_contra hne
        exact hlast ⟨rfl, hne⟩
      | cons next ops => exact hend op' hop'

end

/-! ## The wiring -/

def PipelineOperator.withoutOutput (op : PipelineOperator) : PipelineOperator := { op with output := "" }

/-- The variables and keywords of an operator's mapping, each with the other. -/
def pairsOf (mapping : List (String × List String)) : List (String × String) := mapping.flatMap fun e => e.2.map fun k => (e.1, k)

def mappingPairs (op : PipelineOperator) : List (String × String) :=
  if op.type = "json_parser" then pairsOf (op.mapping.getD []) else []

section
variable {φ : Type} (K : Checks φ)

def Serves (parseTo : String) (pair : String × String) (child : PipelineOperator) : Prop :=
  ∃ e ∈ kinds K parseTo, e.1 = toLowerString pair.1 ∧ ∃ id, e.2 id pair.2 = some child

/-- What an enabled operator brings: itself, and one operator for each pair of its mapping. -/
def Brings (op : PipelineOperator) (seg : List PipelineOperator) : Prop :=
  ∃ parent children, seg = parent :: children ∧ parent.id = op.id ∧
    ∃ pairs, pairs.Perm (mappingPairs op) ∧ List.Forall₂ (Serves K op.parseTo) pairs children

def Processor.middle (p : Processor) : List PipelineOperator := p.operators.tail.dropLast

/-- The operators of a processor hang together, and are what the pipeline's enabled operators bring. -/
structure Wired (config : List PipelineOperator) (p : Processor) : Prop where
  distinct : (p.operators.map PipelineOperator.id).Nodup
  router : ∃ router ∈ p.operators.head?, ∃ first ∈ (config.filter PipelineOperator.enabled).head?, ∃ expr,
    router.routes = some [⟨first.id, expr⟩]
  chained : p.middle.map PipelineOperator.output = (p.middle.map PipelineOperator.id).tail ++ [""]
  unreferenced : ∀ op ∈ config, op.enabled = false → (∀ op' ∈ p.operators, op'.output ≠ op.id) ∧
    ∀ router ∈ p.operators.head?, router.default ≠ op.id ∧ ∀ r ∈ router.routes.getD [], r.output ≠ op.id
  brought : ∃ segs, p.middle.map PipelineOperator.withoutOutput = segs.flatten ∧
    List.Forall₂ (Brings K) (config.filter PipelineOperator.enabled) segs

/-- No operator takes a reserved id, and the mappings' keys are written as they are looked up. -/
structure Wirable (config : List PipelineOperator) : Prop where
  noop : ∀ op ∈ config, op.id ≠ "noop"
  router : ∀ op ∈ config, op.enabled = true → op.id ≠ "router_signoz"
  keys : ∀ op ∈ config, op.enabled = true → op.type = "json_parser" → ∀ m, op.mapping = some m →
    ∀ e ∈ m, e.2 ≠ [] → e.1 ∈ validMappingVariableTypes

variable {K}

/-! ### The ids -/

theorem mem_idsFrom {x : String} : ∀ {ops : List PipelineOperator} {n : Nat}, x ∈ idsFrom K ops n →
    (∃ op ∈ ops, op.enabled = true ∧ op.id = x) ∨ ∃ k, n ≤ k ∧ generateCustomID K k = x
  | [], _, h => nomatch h
  | op :: ops, n, h => by
    rw [idsFrom] at h
    split_ifs at h with hen
    · rw [cons_append, mem_cons, mem_append] at h
      rcases h with rfl | h | h
      · exact .inl ⟨op, mem_cons_self, hen, rfl⟩
      · obtain ⟨k, hk, rfl⟩ := List.mem_map.1 h
        exact .inr ⟨k, (mem_range'_1.1 hk).1, rfl⟩
      · rcases mem_idsFrom h with ⟨op', hop', hen', hid⟩ | ⟨k, hk, hid⟩
        · exact .inl ⟨op', mem_cons_of_mem _ hop', hen', hid⟩
        · exact .inr ⟨k, by omega, hid⟩
    · rcases mem_idsFrom h with ⟨op', hop', hen', hid⟩ | ⟨k, hk, hid⟩
      · exact .inl ⟨op', mem_cons_of_mem _ hop', hen', hid⟩
      · exact .inr ⟨k, hk, hid⟩

variable {op : PipelineOperator}

theorem id_mem_idsFrom : ∀ {ops : List PipelineOperator} {n : Nat}, op ∈ ops → op.enabled = true →
    op.id ∈ idsFrom K ops n
  | op' :: ops, n, h, hen => by
    rw [idsFrom]
    rcases mem_cons.1 h with rfl | h
    · rw [if_pos hen]
      exact mem_cons_self
    · split_ifs
      · exact mem_append_right _ (id_mem_idsFrom h hen)
      · exact id_mem_idsFrom h hen

theorem nodup_generated (hnew : Function.Injective K.newString) (n k : Nat) : (generated K n k).Nodup := by
  refine List.Nodup.map ?_ nodup_range'
  exact fun i j h => hnew (String.append_left_inj _ |>.1 h)

theorem nodup_idsFrom (hnew : Function.Injective K.newString) : ∀ {ops : List PipelineOperator} {n : Nat},
    (∀ op ∈ ops, ∀ k, op.id ≠ generateCustomID K k) → (ops.map PipelineOperator.id).Nodup → (idsFrom K ops n).Nodup
  | [], _, _, _ => nodup_nil
  | op :: ops, n, hfresh, h => by
    obtain ⟨hfresh₁, hfresh⟩ := forall_mem_cons.1 hfresh
    obtain ⟨hmem, h⟩ := nodup_cons.1 h
    have hrest : ∀ {m}, op.id ∉ idsFrom K ops m := by
      intro m hid
      rcases mem_idsFrom hid with ⟨op', hop', -, hid'⟩ | ⟨k, -, hid'⟩
      · exact hmem (List.mem_map.2 ⟨op', hop', hid'⟩)
      · exact hfresh₁ k hid'.symm
    rw [idsFrom]
    split_ifs
    · rw [cons_append, nodup_cons, mem_append, not_or]
      refine ⟨⟨fun hid => ?_, hrest⟩, nodup_append'.2 ⟨nodup_generated hnew _ _, nodup_idsFrom hnew hfresh h, ?_⟩⟩
      · obtain ⟨k, -, hk⟩ := List.mem_map.1 hid
        exact hfresh₁ k hk.symm
      · intro x hx hx'
        obtain ⟨k, hk, rfl⟩ := List.mem_map.1 hx
        rcases mem_idsFrom hx' with ⟨op', hop', -, hid⟩ | ⟨k', hk', hid⟩
        · exact hfresh op' hop' k hid
        · have := hnew (String.append_left_inj _ |>.1 hid)
          have := (mem_range'_1.1 hk).2
          omega
    · exact nodup_idsFrom hnew hfresh h

theorem head?_idsFrom : ∀ (ops : List PipelineOperator) (n : Nat),
    (idsFrom K ops n).head? = (ops.filter PipelineOperator.enabled).head?.map PipelineOperator.id
  | [], _ => rfl
  | op :: ops, n => by
    rw [idsFrom]
    by_cases hen : op.enabled = true
    · rw [if_pos hen, filter_cons_of_pos hen]
      rfl
    · rw [if_neg hen, filter_cons_of_neg hen, head?_idsFrom]

/-! ### The outputs -/

theorem map_output_chainOutputs : ∀ ops : List PipelineOperator,
    (chainOutputs ops).map PipelineOperator.output = (ops.map PipelineOperator.id).tail ++ (ops.getLast?.map PipelineOperator.output).toList
  | [] => rfl
  | [_] => rfl
  | op :: next :: ops => by
    have hrest := map_output_chainOutputs (next :: ops)
    rw [chainOutputs, map_cons, hrest, List.getLast?_cons_cons]
    rfl

theorem kinds_output {parseTo : String} : ∀ e ∈ kinds K parseTo, ∀ {id k op}, e.2 id k = some op → op.output = "" := by
  have hmove : ∀ {target id k op}, moveOperator K parseTo target id k = some op → op.output = "" := fun h => by
    obtain ⟨check, -, rfl⟩ := map_eq_some_iff.1 h
    rfl
  have htrace : ∀ parser, ∀ {id k op}, traceOperator K parser parseTo id k = some op → op.output = "" := fun parser id k op h => by
    cases h
    rfl
  have hseverity : ∀ {id k op}, severityOperator K parseTo id k = some op → op.output = "" := fun h => by
    obtain ⟨op', hop', rfl⟩ := map_eq_some_iff.1 h
    exact (processSeverityParser_kept hop').2
  intro e he
  simp only [kinds, mem_cons, not_mem_nil, or_false] at he
  rcases he with rfl | rfl | rfl | rfl | rfl | rfl | rfl | rfl
  · exact hmove
  · exact hmove
  · exact htrace fun p => ⟨some p, none, none⟩
  · exact htrace fun p => ⟨none, some p, none⟩
  · exact htrace fun p => ⟨none, none, some p⟩
  · exact hseverity
  · exact hmove
  · exact hmove

/-! ### What an operator brings -/

variable (K) in
def Made (es : List (String × (String → String → Option PipelineOperator))) (pair : String × String) (op : PipelineOperator) : Prop :=
  ∃ e ∈ es, e.1 = pair.1 ∧ ∃ id, e.2 id pair.2 = some op

def drawnPairs (op : PipelineOperator) : List (String × String) :=
  if op.type = "json_parser" then
    mappingKeys.flatMap fun key => (keywords (op.mapping.getD []) key).reverse.map fun k => (key, k)
  else []

theorem generateOperators_made {key : String} {make : String → String → Option PipelineOperator}
    {es : List (String × (String → String → Option PipelineOperator))} (he : (key, make) ∈ es) : ∀ (ks : List String)
      {n n' : Nat} {ops : List PipelineOperator}, generateOperators K make ks n = some (ops, n') →
        List.Forall₂ (Made es) (ks.map fun k => (key, k)) ops
  | [], n, n', ops, h => by
    cases h
    exact .nil
  | k :: ks, n, n', ops, h => by
    obtain ⟨op, hop, h⟩ := bind_eq_some_iff.1 h
    obtain ⟨⟨ops', n''⟩, hops, heq⟩ := map_eq_some_iff.1 h
    cases heq
    exact .cons ⟨_, he, rfl, _, hop⟩ (generateOperators_made he ks hops)

theorem generateKinds_made {mapping : List (String × List String)} {all : List (String × (String → String → Option PipelineOperator))} :
    ∀ (es : List (String × (String → String → Option PipelineOperator))), es ⊆ all → ∀ {n n' : Nat} {ops : List PipelineOperator},
      generateKinds K mapping es n = some (ops, n') →
        List.Forall₂ (Made all) ((es.map Prod.fst).flatMap fun key => (keywords mapping key).reverse.map fun k => (key, k)) ops
  | [], _, n, n', ops, h => by
    cases h
    exact .nil
  | e :: es, hes, n, n', ops, h => by
    obtain ⟨⟨ops₁, n₁⟩, h₁, h⟩ := bind_eq_some_iff.1 h
    obtain ⟨⟨ops₂, n₂⟩, h₂, heq⟩ := map_eq_some_iff.1 h
    cases heq
    rw [map_cons, flatMap_cons]
    exact rel_append (generateOperators_made (hes mem_cons_self) _ h₁) (generateKinds_made es (subset_of_cons_subset hes) h₂)

variable {ops : List PipelineOperator}

theorem made_output {parseTo : String} {pairs : List (String × String)}
    (h : List.Forall₂ (Made (kinds K parseTo)) pairs ops) : ∀ op ∈ ops, op.output = "" := by
  induction h with
  | nil => exact fun _ h => nomatch h
  | cons hop _ ih =>
    obtain ⟨e, he, -, id, hop⟩ := hop
    exact forall_mem_cons.2 ⟨kinds_output e he hop, ih⟩

variable {n n' : Nat}

theorem processOperator_made
    (h : processOperator K op n = some (ops, n')) : ∃ parent children, ops = parent :: children ∧ parent.id = op.id ∧
      parent.output = op.output ∧ List.Forall₂ (Made (kinds K op.parseTo)) (drawnPairs op) children := by
  rw [drawnPairs]
  by_cases htype : op.type = "json_parser"
  · have hconditioned : ∀ check, (conditioned op check).output = op.output := by
      intro check
      unfold conditioned
      dsimp only
      split <;> rfl
    rw [processOperator_json htype, processJSONParser, if_neg (not_not.2 htype)] at h
    rw [if_pos htype]
    obtain ⟨check, -, h⟩ := bind_eq_some_iff.1 h
    cases hm : op.mapping with
    | none =>
      rw [hm] at h
      cases h
      exact ⟨_, [], rfl, conditioned_id op check, hconditioned check, .nil⟩
    | some mapping =>
      rw [hm] at h
      obtain ⟨⟨children, n''⟩, hchildren, heq⟩ := map_eq_some_iff.1 h
      cases heq
      refine ⟨_, _, rfl, conditioned_id op check, hconditioned check, ?_⟩
      exact keys_kinds K op.parseTo ▸ generateKinds_made _ (List.Subset.refl _) hchildren
  · obtain ⟨r, hr, hkept⟩ := processOperator_one (K := K) htype
    obtain ⟨op', hop', heq⟩ := map_eq_some_iff.1 ((hr n).symm.trans h)
    cases heq
    rw [if_neg htype]
    exact ⟨op', [], rfl, (hkept op' hop').1, (hkept op' hop').2, .nil⟩

theorem processOperator_output
    (h : processOperator K op n = some (ops, n')) : ops ≠ [] ∧ ∀ last ∈ ops.getLast?, last.output = "" ∨ last.output = op.output := by
  obtain ⟨parent, children, rfl, -, houtput, hmade⟩ := processOperator_made h
  refine ⟨cons_ne_nil _ _, fun last hlast => ?_⟩
  rcases eq_nil_or_concat' children with rfl | ⟨children, child, rfl⟩
  · cases hlast
    exact .inr houtput
  · rw [← cons_append, List.getLast?_concat] at hlast
    cases hlast
    exact .inl (made_output hmade _ (mem_append_right _ mem_cons_self))

theorem dropLastOutput_output (ops : List PipelineOperator) : ∀ last ∈ (dropLastOutput ops).getLast?, last.output = "" := by
  refine ops.reverseRecOn (fun _ h => nomatch h) fun ops op _ last hlast => ?_
  rw [dropLastOutput, modifyLast_concat, List.getLast?_concat] at hlast
  cases hlast
  rfl

theorem filterOperators_output : ∀ (ops : List PipelineOperator) {filteredOp out : List PipelineOperator} {n n' : Nat},
    ops ≠ [] → (∀ op ∈ ops.getLast?, op.output = "") → filterOperators K ops filteredOp n = some (out, n') →
      ∀ last ∈ out.getLast?, last.output = ""
  | [op], filteredOp, out, n, n', _, hend, h => by
    rw [filterOperators] at h
    split_ifs at h with hen hnil
    · obtain ⟨⟨ops', n₁⟩, hops', h⟩ := bind_eq_some_iff.1 h
      obtain ⟨hne, hlast⟩ := processOperator_output hops'
      cases h
      intro last hmem
      rw [List.getLast?_append_of_ne_nil _ hne] at hmem
      rcases hlast last hmem with hnone | hsame
      · exact hnone
      · exact hsame.trans (hend op rfl)
    · cases h
      exact dropLastOutput_output filteredOp
    · exact absurd rfl hnil
  | op :: next :: ops, filteredOp, out, n, n', _, hend, h => by
    rw [filterOperators] at h
    have hend' : ∀ op ∈ (next :: ops).getLast?, op.output = "" := fun op' hop' => hend op' (by rwa [List.getLast?_cons_cons])
    split_ifs at h with hen hnil
    · obtain ⟨⟨ops', n₁⟩, -, h⟩ := bind_eq_some_iff.1 h
      exact filterOperators_output (next :: ops) (cons_ne_nil _ _) hend' h
    · cases hnil
    · exact filterOperators_output (next :: ops) (cons_ne_nil _ _) hend' h

theorem withoutOutput_self (h : op.output = "") : op.withoutOutput = op := by
  cases op
  cases h
  rfl

theorem map_withoutOutput_dropLastOutput (ops : List PipelineOperator) :
    (dropLastOutput ops).map PipelineOperator.withoutOutput = ops.map PipelineOperator.withoutOutput := by
  refine ops.reverseRecOn rfl fun ops op _ => ?_
  rw [dropLastOutput, modifyLast_concat, map_append, map_append]
  rfl

theorem map_withoutOutput_chainOutputs : ∀ ops : List PipelineOperator,
    (chainOutputs ops).map PipelineOperator.withoutOutput = ops.map PipelineOperator.withoutOutput
  | [] => rfl
  | [_] => rfl
  | op :: next :: ops => congrArg (op.withoutOutput :: ·) (map_withoutOutput_chainOutputs (next :: ops))

variable (K) in
def Puts (op : PipelineOperator) (seg : List PipelineOperator) : Prop :=
  ∃ parent children, seg = parent :: children ∧ parent.id = op.id ∧ List.Forall₂ (Made (kinds K op.parseTo)) (drawnPairs op) children

theorem filterOperators_puts : ∀ (ops : List PipelineOperator) {filteredOp out : List PipelineOperator} {n n' : Nat},
    filterOperators K ops filteredOp n = some (out, n') → ∃ segs, out.map PipelineOperator.withoutOutput =
      filteredOp.map PipelineOperator.withoutOutput ++ segs.flatten ∧ List.Forall₂ (Puts K) (ops.filter PipelineOperator.enabled) segs
  | [], filteredOp, out, n, n', h => by
    cases h
    exact ⟨[], (append_nil _).symm, .nil⟩
  | op :: ops, filteredOp, out, n, n', h => by
    rw [filterOperators] at h
    by_cases hen : op.enabled = true
    · rw [if_pos hen] at h
      obtain ⟨⟨ops', n₁⟩, hops', h⟩ := bind_eq_some_iff.1 h
      obtain ⟨parent, children, rfl, hid, -, hmade⟩ := processOperator_made hops'
      obtain ⟨segs, hout, hsegs⟩ := filterOperators_puts ops h
      have hchildren : children.map PipelineOperator.withoutOutput = children := by
        conv_rhs => rw [← List.map_id children]
        exact map_congr_left fun op hop => withoutOutput_self (made_output hmade op hop)
      refine ⟨(parent.withoutOutput :: children) :: segs, ?_, ?_⟩
      · rw [hout, map_append, map_cons, hchildren, List.flatten_cons, List.append_assoc]
      · rw [filter_cons_of_pos hen]
        exact .cons ⟨_, _, rfl, hid, hmade⟩ hsegs
    · rw [if_neg hen] at h
      obtain ⟨segs, hout, hsegs⟩ := filterOperators_puts ops h
      refine ⟨segs, ?_, by rwa [filter_cons_of_neg hen]⟩
      rw [hout]
      split_ifs
      · rw [map_withoutOutput_dropLastOutput]
      · rfl

/-! ### The pairs for which an operator is made -/

theorem keywords_cons (e : String × List String) (m : List (String × List String)) (key : String) :
    keywords (e :: m) key = if key = e.1 then e.2 else keywords m key := by
  rw [keywords, lookup_cons]
  by_cases h : key = e.1
  · rw [h, beq_self_eq_true, if_pos rfl]
    rfl
  · rw [beq_false_of_ne h, if_neg h]
    rfl

variable {m : List (String × List String)}

theorem keywords_of_not_mem {key : String} (h : key ∉ m.map Prod.fst) : keywords m key = [] := by
  induction m with
  | nil => rfl
  | cons e m ih =>
    rw [map_cons, mem_cons, not_or] at h
    rw [keywords_cons, if_neg h.1, ih h.2]

def pairsUnder (keys : List String) (m : List (String × List String)) : List (String × String) :=
  keys.flatMap fun key => (keywords m key).reverse.map fun k => (key, k)

theorem pairsUnder_cons {e : String × List String} (he : e.1 ∉ m.map Prod.fst) :
    ∀ {keys : List String}, keys.Nodup →
      (pairsUnder keys (e :: m)).Perm ((if e.1 ∈ keys then e.2.map fun k => (e.1, k) else []) ++ pairsUnder keys m)
  | [], _ => .refl _
  | key :: keys, hd => by
    obtain ⟨hkey, hd⟩ := nodup_cons.1 hd
    have ih := pairsUnder_cons he hd
    have hcons : ∀ m', pairsUnder (key :: keys) m' = ((keywords m' key).reverse.map fun k => (key, k)) ++ pairsUnder keys m' :=
      fun _ => flatMap_cons
    rw [hcons, hcons, keywords_cons]
    by_cases h : key = e.1
    · subst h
      rw [if_neg hkey, nil_append] at ih
      rw [if_pos rfl, if_pos mem_cons_self, keywords_of_not_mem he]
      exact ((reverse_perm e.2).map _).append ih
    · have hmem : e.1 ∈ key :: keys ↔ e.1 ∈ keys := by rw [mem_cons, or_iff_right (Ne.symm h)]
      simp only [if_neg h, hmem]
      exact (ih.append_left _).trans (perm_append_comm_assoc _ _ _)

theorem pairsOf_perm {keys : List String} (hkeys : keys.Nodup) : ∀ {m : List (String × List String)}, (m.map Prod.fst).Nodup →
    (pairsOf m).Perm (pairsUnder keys m ++ pairsOf (m.filter fun e => e.1 ∉ keys))
  | [], _ => by
    have hnil : pairsUnder keys [] = [] := flatMap_eq_nil_iff.2 fun _ _ => rfl
    rw [hnil]
    exact .refl _
  | e :: m, h => by
    obtain ⟨he, h⟩ := nodup_cons.1 h
    have ih := pairsOf_perm hkeys h
    have hcons := pairsUnder_cons he hkeys
    have hpairs : ∀ m', pairsOf (e :: m') = (e.2.map fun k => (e.1, k)) ++ pairsOf m' := fun _ => flatMap_cons
    rw [hpairs]
    by_cases hmem : e.1 ∈ keys
    · rw [if_pos hmem] at hcons
      rw [filter_cons_of_neg (by simpa using hmem)]
      refine (ih.append_left _).trans ?_
      rw [← List.append_assoc]
      exact hcons.symm.append_right _
    · rw [if_neg hmem, nil_append] at hcons
      rw [filter_cons_of_pos (by simpa using hmem), hpairs]
      exact (ih.append_left _).trans ((perm_append_comm_assoc _ _ _).trans (hcons.symm.append_right _))

theorem pairsOf_eq_nil : pairsOf m = [] ↔ ∀ e ∈ m, e.2 = [] := by
  rw [pairsOf, flatMap_eq_nil_iff]
  simp only [map_eq_nil_iff]

/-- The pairs of an operator for which none is made: those whose key is not looked up. -/
def leftOut (op : PipelineOperator) : List (String × String) :=
  if op.type = "json_parser" then pairsOf ((op.mapping.getD []).filter fun e => e.1 ∉ mappingKeys) else []

theorem mappingPairs_perm (h : ∀ m, op.mapping = some m → (m.map Prod.fst).Nodup) :
    (mappingPairs op).Perm (drawnPairs op ++ leftOut op) := by
  have hm : ((op.mapping.getD []).map Prod.fst).Nodup := by
    cases hm : op.mapping with
    | none => exact nodup_nil
    | some m => exact h m hm
  rw [mappingPairs, drawnPairs, leftOut]
  split_ifs
  · exact pairsOf_perm (by decide) hm
  · exact .refl _

theorem leftOut_eq_nil : leftOut op = [] ↔ (op.type = "json_parser" → ∀ m, op.mapping = some m →
    ∀ e ∈ m, e.2 ≠ [] → e.1 ∈ validMappingVariableTypes) := by
  have hkeys : ∀ key, key ∈ validMappingVariableTypes ↔ key ∈ mappingKeys := fun key =>
    (by decide : validMappingVariableTypes.Perm mappingKeys).mem_iff
  rw [leftOut]
  by_cases htype : op.type = "json_parser"
  · rw [if_pos htype, pairsOf_eq_nil]
    constructor
    · intro h _ m hm e he hne
      by_contra hmem
      refine hne (h e (mem_filter.2 ⟨by rwa [hm], ?_⟩))
      rw [decide_eq_true_iff]
      exact mt (hkeys e.1).2 hmem
    · intro h e he
      obtain ⟨he, hmem⟩ := mem_filter.1 he
      rw [decide_eq_true_iff] at hmem
      by_contra hne
      cases hm : op.mapping with
      | none =>
        rw [hm] at he
        exact nomatch he
      | some m =>
        rw [hm] at he
        exact hmem ((hkeys e.1).1 (h htype m hm e he hne))
  · rw [if_neg htype]
    exact iff_of_true rfl fun h => absurd h htype

theorem Puts.brings {seg : List PipelineOperator} (hmap : ∀ m, op.mapping = some m → (m.map Prod.fst).Nodup)
    (h : Puts K op seg) (hleft : leftOut op = []) : Brings K op seg := by
  have hlower : ∀ key ∈ mappingKeys, toLowerString key = key := by decide
  obtain ⟨parent, children, rfl, hid, hmade⟩ := h
  have hperm := mappingPairs_perm hmap
  rw [hleft, append_nil] at hperm
  refine ⟨parent, children, rfl, hid, drawnPairs op, hperm.symm, hmade.imp fun pair child hmade => ?_⟩
  obtain ⟨e, he, hkey, hop⟩ := hmade
  have hmem : e.1 ∈ mappingKeys := keys_kinds K op.parseTo ▸ List.mem_map_of_mem he
  exact ⟨e, he, by rw [← hkey, hlower _ hmem], hop⟩

theorem length_flatten {f : PipelineOperator → Nat} {segs : List (List PipelineOperator)}
    (h : List.Forall₂ (fun op seg => seg.length = f op) ops segs) : segs.flatten.length = (ops.map f).sum := by
  induction h with
  | nil => rfl
  | cons hlen _ ih => rw [List.flatten_cons, List.length_append, hlen, ih, map_cons, sum_cons]

theorem leftOut_of_brought {segs segs' : List (List PipelineOperator)}
    (hmap : ∀ op ∈ ops, ∀ m, op.mapping = some m → (m.map Prod.fst).Nodup) (h : List.Forall₂ (Puts K) ops segs)
    (h' : List.Forall₂ (Brings K) ops segs') (heq : segs.flatten = segs'.flatten) : ∀ op ∈ ops, leftOut op = [] := by
  have hputs : List.Forall₂ (fun op seg => seg.length = 1 + (drawnPairs op).length) ops segs := by
    refine h.imp fun op seg hputs => ?_
    obtain ⟨parent, children, rfl, -, hmade⟩ := hputs
    rw [length_cons, hmade.length_eq, Nat.add_comm]
  have hbrings : List.Forall₂ (fun op seg => seg.length = 1 + (mappingPairs op).length) ops segs' := by
    refine h'.imp fun op seg hbrings => ?_
    obtain ⟨parent, children, rfl, -, pairs, hperm, hserves⟩ := hbrings
    rw [length_cons, ← hserves.length_eq, hperm.length_eq, Nat.add_comm]
  have hsum : (ops.map fun op => 1 + (mappingPairs op).length) =
      ops.map fun op => (1 + (drawnPairs op).length) + (leftOut op).length := by
    refine map_congr_left fun op hop => ?_
    rw [(mappingPairs_perm (hmap op hop)).length_eq, List.length_append, Nat.add_assoc]
  have hlen := length_flatten hputs
  rw [heq, length_flatten hbrings, hsum, sum_map_add] at hlen
  have hzero : (ops.map fun op => (leftOut op).length).sum = 0 := by omega
  intro op hop
  exact List.length_eq_zero_iff.1 (List.sum_eq_zero_iff_forall_eq_nat.1 hzero _ (List.mem_map_of_mem (f := fun op => (leftOut op).length) hop))

/-! ### The processor of an accepted pipeline -/

def PostablePipeline.gettable (p : PostablePipeline φ) : GettablePipeline φ :=
  ⟨p.enabled, p.pipelineAlias, p.filter, p.config.map PostableOperator.toPipelineOperator⟩

theorem valid_config {subexpNames : String → Option (List String)} {p : PostablePipeline φ} (h : p.isValid K subexpNames = .ok ()) :
    (∀ op ∈ p.gettable.config, op.id ≠ "") ∧ (p.gettable.config.map PipelineOperator.id).Nodup ∧
      ∀ op ∈ p.gettable.config.getLast?, op.output = "" := by
  unfold PostablePipeline.isValid at h
  split_ifs at h
  obtain ⟨hids, hnodup, hend⟩ := checkOperators_ok K subexpNames p.config h
  refine ⟨List.forall_mem_map.2 fun op hop => (hids op hop).1, ?_, ?_⟩
  · rw [PostablePipeline.gettable, List.map_map]
    exact hnodup
  · rw [PostablePipeline.gettable, List.getLast?_map]
    rintro _ hop
    obtain ⟨op, hlast, rfl⟩ := map_eq_some_iff.1 hop
    exact hend op hlast

theorem buildProcessor_shape {v : GettablePipeline φ} {processor : Processor}
    (h : buildProcessor K v n = some (some processor, n')) : ∃ filtered first filterExpr, filterOperators K v.config [] n = some (filtered, n') ∧
      chainOutputs filtered ≠ [] ∧ (idsFrom K v.config n).head? = some first ∧
      processor.operators = { type := "router", id := "router_signoz", routes := some [⟨first, filterExpr⟩], default := "noop" } ::
        (chainOutputs filtered ++ [{ id := "noop", type := "noop" }]) := by
  obtain ⟨⟨out, n''⟩, hout, h⟩ := bind_eq_some_iff.1 h
  obtain ⟨-, hids⟩ := getOperators_ids hout
  obtain ⟨⟨filtered, n₁⟩, hfiltered, heq⟩ := map_eq_some_iff.1 hout
  cases heq
  generalize hchain : chainOutputs filtered = out at h hids
  cases out with
  | nil => cases h
  | cons first ops =>
    obtain ⟨filterExpr, -, heq⟩ := map_eq_some_iff.1 h
    cases heq
    exact ⟨filtered, first.id, filterExpr, hfiltered, by rw [hchain]; exact cons_ne_nil _ _, by rw [← hids]; rfl, by rw [hchain]; rfl⟩

theorem generated_ne {id : String} (hid : id.toList.getLast? ≠ some 'r') (k : Nat) : generateCustomID K k ≠ id := by
  rintro rfl
  refine hid ?_
  rw [generateCustomID, String.toList_append, List.getLast?_append_of_ne_nil _ (by decide)]
  decide

theorem exists_first {first : String} (h : (idsFrom K ops n).head? = some first) :
    ∃ op ∈ (ops.filter PipelineOperator.enabled).head?, op.id = first := by
  rw [head?_idsFrom] at h
  exact map_eq_some_iff.1 h

theorem disabled_not_put (hnodup : (ops.map PipelineOperator.id).Nodup)
    (hfresh : ∀ op ∈ ops, ∀ k, op.id ≠ generateCustomID K k) (hop : op ∈ ops) (hen : op.enabled = false) (n : Nat) :
    op.id ∉ idsFrom K ops n := by
  intro hmem
  rcases mem_idsFrom hmem with ⟨op', hop', hen', hid⟩ | ⟨k, -, hid⟩
  · cases inj_on_of_nodup_map hnodup hop' hop hid
    rw [hen] at hen'
    cases hen'
  · exact hfresh op hop k hid.symm

theorem chained_of_end {filtered : List PipelineOperator} (hend : ∀ op ∈ ops.getLast?, op.output = "")
    (hfiltered : filterOperators K ops [] n = some (filtered, n')) (hne : chainOutputs filtered ≠ []) :
    (chainOutputs filtered).map PipelineOperator.output = ((chainOutputs filtered).map PipelineOperator.id).tail ++ [""] := by
  have hops : ops ≠ [] := by
    rintro rfl
    cases hfiltered
    exact hne rfl
  have hfilt : filtered ≠ [] := by
    rintro rfl
    exact hne rfl
  obtain ⟨init, last, rfl⟩ := (eq_nil_or_concat' filtered).resolve_left hfilt
  have hlast := filterOperators_output ops hops hend hfiltered last List.getLast?_concat
  rw [map_output_chainOutputs, map_id_chainOutputs, List.getLast?_concat, map_some, hlast]
  rfl

/-- The operators of an accepted pipeline hang together exactly if none takes a reserved id and the mappings' keys are written as
they are looked up. -/
theorem buildProcessor_iff (subexpNames : String → Option (List String)) {p : PostablePipeline φ} {n n' : Nat} {processor : Processor}
    (hvalid : p.isValid K subexpNames = .ok ()) (hnew : Function.Injective K.newString)
    (hfresh : ∀ op ∈ p.gettable.config, ∀ k, op.id ≠ generateCustomID K k)
    (h : buildProcessor K p.gettable n = some (some processor, n')) :
    Wired K p.gettable.config processor ↔ Wirable p.gettable.config := by
  obtain ⟨hids, hnodup, hend⟩ := valid_config hvalid
  obtain ⟨-, -, hall⟩ := buildProcessor_ids h
  have hdistinct := hall processor rfl
  obtain ⟨filtered, first, filterExpr, hfiltered, hne, hfirst, hops⟩ := buildProcessor_shape h
  have hmiddle : processor.middle = chainOutputs filtered := by
    rw [Processor.middle, hops, tail_cons, dropLast_concat]
  obtain ⟨segs, hsegs, hputs⟩ := filterOperators_puts p.gettable.config hfiltered
  have hmap : ∀ op ∈ p.gettable.config, ∀ m, op.mapping = some m → (m.map Prod.fst).Nodup :=
    List.forall_mem_map.2 fun op _ => op.keys
  have hmap' : ∀ op ∈ p.gettable.config.filter PipelineOperator.enabled, ∀ m, op.mapping = some m → (m.map Prod.fst).Nodup :=
    fun op hop => hmap op (mem_filter.1 hop).1
  have hpieces : processor.middle.map PipelineOperator.withoutOutput = segs.flatten := by
    rw [hmiddle, map_withoutOutput_chainOutputs, hsegs]
    rfl
  constructor
  · intro hwired
    have hreserved := hdistinct ▸ hwired.distinct
    rw [cons_append, nodup_cons, mem_append, not_or, nodup_append'] at hreserved
    obtain ⟨⟨hrouter, -⟩, -, -, hnoop⟩ := hreserved
    refine ⟨fun op hop hid => ?_, fun op hop hen hid => ?_, fun op hop hen => ?_⟩
    · by_cases hen : op.enabled = true
      · exact hnoop (id_mem_idsFrom hop hen) (mem_singleton.2 hid)
      · obtain ⟨-, hdefault⟩ := hwired.unreferenced op hop (Bool.not_eq_true _ ▸ hen)
        exact (hdefault _ (by rw [hops]; rfl)).1 hid.symm
    · exact hrouter (hid ▸ id_mem_idsFrom hop hen)
    · obtain ⟨segs', hsegs', hbrings⟩ := hwired.brought
      have hleft := leftOut_of_brought hmap' hputs hbrings (hpieces.symm.trans hsegs')
      exact leftOut_eq_nil.1 (hleft op (mem_filter.2 ⟨hop, hen⟩))
  · intro hwirable
    have hput : processor.middle.map PipelineOperator.id = idsFrom K p.gettable.config n := by
      rw [hmiddle, map_id_chainOutputs, (filterOperators_ids _ hfiltered).2]
      rfl
    have hchained : processor.middle.map PipelineOperator.output = (processor.middle.map PipelineOperator.id).tail ++ [""] := by
      rw [hmiddle]
      exact chained_of_end hend hfiltered hne
    refine ⟨?_, ?_, hchained, fun op hop hen => ⟨fun op' hop' => ?_, fun router hrouter => ?_⟩, segs, hpieces, ?_⟩
    · have hput : ∀ id ∈ idsFrom K p.gettable.config n, (∀ op ∈ p.gettable.config, op.enabled = true → op.id ≠ id) →
          id.toList.getLast? = some 'r' := by
        intro id hid hnone
        rcases mem_idsFrom hid with ⟨op, hop, hen, hid'⟩ | ⟨k, -, hid'⟩
        · exact absurd hid' (hnone op hop hen)
        · by_contra hlast
          exact generated_ne hlast k hid'
      rw [hdistinct, cons_append, nodup_cons, mem_append, not_or, nodup_append']
      refine ⟨⟨fun hid => ?_, by decide⟩, nodup_idsFrom hnew hfresh hnodup, nodup_singleton _, fun id hid hnoop => ?_⟩
      · exact absurd (hput _ hid hwirable.router) (by decide)
      · cases mem_singleton.1 hnoop
        exact absurd (hput _ hid fun op hop _ => hwirable.noop op hop) (by decide)
    · obtain ⟨op, hop, hid⟩ := exists_first hfirst
      exact ⟨_, by rw [hops]; rfl, op, hop, filterExpr, by rw [hid]⟩
    · rw [hops, mem_cons, mem_append, mem_singleton, ← hmiddle] at hop'
      intro hid
      rcases hop' with rfl | hop' | rfl
      · exact hids op hop hid.symm
      · have hmem : op.id ∈ processor.middle.map PipelineOperator.output := hid ▸ List.mem_map_of_mem hop'
        rw [hchained, hput, mem_append, mem_singleton] at hmem
        rcases hmem with hmem | hmem
        · exact disabled_not_put hnodup hfresh hop hen n (mem_of_mem_tail hmem)
        · exact hids op hop hmem
      · exact hids op hop hid.symm
    · have hnot := disabled_not_put hnodup hfresh hop hen n
      rw [hops] at hrouter
      cases hrouter
      refine ⟨fun hid => hwirable.noop op hop hid.symm, fun r hr => ?_⟩
      cases mem_singleton.1 hr
      rintro rfl
      exact hnot (mem_of_mem_head? hfirst)
    · have hboth := (List.forall₂_and_left (p := fun op => op ∈ p.gettable.config.filter PipelineOperator.enabled) _ _).2
        ⟨fun _ hop => hop, hputs⟩
      refine hboth.imp fun op seg hop => hop.2.brings (hmap' op hop.1) (leftOut_eq_nil.2 ?_)
      obtain ⟨hop, hen⟩ := mem_filter.1 hop.1
      exact hwirable.keys op hop hen

end

def parsing (key : String) : PostablePipeline String where
  orderID := 1
  name := "parse"
  pipelineAlias := "parse"
  enabled := true
  filter := "body != nil"
  config := [
    { type := "json_parser", id := "parse", enabled := true, parseFrom := "body", parseTo := "attributes"
      mapping := some [(key, ["hostname"])], orderId := 1, keys := fun _ h => Option.some.inj h ▸ List.nodup_singleton _ }]

theorem buildProcessor_iff_host : ∃ processor, buildProcessor plain (parsing "host").gettable 0 = some (some processor, 1) ∧
    (Wired plain (parsing "host").gettable.config processor ↔ Wirable (parsing "host").gettable.config) := by
  refine ⟨_, rfl, buildProcessor_iff (fun _ => none) (by decide) newString_plain ?_ rfl⟩
  intro op hop k hid
  cases mem_singleton.1 hop
  exact generated_ne (by decide) k hid.symm

/-- A key that is not in small letters is accepted, and its keyword brings nothing. -/
theorem hostKeyword_lost : (parsing "Host").isValid plain (fun _ => none) = .ok () ∧
    ∃ processor, buildProcessor plain (parsing "Host").gettable 0 = some (some processor, 0) ∧
      ¬Wired plain (parsing "Host").gettable.config processor := by
  refine ⟨by decide, _, rfl, fun hwired => ?_⟩
  obtain ⟨segs, hflat, hbrings⟩ := hwired.brought
  cases hbrings with
  | cons hbring hrest =>
    obtain ⟨parent, children, rfl, -, pairs, hperm, hserves⟩ := hbring
    cases hrest
    have hseg : (parent :: children).length = 2 := by
      rw [length_cons, ← hserves.length_eq, hperm.length_eq]
      rfl
    have hlen := congrArg List.length (hflat.trans (append_nil (parent :: children)))
    rw [hseg] at hlen
    exact absurd hlen (by decide)

end LogPipelines
end DsApm
