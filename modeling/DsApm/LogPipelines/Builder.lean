import DsApm.Lib.GoMap
import DsApm.Lib.GoStd
/-!
# Builder — from log pipelines to collector processors

An enabled pipeline becomes a processor: a router with the pipeline's filter, the enabled operators with the conditions
under which they run, and a noop.  The checks that parse expressions are given.  A `json_parser` with a mapping brings
operators of its own, and each draws a new id.
-/
namespace DsApm
namespace LogPipelines

def LogsPPLPfx : String := "signozlogspipeline/pipeline_"
def OldLogsPPLPfx : String := "logstransform/pipeline_"

def maxJSONFlatteningDepth : Nat := 1

structure Route where
  output : String
  expr : String
  deriving DecidableEq

/-- `TraceParser`: the `ParseFrom`s of the three ids. -/
structure TraceParser where
  traceId : Option String
  spanId : Option String
  traceFlags : Option String
  deriving DecidableEq

/-- `PipelineOperator`, without the fields that are copied only. -/
structure PipelineOperator where
  type : String := ""
  id : String := ""
  output : String := ""
  onError : String := ""
  ifExpr : String := ""
  enabled : Bool := false
  name : String := ""
  parseTo : String := ""
  regex : String := ""
  parseFrom : String := ""
  traceParser : Option TraceParser := none
  field : String := ""
  value : String := ""
  moveFrom : String := ""
  moveTo : String := ""
  routes : Option (List Route) := none
  default : String := ""
  layout : String := ""
  layoutType : String := ""
  enableFlattening : Bool := false
  maxFlatteningDepth : Nat := 0
  mapping : Option (List (String × List String)) := none
  deriving DecidableEq

structure Processor where
  operators : List PipelineOperator
  deriving DecidableEq

/-- `GettablePipeline`, with its filter of some kind. -/
structure GettablePipeline (φ : Type) where
  enabled : Bool
  pipelineAlias : String
  filter : φ
  config : List PipelineOperator

/-- What is decided by parsing expressions, and the ids that are drawn: nothing is an error. -/
structure Checks (φ : Type) where
  fieldNotNilCheck : String → Option String
  fieldsReferencedInExprNotNilCheck : String → Option String
  regexForStrptimeLayout : String → Option String
  parse : φ → Option String
  sendOnErrorQuiet : String
  newString : Nat → String

def replaceAll (c : Char) (new : List Char) (s : String) : String :=
  String.ofList (s.toList.flatMap fun d => if d = c then new else [d])

def hasPrefix (s pre : String) : Bool := pre.toList.isPrefixOf s.toList

def hasSuffix (s suf : String) : Bool := suf.toList.isSuffixOf s.toList

def defaultSeverityMapping : List (String × List String) :=
  [("trace", ["TRACE", "Trace", "trace", "trc", "Trc"]),
   ("debug", ["DEBUG", "Debug", "debug", "dbg", "Dbg"]),
   ("info", ["INFO", "Info", "info"]),
   ("warn", ["WARN", "Warn", "warn", "warning", "Warning", "wrn", "Wrn"]),
   ("error", ["ERROR", "Error", "error", "err", "Err", "ERR", "fail", "Fail", "FAIL"]),
   ("fatal", ["FATAL", "Fatal", "fatal", "critical", "Critical", "CRITICAL", "crit", "Crit", "CRIT", "panic", "Panic", "PANIC"])]

section
variable {φ : Type} (K : Checks φ)

def processSeverityParser (op : PipelineOperator) : Option PipelineOperator :=
  if op.type ≠ "severity_parser" then none
  else (K.fieldNotNilCheck op.parseFrom).map fun parseFromNotNilCheck =>
    { op with ifExpr := parseFromNotNilCheck ++ " && ( type(" ++ op.parseFrom ++ ") == \"string\" || ( type(" ++ op.parseFrom ++
        ") in [\"int\", \"float\"] && " ++ op.parseFrom ++ " == float(int(" ++ op.parseFrom ++ ")) ) )" }

def keywords (mapping : List (String × List String)) (key : String) : List String := (mapping.lookup key).getD []

def generateCustomID (n : Nat) : String := K.newString n ++ "-json-parser"

/-- One kind of mapping: an operator for each keyword, the last first, each with a new id. -/
def generateOperators (make : String → String → Option PipelineOperator) : List String → Nat → Option (List PipelineOperator × Nat)
  | [], n => some ([], n)
  | k :: ks, n =>
    (make (generateCustomID K n) k).bind fun op =>
      (generateOperators make ks (n + 1)).map fun (ops, n') => (op :: ops, n')

def member (parseTo keyword : String) : String := parseTo ++ "[\"" ++ keyword ++ "\"]"

def moveOperator (parseTo target id keyword : String) : Option PipelineOperator :=
  (K.fieldNotNilCheck (member parseTo keyword)).map fun fromNotNilCheck =>
    { type := "move", id := id, onError := K.sendOnErrorQuiet, moveFrom := member parseTo keyword, moveTo := target,
      ifExpr := fromNotNilCheck }

def traceOperator (parser : String → TraceParser) (parseTo id keyword : String) : Option PipelineOperator :=
  some { type := "trace_parser", id := id, onError := K.sendOnErrorQuiet, traceParser := some (parser (member parseTo keyword)) }

def severityOperator (parseTo id keyword : String) : Option PipelineOperator :=
  (processSeverityParser K { type := "severity_parser", id := id, onError := K.sendOnErrorQuiet, parseFrom := member parseTo keyword }).map
    fun op => { op with mapping := some defaultSeverityMapping }

def kinds (parseTo : String) : List (String × (String → String → Option PipelineOperator)) :=
  [("host", moveOperator K parseTo "resource[\"host.name\"]"),
   ("service", moveOperator K parseTo "resource[\"service.name\"]"),
   ("trace_id", traceOperator K (fun p => ⟨some p, none, none⟩) parseTo),
   ("span_id", traceOperator K (fun p => ⟨none, some p, none⟩) parseTo),
   ("trace_flags", traceOperator K (fun p => ⟨none, none, some p⟩) parseTo),
   ("severity", severityOperator K parseTo),
   ("environment", moveOperator K parseTo "resource[\"deployment.environment.name\"]"),
   ("message", moveOperator K parseTo "body")]

def generateKinds (mapping : List (String × List String)) :
    List (String × (String → String → Option PipelineOperator)) → Nat → Option (List PipelineOperator × Nat)
  | [], n => some ([], n)
  | (key, make) :: rest, n =>
    (generateOperators K make (keywords mapping key).reverse n).bind fun (ops, n') =>
      (generateKinds mapping rest n').map fun (ops', n'') => (ops ++ ops', n'')

def conditioned (parent : PipelineOperator) (parseFromNotNilCheck : String) : PipelineOperator :=
  let p := parent.parseFrom
  let parent := { parent with ifExpr := parseFromNotNilCheck ++ " && ((type(" ++ p ++ ") == \"string\" && isJSON(" ++ p ++
    ") && type(fromJSON(unquote(" ++ p ++ "))) == \"map\" ) || type(" ++ p ++ ") == \"map\")" }
  if parent.enableFlattening then { parent with maxFlatteningDepth := maxJSONFlatteningDepth } else parent

def processJSONParser (parent : PipelineOperator) (n : Nat) : Option (List PipelineOperator × Nat) :=
  if parent.type ≠ "json_parser" then none
  else (K.fieldNotNilCheck parent.parseFrom).bind fun parseFromNotNilCheck =>
    match parent.mapping with
    | none => some ([conditioned parent parseFromNotNilCheck], n)
    | some mapping =>
      (generateKinds K mapping (kinds K parent.parseTo) n).map fun (children, n') =>
        ({ conditioned parent parseFromNotNilCheck with mapping := none } :: children, n')

/-- `cleanTraceParser`; nothing where it reads through a nil pointer. -/
def cleanTraceParser (op : PipelineOperator) : Option PipelineOperator :=
  op.traceParser.map fun t =>
    let clean (p : Option String) : Option String := if p = some "" then none else p
    { op with traceParser := some ⟨clean t.traceId, clean t.spanId, clean t.traceFlags⟩ }

def processOperator (op : PipelineOperator) (n : Nat) : Option (List PipelineOperator × Nat) :=
  let one (r : Option PipelineOperator) : Option (List PipelineOperator × Nat) := r.map fun op => ([op], n)
  if op.type = "regex_parser" then
    one ((K.fieldNotNilCheck op.parseFrom).map fun check =>
      let regex := replaceAll '"' ['\\', '"'] (replaceAll '\\' ['\\', '\\'] op.regex)
      { op with ifExpr := check ++ " && " ++ op.parseFrom ++ " matches \"" ++ regex ++ "\"" })
  else if op.type = "grok_parser" then
    one ((K.fieldNotNilCheck op.parseFrom).map fun check => { op with ifExpr := check })
  else if op.type = "json_parser" then processJSONParser K op n
  else if op.type = "add" then
    if hasPrefix op.value "EXPR(" && hasSuffix op.value ")" then
      one ((K.fieldsReferencedInExprNotNilCheck (String.ofList ((op.value.toList.drop 5).dropLast))).map fun check =>
        if check ≠ "" then { op with ifExpr := check } else op)
    else one (some op)
  else if op.type = "move" ∨ op.type = "copy" then
    one ((K.fieldNotNilCheck op.moveFrom).map fun check => { op with ifExpr := check })
  else if op.type = "remove" then
    one ((K.fieldNotNilCheck op.field).map fun check => { op with ifExpr := check })
  else if op.type = "trace_parser" then one (cleanTraceParser op)
  else if op.type = "time_parser" then
    one ((K.fieldNotNilCheck op.parseFrom).bind fun check =>
      if op.layoutType = "strptime" then
        (K.regexForStrptimeLayout op.layout).map fun regex =>
          { op with ifExpr := check ++ " && " ++ op.parseFrom ++ " matches \"" ++ regex ++ "\"" }
      else if op.layoutType = "epoch" then
        let valueRegex := if GoStd.contains op.layout.toList ['.'] then "^\\\\s*[0-9]+\\\\.[0-9]+\\\\s*$" else "^\\\\s*[0-9]+\\\\s*$"
        some { op with ifExpr := check ++ " && string(" ++ op.parseFrom ++ ") matches \"" ++ valueRegex ++ "\"" }
      else some { op with ifExpr := check })
  else if op.type = "severity_parser" then one (processSeverityParser K op)
  else one (some op)

def dropLastOutput (ops : List PipelineOperator) : List PipelineOperator :=
  ops.modifyLast fun op => { op with output := "" }

/-- The first loop of `getOperators`: the rest of the operators behind what was put so far. -/
def filterOperators : List PipelineOperator → List PipelineOperator → Nat → Option (List PipelineOperator × Nat)
  | [], filteredOp, n => some (filteredOp, n)
  | op :: ops, filteredOp, n =>
    if op.enabled then
      (processOperator K op n).bind fun (ops', n') => filterOperators ops (filteredOp ++ ops') n'
    else filterOperators ops (if ops.isEmpty then dropLastOutput filteredOp else filteredOp) n

def chainOutputs : List PipelineOperator → List PipelineOperator
  | op :: next :: ops => { op with output := next.id } :: chainOutputs (next :: ops)
  | ops => ops

def getOperators (ops : List PipelineOperator) (n : Nat) : Option (List PipelineOperator × Nat) :=
  (filterOperators K ops [] n).map fun (filteredOp, n') => (chainOutputs filteredOp, n')

def isGoodChar (c : Char) : Bool := ('a' ≤ c && c ≤ 'z') || ('A' ≤ c && c ≤ 'Z') || ('0' ≤ c && c ≤ '9') || c == '-'

def collectorConfProcessorName (p : GettablePipeline φ) : String :=
  LogsPPLPfx ++ String.ofList (p.pipelineAlias.toList.map fun c => if isGoodChar c then c else '-')

def suffixed (name : String) (pipelineIdx : Nat) : String := name ++ "-" ++ toString pipelineIdx

/-- The processor of one pipeline; nothing in it if no operator is enabled. -/
def buildProcessor (v : GettablePipeline φ) (n : Nat) : Option (Option Processor × Nat) :=
  (getOperators K v.config n).bind fun (operators, n') =>
    match operators with
    | [] => some (none, n')
    | first :: ops =>
      (K.parse v.filter).map fun filterExpr =>
        (some ⟨[{ type := "router", id := "router_signoz", routes := some [⟨first.id, filterExpr⟩], default := "noop" }] ++
          (first :: ops) ++ [{ id := "noop", type := "noop" }]⟩, n')

structure Prepared where
  processors : GoMap String Processor
  names : List String

def prepareFrom : Nat → List (GettablePipeline φ) → Prepared → Nat → Option (Prepared × Nat)
  | _, [], s, n => some (s, n)
  | pipelineIdx, v :: vs, s, n =>
    if v.enabled then
      (buildProcessor K v n).bind fun (processor, n') =>
        match processor with
        | none => prepareFrom (pipelineIdx + 1) vs s n'
        | some processor =>
          let name := collectorConfProcessorName v
          let name := if (s.processors.lookup name).isSome then suffixed name pipelineIdx else name
          prepareFrom (pipelineIdx + 1) vs ⟨s.processors.insert name processor, s.names ++ [name]⟩ n'
    else prepareFrom (pipelineIdx + 1) vs s n

def preparePipelineProcessor (pipelines : List (GettablePipeline φ)) (n : Nat) : Option (Prepared × Nat) :=
  prepareFrom K 0 pipelines ⟨∅, []⟩ n

end

end LogPipelines
end DsApm
