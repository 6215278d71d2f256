import DsApm.LogPipelines.Builder
/-!
# CollectorConfig — the processors in a collector's configuration

A configuration has definitions of processors by their names, and a list of the processors that logs go through.  Those
whose names begin as a log pipeline's does are replaced by the given pipelines', and a walk over the list, by two indices,
puts them into it.  Where that gives a name twice, the list is only rid of what is not wanted.
-/
namespace DsApm
namespace LogPipelines

inductive Definition
  | other (config : String)
  | pipeline (processor : Processor)
  deriving DecidableEq

structure Logs where
  exporters : List String
  processors : List String
  receivers : List String
  deriving DecidableEq

/-- A parsed configuration: the service is there or not, and so is its logs pipeline. -/
structure CollectorConf where
  processors : Option (GoMap String Definition)
  service : Option (Option Logs)
  rest : String

def hasSignozPipelineProcessorPrefix (procName : String) : Bool :=
  hasPrefix procName LogsPPLPfx || hasPrefix procName OldLogsPPLPfx

/-! ## Definitions -/

def escapeDollar (s : String) : String := replaceAll '$' ['$', '$'] s

def PipelineOperator.escaped (op : PipelineOperator) : PipelineOperator where
  type := escapeDollar op.type
  id := escapeDollar op.id
  output := escapeDollar op.output
  onError := escapeDollar op.onError
  ifExpr := escapeDollar op.ifExpr
  parseTo := escapeDollar op.parseTo
  regex := escapeDollar op.regex
  parseFrom := escapeDollar op.parseFrom
  traceParser := op.traceParser.map fun t => ⟨t.traceId.map escapeDollar, t.spanId.map escapeDollar, t.traceFlags.map escapeDollar⟩
  field := escapeDollar op.field
  value := escapeDollar op.value
  moveFrom := escapeDollar op.moveFrom
  moveTo := escapeDollar op.moveTo
  routes := op.routes.map (List.map fun r => ⟨escapeDollar r.output, escapeDollar r.expr⟩)
  default := escapeDollar op.default
  layout := escapeDollar op.layout
  layoutType := escapeDollar op.layoutType
  enableFlattening := op.enableFlattening
  maxFlatteningDepth := op.maxFlatteningDepth
  mapping := op.mapping.map (List.map fun e => (escapeDollar e.1, e.2.map escapeDollar))

def Processor.escaped (p : Processor) : Processor := ⟨p.operators.map PipelineOperator.escaped⟩

def escapeProcessors (names : List String) (processors : GoMap String Processor) : GoMap String Processor :=
  names.foldl (fun m procName => match m.lookup procName with
    | some procConf => m.insert procName procConf.escaped
    | none => m) processors

def updateProcessorConfigs (agentProcessors : Option (GoMap String Definition)) (signozPipelineProcessors : GoMap String Processor) :
    GoMap String Definition :=
  let updated := GoMap.copyInto (GoMap.filterMapVal (fun _ p => some (Definition.pipeline p)) signozPipelineProcessors)
    (agentProcessors.getD ∅)
  GoMap.filterMapVal (fun k d =>
    if hasSignozPipelineProcessorPrefix k && !(signozPipelineProcessors.lookup k).isSome then none else some d) updated

/-! ## The list -/

structure Walk where
  specVsExistingMap : GoMap Nat Nat
  lastMatched : Nat
  newPipeline : List String

def positions (pipeline : List String) : GoMap String Nat :=
  pipeline.zipIdx.foldl (fun m e => GoMap.put (fun _ => e.2) m e.1) ∅

def mappings (existing : GoMap String Nat) (names : List String) : GoMap Nat Nat × GoMap Nat Nat :=
  names.zipIdx.foldl (fun m e => match existing.lookup e.1 with
    | some loc => (m.1.insert e.2 loc, m.2.insert loc e.2)
    | none => m) (∅, ∅)

def passOver (pipeline : List String) (existingVsSpec : GoMap Nat Nat) (w : Walk) (j : Nat) : Walk :=
  let procName := pipeline.getD j ""
  if hasSignozPipelineProcessorPrefix procName then
    { w with specVsExistingMap := w.specVsExistingMap.erase ((existingVsSpec.lookup j).getD 0) }
  else { w with newPipeline := w.newPipeline ++ [procName] }

def walkStep (pipeline : List String) (existingVsSpec : GoMap Nat Nat) (w : Walk) (e : String × Nat) : Walk :=
  match w.specVsExistingMap.lookup e.2 with
  | some loc =>
    let w := (List.range' w.lastMatched (loc - w.lastMatched)).foldl (passOver pipeline existingVsSpec) w
    { w with newPipeline := w.newPipeline ++ [pipeline.getD loc ""], lastMatched := loc + 1 }
  | none => { w with newPipeline := w.newPipeline ++ [e.1] }

def checkDuplicateString (pipeline : List String) : Bool := !decide pipeline.Nodup

def buildCollectorPipelineProcessorsList (currentCollectorProcessors signozPipelineProcessorNames : List String) : List String × Bool :=
  let pipeline := currentCollectorProcessors.filter fun procName =>
    decide (procName ∈ signozPipelineProcessorNames) || !hasSignozPipelineProcessorPrefix procName
  let (specVsExistingMap, existingVsSpec) := mappings (positions pipeline) signozPipelineProcessorNames
  let w := signozPipelineProcessorNames.zipIdx.foldl (walkStep pipeline existingVsSpec) ⟨specVsExistingMap, 0, []⟩
  let newPipeline := w.newPipeline ++ pipeline.drop w.lastMatched
  if checkDuplicateString newPipeline then (pipeline, true) else (newPipeline, false)

/-! ## The configuration -/

/-- `GenerateCollectorConfigWithPipelines`; the error of the list is not looked at. -/
def generateCollectorConfigWithPipelines {φ : Type} (K : Checks φ) (conf : CollectorConf) (pipelines : List (GettablePipeline φ)) (n : Nat) :
    Option (CollectorConf × Nat) :=
  (preparePipelineProcessor K pipelines n).bind fun (prepared, n') =>
    let processors := updateProcessorConfigs conf.processors (escapeProcessors prepared.names prepared.processors)
    match conf.service with
    | some (some logs) =>
      let updated := (buildCollectorPipelineProcessorsList logs.processors prepared.names).1
      some ({ conf with processors := some processors, service := some (some { logs with processors := updated }) }, n')
    | _ => none

end LogPipelines
end DsApm
