import Mathlib.Data.List.Infix
import CoreMesh.Lib.Except
import CoreMesh.Agents.PyValue

/-!
# The supervisor graph

The planner, the supervisor and specialist nodes and the sequential graph of `agents/orchestrator.py`.
Between the nodes the state is plain data, which each node validates again. The short-term memory has a
state of its own, and its writes may fail. Tracing, identifiers and times are left out.
-/

namespace CoreMesh.Agents

open PyValue (Dict get getOr truthy)

structure Raised where
  exceptionClass : String
  text : String
  deriving DecidableEq

inductive SpecialistName where
  | ragSearch
  | documentExtraction
  | sqlGeneration
  deriving DecidableEq

namespace SpecialistName

def value : SpecialistName → String
  | ragSearch => "rag_search"
  | documentExtraction => "document_extraction"
  | sqlGeneration => "sql_generation"

def ofValue? (value : String) : Option SpecialistName :=
  [ragSearch, documentExtraction, sqlGeneration].find? fun name => name.value == value

@[simp] theorem ofValue?_value (name : SpecialistName) : ofValue? name.value = some name := by
  cases name <;> decide

end SpecialistName

inductive ObservationStatus where
  | success
  | error
  | skipped
  deriving DecidableEq

namespace ObservationStatus

def value : ObservationStatus → String
  | success => "success"
  | error => "error"
  | skipped => "skipped"

def ofValue? (value : String) : Option ObservationStatus :=
  [success, error, skipped].find? fun status => status.value == value

@[simp] theorem ofValue?_value (status : ObservationStatus) : ofValue? status.value = some status := by
  cases status <;> decide

end ObservationStatus

/-! ### State -/

structure ExecutionRequestPayload where
  userId : String
  featureScope : String
  payloadQuery : String
  sessionContext : Option Dict

/-- The specialist is its name in the state and a text in the data that is passed on. -/
structure Step (Specialist : Type) where
  stepId : String
  specialist : Specialist
  objective : String
  expectedOutput : String
  dependsOn : List String := []
  complexity : String := "moderate"
  status : String := "pending"

abbrev PlanStep := Step SpecialistName

structure Observation (Specialist Status : Type) where
  stepId : String
  specialist : Specialist
  status : Status
  inputPayload : Dict
  output : Dict
  error : Option String

abbrev ToolObservation := Observation SpecialistName ObservationStatus

structure SupervisorState where
  request : ExecutionRequestPayload
  sessionId : String
  plan : List PlanStep := []
  observations : List ToolObservation := []
  retrievedMemories : List Dict := []
  currentStepIndex : ℕ := 0
  dispatchNext : Option SpecialistName := none
  finalResponse : Option String := none
  status : String := "planning"

/-- The state as plain data. -/
structure GraphState where
  request : ExecutionRequestPayload
  sessionId : String
  plan : List (Step String)
  observations : List (Observation String String)
  retrievedMemories : List Dict
  currentStepIndex : ℕ
  dispatchNext : Option String
  finalResponse : Option String
  status : String

def ExecutionRequestPayload.jsonReady (request : ExecutionRequestPayload) : ExecutionRequestPayload :=
  { request with sessionContext := request.sessionContext.map PyValue.jsonReadyEntries }

def Step.jsonReady (step : PlanStep) : Step String := { step with specialist := step.specialist.value }

def Observation.jsonReady (observation : ToolObservation) : Observation String String :=
  { observation with
    specialist := observation.specialist.value
    status := observation.status.value
    inputPayload := PyValue.jsonReadyEntries observation.inputPayload
    output := PyValue.jsonReadyEntries observation.output }

def stateToGraphDict (state : SupervisorState) : GraphState where
  request := state.request.jsonReady
  sessionId := state.sessionId
  plan := state.plan.map Step.jsonReady
  observations := state.observations.map Observation.jsonReady
  retrievedMemories := state.retrievedMemories.map PyValue.jsonReadyEntries
  currentStepIndex := state.currentStepIndex
  dispatchNext := state.dispatchNext.map SpecialistName.value
  finalResponse := state.finalResponse
  status := state.status

def validationError (model : String) : Raised := ⟨"ValidationError", "validation error for " ++ model⟩

def Step.modelValidate (step : Step String) : Except Raised PlanStep :=
  match SpecialistName.ofValue? step.specialist with
  | some specialist => .ok { step with specialist }
  | none => .error (validationError "SupervisorState")

def Observation.modelValidate (observation : Observation String String) :
    Except Raised ToolObservation :=
  match SpecialistName.ofValue? observation.specialist,
    ObservationStatus.ofValue? observation.status with
  | some specialist, some status => .ok { observation with specialist, status }
  | _, _ => .error (validationError "SupervisorState")

def SupervisorState.modelValidate (graph : GraphState) : Except Raised SupervisorState := do
  let plan ← graph.plan.mapM Step.modelValidate
  let observations ← graph.observations.mapM Observation.modelValidate
  let dispatchNext ← match graph.dispatchNext with
    | none => .ok none
    | some name =>
        match SpecialistName.ofValue? name with
        | some specialist => .ok (some specialist)
        | none => .error (validationError "SupervisorState")
  return { graph with plan, observations, dispatchNext }

/-! ### Collaborators -/

/-- What the standard library does with a text and a value. -/
structure Python where
  lower : String → String
  strip : String → String
  str : PyValue → String
  repr : String → String
  parseInt : String → Option ℤ

abbrev SpecialistTool :=
  ExecutionRequestPayload → PlanStep → List ToolObservation → Except Raised PyValue

structure Event where
  eventType : String
  status : String
  currentStepIndex : ℕ
  dispatchNext : Option String
  observationCount : ℕ

structure ShortTermMemory (World : Type) where
  saveState : World → String → GraphState → Except Raised Unit × World
  appendEvent : World → String → Event → Except Raised Unit × World

structure OrchestratorDependencies (World : Type) where
  ragTool : SpecialistTool
  documentTool : SpecialistTool
  sqlTool : SpecialistTool
  shortTermMemory : ShortTermMemory World
  retrieveSimilar : String → String → ℕ → Except Raised (List Dict)

def OrchestratorDependencies.tool {World : Type} (deps : OrchestratorDependencies World) :
    SpecialistName → SpecialistTool
  | .ragSearch => deps.ragTool
  | .documentExtraction => deps.documentTool
  | .sqlGeneration => deps.sqlTool

/-! ### The plan -/

def mentions (query : String) (tokens : List String) : Bool :=
  tokens.any fun token => decide (token.toList <:+: query.toList)

def createPlan (python : Python) (request : ExecutionRequestPayload) (retrievedMemories : List Dict) :
    List PlanStep :=
  let query := python.lower request.payloadQuery
  let context := request.sessionContext.getD []
  let present (key : String) : Bool := truthy (getOr context key .none)
  let featureScope := python.lower (python.strip request.featureScope)
  let (needsRag, needsDocument, needsSql) : Bool × Bool × Bool :=
    if featureScope = "rag" then (true, false, false)
    else if featureScope = "text_to_sql" then (false, false, true)
    else
      (mentions query
        ["lookup", "search", "find", "policy", "document", "reference", "knowledge"],
      present "document_text" || present "document_bytes" || present "document_base64" ||
        present "document_path" || mentions query ["invoice", "extract", "document", "receipt"],
      present "sql_query" ||
        mentions query
          ["database", "db", "sql", "analysis", "analyze", "revenue", "orders", "count"])
  let steps : List PlanStep :=
    if needsRag then
      [{ stepId := "step-rag-search"
         specialist := .ragSearch
         objective :=
          "Retrieve relevant document or knowledge-base context for the user request."
         expectedOutput := "Ranked references with source markers and supporting snippets."
         complexity := "moderate" }]
    else []
  let steps : List PlanStep :=
    if needsDocument then
      steps ++
        [{ stepId := "step-document-extraction"
           specialist := .documentExtraction
           objective := "Extract structured data from the provided document context."
           expectedOutput := "Typed document extraction fields with validation metadata."
           dependsOn := steps.map Step.stepId
           complexity := "moderate" }]
    else steps
  let steps : List PlanStep :=
    if needsSql then
      steps ++
        [{ stepId := "step-sql-generation"
           specialist := .sqlGeneration
           objective :=
            "Generate and execute a read-only SQL analysis using prior specialist findings."
           expectedOutput := "Sanitized SQL, result rows, and execution metadata."
           dependsOn := steps.map Step.stepId
           complexity := "hard" }]
    else steps
  let steps : List PlanStep :=
    if steps.isEmpty then
      [{ stepId := "step-rag-search"
         specialist := .ragSearch
         objective := "Retrieve relevant context for the user request."
         expectedOutput := "Ranked references with source markers."
         complexity := "simple" }]
    else steps
  if retrievedMemories.isEmpty then steps
  else
    steps.modifyHead fun step =>
      { step with
        objective := step.objective ++ " Consider " ++ toString retrievedMemories.length ++
          " similar long-term memory record(s)." }

/-! ### What is made of tool outputs -/

def normalizeToolOutput (output : PyValue) : Dict :=
  match output.jsonReady with
  | .dict entries => entries
  | value => [("result", value)]

/-- The metadata of an output, which must have a length and a number where it has a value. -/
def recordToolQuality (python : Python) (specialist : SpecialistName) (output : PyValue) :
    Except Raised Unit :=
  let normalized := normalizeToolOutput output
  match specialist with
  | .ragSearch =>
      match getOr normalized "results" (.list []) with
      | .str _ | .bytes _ | .enum _ | .list _ | .dict _ => .ok ()
      | value => .error ⟨"TypeError", "object of type '" ++ value.typeName ++ "' has no len()"⟩
  | .sqlGeneration =>
      match getOr normalized "row_count" (.int 0) with
      | .bool _ | .int _ | .float _ => .ok ()
      | .str text | .enum text =>
          match python.parseInt text with
          | some _ => .ok ()
          | none =>
              .error ⟨"ValueError", "invalid literal for int() with base 10: " ++ python.repr text⟩
      | value => .error ⟨"TypeError", "int() argument must be a string, a bytes-like object or a " ++
          "real number, not '" ++ value.typeName ++ "'"⟩
  | .documentExtraction => .ok ()

def completionStatus (observations : List ToolObservation) : String :=
  if observations.any fun observation => observation.status == .error then "completed_with_errors"
  else if observations.any fun observation => observation.status == .skipped then
    "completed_with_gaps"
  else "completed"

/-- The references under the first results, of those that are mappings. -/
def references (python : Python) (results : List PyValue) : List String :=
  (results.take 3).filterMap fun result =>
    match result with
    | .dict entries =>
        some (python.str (getOr entries "reference_marker"
          (getOr entries "source" ((get entries "chunk_id").getD .none))))
    | _ => none

def synthesizeLine (python : Python) (observation : ToolObservation) : Except Raised String :=
  let output := observation.output
  let text (value : PyValue) : String := python.str value
  match observation.status with
  | .error => .ok (observation.specialist.value ++ ": failed (" ++ observation.error.getD "None" ++ ").")
  | .skipped =>
      .ok (observation.specialist.value ++ ": skipped (" ++
        text (getOr output "reason" (.str "no applicable input was supplied")) ++ ").")
  | .success =>
      match observation.specialist with
      | .ragSearch =>
          let found (references : List String) : String :=
            if references.isEmpty then "RAG search completed with no matching references."
            else "RAG search found references: " ++ String.intercalate ", " references ++ "."
          match getOr output "results" (.list []) with
          | .list results => .ok (found (references python results))
          | .str _ | .bytes _ | .enum _ => .ok (found [])
          | value => .error ⟨"TypeError", "'" ++ value.typeName ++ "' object is not subscriptable"⟩
      | .documentExtraction =>
          match getOr output "extraction" (.dict []) with
          | .dict extraction =>
              let vendor := (get extraction "vendor_name").getD .none
              let invoiceId := (get extraction "invoice_id").getD .none
              let known (value : PyValue) : String := if truthy value then text value else "UNKNOWN"
              .ok (if truthy vendor || truthy invoiceId then
                "Document extraction found vendor=" ++ known vendor ++ ", invoice_id=" ++
                  known invoiceId ++ ", invoice_total=" ++
                  text ((get extraction "invoice_total").getD .none) ++ "."
                else "Document extraction completed without structured invoice fields.")
          | value => .error ⟨"AttributeError",
              "'" ++ value.typeName ++ "' object has no attribute 'get'"⟩
      | .sqlGeneration =>
          .ok ("SQL analysis executed " ++ "\x60" ++ text ((get output "sql").getD .none) ++ "\x60" ++
            " and returned " ++ text ((get output "row_count").getD (.int 0)) ++ " row(s): " ++
            text (getOr output "rows" (.list [])) ++ ".")

def synthesizeResponse (python : Python) (state : SupervisorState) : Except Raised String := do
  let lines ← state.observations.mapM (synthesizeLine python)
  return String.intercalate " "
    (("Completed " ++ toString state.observations.length ++ " specialist step(s) for: " ++
      state.request.payloadQuery) :: lines)

/-! ### Nodes -/

variable {World : Type} (python : Python) (deps : OrchestratorDependencies World)

def retrieveMemories (request : ExecutionRequestPayload) : List Dict :=
  match deps.retrieveSimilar request.userId request.payloadQuery 3 with
  | .ok memories => memories
  | .error _ => []

/-- A failed write is logged and given up. -/
def persistShortTerm (world : World) (state : SupervisorState) (eventType : String) : World :=
  let event : Event :=
    { eventType
      status := state.status
      currentStepIndex := state.currentStepIndex
      dispatchNext := state.dispatchNext.map SpecialistName.value
      observationCount := state.observations.length }
  match deps.shortTermMemory.saveState world state.sessionId (stateToGraphDict state) with
  | (.error _, world) => world
  | (.ok _, world) => (deps.shortTermMemory.appendEvent world state.sessionId event).2

def ensurePlan (state : SupervisorState) : SupervisorState :=
  if state.plan.isEmpty then
    let retrievedMemories := retrieveMemories deps state.request
    { state with
      retrievedMemories
      plan := createPlan python state.request retrievedMemories
      status := "running" }
  else state

def supervisorNode (world : World) (graphState : GraphState) : Except Raised (World × GraphState) := do
  let state ← SupervisorState.modelValidate graphState
  let state := ensurePlan python deps state
  match state.plan[state.currentStepIndex]? with
  | none =>
      let finalResponse ← synthesizeResponse python { state with dispatchNext := none }
      let state : SupervisorState :=
        { state with
          dispatchNext := none
          finalResponse := some finalResponse
          status := completionStatus state.observations }
      return (persistShortTerm deps world state "workflow_completed", stateToGraphDict state)
  | some current =>
      let current := if current.status = "pending" then { current with status := "running" } else current
      let state : SupervisorState :=
        { state with
          plan := state.plan.set state.currentStepIndex current
          dispatchNext := some current.specialist }
      return (persistShortTerm deps world state "workflow_dispatched", stateToGraphDict state)

/-- The call of the tool, with its status, its output and its error. -/
def runTool (specialist : SpecialistName) (request : ExecutionRequestPayload) (step : PlanStep)
    (observations : List ToolObservation) : ObservationStatus × Dict × Option String :=
  let called : Except Raised Dict := do
    let output ← deps.tool specialist request step observations
    recordToolQuality python specialist output
    return normalizeToolOutput output
  match called with
  | .ok output =>
      match get output "status" with
      | some (.str "skipped") => (.skipped, output, none)
      | _ => (.success, output, none)
  | .error raised => (.error, [], some raised.text)

def planStatus : ObservationStatus → String
  | .success => "completed"
  | .skipped => "skipped"
  | .error => "failed"

def inputPayload (request : ExecutionRequestPayload) (step : PlanStep)
    (observations : List ToolObservation) : Dict :=
  [("query", .str request.payloadQuery),
    ("step", .dict
      [("step_id", .str step.stepId), ("specialist", .str step.specialist.value),
        ("objective", .str step.objective), ("expected_output", .str step.expectedOutput),
        ("depends_on", .list (step.dependsOn.map .str)), ("complexity", .str step.complexity),
        ("status", .str step.status)]),
    ("prior_observation_count", .int observations.length)]

/-- The observation of a step that the specialist is given. -/
def observe (specialist : SpecialistName) (request : ExecutionRequestPayload) (step : PlanStep)
    (observations : List ToolObservation) : ToolObservation :=
  let (status, output, error) := runTool python deps specialist request step observations
  { stepId := step.stepId
    specialist
    status
    inputPayload := inputPayload request step observations
    output
    error }

def specialistNode (specialist : SpecialistName) (world : World) (graphState : GraphState) :
    Except Raised (World × GraphState) := do
  let state ← SupervisorState.modelValidate graphState
  match state.plan[state.currentStepIndex]? with
  | none => throw ⟨"IndexError", "list index out of range"⟩
  | some step =>
      let observation := observe python deps specialist state.request step state.observations
      let state : SupervisorState :=
        { state with
          observations := state.observations ++ [observation]
          plan := state.plan.set state.currentStepIndex
            { step with status := planStatus observation.status }
          currentStepIndex := state.currentStepIndex + 1
          dispatchNext := none }
      return (persistShortTerm deps world state (specialist.value ++ "_completed"),
        stateToGraphDict state)

def nodes (name : String) : Option (World → GraphState → Except Raised (World × GraphState)) :=
  if name = "supervisor" then some (supervisorNode python deps)
  else (SpecialistName.ofValue? name).map (specialistNode python deps)

def routeNextNode (state : GraphState) : String :=
  match state.dispatchNext with
  | none => "END"
  | some name => if name = "" then "END" else name

/-- The loop of the sequential graph, for at most the given number of rounds. -/
def invoke : ℕ → World → GraphState → Option (Except Raised (World × GraphState))
  | 0, _, _ => none
  | rounds + 1, world, state =>
      match supervisorNode python deps world state with
      | .error raised => some (.error raised)
      | .ok (world, state) =>
          if routeNextNode state = "END" then some (.ok (world, state))
          else
            match nodes python deps (routeNextNode state) with
            | none => some (.error ⟨"KeyError", routeNextNode state⟩)
            | some node =>
                match node world state with
                | .error raised => some (.error raised)
                | .ok (world, state) => invoke rounds world state

end CoreMesh.Agents
