import CoreMesh.Agents.DocumentContext
import CoreMesh.Arbitration.FailClosed
import CoreMesh.Lib.PyText

/-!
# What an orchestration delivers

`run_orchestration` up to its result: the graph, and the arbitration of the response it ends with. A
response without a visible character is blocked before any critic sees it. The text of a remediation is
only asked not to be empty, so one of white space gets through.
-/

namespace CoreMesh.Agents

open Arbitration Outcome PyText
open PyValue (Dict)

variable {Value World : Type}

/-! ### The result -/

structure OrchestrationResult where
  sessionId : String
  userId : String
  featureScope : String
  status : String
  plan : List PlanStep
  observations : List ToolObservation
  retrievedMemories : List Dict
  finalResponse : String
  arbitration : Option ConsensusVerdict := none

inductive RunError where
  | graph (raised : Agents.Raised)
  | arbitration (raised : Arbitration.Raised)
  deriving DecidableEq

section Run

variable (validation : Arbitration.Python Value) (settings : Settings)
  (arbitrator : ConsensusArbitrator Value) (finished : Bool)

def payloadOf (result : OrchestrationResult) (request : ExecutionRequestPayload) : PayloadFields where
  outputText := result.finalResponse
  originalPrompt := some request.payloadQuery
  sessionId := some result.sessionId

/-- The result with a verdict, whose text takes the place of the response. -/
def OrchestrationResult.arbitrated (result : OrchestrationResult) (verdict : ConsensusVerdict)
    (status : String) : OrchestrationResult :=
  { result with
    arbitration := some verdict
    finalResponse := verdict.deliveredOutput
    status }

/-- `_apply_arbitration`. -/
def applyArbitration (result : OrchestrationResult) (request : ExecutionRequestPayload) :
    Except Arbitration.Raised OrchestrationResult := do
  if strip result.finalResponse.toList = [] then
    let verdict ← ConsensusVerdict.blocked validation .manualReview [] [] ["empty_final_response"] none
    return result.arbitrated verdict "blocked_by_arbitration"
  else
    let verdict ←
      match arbitrator.arbitrate validation settings finished (payloadOf result request) with
      | .ok verdict => .ok verdict
      | .error raised =>
          ConsensusVerdict.blocked validation .manualReview []
            [⟨"arbitration", "runtime", raised.text⟩] ["arbitrator_runtime_failure"] none
    return result.arbitrated verdict
      (if verdict.status = .remediated then "remediated_by_arbitration"
        else if !verdict.deliveryAllowed then "blocked_by_arbitration"
        else result.status)

/-- The result of a workflow before its arbitration. -/
def resultOf (state : SupervisorState) : OrchestrationResult where
  sessionId := state.sessionId
  userId := state.request.userId
  featureScope := state.request.featureScope
  status := state.status
  plan := state.plan
  observations := state.observations
  retrievedMemories := state.retrievedMemories
  finalResponse := state.finalResponse.getD ""

variable (python : Python) (deps : OrchestratorDependencies World)

def normalizedRequest (request : ExecutionRequestPayload) : ExecutionRequestPayload :=
  { request with sessionContext := normalizeSessionContext request.sessionContext }

/-- The graph of `run_orchestration`, and its last state. -/
def runGraph (rounds : ℕ) (world : World) (request : ExecutionRequestPayload) (sessionId : String) :
    Option (Except Agents.Raised SupervisorState) :=
  (invoke python deps rounds world
    (stateToGraphDict { request := normalizedRequest request, sessionId })).map fun last => do
      let (_, graph) ← last
      SupervisorState.modelValidate graph

/-- `run_orchestration`. -/
def runOrchestration (rounds : ℕ) (world : World) (request : ExecutionRequestPayload)
    (sessionId : String) : Option (Except RunError OrchestrationResult) :=
  (runGraph python deps rounds world request sessionId).map fun last => do
    let state ← last.mapError .graph
    (applyArbitration validation settings arbitrator finished (resultOf state)
      (normalizedRequest request)).mapError .arbitration

end Run

/-! ### Deliveries -/

/-- A response that is let through has a visible character. -/
def NoBlankDelivery (out : OrchestrationResult) : Prop :=
  ∀ verdict, out.arbitration = some verdict → verdict.deliveryAllowed = true →
    ∃ c ∈ out.finalResponse.toList, isSpace c = false

/-- The caller has the blocked response in place of the workflow's. -/
def Blocked (out : OrchestrationResult) : Prop :=
  out.finalResponse = blockedResponse ∧
    ∃ verdict, out.arbitration = some verdict ∧ verdict.deliveryAllowed = false

/-- The critics leave the payload to the adjudicator, who has it replaced by a text. -/
def Remediates (validation : Arbitration.Python Value) (arbitrator : ConsensusArbitrator Value)
    (payload : ArbitrationPayload) (text : String) : Prop :=
  arbitrator.Quorum validation payload ∧ ¬arbitrator.Unanimous validation payload ∧
    ∃ adjudication, Answers (arbitrator.adjudicator.adjudicate payload
        (arbitrator.assessments validation payload) (arbitrator.failures validation payload)
        (arbitrator.triggers validation payload)) arbitrator.retryAttempts adjudication ∧
      adjudication.action = .remediate ∧ adjudication.remediatedOutput = some text

/-- A visible response is replaced, in time, by a text that is white space only and not empty. -/
def BlankRemediation (validation : Arbitration.Python Value) (arbitrator : ConsensusArbitrator Value)
    (finished : Bool) (result : OrchestrationResult) (request : ExecutionRequestPayload) : Prop :=
  finished = true ∧ ¬Blank result.finalResponse.toList ∧
    ∃ payload text, payload.toPayloadFields = payloadOf result request ∧
      Remediates validation arbitrator payload text ∧ text ≠ "" ∧ Blank text.toList

section Arbitrated

variable {validation : Arbitration.Python Value} {settings : Settings}
  {arbitrator : ConsensusArbitrator Value} {finished : Bool} {payload : ArbitrationPayload}

theorem delivers_iff {text : String} :
    arbitrator.Delivers validation payload finished text ↔
      finished = true ∧ arbitrator.Quorum validation payload ∧
        (text = payload.outputText ∧ (arbitrator.Unanimous validation payload ∨
            ¬arbitrator.Unanimous validation payload ∧
              ∃ adjudication, Answers (arbitrator.adjudicator.adjudicate payload
                  (arbitrator.assessments validation payload) (arbitrator.failures validation payload)
                  (arbitrator.triggers validation payload)) arbitrator.retryAttempts adjudication ∧
                adjudication.action = .releaseOriginal) ∨
          Remediates validation arbitrator payload text ∧ text ≠ "") := by
  constructor
  · intro hdelivers
    cases hdelivers with
    | unanimous htime hquorum hclean => exact ⟨htime, hquorum, .inl ⟨rfl, .inl hclean⟩⟩
    | released htime hquorum htriggered adjudication hadjudicated haction =>
        exact ⟨htime, hquorum, .inl ⟨rfl, .inr ⟨htriggered, adjudication, hadjudicated, haction⟩⟩⟩
    | remediated htime hquorum htriggered adjudication hadjudicated haction _ htext hne =>
        exact ⟨htime, hquorum,
          .inr ⟨⟨hquorum, htriggered, adjudication, hadjudicated, haction, htext⟩, hne⟩⟩
  · intro hdelivers
    obtain ⟨htime, hquorum, hreleased | hremediated⟩ := hdelivers
    · obtain ⟨rfl, hclean | ⟨htriggered, adjudication, hadjudicated, haction⟩⟩ := hreleased
      · exact .unanimous htime hquorum hclean
      · exact .released htime hquorum htriggered adjudication hadjudicated haction
    · obtain ⟨⟨-, htriggered, adjudication, hadjudicated, haction, htext⟩, hne⟩ := hremediated
      exact .remediated htime hquorum htriggered adjudication hadjudicated haction _ htext hne

/-- A payload is its fields. -/
theorem payload_ext {first second : ArbitrationPayload}
    (hfields : first.toPayloadFields = second.toPayloadFields) : first = second := by
  cases first
  cases second
  cases hfields
  rfl

variable (validation settings arbitrator finished)

/-- A blank response is blocked without a look at it. -/
theorem applyArbitration_of_blank {result : OrchestrationResult}
    (hblank : Blank result.finalResponse.toList) (request : ExecutionRequestPayload) :
    ∃ out, applyArbitration validation settings arbitrator finished result request = .ok out ∧
      Blocked out := by
  unfold applyArbitration ConsensusVerdict.blocked
  rw [if_pos (strip_eq_nil_iff.mpr hblank), validated_eq validation (combinedConfidence_mem [] [])]
  exact ⟨_, rfl, rfl, _, rfl, rfl⟩

/-- A visible response is arbitrated, and the result has what the verdict delivers. -/
theorem applyArbitration_of_visible {result : OrchestrationResult}
    (hvisible : ¬Blank result.finalResponse.toList) (request : ExecutionRequestPayload) :
    ∃ out verdict payload,
      applyArbitration validation settings arbitrator finished result request = .ok out ∧
      out.arbitration = some verdict ∧ out.finalResponse = verdict.deliveredOutput ∧
      payload.toPayloadFields = payloadOf result request ∧
      arbitrator.FailsClosed validation payload finished verdict := by
  have hne : (payloadOf result request).outputText ≠ "" := by
    intro hempty
    apply hvisible
    change result.finalResponse = "" at hempty
    rw [hempty]
    exact List.forall_mem_nil _
  have hclosed := arbitrator.arbitrate_payload validation settings finished
    ⟨payloadOf result request, hne⟩
  unfold applyArbitration
  rw [if_neg (mt strip_eq_nil_iff.mp hvisible)]
  cases harbitrate : arbitrator.arbitrate validation settings finished (payloadOf result request) with
  | error raised =>
      rw [harbitrate] at hclosed
      exact absurd hclosed hne
  | ok verdict =>
      rw [harbitrate] at hclosed
      exact ⟨_, verdict, ⟨payloadOf result request, hne⟩, rfl, rfl, rfl, rfl, hclosed⟩

theorem applyArbitration_spec (result : OrchestrationResult) (request : ExecutionRequestPayload) :
    ∃ out, applyArbitration validation settings arbitrator finished result request = .ok out ∧
      (NoBlankDelivery out ↔ ¬BlankRemediation validation arbitrator finished result request) ∧
      (Blank result.finalResponse.toList → Blocked out) := by
  by_cases hblank : Blank result.finalResponse.toList
  · obtain ⟨out, hout, hblocked⟩ :=
      applyArbitration_of_blank validation settings arbitrator finished hblank request
    refine ⟨out, hout, ⟨fun _ hremediation => hremediation.2.1 hblank, ?_⟩, fun _ => hblocked⟩
    intro _ verdict hverdict hallowed
    obtain ⟨-, verdict', hverdict', hrefused⟩ := hblocked
    obtain rfl := Option.some.inj (hverdict.symm.trans hverdict')
    rw [hrefused] at hallowed
    cases hallowed
  · obtain ⟨out, verdict, payload, hout, hverdict, hresponse, hpayload, hclosed⟩ :=
      applyArbitration_of_visible validation settings arbitrator finished hblank request
    have hdelivers := ConsensusArbitrator.FailsClosed.delivers hclosed
    refine ⟨out, hout, ?_, fun h => absurd h hblank⟩
    constructor
    · intro hvisible hremediation
      obtain ⟨htime, -, payload', text, hpayload', hremediates, hne, hspaces⟩ := hremediation
      obtain rfl : payload' = payload := by
        apply payload_ext
        rw [hpayload', hpayload]
      obtain ⟨hallowed, hdelivered⟩ := (hdelivers text).mpr
        (delivers_iff.mpr ⟨htime, hremediates.1, .inr ⟨hremediates, hne⟩⟩)
      have hseen := hvisible verdict hverdict hallowed
      rw [hresponse, hdelivered] at hseen
      exact not_blank_iff.mpr hseen hspaces
    · intro hnot verdict' hverdict' hallowed
      obtain rfl := Option.some.inj (hverdict.symm.trans hverdict')
      obtain ⟨htime, -, ⟨htext, -⟩ | ⟨hremediates, hne⟩⟩ :=
        delivers_iff.mp ((hdelivers _).mp ⟨hallowed, rfl⟩)
      · have horiginal : payload.outputText = result.finalResponse :=
          congrArg PayloadFields.outputText hpayload
        rw [hresponse, htext, horiginal]
        exact not_blank_iff.mp hblank
      · rw [hresponse]
        apply not_blank_iff.mp
        intro hspaces
        exact hnot ⟨htime, hblank, payload, _, hpayload, hremediates, hne, hspaces⟩

end Arbitrated

/-! ### Runs -/

/-- The result of a run is the arbitrated result of its last state. -/
theorem runOrchestration_eq_ok {validation : Arbitration.Python Value} {settings : Settings}
    {arbitrator : ConsensusArbitrator Value} {finished : Bool} {python : Python}
    {deps : OrchestratorDependencies World} {rounds : ℕ} {world : World}
    {request : ExecutionRequestPayload} {sessionId : String} {out : OrchestrationResult}
    (hrun : runOrchestration validation settings arbitrator finished python deps rounds world request
      sessionId = some (.ok out)) :
    ∃ state, runGraph python deps rounds world request sessionId = some (.ok state) ∧
      applyArbitration validation settings arbitrator finished (resultOf state)
        (normalizedRequest request) = .ok out := by
  unfold runOrchestration at hrun
  rw [Option.map_eq_some_iff] at hrun
  obtain ⟨last, hlast, hout⟩ := hrun
  cases last with
  | error raised => cases hout
  | ok state =>
      refine ⟨state, hlast, ?_⟩
      change (applyArbitration validation settings arbitrator finished (resultOf state)
        (normalizedRequest request)).mapError RunError.arbitration = .ok out at hout
      cases happlied : applyArbitration validation settings arbitrator finished (resultOf state)
        (normalizedRequest request) with
      | error raised =>
          rw [happlied] at hout
          cases hout
      | ok out' =>
          rw [happlied] at hout
          cases hout
          rfl

/-- What a run delivers can be seen, unless a blank text replaces a visible response. -/
theorem runOrchestration_visible_iff (validation : Arbitration.Python Value) (settings : Settings)
    (arbitrator : ConsensusArbitrator Value) (finished : Bool) (python : Python)
    (deps : OrchestratorDependencies World) (rounds : ℕ) (world : World)
    (request : ExecutionRequestPayload) (sessionId : String) (out : OrchestrationResult)
    (hrun : runOrchestration validation settings arbitrator finished python deps rounds world request
      sessionId = some (.ok out)) :
    ∃ state, runGraph python deps rounds world request sessionId = some (.ok state) ∧
      (NoBlankDelivery out ↔
        ¬BlankRemediation validation arbitrator finished (resultOf state) (normalizedRequest request)) ∧
      (Blank (resultOf state).finalResponse.toList → Blocked out) := by
  obtain ⟨state, hgraph, happlied⟩ := runOrchestration_eq_ok hrun
  obtain ⟨out', hout', hspec⟩ := applyArbitration_spec validation settings arbitrator finished
    (resultOf state) (normalizedRequest request)
  rw [happlied] at hout'
  obtain rfl := Except.ok.inj hout'
  exact ⟨state, hgraph, hspec⟩

/-! ### A remediation of two spaces -/

/-- The readers on plain values, where a number is exact. -/
def plainReading : Arbitration.Python PyValue where
  field value name := match value with
    | .dict entries => PyValue.get entries name
    | _ => none
  isNone value := match value with
    | .none => true
    | _ => false
  string value := match value with
    | .str text => some text
    | _ => none
  integer value := match value with
    | .int value => some value
    | _ => none
  number value := match value with
    | .int value => some value
    | .float value => some value
    | _ => none
  strings value := match value with
    | .list items => items.mapM fun item =>
        match item with
        | .str text => some text
        | _ => none
    | _ => none
  isSpace := isSpace
  repr text := "'" ++ text ++ "'"
  str value := toString value
  validationError schema := "validation error for " ++ schema

def scoresTwo (dimension : EvaluationDimension) : Critic PyValue where
  dimension := some dimension.name
  providerName := some "openai"
  assess _ _ := .ok (.dict
    [("evaluation_dimension", .str dimension.name), ("assigned_score", .int 2),
      ("confidence_coefficient", .float (9 / 10))])

def remediatesWithSpaces : Adjudicator where
  providerName := some "openai"
  adjudicate _ _ _ _ _ := .ok
    { action := .remediate
      overallQualityScore := 3
      confidenceCoefficient := 9 / 10
      confirmedIssues := []
      dismissedFlags := []
      remediatedOutput := some "  "
      rationale := "nothing can be kept"
      score_ge := by decide
      score_le := by decide
      confidence_ge := by norm_num
      confidence_le := by norm_num }

def spacesArbitrator : ConsensusArbitrator PyValue :=
  ConsensusArbitrator.init {} [] remediatesWithSpaces
    [scoresTwo .factual, scoresTwo .logic, scoresTwo .completeness] none none none

def invoiceRequest : ExecutionRequestPayload :=
  ⟨"ada", "general", "search the invoice database", none⟩

theorem spaces_delivered :
    ∃ out, runOrchestration plainReading {} spacesArbitrator true asciiPython degradedDependencies 4 ()
        invoiceRequest "session" = some (.ok out) ∧
      out.finalResponse = "  " ∧ out.arbitration.map (·.deliveryAllowed) = some true := by
  have hrun : (runOrchestration plainReading {} spacesArbitrator true asciiPython
      degradedDependencies 4 () invoiceRequest "session").map (fun last => last.toOption.map fun out =>
        (out.finalResponse, out.arbitration.map (·.deliveryAllowed))) =
      some (some ("  ", some true)) := by decide +kernel
  obtain ⟨last, hlast, hout⟩ := Option.map_eq_some_iff.mp hrun
  cases last with
  | error raised => cases hout
  | ok out =>
      obtain ⟨hresponse, hallowed⟩ := Prod.mk.inj (Option.some.inj hout)
      exact ⟨out, hlast, hresponse, hallowed⟩

theorem runOrchestration_visible_iff_spaces :
    ∃ out state,
      runOrchestration plainReading {} spacesArbitrator true asciiPython degradedDependencies 4 ()
        invoiceRequest "session" = some (.ok out) ∧
      runGraph asciiPython degradedDependencies 4 () invoiceRequest "session" = some (.ok state) ∧
      (NoBlankDelivery out ↔ ¬BlankRemediation plainReading spacesArbitrator true (resultOf state)
        (normalizedRequest invoiceRequest)) := by
  obtain ⟨out, hrun, -, -⟩ := spaces_delivered
  obtain ⟨state, hgraph, hvisible, -⟩ := runOrchestration_visible_iff plainReading {} spacesArbitrator
    true asciiPython degradedDependencies 4 () invoiceRequest "session" out hrun
  exact ⟨out, state, hrun, hgraph, hvisible⟩

/-- Two spaces are delivered in place of the response. -/
theorem blank_delivery_of_spaces :
    ∃ out, runOrchestration plainReading {} spacesArbitrator true asciiPython degradedDependencies 4 ()
        invoiceRequest "session" = some (.ok out) ∧
      ¬NoBlankDelivery out := by
  obtain ⟨out, hrun, hresponse, hallowed⟩ := spaces_delivered
  refine ⟨out, hrun, fun hvisible => ?_⟩
  obtain ⟨verdict, hverdict, hdelivers⟩ := Option.map_eq_some_iff.mp hallowed
  have hseen := hvisible verdict hverdict hdelivers
  rw [hresponse] at hseen
  obtain ⟨c, hc, hvisible⟩ := hseen
  have hblank : Blank "  ".toList := by decide
  rw [hblank c hc] at hvisible
  cases hvisible

end CoreMesh.Agents
