import Mathlib.Data.List.Basic
import CoreMesh.Lib.Except
import CoreMesh.Lib.Rounding

/-!
# Consensus arbitration

`ConsensusArbitrator` of `arbitration/consensus.py`: the fan-out to the critics, the quorum, the
triggers, the adjudicator and the verdict. A confidence is a rational number. The identifiers and the
time stamp of a verdict, and the fields of a payload that only its critics read, are left out.
-/

namespace CoreMesh.Arbitration

inductive EvaluationDimension where
  | factual
  | logic
  | completeness
  deriving DecidableEq

namespace EvaluationDimension

def name : EvaluationDimension → String
  | factual => "factual"
  | logic => "logic"
  | completeness => "completeness"

def ofName? (name : String) : Option EvaluationDimension :=
  [factual, logic, completeness].find? fun dimension => dimension.name == name

end EvaluationDimension

inductive AdjudicationAction where
  | releaseOriginal
  | remediate
  | block
  | manualReview
  deriving DecidableEq

def blockedResponse : String :=
  "I could not safely deliver that response because the arbitration layer flagged it for review."

inductive ConsensusStatus where
  | passed
  | passedDegraded
  | remediated
  | blocked
  | manualReview
  deriving DecidableEq

def ConsensusStatus.value : ConsensusStatus → String
  | passed => "passed"
  | passedDegraded => "passed_degraded"
  | remediated => "remediated"
  | blocked => "blocked"
  | manualReview => "manual_review"

/-! ### Exceptions and retries -/

/-- The classes that `_is_transient_exception` tells apart. -/
inductive ExceptionClass where
  | timeoutError
  | connectionError
  | osError
  | httpxTimeoutException
  | httpxConnectError
  | httpxNetworkError
  | httpxHTTPStatusError (statusCode : ℕ)
  | openaiAPIConnectionError
  | openaiAPITimeoutError
  | openaiRateLimitError
  | openaiInternalServerError
  | validationError
  | other
  deriving DecidableEq

structure Raised where
  exceptionClass : ExceptionClass
  text : String
  deriving DecidableEq

def isTransientException (raised : Raised) : Bool :=
  match raised.exceptionClass with
  | .httpxHTTPStatusError statusCode => [429, 500, 502, 503, 504].contains statusCode
  | .validationError => false
  | .other => false
  | _ => true

/-- The operation answers by the number of the call, counted from zero. -/
def withRetries {α : Type} (operation : ℕ → Except Raised α) (attempts : ℤ) : Except Raised α :=
  Outcome.retry isTransientException operation 0 ((max 1 attempts).toNat - 1)

/-! ### Schemas -/

structure CriticAssessmentSchema where
  evaluationDimension : EvaluationDimension
  assignedScore : ℤ
  flaggedAnomalies : List String
  confidenceCoefficient : ℚ
  score_ge : 1 ≤ assignedScore
  score_le : assignedScore ≤ 5
  confidence_ge : 0 ≤ confidenceCoefficient
  confidence_le : confidenceCoefficient ≤ 1
  deriving DecidableEq

/-- What an outbound payload is made from. -/
structure PayloadFields where
  outputText : String
  originalPrompt : Option String
  sessionId : Option String
  deriving DecidableEq

structure ArbitrationPayload extends PayloadFields where
  outputText_ne : outputText ≠ ""
  deriving DecidableEq

structure CriticFailure where
  evaluationDimension : String
  providerName : String
  error : String
  deriving DecidableEq

structure AdjudicationSchema where
  action : AdjudicationAction
  overallQualityScore : ℤ
  confidenceCoefficient : ℚ
  confirmedIssues : List String
  dismissedFlags : List String
  remediatedOutput : Option String
  rationale : String
  score_ge : 1 ≤ overallQualityScore
  score_le : overallQualityScore ≤ 10
  confidence_ge : 0 ≤ confidenceCoefficient
  confidence_le : confidenceCoefficient ≤ 1
  deriving DecidableEq

structure ConsensusVerdict where
  status : ConsensusStatus
  deliveryAllowed : Bool
  deliveredOutput : String
  adjudicationRequired : Bool
  criticAssessments : List CriticAssessmentSchema
  criticFailures : List CriticFailure
  triggeredBy : List String
  adjudication : Option AdjudicationSchema
  confidenceCoefficient : ℚ
  deriving DecidableEq

/-! ### Collaborators -/

/-- A critic returns a value that has yet to be validated. -/
structure Critic (Value : Type) where
  dimension : Option String
  providerName : Option String
  assess : ArbitrationPayload → ℕ → Except Raised Value

structure Adjudicator where
  providerName : Option String
  adjudicate : ArbitrationPayload → List CriticAssessmentSchema → List CriticFailure → List String →
    ℕ → Except Raised AdjudicationSchema

/-- What the standard library and the validation library do with a value and with a text, the readers
of a field in the mode that coerces. -/
structure Python (Value : Type) where
  field : Value → String → Option Value
  isNone : Value → Bool
  string : Value → Option String
  integer : Value → Option ℤ
  number : Value → Option ℚ
  strings : Value → Option (List String)
  isSpace : Char → Bool
  repr : String → String
  str : ℚ → String
  validationError : String → String

structure Settings where
  arbitrationScoreThreshold : ℤ := 4
  arbitrationRetryAttempts : ℤ := 2
  arbitrationTimeoutSeconds : ℚ := 30

variable {Value : Type}

section Validation

variable (python : Python Value)

/-- A rejected value of the named schema. -/
def Python.rejected (schema : String) : Raised := ⟨.validationError, python.validationError schema⟩

def normalizeAnomalies (value : Value) : Option (List String) :=
  if python.isNone value then some []
  else
    match python.string value with
    | some text => some (if text.toList.all python.isSpace then [] else [text])
    | none => python.strings value

def CriticAssessmentSchema.modelValidate (value : Value) : Except Raised CriticAssessmentSchema :=
  let fields : Option (EvaluationDimension × ℤ × List String × ℚ) := do
    let dimension ← (← (python.field value "evaluation_dimension").bind python.string)
      |> EvaluationDimension.ofName?
    let score ← (python.field value "assigned_score").bind python.integer
    let anomalies ← ((python.field value "flagged_anomalies").map (normalizeAnomalies python)).getD
      (some [])
    let confidence ← (python.field value "confidence_coefficient").bind python.number
    pure (dimension, score, anomalies, confidence)
  match fields with
  | none => .error (python.rejected "CriticAssessmentSchema")
  | some (dimension, score, anomalies, confidence) =>
      if h : (1 ≤ score ∧ score ≤ 5) ∧ 0 ≤ confidence ∧ confidence ≤ 1 then
        .ok ⟨dimension, score, anomalies, confidence, h.1.1, h.1.2, h.2.1, h.2.2⟩
      else .error (python.rejected "CriticAssessmentSchema")

def ArbitrationPayload.modelValidate (fields : PayloadFields) : Except Raised ArbitrationPayload :=
  if h : fields.outputText = "" then .error (python.rejected "ArbitrationPayload")
  else .ok ⟨fields, h⟩

/-- The model is built from its fields, which it checks. -/
def ConsensusVerdict.validated (verdict : ConsensusVerdict) : Except Raised ConsensusVerdict :=
  if 0 ≤ verdict.confidenceCoefficient ∧ verdict.confidenceCoefficient ≤ 1 then .ok verdict
  else .error (python.rejected "ConsensusVerdict")

end Validation

/-- In exact numbers, where the code has float64s. -/
def combinedConfidence (assessments : List CriticAssessmentSchema) (failures : List CriticFailure) :
    ℚ :=
  if assessments.isEmpty then 0
  else
    let base : ℚ := (assessments.map (·.confidenceCoefficient)).foldl (· + ·) 0 / assessments.length
    let penalty : ℚ := 15 / 100 * failures.length
    max 0 (Rounding.toDecimals 4 (base - penalty))

section Verdicts

variable (python : Python Value)

def ConsensusVerdict.passVerdict (payload : ArbitrationPayload)
    (assessments : List CriticAssessmentSchema) (failures : List CriticFailure) :
    Except Raised ConsensusVerdict :=
  ConsensusVerdict.validated python
    { status := if failures.isEmpty then .passed else .passedDegraded
      deliveryAllowed := true
      deliveredOutput := payload.outputText
      adjudicationRequired := false
      criticAssessments := assessments
      criticFailures := failures
      triggeredBy := if failures.isEmpty then [] else ["critic_failure_degraded"]
      adjudication := none
      confidenceCoefficient := combinedConfidence assessments failures }

def ConsensusVerdict.blocked (status : ConsensusStatus) (assessments : List CriticAssessmentSchema)
    (failures : List CriticFailure) (triggeredBy : List String)
    (adjudication : Option AdjudicationSchema) : Except Raised ConsensusVerdict :=
  ConsensusVerdict.validated python
    { status
      deliveryAllowed := false
      deliveredOutput := blockedResponse
      adjudicationRequired := true
      criticAssessments := assessments
      criticFailures := failures
      triggeredBy
      adjudication
      confidenceCoefficient := combinedConfidence assessments failures }

end Verdicts

/-! ### The arbitrator -/

structure ConsensusArbitrator (Value : Type) where
  critics : List (Critic Value)
  adjudicator : Adjudicator
  scoreThreshold : ℤ
  retryAttempts : ℤ

/-- An optional number that zero leaves to the settings too. -/
def orSetting (number : Option ℤ) (setting : ℤ) : ℤ :=
  match number with
  | none => setting
  | some number => if number = 0 then setting else number

def ConsensusArbitrator.init (settings : Settings) (defaultCritics : List (Critic Value))
    (openAIAdjudicator : Adjudicator) (critics : List (Critic Value)) (adjudicator : Option Adjudicator)
    (scoreThreshold retryAttempts : Option ℤ) : ConsensusArbitrator Value where
  critics := if critics.isEmpty then defaultCritics else critics
  adjudicator := adjudicator.getD openAIAdjudicator
  scoreThreshold := orSetting scoreThreshold settings.arbitrationScoreThreshold
  retryAttempts := orSetting retryAttempts settings.arbitrationRetryAttempts

namespace ConsensusArbitrator

variable (python : Python Value) (settings : Settings) (self : ConsensusArbitrator Value)

def runCritic (payload : ArbitrationPayload) (critic : Critic Value) :
    Option CriticAssessmentSchema × Option CriticFailure :=
  let dimension := critic.dimension.getD "unknown"
  let providerName := critic.providerName.getD "unknown"
  let assessed : Except Raised CriticAssessmentSchema := do
    let assessment ← withRetries (critic.assess payload) self.retryAttempts
    let assessment ← CriticAssessmentSchema.modelValidate python assessment
    if assessment.evaluationDimension.name ≠ dimension then
      throw ⟨.other, "critic returned dimension " ++ python.repr assessment.evaluationDimension.name ++
        ", expected " ++ python.repr dimension⟩
    return assessment
  match assessed with
  | .ok assessment => (some assessment, none)
  | .error raised => (none, some ⟨dimension, providerName, raised.text⟩)

def findTriggers (assessments : List CriticAssessmentSchema) : List String :=
  assessments.flatMap fun assessment =>
    (if assessment.assignedScore < self.scoreThreshold then
      [assessment.evaluationDimension.name ++ "_score_below_" ++ toString self.scoreThreshold]
      else []) ++
    (if assessment.flaggedAnomalies.isEmpty then []
      else [assessment.evaluationDimension.name ++ "_flagged_anomalies"])

def verdictFromAdjudication (payload : ArbitrationPayload) (assessments : List CriticAssessmentSchema)
    (failures : List CriticFailure) (triggeredBy : List String) (adjudication : AdjudicationSchema) :
    Except Raised ConsensusVerdict :=
  let released (status : ConsensusStatus) (text : String) : Except Raised ConsensusVerdict :=
    ConsensusVerdict.validated python
      { status
        deliveryAllowed := true
        deliveredOutput := text
        adjudicationRequired := true
        criticAssessments := assessments
        criticFailures := failures
        triggeredBy
        adjudication := some adjudication
        confidenceCoefficient := adjudication.confidenceCoefficient }
  if adjudication.action = .releaseOriginal then
    released (if failures.isEmpty then .passed else .passedDegraded) payload.outputText
  else if adjudication.action = .remediate ∧ adjudication.remediatedOutput.getD "" ≠ "" then
    released .remediated (adjudication.remediatedOutput.getD "")
  else
    ConsensusVerdict.blocked python
      (if adjudication.action = .block then .blocked else .manualReview)
      assessments failures triggeredBy (some adjudication)

def assessments (payload : ArbitrationPayload) : List CriticAssessmentSchema :=
  (self.critics.map (self.runCritic python payload)).filterMap Prod.fst

def failures (payload : ArbitrationPayload) : List CriticFailure :=
  (self.critics.map (self.runCritic python payload)).filterMap Prod.snd

def triggers (payload : ArbitrationPayload) : List String :=
  self.findTriggers (self.assessments python payload) ++
    (self.failures python payload).map fun failure => "critic_failure_" ++ failure.evaluationDimension

/-- What the adjudicator comes to. -/
def adjudicated (payload : ArbitrationPayload) : Except Raised AdjudicationSchema :=
  withRetries (self.adjudicator.adjudicate payload (self.assessments python payload)
    (self.failures python payload) (self.triggers python payload)) self.retryAttempts

/-- The fan-out is finished before the timeout or it is not. -/
def arbitrate (finished : Bool) (fields : PayloadFields) : Except Raised ConsensusVerdict := do
  let payload ← ArbitrationPayload.modelValidate python fields
  if !finished then
    ConsensusVerdict.blocked python .manualReview []
      [⟨"arbitration", "runtime",
        "arbitration timed out after " ++ python.str settings.arbitrationTimeoutSeconds ++ "s"⟩]
      ["arbitration_timeout"] none
  else
    let assessments := self.assessments python payload
    let failures := self.failures python payload
    let triggeredBy := self.triggers python payload
    if assessments.length < 2 then
      ConsensusVerdict.blocked python .manualReview assessments failures
        ["insufficient_critic_quorum"] none
    else if triggeredBy.isEmpty then ConsensusVerdict.passVerdict python payload assessments []
    else
      match self.adjudicated python payload with
      | .error raised =>
          ConsensusVerdict.blocked python .manualReview assessments
            (failures ++ [⟨"adjudication", self.adjudicator.providerName.getD "adjudicator",
              raised.text⟩])
            (triggeredBy ++ ["adjudicator_failure"]) none
      | .ok adjudication =>
          verdictFromAdjudication python payload assessments failures triggeredBy adjudication

end ConsensusArbitrator

end CoreMesh.Arbitration
