import Mathlib.Data.String.Basic
import Mathlib.Order.WithBot
import CoreMesh.Lib.ParentChain

/-!
# The root cause analyzer

`RootCauseAnalyzer`: the spans of a trace in order of their start, the ones that show a failure, less
those that only wrap another, and the first of the rest. Of a span's attributes the model has those
the analyzer reads, with the types the runtime sets them to. Floats are any type with a comparison
and a difference; `round4` is `round` to four digits.
-/

namespace CoreMesh.Tracing

open ParentChain

inductive FailureTrigger where
  | executionError
  | arbitrationFailure
  | negativeFeedback
  deriving DecidableEq, Repr

inductive FailureCategory where
  | executionError
  | extractionDegradation
  | lowConfidence
  | propagationError
  | promptFailure
  | contextLoss
  | arbitrationFailure
  | unknown
  deriving DecidableEq, Repr

def FailureCategory.value : FailureCategory → String
  | .executionError => "execution_error"
  | .extractionDegradation => "extraction_degradation"
  | .lowConfidence => "low_confidence"
  | .propagationError => "propagation_error"
  | .promptFailure => "prompt_failure"
  | .contextLoss => "context_loss"
  | .arbitrationFailure => "arbitration_failure"
  | .unknown => "unknown"

def FailureTrigger.value : FailureTrigger → String
  | .executionError => "execution_error"
  | .arbitrationFailure => "arbitration_failure"
  | .negativeFeedback => "negative_feedback"

/-- `_CATEGORY_PRECEDENCE`. -/
def FailureCategory.precedence : FailureCategory → Nat
  | .executionError => 0
  | .extractionDegradation => 1
  | .lowConfidence => 2
  | .arbitrationFailure => 3
  | .propagationError | .promptFailure | .contextLoss => 4
  | .unknown => 99

def preferCategory (current candidate : FailureCategory) : FailureCategory :=
  if current = .unknown then candidate
  else if candidate.precedence < current.precedence then candidate
  else current

inductive Observed (F : Type) where
  | none
  | bool (value : Bool)
  | float (value : F)
  | str (value : String)
  deriving DecidableEq

structure TraceEvidence (F : Type) where
  signal : String
  observed : Observed F
  threshold : Option F := Option.none
  deriving DecidableEq

structure Span (F : Type) where
  spanId : String
  parentSpanId : Option String
  name : String
  status : String
  startTime : String
  /-- `coremesh.step.id`. -/
  stepId : Option String := none
  /-- `coremesh.step.index`. -/
  stepIndex : Option Nat := none
  /-- The attributes under `coremesh.quality`. -/
  validationPassed : Option Bool := none
  validationDelta : Option F := none
  validationTolerance : Option F := none
  ocrVariance : Option F := none
  ocrThreshold : Option F := none
  visionRecovered : Option Bool := none
  confidence : Option F := none
  /-- `coremesh.degraded`. -/
  degraded : Option Bool := none
  /-- `coremesh.arbitration.failed`. -/
  arbitrationFailed : Option Bool := none
  deriving DecidableEq

structure RootCauseDiagnosis (F : Type) where
  traceId : String
  spanId : String
  spanName : String
  stepId : Option String
  category : FailureCategory
  explanation : String
  /-- In hundredths. -/
  confidence : Nat
  evidence : List (TraceEvidence F)
  analyzer : String := "deterministic"

structure RootCauseAnalyzer (F : Type) where
  confidenceThreshold : F
  confidenceDropThreshold : F
  round4 : F → F
  /-- The optional judge; one that fails gives no diagnosis. -/
  judge : Option (List (Span F) → FailureTrigger → Option (RootCauseDiagnosis F)) := none

structure Candidate (F : Type) where
  span : Span F
  evidence : List (TraceEvidence F)
  category : FailureCategory
  deriving DecidableEq

section Analyzer

variable {F : Type} [LT F] [DecidableLT F] [LE F] [DecidableLE F] [Sub F]

def observedFloat : Option F → Observed F
  | none => .none
  | some value => .float value

/-- The signals of a span in the order they are looked for, each with its category. -/
def RootCauseAnalyzer.signals (a : RootCauseAnalyzer F) (previous : Option F) (span : Span F) :
    List (TraceEvidence F × FailureCategory) :=
  (if span.status = "ERROR" then
    [(⟨"span_status", .str "ERROR", none⟩, .executionError)] else []) ++
  (if span.validationPassed = some false then
    [(⟨"extraction_validation", observedFloat span.validationDelta, span.validationTolerance⟩,
      .extractionDegradation)] else []) ++
  (match span.ocrVariance, span.ocrThreshold with
    | some variance, some threshold =>
        if threshold < variance ∧ span.visionRecovered ≠ some true then
          [(⟨"ocr_variance", .float variance, some threshold⟩, .extractionDegradation)] else []
    | _, _ => []) ++
  (match span.confidence with
    | none => []
    | some confidence =>
        (if confidence < a.confidenceThreshold then
          [(⟨"low_confidence", .float confidence, some a.confidenceThreshold⟩, .lowConfidence)]
          else []) ++
        (match previous with
          | none => []
          | some before =>
              if a.confidenceDropThreshold ≤ before - confidence then
                [(⟨"confidence_drop", .float (a.round4 (before - confidence)),
                  some a.confidenceDropThreshold⟩, .lowConfidence)]
              else []))

/-- The evidence of a span and its category: the degraded flag only counts by itself. -/
def RootCauseAnalyzer.assess (a : RootCauseAnalyzer F) (previous : Option F) (span : Span F) :
    List (TraceEvidence F) × FailureCategory :=
  let signals := a.signals previous span
  let degraded : List (TraceEvidence F) :=
    if span.degraded = some true ∧ signals = [] then [⟨"degraded_flag", .bool true, none⟩] else []
  let arbitration : List (TraceEvidence F × FailureCategory) :=
    if span.arbitrationFailed = some true then
      [(⟨"arbitration_failure", .bool true, none⟩, .arbitrationFailure)] else []
  (signals.map Prod.fst ++ degraded ++ arbitration.map Prod.fst,
    (signals ++ arbitration).foldl (fun category signal => preferCategory category signal.2) .unknown)

/-- `_candidates`, from the last confidence seen on. -/
def RootCauseAnalyzer.candidatesFrom (a : RootCauseAnalyzer F) :
    Option F → List (Span F) → List (Candidate F)
  | _, [] => []
  | previous, span :: rest =>
      let (evidence, category) := a.assess previous span
      let found := if evidence.isEmpty then [] else [⟨span, evidence, category⟩]
      found ++ a.candidatesFrom (span.confidence.or previous) rest

def RootCauseAnalyzer.candidates (a : RootCauseAnalyzer F) (spans : List (Span F)) :
    List (Candidate F) := a.candidatesFrom none spans

end Analyzer

section Order

variable {F : Type}

/-- The order by `start_time` and `span_id`. -/
def startsBy (s t : Span F) : Bool :=
  decide (s.startTime < t.startTime) || (s.startTime == t.startTime && decide (s.spanId ≤ t.spanId))

def inOrder (spans : List (Span F)) : List (Span F) := spans.mergeSort startsBy

/-- A parent's identifier, which counts as none if it is empty. -/
def Span.parent (span : Span F) : Option String := span.parentSpanId.filter (· ≠ "")

/-- A dictionary from identifiers keeps the last of several spans with one. -/
def spanAt (spans : List (Span F)) (id : String) : Option (Span F) :=
  spans.reverse.find? fun span => span.spanId == id

def parents (spans : List (Span F)) (id : String) : Option String :=
  (spanAt spans id).bind Span.parent

/-- The identifiers a walk from a span to its root passes. Both loops of the source walk so. -/
def ancestors (spans : List (Span F)) (start : Option String) : Option (List String) :=
  chain (parents spans) spans.length start

def removeWrapperDuplicates (candidates : List (Candidate F)) (spans : List (Span F)) :
    Option (List (Candidate F)) := do
  let above ← candidates.mapM fun item => ancestors spans (parents spans item.span.spanId)
  let candidateIds := candidates.map fun item => item.span.spanId
  let wrappers := above.flatten.filter (· ∈ candidateIds)
  return candidates.filter fun item => item.span.spanId ∉ wrappers

/-- `_sequence`: a missing index comes after every other. -/
def sequence (span : Span F) : WithTop Nat :=
  match span.stepIndex with
  | some index => WithTop.some index
  | none => ⊤

def depth (span : Span F) (spans : List (Span F)) : Option Nat :=
  (ancestors spans span.parent).map List.length

/-- The order by sequence, start and, deeper ones first, depth. -/
def comesBy (x y : Candidate F × Nat) : Bool :=
  decide (sequence x.1.span < sequence y.1.span) ||
    (sequence x.1.span == sequence y.1.span &&
      (decide (x.1.span.startTime < y.1.span.startTime) ||
        (x.1.span.startTime == y.1.span.startTime && decide (y.2 ≤ x.2))))

def explanation (span : Span F) (category : FailureCategory) : String :=
  let target := match span.stepId with
    | some stepId => if stepId = "" then "span " ++ span.name else "step " ++ stepId
    | none => "span " ++ span.name
  "The earliest specific degradation signal occurred at " ++ target ++ " (" ++ category.value ++ ")."

def fallbackSpan (spans : List (Span F)) (trigger : FailureTrigger) : Span F :=
  let missing : Span F :=
    { spanId := "0000000000000000", parentSpanId := none, name := "coremesh.forensics.missing_trace"
      status := "UNSET", startTime := "" }
  let arbitration := spans.filter fun span =>
    span.name.toList.tails.any fun rest => "arbitration".toList.isPrefixOf rest
  let errors := spans.filter fun span => span.status = "ERROR"
  if trigger = .arbitrationFailure ∧ arbitration ≠ [] then arbitration.getLastD missing
  else (if errors = [] then spans else errors).getLastD missing

/-- The diagnosis of a candidate. -/
def diagnose (traceId : String) (item : Candidate F) : RootCauseDiagnosis F where
  traceId := traceId
  spanId := item.span.spanId
  spanName := item.span.name
  stepId := item.span.stepId
  category := item.category
  explanation := explanation item.span item.category
  confidence := if item.span.status = "ERROR" then 98 else 85
  evidence := item.evidence

/-- The diagnosis when there is no candidate and no judgment. -/
def suspect (traceId : String) (spans : List (Span F)) (trigger : FailureTrigger) :
    RootCauseDiagnosis F :=
  let fallback := fallbackSpan spans trigger
  { traceId
    spanId := fallback.spanId
    spanName := fallback.name
    stepId := fallback.stepId
    category := if trigger = .arbitrationFailure then .arbitrationFailure else .unknown
    explanation := "No earlier deterministic degradation signal was available; the terminal " ++
      "trigger is the best suspect."
    confidence := 35
    evidence := [⟨"terminal_trigger", .str trigger.value, none⟩] }

end Order

/-- `RootCauseAnalyzer.analyze`, if its loops end. -/
def RootCauseAnalyzer.analyze {F : Type} [LT F] [DecidableLT F] [LE F] [DecidableLE F] [Sub F]
    (a : RootCauseAnalyzer F) (traceId : String) (spans : List (Span F)) (trigger : FailureTrigger) :
    Option (RootCauseDiagnosis F) := do
  let ordered := inOrder spans
  let candidates ← removeWrapperDuplicates (a.candidates ordered) ordered
  let keyed ← candidates.mapM fun item => (depth item.span ordered).map fun d => (item, d)
  match keyed.mergeSort comesBy with
  | (item, _) :: _ => return diagnose traceId item
  | [] =>
      match a.judge.bind fun judge => judge ordered trigger with
      | some diagnosis => return { diagnosis with analyzer := "optional_judge" }
      | none => return suspect traceId ordered trigger

end CoreMesh.Tracing
