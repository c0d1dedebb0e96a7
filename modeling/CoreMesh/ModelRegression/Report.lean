import Mathlib.Algebra.BigOperators.Group.List.Basic
import Mathlib.Data.List.Dedup
import Mathlib.Data.List.Sort
import Mathlib.Data.String.Basic
import CoreMesh.Lib.Except
import CoreMesh.Lib.Json
import CoreMesh.Lib.Rounding

/-!
# Reports of golden cases

`build_report` of `model_regression/runner.py`, with numbers that are exact. What the gateway and the scoring
make of a case is a parameter; the summaries are those of all results and of the results of each scope.
-/

namespace CoreMesh.ModelRegression

open Rounding (toDecimals)

/-- One row of `golden_datasets`. -/
structure GoldenCase where
  caseId : String
  sourceFingerprint : Option String
  featureScope : String
  userInput : String
  expectedOutput : List (String × Json)
  difficultyRating : String
  originSource : String

/-- `source_fingerprint or case_id`. -/
def GoldenCase.caseKey (case : GoldenCase) : String :=
  match case.sourceFingerprint with
  | some fingerprint => if fingerprint = "" then case.caseId else fingerprint
  | none => case.caseId

inductive HttpStatus where
  | code (value : ℤ)
  | text (value : String)
  deriving DecidableEq

structure EvaluationOutcome where
  passed : Bool
  score : ℚ
  failureReasons : List String
  mode : String
  requestPath : String
  status : HttpStatus
  latencyMs : ℚ
  details : Json

inductive RunnerError where
  | noGoldenCases (message : String)
  | unsupportedScoringMode (message : String)
  | scoringConfiguration (message : String)

/-- What `evaluate_case` returns. -/
structure CaseResult where
  caseId : String
  sourceFingerprint : Option String
  caseKey : String
  featureScope : String
  difficultyRating : String
  originSource : String
  mode : String
  passed : Bool
  score : ℚ
  status : HttpStatus
  latencyMs : ℚ
  requestPath : String
  failureReasons : List String
  details : Json

/-- What the gateway answers for a case, scored by the mode of the case. -/
abbrev Evaluation := GoldenCase → Except RunnerError EvaluationOutcome

def evaluateCase (evaluation : Evaluation) (case : GoldenCase) : Except RunnerError CaseResult := do
  let outcome ← evaluation case
  return {
    caseId := case.caseId
    sourceFingerprint := case.sourceFingerprint
    caseKey := case.caseKey
    featureScope := case.featureScope
    difficultyRating := case.difficultyRating
    originSource := case.originSource
    mode := outcome.mode
    passed := outcome.passed
    score := toDecimals 6 outcome.score
    status := outcome.status
    latencyMs := toDecimals 2 outcome.latencyMs
    requestPath := outcome.requestPath
    failureReasons := outcome.failureReasons
    details := outcome.details }

structure MetricSummary where
  caseCount : ℕ
  passedCount : ℕ
  failedCount : ℕ
  accuracy : ℚ
  passRate : ℚ
  deriving DecidableEq

def metricSummary (results : List CaseResult) : MetricSummary :=
  let count := results.length
  let passed := results.countP CaseResult.passed
  let scoreSum := (results.map CaseResult.score).sum
  { caseCount := count
    passedCount := passed
    failedCount := count - passed
    accuracy := if count = 0 then 0 else toDecimals 6 (scoreSum / count)
    passRate := if count = 0 then 0 else toDecimals 6 (passed / count) }

/-- What a run is known by. -/
structure RunInfo where
  runId : String
  generatedAt : String
  runLabel : String
  revision : String
  gatewayUrl : String

structure Report where
  info : RunInfo
  summary : MetricSummary
  byFeatureScope : List (String × MetricSummary)
  cases : List CaseResult

def scopeResults (results : List CaseResult) (scope : String) : List CaseResult :=
  results.filter fun result => result.featureScope = scope

/-- The scopes of results, each once and in order. -/
def scopes (results : List CaseResult) : List String :=
  (results.map CaseResult.featureScope).dedup.insertionSort (· ≤ ·)

/-- The report of results, summaries included. -/
def reportOf (info : RunInfo) (results : List CaseResult) : Report where
  info := info
  summary := metricSummary results
  byFeatureScope := (scopes results).map fun scope => (scope, metricSummary (scopeResults results scope))
  cases := results

def buildReport (evaluation : Evaluation) (info : RunInfo) (cases : List GoldenCase) :
    Except RunnerError Report :=
  if cases = [] then .error (.noGoldenCases "golden_datasets contains no rows")
  else do
    let results ← cases.mapM (evaluateCase evaluation)
    return reportOf info results

theorem buildReport_eq_ok {evaluation : Evaluation} {info : RunInfo} {cases : List GoldenCase} {report : Report}
    (hbuild : buildReport evaluation info cases = .ok report) : report = reportOf info report.cases := by
  rw [buildReport] at hbuild
  split at hbuild
  · cases hbuild
  · obtain ⟨results, -, heq⟩ := Outcome.bind_eq_ok hbuild
    obtain rfl := Except.ok.inj heq
    rfl

/-! ### Accuracies -/

def accuracy (results : List CaseResult) : ℚ := (metricSummary results).accuracy

/-- An accuracy has six decimals. -/
theorem exists_accuracy_eq (results : List CaseResult) : ∃ average : ℚ, accuracy results = toDecimals 6 average := by
  rw [accuracy, metricSummary]
  by_cases hcount : results.length = 0
  · refine ⟨0, ?_⟩
    rw [Rounding.toDecimals_zero]
    exact if_pos hcount
  · exact ⟨_, if_neg hcount⟩

/-- A result of the same case that is no better. -/
structure Worse (result' result : CaseResult) : Prop where
  caseKey : result'.caseKey = result.caseKey
  featureScope : result'.featureScope = result.featureScope
  score : result'.score ≤ result.score
  passed : result'.passed = true → result.passed = true

abbrev AllWorse (results' results : List CaseResult) : Prop := List.Forall₂ Worse results' results

section AllWorse

variable {results' results : List CaseResult}

theorem sum_le_of_allWorse (hworse : AllWorse results' results) :
    (results'.map CaseResult.score).sum ≤ (results.map CaseResult.score).sum := by
  induction hworse with
  | nil => exact le_refl _
  | cons hfirst _ ih =>
      rw [List.map_cons, List.map_cons, List.sum_cons, List.sum_cons]
      exact add_le_add hfirst.score ih

theorem accuracy_le_of_allWorse (hworse : AllWorse results' results) : accuracy results' ≤ accuracy results := by
  have hlength : results'.length = results.length := hworse.length_eq
  rw [accuracy, accuracy, metricSummary, metricSummary, hlength]
  by_cases hcount : results.length = 0
  · simp only [if_pos hcount]
    exact le_refl _
  · simp only [if_neg hcount]
    apply Rounding.toDecimals_mono
    exact div_le_div_of_nonneg_right (sum_le_of_allWorse hworse) (Nat.cast_nonneg _)

theorem allWorse_scopeResults (hworse : AllWorse results' results) (scope : String) :
    AllWorse (scopeResults results' scope) (scopeResults results scope) := by
  induction hworse with
  | nil => exact .nil
  | @cons result' result _ _ hfirst _ ih =>
      rw [scopeResults, scopeResults, List.filter_cons, List.filter_cons, hfirst.featureScope]
      split
      · exact .cons hfirst ih
      · exact ih

end AllWorse

theorem mem_scopes {results : List CaseResult} {scope : String} :
    scope ∈ scopes results ↔ scope ∈ results.map CaseResult.featureScope := by
  rw [scopes, (List.perm_insertionSort _ _).mem_iff, List.mem_dedup]

theorem scopeResults_eq_nil {results : List CaseResult} {scope : String} (hscope : scope ∉ scopes results) :
    scopeResults results scope = [] := by
  rw [mem_scopes] at hscope
  apply List.filter_eq_nil_iff.mpr
  intro result hresult hsame
  rw [decide_eq_true_eq] at hsame
  rw [← hsame] at hscope
  exact hscope (List.mem_map_of_mem hresult)

end CoreMesh.ModelRegression
