import CoreMesh.Lib.Ending
import CoreMesh.Lib.Rounding
import CoreMesh.Tracing.Analyzer

/-!
# Traces from storage

`RootCauseAnalyzer` on the spans of a stored artifact. Nothing is checked of them when they are loaded:
an attribute is any JSON value, identifiers repeat, and a span may be above itself. Both walks from a
span to its root go on as long as there is a parent, so the analysis ends exactly if the ones it makes
come to no cycle.
-/

namespace CoreMesh.Tracing.Stored

open ParentChain Outcome Outcome.Loops

/-! ### Spans -/

/-- A JSON value as it is loaded. -/
inductive Value (F : Type) where
  | none
  | bool (value : Bool)
  | int (value : ℤ)
  | float (value : F)
  | str (value : String)
  | list (items : List (Value F))
  | dict (entries : List (String × Value F))

structure SerializedSpan (F : Type) where
  spanId : String
  parentSpanId : Option String
  name : String
  status : String
  startTime : String
  attributes : List (String × Value F) := []

inductive Raised where
  /-- An integer that no float is near. -/
  | overflowError
  | validationError
  deriving DecidableEq

structure TraceEvidence (F : Type) where
  signal : String
  observed : Value F
  threshold : Value F := .none

structure RootCauseDiagnosis (F : Type) where
  traceId : String
  spanId : String
  spanName : String
  stepId : Option String
  category : FailureCategory
  explanation : String
  /-- In hundredths. -/
  confidence : ℕ
  evidence : List (TraceEvidence F)
  analyzer : String := "deterministic"

structure Candidate (F : Type) where
  span : SerializedSpan F
  evidence : List (TraceEvidence F)
  category : FailureCategory

/-- The key a candidate is sorted by: sequence, start and depth, the deeper first. -/
abbrev SortKey (F : Type) := F × String × ℕ

/-- What the language does with numbers and texts. Where a key is not a number the order of `sorted`
depends on how it merges. -/
structure Python (F : Type) where
  ofBool : Bool → F
  ofInt : ℤ → Option F
  ofText : String → Option F
  inf : F
  round4 : F → F
  str : Value F → String
  sorted : List (SortKey F × Candidate F) → List (SortKey F × Candidate F)

structure RootCauseAnalyzer (F : Type) where
  confidenceThreshold : F
  confidenceDropThreshold : F
  /-- The optional judge; one that fails gives no diagnosis. -/
  judge : Option (List (SerializedSpan F) → FailureTrigger → Option (RootCauseDiagnosis F)) := none

variable {F : Type}

/-! ### Attributes -/

section Attributes

variable (python : Python F)

def attributeOf (span : SerializedSpan F) (key : String) : Value F :=
  (span.attributes.lookup key).getD .none

/-- `float`, none where the value is of no type or form that it takes. -/
def floatOf : Value F → Except Raised (Option F)
  | .none | .list _ | .dict _ => .ok none
  | .bool value => .ok (some (python.ofBool value))
  | .int value =>
      match python.ofInt value with
      | some number => .ok (some number)
      | none => .error .overflowError
  | .float value => .ok (some value)
  | .str text => .ok (python.ofText text)

def floatAttribute (span : SerializedSpan F) (key : String) : Except Raised (Option F) :=
  floatOf python (attributeOf span key)

def stringAttribute (span : SerializedSpan F) (key : String) : Option String :=
  match attributeOf span key with
  | .none => none
  | value => some (python.str value)

def sequence (span : SerializedSpan F) : Except Raised F :=
  (floatAttribute python span "coremesh.step.index").map fun index => index.getD python.inf

/-- `is True` and `is False`. -/
def Value.is (value : Value F) (expected : Bool) : Bool :=
  match value with
  | .bool value => value == expected
  | _ => false

def Value.isScalar : Value F → Bool
  | .list _ | .dict _ => false
  | _ => true

def TraceEvidence.validated (evidence : TraceEvidence F) : Except Raised (TraceEvidence F) :=
  if evidence.observed.isScalar && evidence.threshold.isScalar then .ok evidence
  else .error .validationError

end Attributes

/-! ### Candidates -/

section Candidates

variable [LT F] [DecidableLT F] [LE F] [DecidableLE F] [Sub F]
  (python : Python F) (a : RootCauseAnalyzer F)

/-- The signals of a span in the order they are looked for, each with its category, and the confidence
it leaves for the next span. -/
def RootCauseAnalyzer.signals (previous : Option F) (span : SerializedSpan F) :
    Except Raised (List (TraceEvidence F × FailureCategory) × Option F) := do
  let attrs := attributeOf span
  let status : List (TraceEvidence F × FailureCategory) :=
    if span.status = "ERROR" then [(⟨"span_status", .str "ERROR", .none⟩, .executionError)] else []
  let validation : List (TraceEvidence F) ←
    if (attrs "coremesh.quality.validation_passed").is false then
      (TraceEvidence.validated ⟨"extraction_validation", attrs "coremesh.quality.validation_delta",
        attrs "coremesh.quality.validation_tolerance"⟩).map fun evidence => [evidence]
    else .ok []
  let variance ← floatAttribute python span "coremesh.quality.ocr_variance"
  let varianceThreshold ← floatAttribute python span "coremesh.quality.ocr_threshold"
  let recovered := (attrs "coremesh.quality.vision_recovered").is true
  let ocr : List (TraceEvidence F × FailureCategory) :=
    match variance, varianceThreshold with
    | some variance, some threshold =>
        if threshold < variance ∧ recovered = false then
          [(⟨"ocr_variance", .float variance, .float threshold⟩, .extractionDegradation)] else []
    | _, _ => []
  let confidence ← floatAttribute python span "coremesh.quality.confidence"
  let low : List (TraceEvidence F × FailureCategory) :=
    match confidence with
    | none => []
    | some confidence =>
        (if confidence < a.confidenceThreshold then
          [(⟨"low_confidence", .float confidence, .float a.confidenceThreshold⟩, .lowConfidence)]
          else []) ++
        (match previous with
          | none => []
          | some before =>
              if a.confidenceDropThreshold ≤ before - confidence then
                [(⟨"confidence_drop", .float (python.round4 (before - confidence)),
                  .float a.confidenceDropThreshold⟩, .lowConfidence)]
              else [])
  let extraction := validation.map fun evidence => (evidence, FailureCategory.extractionDegradation)
  return (status ++ extraction ++ ocr ++ low, confidence.or previous)

/-- The evidence of a span and its category: the degraded flag only counts by itself. -/
def evidenceOf (span : SerializedSpan F) (signals : List (TraceEvidence F × FailureCategory)) :
    List (TraceEvidence F) × FailureCategory :=
  let degraded : List (TraceEvidence F) :=
    if (attributeOf span "coremesh.degraded").is true && signals.isEmpty then
      [⟨"degraded_flag", .bool true, .none⟩] else []
  let arbitration : List (TraceEvidence F × FailureCategory) :=
    if (attributeOf span "coremesh.arbitration.failed").is true then
      [(⟨"arbitration_failure", .bool true, .none⟩, .arbitrationFailure)] else []
  (signals.map Prod.fst ++ degraded ++ arbitration.map Prod.fst,
    (signals ++ arbitration).foldl (fun category signal => preferCategory category signal.2) .unknown)

/-- `_candidates`, from the last confidence seen on. -/
def RootCauseAnalyzer.candidatesFrom (a : RootCauseAnalyzer F) :
    Option F → List (SerializedSpan F) → Except Raised (List (Candidate F))
  | _, [] => .ok []
  | previous, span :: rest => do
      let (signals, confidence) ← a.signals python previous span
      let (evidence, category) := evidenceOf span signals
      let found : List (Candidate F) := if evidence.isEmpty then [] else [⟨span, evidence, category⟩]
      let later ← a.candidatesFrom confidence rest
      return found ++ later

def RootCauseAnalyzer.candidates (spans : List (SerializedSpan F)) :
    Except Raised (List (Candidate F)) := a.candidatesFrom python none spans

end Candidates

/-! ### Parents -/

/-- The order by `start_time` and `span_id`. -/
def startsBy (s t : SerializedSpan F) : Bool :=
  decide (s.startTime < t.startTime) || (s.startTime == t.startTime && decide (s.spanId ≤ t.spanId))

def inOrder (spans : List (SerializedSpan F)) : List (SerializedSpan F) := spans.mergeSort startsBy

/-- A parent's identifier, which counts as none if it is empty. -/
def SerializedSpan.parent (span : SerializedSpan F) : Option String :=
  span.parentSpanId.filter (· ≠ "")

/-- The dictionary `parents`, which keeps the last of several spans with one identifier. -/
def parents (spans : List (SerializedSpan F)) (id : String) : Option String :=
  (spans.reverse.find? fun span => span.spanId == id).bind SerializedSpan.parent

/-- The loops run for at most the given number of rounds. -/
def removeWrapperDuplicates (rounds : ℕ) (candidates : List (Candidate F))
    (spans : List (SerializedSpan F)) : Option (List (Candidate F)) := do
  let above ← candidates.mapM fun item =>
    chain (parents spans) rounds (parents spans item.span.spanId)
  let candidateIds := candidates.map fun item => item.span.spanId
  let wrappers := above.flatten.filter (· ∈ candidateIds)
  return candidates.filter fun item => item.span.spanId ∉ wrappers

def depth (rounds : ℕ) (span : SerializedSpan F) (spans : List (SerializedSpan F)) : Option ℕ :=
  (chain (parents spans) rounds span.parent).map List.length

/-! ### Diagnoses -/

section Diagnoses

variable (python : Python F)

def explanation (span : SerializedSpan F) (category : FailureCategory) : String :=
  let target := match stringAttribute python span "coremesh.step.id" with
    | some stepId => if stepId = "" then "span " ++ span.name else "step " ++ stepId
    | none => "span " ++ span.name
  "The earliest specific degradation signal occurred at " ++ target ++ " (" ++ category.value ++ ")."

def fallbackSpan (spans : List (SerializedSpan F)) (trigger : FailureTrigger) : SerializedSpan F :=
  let missing : SerializedSpan F :=
    { spanId := "0000000000000000", parentSpanId := none, name := "coremesh.forensics.missing_trace"
      status := "UNSET", startTime := "" }
  let arbitration := spans.filter fun span =>
    span.name.toList.tails.any fun rest => "arbitration".toList.isPrefixOf rest
  let errors := spans.filter fun span => span.status = "ERROR"
  if trigger = .arbitrationFailure ∧ !arbitration.isEmpty then arbitration.getLastD missing
  else (if errors.isEmpty then spans else errors).getLastD missing

/-- The diagnosis of a candidate. -/
def diagnose (traceId : String) (item : Candidate F) : RootCauseDiagnosis F where
  traceId := traceId
  spanId := item.span.spanId
  spanName := item.span.name
  stepId := stringAttribute python item.span "coremesh.step.id"
  category := item.category
  explanation := explanation python item.span item.category
  confidence := if item.span.status = "ERROR" then 98 else 85
  evidence := item.evidence

/-- The diagnosis when there is no candidate and no judgment. -/
def suspect (traceId : String) (spans : List (SerializedSpan F)) (trigger : FailureTrigger) :
    RootCauseDiagnosis F :=
  let fallback := fallbackSpan spans trigger
  { traceId
    spanId := fallback.spanId
    spanName := fallback.name
    stepId := stringAttribute python fallback "coremesh.step.id"
    category := if trigger = .arbitrationFailure then .arbitrationFailure else .unknown
    explanation := "No earlier deterministic degradation signal was available; the terminal " ++
      "trigger is the best suspect."
    confidence := 35
    evidence := [⟨"terminal_trigger", .str trigger.value, .none⟩] }

end Diagnoses

section Analysis

variable [LT F] [DecidableLT F] [LE F] [DecidableLE F] [Sub F]
  (python : Python F) (a : RootCauseAnalyzer F)

/-- The candidates with their sort keys, which are made one after the other. -/
def keyed (rounds : ℕ) (candidates : List (Candidate F)) (spans : List (SerializedSpan F)) :
    Loops Raised (List (SortKey F × Candidate F)) := do
  let keys ← candidates.mapM fun item => do
    let index ← raising (sequence python item.span)
    let deep ← looping (depth rounds item.span spans)
    return (index, deep)
  return (keys.zip candidates).map fun ((index, deep), item) => ((index, item.span.startTime, deep), item)

/-- `analyze`, with so many rounds for each of its loops. -/
def RootCauseAnalyzer.analyze (rounds : ℕ) (traceId : String) (spans : List (SerializedSpan F))
    (trigger : FailureTrigger) : Loops Raised (RootCauseDiagnosis F) := do
  let ordered := inOrder spans
  let candidates ← raising (a.candidates python ordered)
  let candidates ← looping (removeWrapperDuplicates rounds candidates ordered)
  let keys ← keyed python rounds candidates ordered
  match python.sorted keys with
  | (_, item) :: _ => return diagnose python traceId item
  | [] =>
      match a.judge.bind fun judge => judge ordered trigger with
      | some diagnosis => return { diagnosis with analyzer := "optional_judge" }
      | none => return suspect python traceId ordered trigger

end Analysis

/-! ### Where the walks end -/

section Walks

variable {spans : List (SerializedSpan F)} {candidates : List (Candidate F)}

theorem mem_of_parents {id above : String} (hparent : parents spans id = some above) :
    id ∈ spans.map SerializedSpan.spanId := by
  obtain ⟨span, hfound, -⟩ := Option.bind_eq_some_iff.mp hparent
  have hid : span.spanId = id := by simpa using List.find?_some hfound
  rw [← hid]
  exact List.mem_map_of_mem (List.mem_reverse.mp (List.mem_of_find?_eq_some hfound))

/-- A walk over the spans that ends does so within one round more than there are spans. -/
theorem chain_parents_isSome {start : Option String} (hcyclic : ¬Cyclic (parents spans) start) :
    ∃ ids, chain (parents spans) (spans.length + 1) start = some ids := by
  have hids : ∀ id above, parents spans id = some above → id ∈ spans.map SerializedSpan.spanId :=
    fun id above hparent => mem_of_parents hparent
  obtain ⟨ids, hchain⟩ := chain_isSome_of_not_cyclic hids hcyclic
  rw [List.length_map] at hchain
  exact ⟨ids, hchain⟩

/-- The identifiers above the span with the given one. -/
def aboveOf (spans : List (SerializedSpan F)) (id : String) : List String :=
  (chain (parents spans) (spans.length + 1) (parents spans id)).getD []

/-- The candidates with no other below them. -/
def innermost (spans : List (SerializedSpan F)) (candidates : List (Candidate F)) :
    List (Candidate F) :=
  candidates.filter fun item =>
    decide (∀ other ∈ candidates, item.span.spanId ∉ aboveOf spans other.span.spanId)

theorem chain_eq_aboveOf {rounds : ℕ} {id : String} {ids : List String}
    (hchain : chain (parents spans) rounds (parents spans id) = some ids) : aboveOf spans id = ids := by
  obtain ⟨ids', hchain'⟩ := chain_parents_isSome (not_cyclic_of_chain hchain)
  rw [aboveOf, hchain']
  exact chain_unique hchain' hchain

theorem removeWrapperDuplicates_eq_some_iff {rounds : ℕ} {kept : List (Candidate F)} :
    removeWrapperDuplicates rounds candidates spans = some kept ↔
      (∀ item ∈ candidates, ∃ ids,
        chain (parents spans) rounds (parents spans item.span.spanId) = some ids) ∧
      kept = innermost spans candidates := by
  have hfilter (hends : ∀ item ∈ candidates, ∃ ids,
      chain (parents spans) rounds (parents spans item.span.spanId) = some ids) :
      (candidates.filter fun item => item.span.spanId ∉
        (candidates.filterMap fun item =>
          chain (parents spans) rounds (parents spans item.span.spanId)).flatten.filter
            (· ∈ candidates.map fun item => item.span.spanId)) = innermost spans candidates := by
    apply List.filter_congr
    intro item hitem
    rw [decide_eq_decide, List.mem_filter, not_and_or]
    have hid : item.span.spanId ∈ candidates.map fun item => item.span.spanId :=
      List.mem_map_of_mem hitem
    constructor
    · intro hnot other hother habove
      obtain ⟨ids, hchain⟩ := hends other hother
      rw [chain_eq_aboveOf hchain] at habove
      rcases hnot with hnot | hnot
      · apply hnot
        exact List.mem_flatten.mpr ⟨ids, List.mem_filterMap.mpr ⟨other, hother, hchain⟩, habove⟩
      · exact hnot (decide_eq_true hid)
    · intro hnone
      left
      intro hmem
      obtain ⟨ids, hids, habove⟩ := List.mem_flatten.mp hmem
      obtain ⟨other, hother, hchain⟩ := List.mem_filterMap.mp hids
      apply hnone other hother
      rw [chain_eq_aboveOf hchain]
      exact habove
  unfold removeWrapperDuplicates
  constructor
  · intro hkept
    obtain ⟨above, habove, hfiltered⟩ := Option.bind_eq_some_iff.mp hkept
    obtain ⟨hends, rfl⟩ := mapM_eq_some_iff.mp habove
    exact ⟨hends, (Option.some.inj hfiltered).symm.trans (hfilter hends)⟩
  · intro hall
    obtain ⟨hends, rfl⟩ := hall
    rw [mapM_eq_some_iff.mpr ⟨hends, rfl⟩]
    exact congrArg some (hfilter hends)

theorem depth_eq_some_iff {rounds : ℕ} {span : SerializedSpan F} :
    (∃ deep, depth rounds span spans = some deep) ↔
      ∃ ids, chain (parents spans) rounds span.parent = some ids := by
  unfold depth
  constructor
  · intro hdeep
    obtain ⟨deep, hdeep⟩ := hdeep
    obtain ⟨ids, hchain, -⟩ := Option.map_eq_some_iff.mp hdeep
    exact ⟨ids, hchain⟩
  · intro hids
    obtain ⟨ids, hchain⟩ := hids
    exact ⟨ids.length, by rw [hchain]; rfl⟩

theorem ends_keyed_iff {python : Python F} {rounds : ℕ} :
    Ends (keyed python rounds candidates spans) ↔
      ∀ item ∈ candidates.takeWhile fun item => (sequence python item.span).isOk,
        ∃ ids, chain (parents spans) rounds item.span.parent = some ids := by
  unfold keyed
  rw [ends_bind_iff, ends_mapM_iff]
  simp only [ends_pure, implies_true, and_true, depth_eq_some_iff]

end Walks

section Termination

variable [LT F] [DecidableLT F] [LE F] [DecidableLE F] [Sub F]
  (python : Python F) (a : RootCauseAnalyzer F)

/-- The candidates that are asked for their depth: the innermost before the first whose step index is
too large for a float. -/
def measured (spans : List (SerializedSpan F)) (candidates : List (Candidate F)) : List (Candidate F) :=
  (innermost spans candidates).takeWhile fun item => (sequence python item.span).isOk

/-- No walk the analysis makes comes to a cycle. The candidates are none if looking for them raises. -/
def Acyclic (spans : List (SerializedSpan F)) : Prop :=
  ∀ candidates, a.candidates python (inOrder spans) = .ok candidates →
    (∀ item ∈ candidates, ¬Cyclic (parents (inOrder spans))
      (parents (inOrder spans) item.span.spanId)) ∧
    ∀ item ∈ measured python (inOrder spans) candidates,
      ¬Cyclic (parents (inOrder spans)) item.span.parent

variable {python a} {rounds : ℕ} {traceId : String} {spans : List (SerializedSpan F)}
  {trigger : FailureTrigger}

theorem ends_analyze_iff :
    Ends (a.analyze python rounds traceId spans trigger) ↔
      ∀ candidates, a.candidates python (inOrder spans) = .ok candidates →
        (∀ item ∈ candidates, ∃ ids, chain (parents (inOrder spans)) rounds
          (parents (inOrder spans) item.span.spanId) = some ids) ∧
        ∀ item ∈ measured python (inOrder spans) candidates, ∃ ids,
          chain (parents (inOrder spans)) rounds item.span.parent = some ids := by
  have hlast (keys : List (SortKey F × Candidate F)) :
      Ends (match python.sorted keys with
        | (_, item) :: _ => pure (diagnose python traceId item)
        | [] =>
            match a.judge.bind fun judge => judge (inOrder spans) trigger with
            | some diagnosis => pure { diagnosis with analyzer := "optional_judge" }
            | none => pure (suspect python traceId (inOrder spans) trigger) :
          Loops Raised (RootCauseDiagnosis F)) := by
    cases python.sorted keys with
    | cons first rest => exact ends_pure _
    | nil => cases a.judge.bind fun judge => judge (inOrder spans) trigger <;> exact ends_pure _
  unfold RootCauseAnalyzer.analyze
  rw [ends_raising_bind]
  refine forall₂_congr fun candidates _ => ?_
  rw [ends_looping_bind]
  constructor
  · intro hends
    obtain ⟨kept, hkept, hends⟩ := hends
    obtain ⟨hwalks, rfl⟩ := removeWrapperDuplicates_eq_some_iff.mp hkept
    exact ⟨hwalks, ends_keyed_iff.mp (ends_bind_iff.mp hends).1⟩
  · intro hall
    obtain ⟨hwalks, hdepths⟩ := hall
    refine ⟨_, removeWrapperDuplicates_eq_some_iff.mpr ⟨hwalks, rfl⟩, ?_⟩
    exact ends_bind_iff.mpr ⟨ends_keyed_iff.mpr hdepths, fun keys _ => hlast keys⟩

/-- An analysis that ends came to no cycle. -/
theorem acyclic_of_ends (hends : Ends (a.analyze python rounds traceId spans trigger)) :
    Acyclic python a spans := by
  intro candidates hcandidates
  obtain ⟨hwalks, hdepths⟩ := ends_analyze_iff.mp hends candidates hcandidates
  constructor
  · intro item hitem
    obtain ⟨ids, hchain⟩ := hwalks item hitem
    exact not_cyclic_of_chain hchain
  · intro item hitem
    obtain ⟨ids, hchain⟩ := hdepths item hitem
    exact not_cyclic_of_chain hchain

/-- Where there is no cycle on a walk, one round more than there are spans is enough. -/
theorem ends_of_acyclic (hacyclic : Acyclic python a spans) :
    Ends (a.analyze python ((inOrder spans).length + 1) traceId spans trigger) := by
  rw [ends_analyze_iff]
  intro candidates hcandidates
  obtain ⟨hwalks, hdepths⟩ := hacyclic candidates hcandidates
  exact ⟨fun item hitem => chain_parents_isSome (hwalks item hitem),
    fun item hitem => chain_parents_isSome (hdepths item hitem)⟩

/-- Spans whose parents rank below them have no cycle. -/
theorem acyclic_of_rank {rank : String → ℕ} (hrank : ∀ id above,
    parents (inOrder spans) id = some above → rank above < rank id) : Acyclic python a spans :=
  fun _ _ => ⟨fun _ _ => not_cyclic_of_rank hrank _, fun _ _ => not_cyclic_of_rank hrank _⟩

/-- The analysis of a stored trace ends exactly if no walk it makes comes to a cycle of parents. -/
theorem analyze_ends_iff (python : Python F) (a : RootCauseAnalyzer F) (traceId : String)
    (spans : List (SerializedSpan F)) (trigger : FailureTrigger) :
    (∃ rounds, Ends (a.analyze python rounds traceId spans trigger)) ↔ Acyclic python a spans := by
  constructor
  · intro hends
    obtain ⟨rounds, hends⟩ := hends
    exact acyclic_of_ends hends
  · intro hacyclic
    exact ⟨_, ends_of_acyclic hacyclic⟩

end Termination

/-! ### A span above itself -/

/-- Exact numbers in place of floats, with one above them all. -/
def exactPython : Python ℚ where
  ofBool value := if value then 1 else 0
  ofInt value := if value.natAbs < 2 ^ 1024 - 2 ^ 970 then some value else none
  ofText text := text.toInt?.map fun value => value
  inf := 2 ^ 1024
  round4 := Rounding.toDecimals 4
  str
    | .bool value => if value then "True" else "False"
    | .int value => toString value
    | .str text => text
    | _ => ""
  sorted keys := keys.mergeSort fun x y =>
    decide (x.1.1 < y.1.1) || (x.1.1 == y.1.1 &&
      (decide (x.1.2.1 < y.1.2.1) || (x.1.2.1 == y.1.2.1 && decide (y.1.2.2 ≤ x.1.2.2))))

def storedAnalyzer : RootCauseAnalyzer ℚ where
  confidenceThreshold := 6 / 10
  confidenceDropThreshold := 2 / 10

/-- A failed span that names itself as its parent. -/
def selfParent : SerializedSpan ℚ where
  spanId := "00000000000000aa"
  parentSpanId := some "00000000000000aa"
  name := "coremesh.tool.rag_search"
  status := "ERROR"
  startTime := "2026-01-01T00:00:00+00:00"

theorem not_analyze_ends_of_selfParent :
    ¬∃ rounds, Ends (storedAnalyzer.analyze exactPython rounds "trace" [selfParent]
      .negativeFeedback) := by
  intro hends
  obtain ⟨rounds, hends⟩ := hends
  have hordered : inOrder [selfParent] = [selfParent] := List.mergeSort_singleton selfParent
  have hcandidates : storedAnalyzer.candidates exactPython [selfParent] =
      .ok [⟨selfParent, [⟨"span_status", .str "ERROR", .none⟩], .executionError⟩] := rfl
  have hparent : parents [selfParent] "00000000000000aa" = some "00000000000000aa" := by
    decide +kernel
  have hacyclic := acyclic_of_ends hends
  rw [Acyclic, hordered] at hacyclic
  obtain ⟨hwalks, -⟩ := hacyclic _ hcandidates
  apply hwalks _ List.mem_cons_self
  rw [show selfParent.spanId = "00000000000000aa" from rfl, hparent]
  refine ⟨"00000000000000aa", .here, ?_⟩
  rw [hparent]
  exact .here

end CoreMesh.Tracing.Stored
