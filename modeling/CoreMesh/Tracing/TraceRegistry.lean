import CoreMesh.Tracing.Timestamps

/-!
# Artifacts and their registry

`_build_artifact` on what has been collected of a trace, and the table that finished traces are listed from.
Both compare the texts of times. A stored row keeps the time that it was created with.
-/

namespace CoreMesh.Tracing

open Stored (Value attributeOf)

structure ForensicTraceArtifact (F : Type) where
  schemaVersion : String := "1.0"
  traceId : String
  status : String
  trigger : Option FailureTrigger
  triggerReasons : List String
  startedAt : String
  endedAt : String
  durationMs : F
  finalConfidence : Option F
  spanCount : ℕ
  errorCount : ℕ
  degradedCount : ℕ
  diagnosis : Option (Stored.RootCauseDiagnosis F)
  spans : List (SerializedSpan F)
  /-- None where the spans' parents make no tree. -/
  tree : Option (TraceTree F)

/-- What is known of a trace when it is finished, apart from its spans. -/
structure FinishedTrace (F : Type) where
  traceId : String
  status : String
  trigger : Option FailureTrigger
  triggerReasons : List String
  finalConfidence : Option F
  diagnosis : Option (Stored.RootCauseDiagnosis F)

/-- A row of `trace_registry`. -/
structure RegistryRow (F : Type) where
  traceId : String
  sessionIdHash : Value F
  createdAt : String
  status : String
  finalConfidence : Option F
  trigger : Option FailureTrigger
  rootCauseSpanId : Option String
  rootCauseStepId : Option String
  failureCategory : Option FailureCategory
  artifactPath : String

structure ForensicTraceSummary (F : Type) where
  traceId : String
  createdAt : String
  status : String
  finalConfidence : Option F
  trigger : Option FailureTrigger
  rootCauseSpanId : Option String
  rootCauseStepId : Option String
  failureCategory : Option FailureCategory

variable {F : Type}

/-! ### The artifact -/

/-- `sorted` by `start_time` and `span_id`. -/
def orderedSpans (spans : List (SerializedSpan F)) : List (SerializedSpan F) :=
  spans.mergeSort fun s t => Stored.startsBy s.toSerializedSpan t.toSerializedSpan

section Artifact

variable [Zero F] [Add F] [LinearOrder F]

/-- That of the workflow, or the sum of all. -/
def durationOf (ordered : List (SerializedSpan F)) : F :=
  match ((ordered.filter fun span => span.name = "coremesh.agent.workflow").map
      SerializedSpan.durationMs).max? with
  | some duration => duration
  | none => (ordered.map SerializedSpan.durationMs).foldl (· + ·) 0

/-- None where there is no span, as `min` fails. `round3` is `round` to three digits. -/
def buildArtifact (round3 : F → F) (trace : FinishedTrace F) (spans : List (SerializedSpan F)) :
    Option (ForensicTraceArtifact F) :=
  let ordered := orderedSpans spans
  match (ordered.map fun span => span.startTime).min?, (ordered.map SerializedSpan.endTime).max? with
  | some startedAt, some endedAt => some
      { traceId := trace.traceId
        status := trace.status
        trigger := trace.trigger
        triggerReasons := trace.triggerReasons
        startedAt := startedAt
        endedAt := endedAt
        durationMs := round3 (durationOf ordered)
        finalConfidence := trace.finalConfidence
        spanCount := ordered.length
        errorCount := ordered.countP fun span => span.status = "ERROR"
        degradedCount := ordered.countP fun span =>
          (attributeOf span.toSerializedSpan "coremesh.degraded").is true
        diagnosis := trace.diagnosis
        spans := ordered
        tree := buildTree ordered }
  | _, _ => none

end Artifact

/-! ### The registry -/

/-- The span whose session a row refers to. -/
def rowRoot (artifact : ForensicTraceArtifact F) : Option (SerializedSpan F) :=
  (artifact.spans.find? fun span => span.name = "coremesh.agent.workflow").or artifact.spans.getLast?

def registryRow (artifact : ForensicTraceArtifact F) (path : String) : RegistryRow F where
  traceId := artifact.traceId
  sessionIdHash := ((rowRoot artifact).map fun root =>
    attributeOf root.toSerializedSpan "coremesh.session.id.sha256").getD .none
  createdAt := artifact.startedAt
  status := artifact.status
  finalConfidence := artifact.finalConfidence
  trigger := artifact.trigger
  rootCauseSpanId := artifact.diagnosis.map fun diagnosis => diagnosis.spanId
  rootCauseStepId := artifact.diagnosis.bind fun diagnosis => diagnosis.stepId
  failureCategory := artifact.diagnosis.map fun diagnosis => diagnosis.category
  artifactPath := path

/-- On a conflict the session and the time stay. -/
def upsertRegistry (rows : List (RegistryRow F)) (row : RegistryRow F) : List (RegistryRow F) :=
  if rows.any fun other => other.traceId == row.traceId then
    rows.map fun other =>
      if other.traceId = row.traceId then
        { row with sessionIdHash := other.sessionIdHash, createdAt := other.createdAt }
      else other
  else rows ++ [row]

structure TraceFilter where
  status : Option String := none
  trigger : Option FailureTrigger := none
  failureCategory : Option FailureCategory := none

/-- The conditions of `WHERE`; an empty status is none. -/
def TraceFilter.admits (filter : TraceFilter) (row : RegistryRow F) : Bool :=
  (filter.status.filter (· ≠ "")).all (· = row.status) &&
    filter.trigger.all (fun trigger => row.trigger = some trigger) &&
    filter.failureCategory.all fun category => row.failureCategory = some category

def RegistryRow.summary (row : RegistryRow F) : ForensicTraceSummary F where
  traceId := row.traceId
  createdAt := row.createdAt
  status := row.status
  finalConfidence := row.finalConfidence
  trigger := row.trigger
  rootCauseSpanId := row.rootCauseSpanId
  rootCauseStepId := row.rootCauseStepId
  failureCategory := row.failureCategory

/-- `ORDER BY created_at DESC, trace_id DESC`. -/
def newestFirst (s t : RegistryRow F) : Bool :=
  decide (t.createdAt < s.createdAt) || (t.createdAt == s.createdAt && decide (t.traceId ≤ s.traceId))

/-- `LIMIT` and `OFFSET`; a negative limit is none. -/
def page {α : Type} (limit offset : ℤ) (rows : List α) : List α :=
  if limit < 0 then rows.drop offset.toNat else (rows.drop offset.toNat).take limit.toNat

def listTraces (limit offset : ℤ) (filter : TraceFilter) (rows : List (RegistryRow F)) :
    List (ForensicTraceSummary F) × ℕ :=
  let admitted := rows.filter filter.admits
  ((page limit offset (admitted.mergeSort newestFirst)).map RegistryRow.summary, admitted.length)

/-! ### Spans and rows with their times -/

/-- A collected span with the times that its texts are of. -/
structure TimedSpan (F : Type) where
  span : SerializedSpan F
  start : DateTime
  finish : DateTime
  startTime_eq : span.startTime = start.isoformat
  endTime_eq : span.endTime = finish.isoformat

structure TimedRow (F : Type) where
  row : RegistryRow F
  created : DateTime
  createdAt_eq : row.createdAt = created.isoformat

/-- The order by the time of the start and `span_id`. -/
def TimedSpan.startsBefore (s t : TimedSpan F) : Bool :=
  decide (s.start.instant < t.start.instant) ||
    (s.start.instant == t.start.instant && decide (s.span.spanId ≤ t.span.spanId))

/-- The order by the time of creation and `trace_id`, the latest first. -/
def TimedRow.newer (s t : TimedRow F) : Bool :=
  decide (t.created.instant < s.created.instant) ||
    (t.created.instant == s.created.instant && decide (t.row.traceId ≤ s.row.traceId))

theorem decide_isoformat_lt (a b : DateTime) :
    decide (a.isoformat < b.isoformat) = decide (a.instant < b.instant) :=
  decide_eq_decide.mpr (DateTime.isoformat_lt_iff a b)

theorem isoformat_beq (a b : DateTime) : (a.isoformat == b.isoformat) = (a.instant == b.instant) := by
  rw [Bool.eq_iff_iff, beq_iff_eq, beq_iff_eq]
  exact DateTime.isoformat_inj

theorem startsBy_eq (s t : TimedSpan F) :
    Stored.startsBy s.span.toSerializedSpan t.span.toSerializedSpan = s.startsBefore t := by
  rw [Stored.startsBy, s.startTime_eq, t.startTime_eq, decide_isoformat_lt, isoformat_beq]
  rfl

theorem newestFirst_eq (s t : TimedRow F) : newestFirst s.row t.row = s.newer t := by
  rw [newestFirst, s.createdAt_eq, t.createdAt_eq, decide_isoformat_lt, isoformat_beq]
  rfl

theorem orderedSpans_eq (spans : List (TimedSpan F)) :
    orderedSpans (spans.map TimedSpan.span) = (spans.mergeSort TimedSpan.startsBefore).map TimedSpan.span := by
  rw [orderedSpans]
  refine (List.map_mergeSort ?_).symm
  intro s _ t _
  exact (startsBy_eq s t).symm

theorem inOrder_eq (spans : List (TimedSpan F)) :
    Stored.inOrder (spans.map fun s => s.span.toSerializedSpan) =
      (spans.mergeSort TimedSpan.startsBefore).map fun s => s.span.toSerializedSpan :=
  (List.map_mergeSort fun s _ t _ => (startsBy_eq s t).symm).symm

theorem isoformat_le_iff (a b : DateTime) : a.isoformat ≤ b.isoformat ↔ a.instant ≤ b.instant := by
  rw [← not_lt, DateTime.isoformat_lt_iff, not_lt]

/-- The text that is in a relation to all others is that of a time which is in the same one. -/
theorem extreme_isoformat_iff {α : Type} {items : List α} {text : α → String} {time : α → DateTime}
    (htext : ∀ a ∈ items, text a = (time a).isoformat) {before : String → String → Prop}
    {earlier : ℕ → ℕ → Prop}
    (hbefore : ∀ a b : DateTime, before a.isoformat b.isoformat ↔ earlier a.instant b.instant)
    {extreme : String} :
    (extreme ∈ items.map text ∧ ∀ other ∈ items.map text, before extreme other) ↔
      ∃ a ∈ items, extreme = (time a).isoformat ∧ ∀ b ∈ items, earlier (time a).instant (time b).instant := by
  constructor
  · intro h
    obtain ⟨hmem, hall⟩ := h
    obtain ⟨a, ha, rfl⟩ := List.mem_map.mp hmem
    refine ⟨a, ha, htext a ha, fun b hb => ?_⟩
    have hab := hall (text b) (List.mem_map_of_mem hb)
    rw [htext a ha, htext b hb] at hab
    exact (hbefore _ _).mp hab
  · intro h
    obtain ⟨a, ha, rfl, hall⟩ := h
    refine ⟨List.mem_map.mpr ⟨a, ha, htext a ha⟩, fun other hother => ?_⟩
    obtain ⟨b, hb, rfl⟩ := List.mem_map.mp hother
    rw [htext b hb]
    exact (hbefore _ _).mpr (hall b hb)

/-! ### Rows -/

theorem page_map {α β : Type} (f : α → β) (limit offset : ℤ) (rows : List α) :
    page limit offset (rows.map f) = (page limit offset rows).map f := by
  rw [page, page]
  split
  · rw [List.map_drop]
  · rw [List.map_take, List.map_drop]

theorem listTraces_eq (limit offset : ℤ) (filter : TraceFilter) (rows : List (TimedRow F)) :
    listTraces limit offset filter (rows.map TimedRow.row) =
      ((page limit offset ((rows.filter fun r => filter.admits r.row).mergeSort TimedRow.newer)).map
        fun r => r.row.summary, (rows.filter fun r => filter.admits r.row).length) := by
  have hadmitted : (rows.map TimedRow.row).filter filter.admits =
      (rows.filter fun r => filter.admits r.row).map TimedRow.row := List.filter_map
  have hsorted : ((rows.filter fun r => filter.admits r.row).map TimedRow.row).mergeSort newestFirst =
      ((rows.filter fun r => filter.admits r.row).mergeSort TimedRow.newer).map TimedRow.row := by
    refine (List.map_mergeSort ?_).symm
    intro s _ t _
    exact (newestFirst_eq s t).symm
  rw [listTraces, hadmitted, hsorted, page_map, List.map_map, List.length_map]
  rfl

/-! ### All that compare texts -/

section Chronological

variable [Zero F] [Add F] [LinearOrder F]

/-- An artifact begins with the earliest start and ends with the latest end, and its spans are in the order of
their times. -/
structure Spans (artifact : ForensicTraceArtifact F) (spans : List (TimedSpan F)) : Prop where
  startedAt : ∃ first ∈ spans, artifact.startedAt = first.start.isoformat ∧
    ∀ span ∈ spans, first.start.instant ≤ span.start.instant
  endedAt : ∃ last ∈ spans, artifact.endedAt = last.finish.isoformat ∧
    ∀ span ∈ spans, span.finish.instant ≤ last.finish.instant
  ordered : artifact.spans = (spans.mergeSort TimedSpan.startsBefore).map TimedSpan.span

theorem spans_buildArtifact {round3 : F → F} {trace : FinishedTrace F} {spans : List (TimedSpan F)}
    {artifact : ForensicTraceArtifact F}
    (hbuild : buildArtifact round3 trace (spans.map TimedSpan.span) = some artifact) :
    Spans artifact spans := by
  have hperm := List.mergeSort_perm spans TimedSpan.startsBefore
  rw [buildArtifact, orderedSpans_eq] at hbuild
  split at hbuild
  · rename_i startedAt endedAt hstarted hended
    obtain rfl := Option.some.inj hbuild
    rw [List.map_map] at hstarted hended
    refine ⟨?_, ?_, rfl⟩
    · rw [List.min?_eq_some_iff] at hstarted
      obtain ⟨first, hfirst, htext, hall⟩ := (extreme_isoformat_iff (fun s _ => s.startTime_eq)
        isoformat_le_iff).mp hstarted
      exact ⟨first, hperm.mem_iff.mp hfirst, htext, fun span hspan => hall span (hperm.mem_iff.mpr hspan)⟩
    · rw [List.max?_eq_some_iff] at hended
      obtain ⟨last, hlast, htext, hall⟩ := (@extreme_isoformat_iff _ _ _ TimedSpan.finish
        (fun s _ => s.endTime_eq) (fun x y => y ≤ x) (fun x y => y ≤ x)
        (fun a b => isoformat_le_iff b a) _).mp hended
      exact ⟨last, hperm.mem_iff.mp hlast, htext, fun span hspan => hall span (hperm.mem_iff.mpr hspan)⟩
  · cases hbuild

/-- The texts are compared as the times would be. -/
structure Chronological (F : Type) [Zero F] [Add F] [LinearOrder F] : Prop where
  texts : ∀ a b : DateTime, a.isoformat < b.isoformat ↔ a.instant < b.instant
  counts : ∀ m n : ℕ, ∀ s t : String, isoTime m = some s → isoTime n = some t →
    (∃ time : DateTime, s = time.isoformat) ∧ (s < t → m < n)
  analyzed : ∀ spans : List (TimedSpan F), Stored.inOrder (spans.map fun s => s.span.toSerializedSpan) =
    (spans.mergeSort TimedSpan.startsBefore).map fun s => s.span.toSerializedSpan
  artifact : ∀ (round3 : F → F) (trace : FinishedTrace F) (spans : List (TimedSpan F)) artifact,
    buildArtifact round3 trace (spans.map TimedSpan.span) = some artifact → Spans artifact spans
  listed : ∀ (limit offset : ℤ) (filter : TraceFilter) (rows : List (TimedRow F)),
    listTraces limit offset filter (rows.map TimedRow.row) =
      ((page limit offset ((rows.filter fun r => filter.admits r.row).mergeSort TimedRow.newer)).map
        fun r => r.row.summary, (rows.filter fun r => filter.admits r.row).length)

theorem chronological : Chronological F where
  texts := DateTime.isoformat_lt_iff
  counts := by
    intro m n s t hs ht
    obtain ⟨time, htime, -⟩ := isoTime_eq_some hs
    refine ⟨⟨time, htime⟩, fun hlt => ?_⟩
    by_contra hnot
    exact not_le.mpr hlt (isoTime_mono (Nat.le_of_not_lt hnot) ht hs)
  analyzed := inOrder_eq
  artifact := fun _ _ _ _ hbuild => spans_buildArtifact hbuild
  listed := listTraces_eq

end Chronological

end CoreMesh.Tracing
