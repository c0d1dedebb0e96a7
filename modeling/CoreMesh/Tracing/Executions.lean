import CoreMesh.Lib.Transition
import CoreMesh.Tracing.SpanCollector
import CoreMesh.Tracing.TraceListing

/-!
# Executions and their traces

Any number of executions at once in one `ForensicsTracer`. Each runs in a root span of its own, which is
registered with the exporter before the body begins; spans are started and ended by whatever thread has their
parent's context, also after the root has ended. Then `_finalize_handle` takes what was collected and persists
its artifact.
-/

namespace CoreMesh.Tracing

open Transition

/-- A span that was started. -/
structure StartedSpan where
  context : SpanContext
  parent : Option SpanContext
  deriving DecidableEq

/-- The outcome on a `TraceExecution`. -/
structure TraceExecution (F : Type) where
  status : String := "completed"
  trigger : Option FailureTrigger := none
  triggerReasons : List String := []
  finalConfidence : Option F := none

/-- How far an execution has come, with its root span. -/
inductive ExecutionPhase (F : Type) where
  | idle
  /-- The root span has been started. -/
  | entered (root : SpanContext)
  /-- It is registered, and the body of the `with` runs. -/
  | running (root : SpanContext) (handle : TraceExecution F)
  /-- The root span has ended. -/
  | ended (root : SpanContext) (handle : TraceExecution F)
  /-- Within `_finalize_handle`, with what was collected. -/
  | popped (root : SpanContext) (handle : TraceExecution F) (spans : List (SerializedSpan F))
  | finalized (root : SpanContext) (artifact : Option (ForensicTraceArtifact F))

def ExecutionPhase.root {F : Type} : ExecutionPhase F → Option SpanContext
  | idle => none
  | entered root | running root _ | ended root _ | popped root _ _ | finalized root _ => some root

/-- The exporter has the execution's trace registered. -/
def ExecutionPhase.Registered {F : Type} : ExecutionPhase F → Prop
  | running _ _ | ended _ _ => True
  | idle | entered _ | popped _ _ _ | finalized _ _ => False

structure TracerState (F : Type) where
  collector : SpanCollector F
  /-- The oldest first. -/
  started : List StartedSpan
  endedSpans : List SpanContext
  phase : ℕ → ExecutionPhase F
  store : TraceStore F

inductive TracerEvent (F O : Type) where
  | enter (i : ℕ) (root : SpanContext)
  | activate (i : ℕ)
  | start (span : StartedSpan)
  | finish (span : ReadableSpan F O) (now : ℕ)
  | setOutcome (i : ℕ) (handle : TraceExecution F)
  /-- The root span ends, with the name of the exception's type if the body raised one. -/
  | leave (i : ℕ) (span : ReadableSpan F O) (now : ℕ) (raised : Option String)
  | pop (i : ℕ)
  | persist (i : ℕ)
  /-- `_persist` raises, before the file has been replaced or behind it. -/
  | persistFails (i : ℕ) (replaced : Bool)

variable {F O : Type}

def TracerState.initial : TracerState F where
  collector := .empty
  started := []
  endedSpans := []
  phase := fun _ => .idle
  store := .empty

/-- OpenTelemetry gives a root span a new trace, and any other one a new identifier in its parent's. -/
def TracerState.Starts (s : TracerState F) (span : StartedSpan) : Prop :=
  match span.parent with
  | none => ∀ other ∈ s.started, other.context.traceId ≠ span.context.traceId
  | some parent => parent.traceId = span.context.traceId ∧
      parent ∈ s.started.map StartedSpan.context ∧ span.context ∉ s.started.map StartedSpan.context

/-- A span ends once, as the one that was started. -/
def TracerState.Finishes (s : TracerState F) (span : ReadableSpan F O) : Prop :=
  ⟨span.context, span.parent⟩ ∈ s.started ∧ span.context ∉ s.endedSpans

/-- The handle behind the body. -/
def TraceExecution.after (handle : TraceExecution F) : Option String → TraceExecution F
  | none => handle
  | some raised => ⟨"failed", some .executionError, [raised], none⟩

/-- The trigger that a trace is analyzed for. -/
def TraceExecution.triggered (handle : TraceExecution F) (spans : List (SerializedSpan F)) :
    Option FailureTrigger :=
  handle.trigger.or (if spans.any fun span => span.status == "ERROR" then some .executionError else none)

/-- What a `ForensicsTracer` is made with, the clock's conversion and rounding included. -/
structure ForensicsTracer (F O : Type) where
  python : Sanitising.Python F O
  milliseconds : ℤ → F
  maxAttributeLength : ℕ
  loaded : Stored.Python F
  analyzer : Stored.RootCauseAnalyzer F
  round3 : F → F
  traceDirectory : String

def ForensicsTracer.serialize (tracer : ForensicsTracer F O) (now : ℕ) (span : ReadableSpan F O) :
    Option (SerializedSpan F) :=
  Tracing.serialize tracer.python tracer.milliseconds tracer.maxAttributeLength now span

section Tracer

variable [Zero F] [Add F] [Sub F] [LinearOrder F] (tracer : ForensicsTracer F O)

/-- `_finalize_handle` on what was popped; none where nothing was collected or something raises. The loops
of the analyzer are given one round more than there are spans. -/
def ForensicsTracer.finalizeHandle (traceId : String) (handle : TraceExecution F) (spans : List (SerializedSpan F)) :
    Option (ForensicTraceArtifact F) :=
  if spans.isEmpty then none
  else
    let trigger := handle.triggered spans
    let finished (diagnosis : Option (Stored.RootCauseDiagnosis F)) :=
      buildArtifact tracer.round3
        ⟨traceId, handle.status, trigger, handle.triggerReasons, handle.finalConfidence, diagnosis⟩ spans
    match trigger with
    | none => finished none
    | some trigger =>
        match (tracer.analyzer.analyze tracer.loaded (spans.length + 1) traceId
            (spans.map fun span => span.toSerializedSpan) trigger).run with
        | some (.ok diagnosis) => finished (some diagnosis)
        | _ => none

def TracerState.setPhase (s : TracerState F) (i : ℕ) (phase : ExecutionPhase F) : TracerState F :=
  { s with phase := Function.update s.phase i phase }

/-- A span has ended and comes to the exporter. -/
def TracerState.end (s : TracerState F) (span : ReadableSpan F O) (now : ℕ) : TracerState F :=
  { s with
    collector := s.collector.exportSpans tracer.python tracer.milliseconds tracer.maxAttributeLength now [span]
    endedSpans := s.endedSpans ++ [span.context] }

def TracerState.persist (s : TracerState F) (write : ForensicTraceArtifact F → Persisting F) :
    Option (ForensicTraceArtifact F) → TracerState F
  | none => s
  | some artifact => { s with store := s.store.persist tracer.traceDirectory (write artifact) }

inductive TracerStep (s : TracerState F) : TracerEvent F O → TracerState F → Prop where
  /-- Outside of any span, so that the root begins a trace. -/
  | enter {i : ℕ} {root : SpanContext} (hidle : s.phase i = .idle) (hstarts : s.Starts ⟨root, none⟩) :
      TracerStep s (.enter i root)
        (TracerState.setPhase { s with started := s.started ++ [⟨root, none⟩] } i (.entered root))
  | activate {i : ℕ} {root : SpanContext} (hentered : s.phase i = .entered root) :
      TracerStep s (.activate i)
        (TracerState.setPhase { s with collector := s.collector.activate (traceIdText root.traceId) } i
          (.running root {}))
  /-- By `span` in an execution, or outside of all. Nobody has the context of a root before the body runs. -/
  | start {span : StartedSpan} (hstarts : s.Starts span)
      (hbody : ∀ i root, s.phase i = .entered root → root.traceId ≠ span.context.traceId) :
      TracerStep s (.start span) { s with started := s.started ++ [span] }
  | finish {span : ReadableSpan F O} {now : ℕ} (hfinishes : s.Finishes span)
      (hroot : ∀ i, (s.phase i).root ≠ some span.context) :
      TracerStep s (.finish span now) (s.end tracer span now)
  | setOutcome {i : ℕ} {root : SpanContext} {old handle : TraceExecution F}
      (hrunning : s.phase i = .running root old) :
      TracerStep s (.setOutcome i handle) (s.setPhase i (.running root handle))
  /-- `mark_error` has set the status if the body raised. -/
  | leave {i : ℕ} {root : SpanContext} {handle : TraceExecution F} {span : ReadableSpan F O} {now : ℕ}
      {raised : Option String} (hrunning : s.phase i = .running root handle) (hroot : span.context = root)
      (hfinishes : s.Finishes span) (herror : raised ≠ none → span.status = "ERROR") :
      TracerStep s (.leave i span now raised)
        ((s.end tracer span now).setPhase i (.ended root (handle.after raised)))
  | pop {i : ℕ} {root : SpanContext} {handle : TraceExecution F} (hended : s.phase i = .ended root handle) :
      TracerStep s (.pop i)
        (TracerState.setPhase { s with collector := (s.collector.pop (traceIdText root.traceId)).2 } i
          (.popped root handle (s.collector.pop (traceIdText root.traceId)).1))
  | persist {i : ℕ} {root : SpanContext} {handle : TraceExecution F} {spans : List (SerializedSpan F)}
      (hpopped : s.phase i = .popped root handle spans) :
      TracerStep s (.persist i)
        ((s.persist tracer .persist
          (tracer.finalizeHandle (traceIdText root.traceId) handle spans)).setPhase i
          (.finalized root
            (tracer.finalizeHandle (traceIdText root.traceId) handle spans)))
  | persistFails {i : ℕ} {root : SpanContext} {handle : TraceExecution F} {spans : List (SerializedSpan F)}
      {replaced : Bool} (hpopped : s.phase i = .popped root handle spans) :
      TracerStep s (.persistFails i replaced)
        ((if replaced then s.persist tracer .interrupted
            (tracer.finalizeHandle (traceIdText root.traceId) handle spans)
          else s).setPhase i (.finalized root none))

/-! ### What has ended -/

/-- The spans that have ended, with the clock at their export. -/
def finishedSpans (es : List (TracerEvent F O)) : List (ReadableSpan F O × ℕ) :=
  es.filterMap fun
    | .finish span now | .leave _ span now _ => some (span, now)
    | .enter .. | .activate .. | .start .. | .setOutcome .. | .pop .. | .persist .. | .persistFails .. => none

/-- What is stored of the spans of one trace that have ended, in that order. -/
def exported (es : List (TracerEvent F O)) (traceId : BitVec 128) : List (SerializedSpan F) :=
  ((finishedSpans es).filter fun (span, _) => span.context.traceId = traceId).filterMap
    fun (span, now) => tracer.serialize now span

end Tracer

section Runs

variable [Zero F] [Add F] [Sub F] [LinearOrder F] {tracer : ForensicsTracer F O}
  {s s' : TracerState F} {e : TracerEvent F O} {es : List (TracerEvent F O)}

/-! ### Started spans -/

omit [Zero F] [Add F] [Sub F] [LinearOrder F] in
@[simp] theorem TracerState.started_persist (s : TracerState F) (write : ForensicTraceArtifact F → Persisting F)
    (artifact : Option (ForensicTraceArtifact F)) : (s.persist tracer write artifact).started = s.started := by
  cases artifact <;> rfl

theorem TracerStep.started (hstep : TracerStep tracer s e s') :
    s'.started = s.started ∨ ∃ span, s.Starts span ∧ s'.started = s.started ++ [span] := by
  cases hstep with
  | enter hidle hstarts => exact .inr ⟨_, hstarts, rfl⟩
  | start hstarts hbody => exact .inr ⟨_, hstarts, rfl⟩
  | activate | finish | setOutcome | leave | pop => exact .inl rfl
  | persist => exact .inl (TracerState.started_persist ..)
  | @persistFails i root handle spans replaced hpopped =>
      cases replaced with
      | true => exact .inl (TracerState.started_persist ..)
      | false => exact .inl rfl

omit [Zero F] [Add F] [Sub F] [LinearOrder F] in
theorem TracerState.Starts.not_mem {span : StartedSpan} (hstarts : s.Starts span) :
    span.context ∉ s.started.map StartedSpan.context := by
  unfold TracerState.Starts at hstarts
  cases hparent : span.parent with
  | none =>
      rw [hparent] at hstarts
      intro hmem
      obtain ⟨other, hother, hsame⟩ := List.mem_map.mp hmem
      exact hstarts other hother (by rw [hsame])
  | some parent =>
      rw [hparent] at hstarts
      exact hstarts.2.2

omit [Zero F] [Add F] [Sub F] [LinearOrder F] in
theorem finishedSpans_concat (es : List (TracerEvent F O)) (e : TracerEvent F O) :
    finishedSpans (es ++ [e]) = finishedSpans es ++ finishedSpans [e] := List.filterMap_append

theorem TracerStep.ended (hstep : TracerStep tracer s e s') :
    (finishedSpans [e] = [] ∧ s'.endedSpans = s.endedSpans) ∨
      ∃ span now, finishedSpans [e] = [(span, now)] ∧ s.Finishes span ∧
        s'.endedSpans = s.endedSpans ++ [span.context] := by
  cases hstep with
  | enter | start | activate | setOutcome | pop => exact .inl ⟨rfl, rfl⟩
  | finish hfinishes hroot => exact .inr ⟨_, _, rfl, hfinishes, rfl⟩
  | leave hrunning hroot hfinishes herror => exact .inr ⟨_, _, rfl, hfinishes, rfl⟩
  | @persist i root handle spans hpopped =>
      refine .inl ⟨rfl, ?_⟩
      cases hartifact : tracer.finalizeHandle (traceIdText root.traceId) handle spans <;> rfl
  | @persistFails i root handle spans replaced hpopped =>
      refine .inl ⟨rfl, ?_⟩
      cases replaced with
      | true => cases hartifact : tracer.finalizeHandle (traceIdText root.traceId) handle spans <;> rfl
      | false => rfl

/-- A span has been started behind its parent and ends no more than once. -/
structure TracerState.Known (es : List (TracerEvent F O)) (s : TracerState F) : Prop where
  distinct : (s.started.map StartedSpan.context).Nodup
  parents : ∀ span ∈ s.started, ∀ parent, span.parent = some parent →
    parent.traceId = span.context.traceId ∧ parent ∈ s.started.map StartedSpan.context ∧
      (s.started.map StartedSpan.context).idxOf parent < (s.started.map StartedSpan.context).idxOf span.context
  ended : s.endedSpans = (finishedSpans es).map fun finished => finished.1.context
  once : s.endedSpans.Nodup
  finished : ∀ finished ∈ finishedSpans es, ⟨finished.1.context, finished.1.parent⟩ ∈ s.started

omit [Zero F] [Add F] [Sub F] [LinearOrder F] in
theorem parents_concat {started : List StartedSpan} {new : StartedSpan}
    (hparents : ∀ span ∈ started, ∀ parent, span.parent = some parent →
      parent.traceId = span.context.traceId ∧ parent ∈ started.map StartedSpan.context ∧
        (started.map StartedSpan.context).idxOf parent < (started.map StartedSpan.context).idxOf span.context)
    (hnew : new.context ∉ started.map StartedSpan.context)
    (hparent : ∀ parent, new.parent = some parent →
      parent.traceId = new.context.traceId ∧ parent ∈ started.map StartedSpan.context) :
    ∀ span ∈ started ++ [new], ∀ parent, span.parent = some parent →
      parent.traceId = span.context.traceId ∧ parent ∈ (started ++ [new]).map StartedSpan.context ∧
        ((started ++ [new]).map StartedSpan.context).idxOf parent <
          ((started ++ [new]).map StartedSpan.context).idxOf span.context := by
  intro span hspan parent hsome
  rw [List.map_append]
  obtain hold | hlast := List.mem_append.mp hspan
  · obtain ⟨htrace, hmem, hlt⟩ := hparents span hold parent hsome
    refine ⟨htrace, List.mem_append_left _ hmem, ?_⟩
    rw [List.idxOf_append_of_mem hmem, List.idxOf_append_of_mem (List.mem_map_of_mem hold)]
    exact hlt
  · obtain rfl := List.mem_singleton.mp hlast
    obtain ⟨htrace, hmem⟩ := hparent parent hsome
    refine ⟨htrace, List.mem_append_left _ hmem, ?_⟩
    rw [List.idxOf_append_of_mem hmem, List.idxOf_append_of_notMem hnew]
    have hlt := List.idxOf_lt_length_of_mem hmem
    omega

theorem TracerState.Known.step (hknown : s.Known es) (hstep : TracerStep tracer s e s') :
    s'.Known (es ++ [e]) := by
  have hstarted : s.started ⊆ s'.started ∧ (s'.started.map StartedSpan.context).Nodup ∧
      ∀ span ∈ s'.started, ∀ parent, span.parent = some parent →
        parent.traceId = span.context.traceId ∧ parent ∈ s'.started.map StartedSpan.context ∧
          (s'.started.map StartedSpan.context).idxOf parent <
            (s'.started.map StartedSpan.context).idxOf span.context := by
    obtain hsame | ⟨span, hstarts, hsame⟩ := hstep.started
    · rw [hsame]
      exact ⟨List.Subset.refl _, hknown.distinct, hknown.parents⟩
    · rw [hsame]
      refine ⟨List.subset_append_left _ _, ?_, ?_⟩
      · rw [List.map_append, List.map_singleton, ← List.concat_eq_append]
        exact List.Nodup.concat hstarts.not_mem hknown.distinct
      · refine parents_concat hknown.parents hstarts.not_mem fun parent hparent => ?_
        simp only [TracerState.Starts, hparent] at hstarts
        exact ⟨hstarts.1, hstarts.2.1⟩
  obtain ⟨hsubset, hdistinct, hparents⟩ := hstarted
  obtain ⟨hnone, hsame⟩ | ⟨span, now, hone, hfinishes, hsame⟩ := hstep.ended
  · have hfinished : finishedSpans (es ++ [e]) = finishedSpans es := by
      rw [finishedSpans_concat, hnone, List.append_nil]
    refine ⟨hdistinct, hparents, ?_, ?_, ?_⟩
    · rw [hfinished, hsame, hknown.ended]
    · rw [hsame]
      exact hknown.once
    · rw [hfinished]
      exact fun f hf => hsubset (hknown.finished f hf)
  · refine ⟨hdistinct, hparents, ?_, ?_, ?_⟩
    · rw [finishedSpans_concat, hone, hsame, hknown.ended, List.map_append]
      rfl
    · rw [hsame, ← List.concat_eq_append]
      exact List.Nodup.concat hfinishes.2 hknown.once
    · intro f hf
      rw [finishedSpans_concat, hone] at hf
      obtain hold | hlast := List.mem_append.mp hf
      · exact hsubset (hknown.finished f hold)
      · obtain rfl := List.mem_singleton.mp hlast
        exact hsubset hfinishes.1

theorem known_run (hrun : Run (TracerStep tracer) TracerState.initial es s) : s.Known es := by
  refine hrun.history_invariant (fun es s => s.Known es) ?_ fun es s e s' _ hknown hstep => hknown.step hstep
  exact ⟨List.nodup_nil, fun span hspan => absurd hspan List.not_mem_nil, rfl, List.nodup_nil,
    fun f hf => absurd hf List.not_mem_nil⟩

/-! ### The traces of executions -/

omit [Zero F] [Add F] [Sub F] [LinearOrder F] in
@[simp] theorem TracerState.phase_persist (s : TracerState F) (write : ForensicTraceArtifact F → Persisting F)
    (artifact : Option (ForensicTraceArtifact F)) : (s.persist tracer write artifact).phase = s.phase := by
  cases artifact <;> rfl

omit [Zero F] [Add F] [Sub F] [LinearOrder F] in
theorem TracerState.root_setPhase {i : ℕ} {phase : ExecutionPhase F} (hroot : phase.root = (s.phase i).root)
    (j : ℕ) : ((s.setPhase i phase).phase j).root = (s.phase j).root := by
  change (Function.update s.phase i phase j).root = _
  by_cases hj : j = i
  · rw [hj, Function.update_self, hroot]
  · rw [Function.update_of_ne hj]

/-- An execution has the root span that it began with. -/
theorem TracerStep.root (hstep : TracerStep tracer s e s') :
    (∀ j, (s'.phase j).root = (s.phase j).root) ∨
      ∃ i root, s.phase i = .idle ∧ s.Starts ⟨root, none⟩ ∧ s'.started = s.started ++ [⟨root, none⟩] ∧
        s'.phase = Function.update s.phase i (.entered root) := by
  cases hstep with
  | enter hidle hstarts => exact .inr ⟨_, _, hidle, hstarts, rfl, rfl⟩
  | start | finish => exact .inl fun j => rfl
  | activate hphase | setOutcome hphase | leave hphase | pop hphase =>
      refine .inl fun j => TracerState.root_setPhase ?_ j
      exact (congrArg ExecutionPhase.root hphase).symm
  | persist hphase =>
      refine .inl fun j => (TracerState.root_setPhase ?_ j).trans ?_
      · rw [TracerState.phase_persist, hphase]
        rfl
      · rw [TracerState.phase_persist]
  | @persistFails i root handle spans replaced hphase =>
      refine .inl fun j => (TracerState.root_setPhase ?_ j).trans ?_
      · cases replaced <;> simp [hphase, ExecutionPhase.root]
      · cases replaced <;> simp

/-- No two executions have one trace. -/
structure TracerState.Apart (s : TracerState F) : Prop where
  root : ∀ i root, (s.phase i).root = some root → ⟨root, none⟩ ∈ s.started
  apart : ∀ i j root root', (s.phase i).root = some root → (s.phase j).root = some root' →
    root.traceId = root'.traceId → i = j

theorem TracerState.Apart.step (hapart : s.Apart) (hstep : TracerStep tracer s e s') : s'.Apart := by
  obtain hsame | ⟨i, root, hidle, hstarts, hstarted, hphase⟩ := hstep.root
  · have hsubset : s.started ⊆ s'.started := by
      obtain hequal | ⟨span, -, happend⟩ := hstep.started
      · rw [hequal]
        exact List.Subset.refl _
      · rw [happend]
        exact List.subset_append_left _ _
    refine ⟨fun i root hroot => ?_, fun i j root root' hi hj htrace => ?_⟩
    · rw [hsame] at hroot
      exact hsubset (hapart.root i root hroot)
    · rw [hsame] at hi hj
      exact hapart.apart i j root root' hi hj htrace
  · -- The new trace is that of no span before.
    have hnew : ∀ j root', (s.phase j).root = some root' → root'.traceId ≠ root.traceId :=
      fun j root' hroot' => hstarts _ (hapart.root j root' hroot')
    have hcases : ∀ j root', (s'.phase j).root = some root' →
        (j = i ∧ root' = root) ∨ (s.phase j).root = some root' := by
      intro j root' hroot'
      rw [hphase] at hroot'
      by_cases hj : j = i
      · rw [hj, Function.update_self] at hroot'
        exact .inl ⟨hj, (Option.some.inj hroot').symm⟩
      · rw [Function.update_of_ne hj] at hroot'
        exact .inr hroot'
    refine ⟨fun j root' hroot' => ?_, fun j k root' root'' hj hk htrace => ?_⟩
    · rw [hstarted]
      obtain ⟨-, rfl⟩ | hold := hcases j root' hroot'
      · exact List.mem_append_right _ (List.mem_singleton.mpr rfl)
      · exact List.mem_append_left _ (hapart.root j root' hold)
    · obtain ⟨rfl, rfl⟩ | hold := hcases j root' hj
      · obtain ⟨rfl, -⟩ | hold' := hcases k root'' hk
        · rfl
        · exact absurd htrace.symm (hnew k root'' hold')
      · obtain ⟨rfl, rfl⟩ | hold' := hcases k root'' hk
        · exact absurd htrace (hnew j root' hold)
        · exact hapart.apart j k root' root'' hold hold' htrace

theorem apart_run (hrun : Run (TracerStep tracer) TracerState.initial es s) : s.Apart := by
  refine hrun.invariant TracerState.Apart ?_ fun s e s' hapart hstep => hapart.step hstep
  constructor
  · intro i root hroot
    cases hroot
  · intro i j root root' hroot
    cases hroot

/-- Of a trace whose execution has not begun its body, only the root is known, and it has not ended. -/
def TracerState.Waits (s : TracerState F) : Prop :=
  ∀ i root, s.phase i = .entered root →
    (∀ span ∈ s.started, span.context.traceId = root.traceId → span.context = root) ∧ root ∉ s.endedSpans

omit [Zero F] [Add F] [Sub F] [LinearOrder F] in
theorem TracerState.entered_of_setPhase {i j : ℕ} {phase : ExecutionPhase F} {root : SpanContext}
    (hphase : ∀ root, phase ≠ .entered root) (hentered : (s.setPhase i phase).phase j = .entered root) :
    j ≠ i ∧ s.phase j = .entered root := by
  change Function.update s.phase i phase j = _ at hentered
  by_cases hj : j = i
  · rw [hj, Function.update_self] at hentered
    exact absurd hentered (hphase root)
  · rw [Function.update_of_ne hj] at hentered
    exact ⟨hj, hentered⟩

theorem TracerState.Waits.step (hwaits : s.Waits) (hknown : s.Known es) (hapart : s.Apart)
    (hstep : TracerStep tracer s e s') : s'.Waits := by
  intro j root hentered
  cases hstep with
  | @enter i new hidle hstarts =>
      change Function.update s.phase i (.entered new) j = _ at hentered
      by_cases hj : j = i
      · rw [hj, Function.update_self] at hentered
        obtain rfl := ExecutionPhase.entered.inj hentered
        constructor
        · intro span hspan htrace
          obtain hold | hlast := List.mem_append.mp hspan
          · exact absurd htrace (hstarts span hold)
          · rw [List.mem_singleton.mp hlast]
        · intro hended
          rw [hknown.ended] at hended
          obtain ⟨f, hf, heq⟩ := List.mem_map.mp hended
          exact hstarts _ (hknown.finished f hf) (congrArg SpanContext.traceId heq)
      · rw [Function.update_of_ne hj] at hentered
        obtain ⟨honly, hended⟩ := hwaits j root hentered
        refine ⟨fun span hspan htrace => ?_, hended⟩
        obtain hold | hlast := List.mem_append.mp hspan
        · exact honly span hold htrace
        · obtain rfl := List.mem_singleton.mp hlast
          have hroot := hapart.root j root (by rw [hentered]; rfl)
          exact absurd htrace.symm (hstarts _ hroot)
  | activate | setOutcome | pop => exact hwaits j root (TracerState.entered_of_setPhase (by simp) hentered).2
  | start hstarts hbody =>
      obtain ⟨honly, hended⟩ := hwaits j root hentered
      refine ⟨fun span hspan htrace => ?_, hended⟩
      obtain hold | hlast := List.mem_append.mp hspan
      · exact honly span hold htrace
      · obtain rfl := List.mem_singleton.mp hlast
        exact absurd htrace.symm (hbody j root hentered)
  | @finish span now hfinishes hroot =>
      obtain ⟨honly, hended⟩ := hwaits j root hentered
      refine ⟨honly, fun hmem => ?_⟩
      obtain hold | hlast := List.mem_append.mp hmem
      · exact hended hold
      · apply hroot j
        rw [show s.phase j = .entered root from hentered, List.mem_singleton.mp hlast]
        rfl
  | @leave i running handle span now raised hrunning hroot hfinishes herror =>
      obtain ⟨hj, hentered⟩ := TracerState.entered_of_setPhase (by simp) hentered
      obtain ⟨honly, hended⟩ := hwaits j root hentered
      refine ⟨honly, fun hmem => ?_⟩
      obtain hold | hlast := List.mem_append.mp hmem
      · exact hended hold
      · apply hj
        apply hapart.apart j i root running
        · rw [show s.phase j = .entered root from hentered]
          rfl
        · rw [hrunning]
          rfl
        · rw [List.mem_singleton.mp hlast, hroot]
  | @persist i other handle spans hpopped =>
      have hold := (TracerState.entered_of_setPhase (by simp) hentered).2
      rw [TracerState.phase_persist] at hold
      cases hartifact : tracer.finalizeHandle (traceIdText other.traceId) handle spans <;>
        exact hwaits j root hold
  | @persistFails i other handle spans replaced hpopped =>
      have hold := (TracerState.entered_of_setPhase (by simp) hentered).2
      cases replaced with
      | false => exact hwaits j root hold
      | true =>
          rw [if_pos rfl, TracerState.phase_persist] at hold
          cases hartifact : tracer.finalizeHandle (traceIdText other.traceId) handle spans <;>
            exact hwaits j root hold

theorem waits_run (hrun : Run (TracerStep tracer) TracerState.initial es s) : s.Waits := by
  refine hrun.history_invariant (fun _ s => s.Waits) ?_ fun es s e s' hrun hwaits hstep => ?_
  · intro i root hentered
    cases hentered
  · exact hwaits.step (known_run hrun) (apart_run hrun) hstep

/-! ### What is collected -/

omit [Zero F] [Add F] [Sub F] [LinearOrder F] in
theorem exported_concat (tracer : ForensicsTracer F O) (es : List (TracerEvent F O)) (e : TracerEvent F O)
    (traceId : BitVec 128) :
    exported tracer (es ++ [e]) traceId = exported tracer es traceId ++ exported tracer [e] traceId := by
  rw [exported, finishedSpans_concat, List.filter_append, List.filterMap_append]
  rfl

omit [Zero F] [Add F] [Sub F] [LinearOrder F] in
theorem exported_of_nil {traceId : BitVec 128} (hnone : finishedSpans [e] = []) :
    exported tracer (es ++ [e]) traceId = exported tracer es traceId := by
  rw [exported_concat, exported, exported, hnone]
  exact List.append_nil _

omit [Zero F] [Add F] [Sub F] [LinearOrder F] in
theorem exported_of_one {span : ReadableSpan F O} {now : ℕ} (hone : finishedSpans [e] = [(span, now)])
    (traceId : BitVec 128) :
    exported tracer (es ++ [e]) traceId = exported tracer es traceId ++
      if span.context.traceId = traceId then (tracer.serialize now span).toList else [] := by
  rw [exported_concat, exported, exported, hone]
  refine congrArg _ ?_
  by_cases hsame : span.context.traceId = traceId
  · rw [if_pos hsame]
    cases hstored : tracer.serialize now span <;> simp [hsame, hstored]
  · simp [hsame]

/-- The execution's trace is registered, and this is its root. -/
def TracerState.Registers (s : TracerState F) (i : ℕ) (root : SpanContext) : Prop :=
  (s.phase i).root = some root ∧ (s.phase i).Registered

/-- The exporter keeps the registered traces, each with what has ended of it, and no others. -/
structure TracerState.Collects (tracer : ForensicsTracer F O) (es : List (TracerEvent F O))
    (s : TracerState F) : Prop where
  registered : ∀ i root, s.Registers i root → traceIdText root.traceId ∈ s.collector.active ∧
    s.collector.spans (traceIdText root.traceId) = some (exported tracer es root.traceId)
  others : ∀ text, (∀ i root, s.Registers i root → traceIdText root.traceId ≠ text) →
    text ∉ s.collector.active ∧ s.collector.spans text = none

omit [Zero F] [Add F] [Sub F] [LinearOrder F] in
theorem TracerState.registers_setPhase {i j : ℕ} {phase : ExecutionPhase F} {root : SpanContext} :
    (s.setPhase i phase).Registers j root ↔
      if j = i then phase.root = some root ∧ phase.Registered else s.Registers j root := by
  change (Function.update s.phase i phase j).root = some root ∧ (Function.update s.phase i phase j).Registered ↔ _
  by_cases hj : j = i
  · rw [if_pos hj, hj, Function.update_self]
  · rw [if_neg hj, Function.update_of_ne hj]
    rfl

omit [Zero F] [Add F] [Sub F] [LinearOrder F] in
/-- A phase that is no more registered than the one before leaves the registered ones as they are. -/
theorem TracerState.registers_of_setPhase {i : ℕ} {phase : ExecutionPhase F}
    (hphase : ∀ root, phase.root = some root ∧ phase.Registered ↔ s.Registers i root) (j : ℕ)
    (root : SpanContext) : (s.setPhase i phase).Registers j root ↔ s.Registers j root := by
  rw [TracerState.registers_setPhase]
  by_cases hj : j = i
  · rw [if_pos hj, hj, hphase]
  · rw [if_neg hj]

omit [Zero F] [Add F] [Sub F] [LinearOrder F] in
theorem TracerState.Collects.of_same (hcollects : s.Collects tracer es) (hcollector : s'.collector = s.collector)
    (hsame : ∀ i root, s'.Registers i root ↔ s.Registers i root) (hnone : finishedSpans [e] = []) :
    s'.Collects tracer (es ++ [e]) := by
  refine ⟨fun i root hregisters => ?_, fun text hother => ?_⟩
  · rw [hcollector, exported_of_nil hnone]
    exact hcollects.registered i root ((hsame i root).mp hregisters)
  · rw [hcollector]
    exact hcollects.others text fun i root hregisters => hother i root ((hsame i root).mpr hregisters)

omit [Zero F] [Add F] [Sub F] [LinearOrder F] in
theorem TracerState.Collects.of_end {span : ReadableSpan F O} {now : ℕ} (hcollects : s.Collects tracer es)
    (hcollector : s'.collector = (s.end tracer span now).collector)
    (hsame : ∀ i root, s'.Registers i root ↔ s.Registers i root) (hone : finishedSpans [e] = [(span, now)]) :
    s'.Collects tracer (es ++ [e]) := by
  have hactive : s'.collector.active = s.collector.active := by
    rw [hcollector]
    exact SpanCollector.active_exportSpans ..
  refine ⟨fun i root hregisters => ?_, fun text hother => ?_⟩
  · obtain ⟨hmem, hspans⟩ := hcollects.registered i root ((hsame i root).mp hregisters)
    refine ⟨hactive ▸ hmem, ?_⟩
    rw [hcollector, exported_of_one hone]
    refine (SpanCollector.spans_exportSpans ..).trans ?_
    by_cases htrace : span.context.traceId = root.traceId
    · rw [if_pos htrace, htrace, if_pos ⟨rfl, hmem⟩, hspans]
      rfl
    · have htext : ¬(traceIdText root.traceId = traceIdText span.context.traceId ∧
          traceIdText root.traceId ∈ s.collector.active) :=
        fun hboth => htrace (traceIdText_inj hboth.1).symm
      rw [if_neg htrace, if_neg htext, hspans, List.append_nil]
  · obtain ⟨hmem, hspans⟩ := hcollects.others text fun i root hregisters =>
      hother i root ((hsame i root).mpr hregisters)
    refine ⟨hactive ▸ hmem, ?_⟩
    rw [hcollector]
    refine (SpanCollector.spans_exportSpans ..).trans ?_
    rw [if_neg fun hboth => hmem hboth.2, hspans]

omit [Zero F] [Add F] [Sub F] [LinearOrder F] in
/-- Nothing of a trace ends before the body of its execution begins. -/
theorem exported_of_entered {i : ℕ} {root : SpanContext} (hknown : s.Known es) (hwaits : s.Waits)
    (hentered : s.phase i = .entered root) : exported tracer es root.traceId = [] := by
  obtain ⟨honly, hended⟩ := hwaits i root hentered
  rw [exported]
  have hnone : (finishedSpans es).filter (fun (span, _) => span.context.traceId = root.traceId) = [] := by
    refine List.filter_eq_nil_iff.mpr fun finished hfinished htrace => ?_
    have hroot := honly _ (hknown.finished finished hfinished) (of_decide_eq_true htrace)
    apply hended
    rw [hknown.ended, ← hroot]
    exact List.mem_map_of_mem hfinished
  rw [hnone]
  rfl

omit [Zero F] [Add F] [Sub F] [LinearOrder F] in
theorem TracerState.Apart.eq_of_text (hapart : s.Apart) {i j : ℕ} {root root' : SpanContext}
    (hi : (s.phase i).root = some root) (hj : (s.phase j).root = some root')
    (htext : traceIdText root.traceId = traceIdText root'.traceId) : i = j :=
  hapart.apart i j root root' hi hj (traceIdText_inj htext)

omit [Zero F] [Add F] [Sub F] [LinearOrder F] in
theorem TracerState.Collects.of_activate {i : ℕ} {root : SpanContext} (hcollects : s.Collects tracer es)
    (hknown : s.Known es) (hapart : s.Apart) (hwaits : s.Waits) (hentered : s.phase i = .entered root) :
    (TracerState.setPhase { s with collector := s.collector.activate (traceIdText root.traceId) } i
      (.running root {})).Collects tracer (es ++ [.activate i]) := by
  have hroot : (s.phase i).root = some root := congrArg ExecutionPhase.root hentered
  -- The trace has not been registered before.
  obtain ⟨-, hfree⟩ := hcollects.others (traceIdText root.traceId) fun j root' hregisters htext => by
    obtain rfl := hapart.eq_of_text hregisters.1 hroot htext
    have hregistered := hregisters.2
    rw [hentered] at hregistered
    exact hregistered
  refine ⟨fun j root' hregisters => ?_, fun text hother => ?_⟩
  · rw [exported_of_nil rfl]
    rw [TracerState.registers_setPhase] at hregisters
    by_cases hj : j = i
    · rw [if_pos hj] at hregisters
      obtain rfl := Option.some.inj hregisters.1
      refine ⟨Finset.mem_insert_self _ _, ?_⟩
      rw [exported_of_entered hknown hwaits hentered]
      simp only [setPhase, SpanCollector.activate, Function.update_self, hfree, Option.getD_none]
    · rw [if_neg hj] at hregisters
      obtain ⟨hmem, hspans⟩ := hcollects.registered j root' hregisters
      have hne : traceIdText root'.traceId ≠ traceIdText root.traceId :=
        fun htext => hj (hapart.eq_of_text hregisters.1 hroot htext)
      refine ⟨Finset.mem_insert_of_mem hmem, ?_⟩
      simp only [setPhase, SpanCollector.activate, Function.update_of_ne hne, hspans]
  · have hne : text ≠ traceIdText root.traceId := by
      have hself := hother i root
      rw [TracerState.registers_setPhase, if_pos rfl] at hself
      exact (hself ⟨rfl, trivial⟩).symm
    obtain ⟨hmem, hspans⟩ := hcollects.others text fun j root' hregisters => by
      apply hother j root'
      rw [TracerState.registers_setPhase]
      by_cases hj : j = i
      · rw [hj] at hregisters
        have hregistered := hregisters.2
        rw [hentered] at hregistered
        exact hregistered.elim
      · rw [if_neg hj]
        exact hregisters
    refine ⟨fun hinsert => ?_, ?_⟩
    · obtain hsame | hold := Finset.mem_insert.mp hinsert
      · exact hne hsame
      · exact hmem hold
    · simp only [setPhase, SpanCollector.activate, Function.update_of_ne hne, hspans]

omit [Zero F] [Add F] [Sub F] [LinearOrder F] in
theorem TracerState.Collects.of_pop {i : ℕ} {root : SpanContext} {handle : TraceExecution F}
    {popped : List (SerializedSpan F)} (hcollects : s.Collects tracer es) (hapart : s.Apart)
    (hended : s.phase i = .ended root handle) :
    (TracerState.setPhase { s with collector := (s.collector.pop (traceIdText root.traceId)).2 } i
      (.popped root handle popped)).Collects tracer (es ++ [.pop i]) := by
  have hroot : (s.phase i).root = some root := congrArg ExecutionPhase.root hended
  refine ⟨fun j root' hregisters => ?_, fun text hother => ?_⟩
  · rw [exported_of_nil rfl]
    rw [TracerState.registers_setPhase] at hregisters
    by_cases hj : j = i
    · rw [if_pos hj] at hregisters
      exact hregisters.2.elim
    · rw [if_neg hj] at hregisters
      obtain ⟨hmem, hspans⟩ := hcollects.registered j root' hregisters
      have hne : traceIdText root'.traceId ≠ traceIdText root.traceId :=
        fun htext => hj (hapart.eq_of_text hregisters.1 hroot htext)
      refine ⟨Finset.mem_erase_of_ne_of_mem hne hmem, ?_⟩
      simp only [setPhase, SpanCollector.pop, Function.update_of_ne hne, hspans]
  · by_cases hsame : text = traceIdText root.traceId
    · simp only [setPhase, SpanCollector.pop, hsame, Finset.notMem_erase, not_false_eq_true,
        Function.update_self, and_self]
    · obtain ⟨hmem, hspans⟩ := hcollects.others text fun j root' hregisters htext => by
        by_cases hj : j = i
        · rw [hj] at hregisters
          have hregistered := hregisters.1
          rw [hroot] at hregistered
          obtain rfl := Option.some.inj hregistered
          exact hsame htext.symm
        · apply hother j root' ?_ htext
          rw [TracerState.registers_setPhase, if_neg hj]
          exact hregisters
      refine ⟨fun herase => hmem (Finset.mem_of_mem_erase herase), ?_⟩
      simp only [setPhase, SpanCollector.pop, Function.update_of_ne hsame, hspans]

omit [Zero F] [Add F] [Sub F] [LinearOrder F] in
@[simp] theorem TracerState.collector_persist (s : TracerState F)
    (write : ForensicTraceArtifact F → Persisting F) (artifact : Option (ForensicTraceArtifact F)) :
    (s.persist tracer write artifact).collector = s.collector := by
  cases artifact <;> rfl

omit [Zero F] [Add F] [Sub F] [LinearOrder F] in
theorem TracerState.registers_congr (hphase : s'.phase = s.phase) (i : ℕ) (root : SpanContext) :
    s'.Registers i root ↔ s.Registers i root := by
  rw [TracerState.Registers, TracerState.Registers, hphase]

omit [Zero F] [Add F] [Sub F] [LinearOrder F] in
@[simp] theorem TracerState.phase_end (s : TracerState F) (span : ReadableSpan F O) (now : ℕ) :
    (s.end tracer span now).phase = s.phase := rfl

theorem TracerState.Collects.step (hcollects : s.Collects tracer es) (hknown : s.Known es)
    (hapart : s.Apart) (hwaits : s.Waits) (hstep : TracerStep tracer s e s') :
    s'.Collects tracer (es ++ [e]) := by
  cases hstep with
  | enter hidle hstarts =>
      refine hcollects.of_same rfl (TracerState.registers_of_setPhase fun root => ?_) rfl
      simp [TracerState.Registers, hidle, ExecutionPhase.root, ExecutionPhase.Registered]
  | activate hentered => exact hcollects.of_activate hknown hapart hwaits hentered
  | start hstarts hbody => exact hcollects.of_same rfl (TracerState.registers_congr rfl) rfl
  | finish hfinishes hroot => exact hcollects.of_end rfl (TracerState.registers_congr rfl) rfl
  | setOutcome hrunning =>
      refine hcollects.of_same rfl (TracerState.registers_of_setPhase fun root => ?_) rfl
      simp [TracerState.Registers, hrunning, ExecutionPhase.root, ExecutionPhase.Registered]
  | leave hrunning hroot hfinishes herror =>
      refine hcollects.of_end rfl (TracerState.registers_of_setPhase fun root => ?_) rfl
      simp [TracerState.Registers, hrunning, ExecutionPhase.root, ExecutionPhase.Registered]
  | pop hended => exact hcollects.of_pop hapart hended
  | persist hpopped =>
      refine hcollects.of_same (TracerState.collector_persist ..) (fun j root => ?_) rfl
      refine Iff.trans (TracerState.registers_of_setPhase (fun root => ?_) j root)
        (TracerState.registers_congr (TracerState.phase_persist ..) j root)
      simp [TracerState.Registers, hpopped, ExecutionPhase.root, ExecutionPhase.Registered]
  | @persistFails i root handle spans replaced hpopped =>
      refine hcollects.of_same ?_ (fun j root => ?_) rfl
      · cases replaced with
        | false => rfl
        | true => exact TracerState.collector_persist ..
      · cases replaced with
        | false =>
            refine TracerState.registers_of_setPhase (fun root => ?_) j root
            simp [TracerState.Registers, hpopped, ExecutionPhase.root, ExecutionPhase.Registered]
        | true =>
            refine Iff.trans (TracerState.registers_of_setPhase (fun root => ?_) j root)
              (TracerState.registers_congr (TracerState.phase_persist ..) j root)
            simp [TracerState.Registers, hpopped, ExecutionPhase.root, ExecutionPhase.Registered]

theorem collects_run (hrun : Run (TracerStep tracer) TracerState.initial es s) : s.Collects tracer es := by
  refine hrun.history_invariant (fun es s => s.Collects tracer es) ?_ fun es s e s' hrun hcollects hstep => ?_
  · refine ⟨fun i root hregisters => ?_, fun text _ => ⟨Finset.notMem_empty _, rfl⟩⟩
    cases hregisters.1
  · exact hcollects.step (known_run hrun) (apart_run hrun) (waits_run hrun) hstep

/-- Whatever executions have been under way at once, the exporter holds nothing when they are through. -/
theorem nothing_left (hrun : Run (TracerStep tracer) TracerState.initial es s)
    (hthrough : ∀ i, ¬(s.phase i).Registered) : s.collector = .empty := by
  have hnone := (collects_run hrun).others
  have hall : ∀ text, text ∉ s.collector.active ∧ s.collector.spans text = none :=
    fun text => hnone text fun i root hregisters => absurd hregisters.2 (hthrough i)
  have hactive : s.collector.active = ∅ := Finset.eq_empty_of_forall_notMem fun text => (hall text).1
  have hspans : s.collector.spans = fun _ => none := funext fun text => (hall text).2
  rw [SpanCollector.empty, ← hactive, ← hspans]

/-! ### Artifacts -/

/-- What was popped for an execution: all that had ended of its trace until then. -/
def Took (tracer : ForensicsTracer F O) (es : List (TracerEvent F O)) (i : ℕ) (root : SpanContext)
    (spans : List (SerializedSpan F)) : Prop :=
  ∃ before after, es = before ++ .pop i :: after ∧ spans = exported tracer before root.traceId

omit [Zero F] [Add F] [Sub F] [LinearOrder F] in
theorem Took.concat {i : ℕ} {root : SpanContext} {spans : List (SerializedSpan F)}
    (htook : Took tracer es i root spans) (e : TracerEvent F O) : Took tracer (es ++ [e]) i root spans := by
  obtain ⟨before, after, rfl, hspans⟩ := htook
  exact ⟨before, after ++ [e], by simp, hspans⟩

theorem traceId_finalizeHandle {traceId : String} {handle : TraceExecution F} {spans : List (SerializedSpan F)}
    {artifact : ForensicTraceArtifact F} (hartifact : tracer.finalizeHandle traceId handle spans = some artifact) :
    artifact.traceId = traceId ∧ artifact.spans = orderedSpans spans ∧
      artifact.tree = buildTree (orderedSpans spans) := by
  have hbuilt : ∀ finished : FinishedTrace F, finished.traceId = traceId →
      buildArtifact tracer.round3 finished spans = some artifact →
        artifact.traceId = traceId ∧ artifact.spans = orderedSpans spans ∧
          artifact.tree = buildTree (orderedSpans spans) := by
    intro finished htrace hsome
    rw [buildArtifact] at hsome
    split at hsome
    · obtain rfl := Option.some.inj hsome
      exact ⟨htrace, rfl, rfl⟩
    · cases hsome
  rw [ForensicsTracer.finalizeHandle] at hartifact
  split at hartifact
  · cases hartifact
  · dsimp only at hartifact
    split at hartifact
    · exact hbuilt _ rfl hartifact
    · split at hartifact
      · exact hbuilt _ rfl hartifact
      · cases hartifact

/-- An execution that has come so far holds all of its spans, and its artifact is stored. -/
structure TracerState.Finalizes (tracer : ForensicsTracer F O) (es : List (TracerEvent F O))
    (s : TracerState F) : Prop where
  popped : ∀ i root handle spans, s.phase i = .popped root handle spans → Took tracer es i root spans
  finalized : ∀ i root artifact, s.phase i = .finalized root (some artifact) →
    ∃ handle spans, Took tracer es i root spans ∧
      tracer.finalizeHandle (traceIdText root.traceId) handle spans = some artifact ∧
      getTrace s.store (traceIdText root.traceId) = some artifact

theorem TracerState.Finalizes.of_phase {i : ℕ} {phase : ExecutionPhase F} (hfinalizes : s.Finalizes tracer es)
    (hphase : s'.phase = Function.update s.phase i phase)
    (hstore : ∀ j root artifact, j ≠ i → s.phase j = .finalized root artifact →
      getTrace s'.store (traceIdText root.traceId) = getTrace s.store (traceIdText root.traceId))
    (hpopped : ∀ root handle spans, phase = .popped root handle spans → Took tracer (es ++ [e]) i root spans)
    (hfinalized : ∀ root artifact, phase = .finalized root (some artifact) →
      ∃ handle spans, Took tracer (es ++ [e]) i root spans ∧
        tracer.finalizeHandle (traceIdText root.traceId) handle spans = some artifact ∧
        getTrace s'.store (traceIdText root.traceId) = some artifact) :
    s'.Finalizes tracer (es ++ [e]) := by
  refine ⟨fun j root handle spans hj => ?_, fun j root artifact hj => ?_⟩
  · rw [hphase] at hj
    by_cases heq : j = i
    · rw [heq, Function.update_self] at hj
      rw [heq]
      exact hpopped root handle spans hj
    · rw [Function.update_of_ne heq] at hj
      exact (hfinalizes.popped j root handle spans hj).concat e
  · rw [hphase] at hj
    by_cases heq : j = i
    · rw [heq, Function.update_self] at hj
      rw [heq]
      exact hfinalized root artifact hj
    · rw [Function.update_of_ne heq] at hj
      obtain ⟨handle, spans, htook, hsome, hget⟩ := hfinalizes.finalized j root artifact hj
      exact ⟨handle, spans, htook.concat e, hsome, (hstore j root _ heq hj).trans hget⟩

theorem TracerState.Finalizes.of_same (hfinalizes : s.Finalizes tracer es) (hphase : s'.phase = s.phase)
    (hstore : s'.store = s.store) : s'.Finalizes tracer (es ++ [e]) := by
  refine ⟨fun j root handle spans hj => ?_, fun j root artifact hj => ?_⟩
  · rw [hphase] at hj
    exact (hfinalizes.popped j root handle spans hj).concat e
  · rw [hphase] at hj
    obtain ⟨handle, spans, htook, hsome, hget⟩ := hfinalizes.finalized j root artifact hj
    exact ⟨handle, spans, htook.concat e, hsome, hstore ▸ hget⟩

/-- The files of other traces stay as they are. -/
theorem getTrace_persist_of_ne {traceId other : String} {handle : TraceExecution F}
    {spans : List (SerializedSpan F)} {write : ForensicTraceArtifact F → Persisting F}
    (hwrite : ∀ artifact, (write artifact).artifact = artifact) (hne : other ≠ traceId) :
    getTrace (s.persist tracer write (tracer.finalizeHandle traceId handle spans)).store other =
      getTrace s.store other := by
  cases hartifact : tracer.finalizeHandle traceId handle spans with
  | none => rfl
  | some artifact =>
      refine (getTrace_persist ..).trans ?_
      rw [hwrite, (traceId_finalizeHandle hartifact).1, if_neg hne]

theorem getTrace_persist_self {traceId : String} {handle : TraceExecution F} {spans : List (SerializedSpan F)}
    {artifact : ForensicTraceArtifact F} (hartifact : tracer.finalizeHandle traceId handle spans = some artifact) :
    getTrace (s.persist tracer .persist (tracer.finalizeHandle traceId handle spans)).store traceId =
      some artifact := by
  rw [hartifact]
  change getTrace (s.store.persist tracer.traceDirectory (.persist artifact)) traceId = _
  rw [getTrace_persist]
  exact if_pos (traceId_finalizeHandle hartifact).1.symm

theorem TracerState.Finalizes.step (hfinalizes : s.Finalizes tracer es) (hcollects : s.Collects tracer es)
    (hapart : s.Apart) (hstep : TracerStep tracer s e s') : s'.Finalizes tracer (es ++ [e]) := by
  cases hstep with
  | enter | activate | setOutcome | leave =>
      exact hfinalizes.of_phase rfl (fun _ _ _ _ _ => rfl) (by simp) (by simp)
  | start | finish => exact hfinalizes.of_same rfl rfl
  | @pop i root handle hended =>
      refine hfinalizes.of_phase rfl (fun _ _ _ _ _ => rfl) (fun root' handle' spans hpopped => ?_) (by simp)
      obtain ⟨rfl, -, rfl⟩ := ExecutionPhase.popped.inj hpopped
      have hregisters : s.Registers i root := by
        rw [TracerState.Registers, hended]
        exact ⟨rfl, trivial⟩
      refine ⟨es, [], rfl, ?_⟩
      rw [SpanCollector.pop, (hcollects.registered i root hregisters).2, Option.getD_some]
  | @persist i root handle spans hpopped =>
      have hroot : (s.phase i).root = some root := congrArg ExecutionPhase.root hpopped
      refine hfinalizes.of_phase (congrArg (Function.update · i _) (TracerState.phase_persist ..))
        (fun j root' artifact hj hphase => ?_) (by simp) (fun root' artifact hfinalized => ?_)
      · apply getTrace_persist_of_ne fun _ => rfl
        exact fun htext => hj (hapart.eq_of_text (congrArg ExecutionPhase.root hphase) hroot htext)
      · obtain ⟨rfl, hartifact⟩ := ExecutionPhase.finalized.inj hfinalized
        refine ⟨handle, spans, (hfinalizes.popped i root handle spans hpopped).concat _, hartifact, ?_⟩
        exact getTrace_persist_self hartifact
  | @persistFails i root handle spans replaced hpopped =>
      have hroot : (s.phase i).root = some root := congrArg ExecutionPhase.root hpopped
      have hfailed : ∀ t : TracerState F, t.phase = s.phase →
          (t.setPhase i (.finalized root none)).phase = Function.update s.phase i (.finalized root none) :=
        fun t ht => congrArg (Function.update · i _) ht
      refine hfinalizes.of_phase (hfailed _ ?_) (fun j root' artifact hj hphase => ?_) (by simp) (by simp)
      · cases replaced with
        | false => rfl
        | true => exact TracerState.phase_persist ..
      · cases replaced with
        | false => rfl
        | true =>
            apply getTrace_persist_of_ne fun _ => rfl
            exact fun htext => hj (hapart.eq_of_text (congrArg ExecutionPhase.root hphase) hroot htext)

theorem finalizes_run (hrun : Run (TracerStep tracer) TracerState.initial es s) : s.Finalizes tracer es := by
  refine hrun.history_invariant (fun es s => s.Finalizes tracer es) ?_ fun es s e s' hrun hfinalizes hstep => ?_
  · constructor
    · intro i root handle spans hpopped
      cases hpopped
    · intro i root artifact hfinalized
      cases hfinalized
  · exact hfinalizes.step (collects_run hrun) (apart_run hrun) hstep

/-! ### The spans of an artifact -/

omit [Zero F] [Add F] [Sub F] [LinearOrder F] in
/-- A collected span is one that was started in the trace. -/
theorem exported_started {traceId : BitVec 128} {stored : SerializedSpan F} (hknown : s.Known es)
    (hstored : stored ∈ exported tracer es traceId) :
    ∃ span ∈ s.started, span.context.traceId = traceId ∧
      stored.spanId = hexText 16 span.context.spanId.toNat ∧
      stored.parentSpanId = span.parent.bind fun parent => spanIdText parent.spanId := by
  obtain ⟨⟨span, now⟩, hmem, hserialize⟩ := List.mem_filterMap.mp hstored
  obtain ⟨hfinished, htrace⟩ := List.mem_filter.mp hmem
  have hserialized := serialized_of_serialize hserialize
  exact ⟨_, hknown.finished _ hfinished, of_decide_eq_true htrace, hserialized.spanId, hserialized.parentSpanId⟩

omit [Zero F] [Add F] [Sub F] [LinearOrder F] in
theorem distinct_exported (hknown : s.Known es) (traceId : BitVec 128) :
    DistinctIds (exported tracer es traceId) := by
  have honce := hknown.once
  rw [hknown.ended, List.Nodup, List.pairwise_map] at honce
  rw [DistinctIds, OrderedDict.Distinct, List.Nodup, List.pairwise_map, exported, List.pairwise_filterMap,
    List.pairwise_filter]
  refine honce.imp fun {first second} hne hfirst hsecond stored hstored stored' hstored' hsame => hne ?_
  rw [(serialized_of_serialize hstored).spanId, (serialized_of_serialize hstored').spanId] at hsame
  have htrace := (of_decide_eq_true hfirst).trans (of_decide_eq_true hsecond).symm
  exact SpanContext.ext htrace (spanIdText_inj hsame)

variable (tracer) in
omit [Zero F] [Add F] [Sub F] [LinearOrder F] in
/-- The parent of a collected span was started before it. -/
theorem exists_rank (hknown : s.Known es) (traceId : BitVec 128) :
    ∃ rank : String → ℕ, ∀ stored ∈ exported tracer es traceId, ∀ parent, stored.parentSpanId = some parent →
      rank parent < rank stored.spanId := by
  let contexts := s.started.map StartedSpan.context
  let named (text : String) : SpanContext → Bool :=
    fun context => context.traceId = traceId ∧ hexText 16 context.spanId.toNat = text
  refine ⟨fun text => contexts.findIdx (named text), fun stored hstored parent hparent => ?_⟩
  have hfind : ∀ context ∈ contexts, context.traceId = traceId →
      contexts.findIdx (named (hexText 16 context.spanId.toNat)) = contexts.idxOf context := by
    intro context hmem htrace
    refine congrArg (contexts.findIdx ·) (funext fun other => ?_)
    refine Bool.eq_iff_iff.mpr ?_
    simp only [named, decide_eq_true_eq, beq_iff_eq]
    constructor
    · intro hboth
      exact SpanContext.ext (hboth.1.trans htrace.symm) (spanIdText_inj hboth.2)
    · intro hsame
      rw [hsame]
      exact ⟨htrace, rfl⟩
  obtain ⟨span, hspan, htrace, hid, hlink⟩ := exported_started hknown hstored
  rw [hparent] at hlink
  obtain ⟨above, habove, htext⟩ := Option.bind_eq_some_iff.mp hlink.symm
  obtain ⟨hsame, hmem, hlt⟩ := hknown.parents span hspan above habove
  have hparentText : parent = hexText 16 above.spanId.toNat := by
    rw [spanIdText] at htext
    split at htext
    · cases htext
    · exact (Option.some.inj htext).symm
  rw [hparentText, hid]
  dsimp only
  rw [hfind above hmem (hsame.trans htrace), hfind span.context (List.mem_map_of_mem hspan) htrace]
  exact hlt

omit [Zero F] [Add F] [Sub F] [LinearOrder F] in
theorem acyclic_of_subset (hknown : s.Known es) {traceId : BitVec 128} {spans : List (SerializedSpan F)}
    (hsubset : spans ⊆ exported tracer es traceId) : ParentChain.Acyclic (parentOf spans) := by
  obtain ⟨rank, hrank⟩ := exists_rank tracer hknown traceId
  apply @ParentChain.acyclic_of_rank _ _ rank
  intro id above hparent
  obtain ⟨stored, hget, hcollected⟩ := Option.bind_eq_some_iff.mp hparent
  obtain ⟨rfl, hstored⟩ := OrderedDict.key_of_get? hget
  exact hrank stored (hsubset hstored) above (Option.filter_eq_some_iff.mp hcollected).1

theorem took_run {i : ℕ} {root : SpanContext} {spans : List (SerializedSpan F)}
    (hrun : Run (TracerStep tracer) TracerState.initial es s) (htook : Took tracer es i root spans) :
    ∃ before s₀, Run (TracerStep tracer) TracerState.initial before s₀ ∧
      spans = exported tracer before root.traceId := by
  obtain ⟨before, after, rfl, hspans⟩ := htook
  obtain ⟨s₀, s₁, hbefore, -, -⟩ := hrun.at_event
  exact ⟨before, s₀, hbefore, hspans⟩

omit [Zero F] [Add F] [Sub F] [LinearOrder F] in
theorem orderedSpans_perm (spans : List (SerializedSpan F)) : (orderedSpans spans).Perm spans :=
  List.mergeSort_perm spans _

/-- What an artifact shows: each span once, in one forest, and nothing of other executions. -/
structure ShowsExecution (tracer : ForensicsTracer F O) (es : List (TracerEvent F O)) (i : ℕ)
    (root : SpanContext) (artifact : ForensicTraceArtifact F) : Prop where
  traceId : artifact.traceId = traceIdText root.traceId
  /-- All that ended in the execution's trace until it was popped. -/
  spans : ∃ before after, es = before ++ .pop i :: after ∧
    artifact.spans.Perm (exported tracer before root.traceId)
  distinct : DistinctIds artifact.spans
  tree : ∃ forest, artifact.tree = some (.ofRoots forest) ∧ Faithful artifact.spans forest

/-- However executions are interleaved, the artifact of one shows exactly its own spans, as a tree, and is
the one that is stored under its trace. -/
theorem execution_artifact (tracer : ForensicsTracer F O) (es : List (TracerEvent F O)) (s : TracerState F)
    (i : ℕ) (root : SpanContext) (artifact : ForensicTraceArtifact F)
    (hrun : Run (TracerStep tracer) TracerState.initial es s)
    (hfinalized : s.phase i = .finalized root (some artifact)) :
    ShowsExecution tracer es i root artifact ∧ getTrace s.store artifact.traceId = some artifact := by
  obtain ⟨handle, spans, htook, hartifact, hget⟩ := (finalizes_run hrun).finalized i root artifact hfinalized
  obtain ⟨htrace, hspans, htree⟩ := traceId_finalizeHandle hartifact
  obtain ⟨before, s₀, hbefore, hexported⟩ := took_run hrun htook
  have hknown := known_run hbefore
  have hperm : artifact.spans.Perm (exported tracer before root.traceId) := by
    rw [hspans, ← hexported]
    exact orderedSpans_perm spans
  have hdistinct : DistinctIds artifact.spans :=
    (hperm.map _).nodup_iff.mpr (distinct_exported hknown root.traceId)
  refine ⟨⟨htrace, ?_, hdistinct, ?_⟩, htrace ▸ hget⟩
  · obtain ⟨first, after, hes, hsame⟩ := htook
    refine ⟨first, after, hes, ?_⟩
    rw [hspans, ← hsame]
    exact orderedSpans_perm spans
  · rw [htree, ← hspans]
    exact buildTree_faithful hdistinct (acyclic_of_subset hknown hperm.subset)

omit [Sub F] in
theorem isSome_buildArtifact {finished : FinishedTrace F} {spans : List (SerializedSpan F)}
    (hspans : spans ≠ []) : (buildArtifact tracer.round3 finished spans).isSome := by
  have hordered : orderedSpans spans ≠ [] := by
    intro hnil
    apply hspans
    have hperm := orderedSpans_perm spans
    rw [hnil] at hperm
    exact hperm.symm.eq_nil
  obtain ⟨first, rest, hcons⟩ := List.exists_cons_of_ne_nil hordered
  rw [buildArtifact, hcons]
  rfl

theorem isSome_finalizeHandle_iff {traceId : String} {handle : TraceExecution F}
    {spans : List (SerializedSpan F)} :
    (tracer.finalizeHandle traceId handle spans).isSome ↔ spans ≠ [] ∧
      ∀ trigger, handle.triggered spans = some trigger → ∃ diagnosis,
        (tracer.analyzer.analyze tracer.loaded (spans.length + 1) traceId
          (spans.map fun span => span.toSerializedSpan) trigger).run = some (.ok diagnosis) := by
  rw [ForensicsTracer.finalizeHandle]
  by_cases hspans : spans = []
  · simp [hspans]
  · have hnot : ¬spans.isEmpty = true := fun hempty => hspans (List.isEmpty_iff.mp hempty)
    rw [if_neg hnot]
    dsimp only
    cases htrigger : handle.triggered spans with
    | none => exact ⟨fun _ => ⟨hspans, by simp⟩, fun _ => isSome_buildArtifact hspans⟩
    | some trigger =>
        simp only [Option.some.injEq, forall_eq', hspans, ne_eq, not_false_eq_true, true_and]
        split
        · rename_i diagnosis hrun
          exact ⟨fun _ => ⟨diagnosis, hrun⟩, fun _ => isSome_buildArtifact hspans⟩
        · rename_i hnone
          refine ⟨fun hsome => by simp at hsome, fun hsome => ?_⟩
          obtain ⟨diagnosis, hrun⟩ := hsome
          exact absurd hrun (hnone diagnosis)

/-- The analysis of what was popped for an execution ends, as its walks find no cycle, and an artifact comes
of it unless nothing was collected or the analysis raises. -/
theorem finalize_ends (tracer : ForensicsTracer F O) (es : List (TracerEvent F O)) (s : TracerState F)
    (i : ℕ) (root : SpanContext) (handle : TraceExecution F) (spans : List (SerializedSpan F))
    (hrun : Run (TracerStep tracer) TracerState.initial es s)
    (hpopped : s.phase i = .popped root handle spans) :
    (∀ trigger, Outcome.Ends (tracer.analyzer.analyze tracer.loaded (spans.length + 1)
      (traceIdText root.traceId) (spans.map fun span => span.toSerializedSpan) trigger)) ∧
    ((tracer.finalizeHandle (traceIdText root.traceId) handle spans).isSome ↔ spans ≠ [] ∧
      ∀ trigger, handle.triggered spans = some trigger → ∃ diagnosis,
        (tracer.analyzer.analyze tracer.loaded (spans.length + 1) (traceIdText root.traceId)
          (spans.map fun span => span.toSerializedSpan) trigger).run = some (.ok diagnosis)) := by
  refine ⟨fun trigger => ?_, isSome_finalizeHandle_iff⟩
  obtain ⟨before, s₀, hbefore, rfl⟩ := took_run hrun ((finalizes_run hrun).popped i root handle spans hpopped)
  obtain ⟨rank, hrank⟩ := exists_rank tracer (known_run hbefore) root.traceId
  have hacyclic : Stored.Acyclic tracer.loaded tracer.analyzer
      ((exported tracer before root.traceId).map fun span => span.toSerializedSpan) := by
    apply @Stored.acyclic_of_rank _ _ _ _ _ _ _ _ _ rank
    intro id above hparent
    obtain ⟨stored, hfound, habove⟩ := Option.bind_eq_some_iff.mp hparent
    have hid : stored.spanId = id := by simpa using List.find?_some hfound
    have hordered := List.mem_reverse.mp (List.mem_of_find?_eq_some hfound)
    obtain ⟨span, hspan, rfl⟩ := List.mem_map.mp ((List.mergeSort_perm ..).mem_iff.mp hordered)
    rw [← hid]
    exact hrank span hspan above (Option.filter_eq_some_iff.mp habove).1
  have hends := @Stored.ends_of_acyclic _ _ _ _ _ _ _ _ (traceIdText root.traceId) _ trigger hacyclic
  have hlength := (List.mergeSort_perm ((exported tracer before root.traceId).map fun span =>
    span.toSerializedSpan) Stored.startsBy).length_eq
  rw [List.length_map] at hlength
  rw [Stored.inOrder, hlength] at hends
  exact hends

theorem exists_persist {i : ℕ} {root : SpanContext} {handle : TraceExecution F} {spans : List (SerializedSpan F)}
    {artifact : ForensicTraceArtifact F} (hpopped : s.phase i = .popped root handle spans)
    (hartifact : tracer.finalizeHandle (traceIdText root.traceId) handle spans = some artifact) :
    ∃ s', TracerStep tracer s (.persist i) s' ∧ s'.phase i = .finalized root (some artifact) := by
  refine ⟨_, .persist hpopped, ?_⟩
  rw [← hartifact]
  exact Function.update_self ..

end Runs

/-! ### Two executions at once -/

def exactTracer : ForensicsTracer ℚ Unit where
  python := Sanitising.ascii
  milliseconds nanoseconds := Rounding.toDecimals 3 (nanoseconds / 1000000)
  maxAttributeLength := 4096
  loaded := Stored.exactPython
  analyzer := Stored.storedAnalyzer
  round3 := Rounding.toDecimals 3
  traceDirectory := ".traces"

/-- A span that ended, of which nothing but this is said. -/
def endedSpan (context : SpanContext) (parent : Option SpanContext) (name status : String) (startTime : ℕ) :
    ReadableSpan ℚ Unit where
  context := context
  parent := parent
  name := name
  kind := "INTERNAL"
  status := status
  startTime := some startTime
  endTime := some 4000000000
  attributes := []
  events := []

def workflowSpan (traceId : BitVec 128) : ReadableSpan ℚ Unit :=
  endedSpan ⟨traceId, 1⟩ none "coremesh.agent.workflow" "UNSET" 1000000000

def retrievalSpan (traceId : BitVec 128) (status : String) : ReadableSpan ℚ Unit :=
  endedSpan ⟨traceId, 2⟩ (some ⟨traceId, 1⟩) "coremesh.rag.retrieve" status 2000000000

/-- Two executions, each with a span under its root. The second begins and ends within the first, whose
retrieval fails. -/
def overlapping : List (TracerEvent ℚ Unit) :=
  [.enter 0 ⟨1, 1⟩, .activate 0, .enter 1 ⟨2, 1⟩, .activate 1, .start ⟨⟨1, 2⟩, some ⟨1, 1⟩⟩,
    .start ⟨⟨2, 2⟩, some ⟨2, 1⟩⟩, .finish (retrievalSpan 2 "UNSET") 0, .finish (retrievalSpan 1 "ERROR") 0,
    .leave 1 (workflowSpan 2) 0 none, .pop 1, .leave 0 (workflowSpan 1) 0 none]

/-- What is collected of the first execution. -/
def firstSpans : List (SerializedSpan ℚ) := exported exactTracer overlapping 1

/-- What of a stored span is analyzed here. -/
def analyzedFields (span : SerializedSpan ℚ) : String × Option String × String × String × List String :=
  (span.spanId, span.parentSpanId, span.status, span.startTime, span.toSerializedSpan.attributes.map Prod.fst)

theorem firstSpans_fields : firstSpans.map analyzedFields =
    [("0000000000000002", some "0000000000000001", "ERROR", "1970-01-01T00:00:02+00:00", []),
      ("0000000000000001", none, "UNSET", "1970-01-01T00:00:01+00:00", [])] := by
  decide +kernel

/-- What is stored of the two spans of the first execution. -/
theorem exists_firstSpans : ∃ retrieval workflow : Stored.SerializedSpan ℚ,
    firstSpans.map (fun span => span.toSerializedSpan) = [retrieval, workflow] ∧
      retrieval = ⟨"0000000000000002", some "0000000000000001", retrieval.name, "ERROR",
        "1970-01-01T00:00:02+00:00", []⟩ ∧
      workflow = ⟨"0000000000000001", none, workflow.name, "UNSET", "1970-01-01T00:00:01+00:00", []⟩ := by
  obtain ⟨retrieval, rest, hspans, hretrieval, hrest⟩ := List.map_eq_cons_iff.mp firstSpans_fields
  obtain ⟨workflow, rest, rfl, hworkflow, hnil⟩ := List.map_eq_cons_iff.mp hrest
  obtain rfl := List.map_eq_nil_iff.mp hnil
  simp only [analyzedFields, Prod.mk.injEq, List.map_eq_nil_iff] at hretrieval hworkflow
  refine ⟨retrieval.toSerializedSpan, workflow.toSerializedSpan, by rw [hspans]; rfl, ?_, ?_⟩
  · obtain ⟨hid, hparent, hstatus, hstart, hattributes⟩ := hretrieval
    rw [← hid, ← hparent, ← hstatus, ← hstart, ← hattributes]
  · obtain ⟨hid, hparent, hstatus, hstart, hattributes⟩ := hworkflow
    rw [← hid, ← hparent, ← hstatus, ← hstart, ← hattributes]

/-- The failed retrieval is found, as the only candidate. -/
theorem analyze_firstSpans : ∃ diagnosis, (exactTracer.analyzer.analyze exactTracer.loaded (firstSpans.length + 1)
    (traceIdText 1) (firstSpans.map fun span => span.toSerializedSpan) .executionError).run =
      some (.ok diagnosis) ∧ diagnosis.spanId = "0000000000000002" := by
  obtain ⟨retrieval, workflow, hspans, hretrieval, hworkflow⟩ := exists_firstSpans
  have hlength : firstSpans.length = 2 := by
    simpa only [List.length_map, List.length_cons, List.length_nil] using congrArg List.length hspans
  have hordered : Stored.inOrder [retrieval, workflow] = [workflow, retrieval] := by
    have hlater : Stored.startsBy retrieval workflow = false := by
      have hlt : ¬"1970-01-01T00:00:02+00:00" < "1970-01-01T00:00:01+00:00" := by decide +kernel
      rw [hretrieval, hworkflow]
      simp [Stored.startsBy, hlt]
    simp [Stored.inOrder, List.mergeSort, List.MergeSort.Internal.splitInTwo, hlater]
  obtain ⟨failed, hfailed⟩ : ∃ failed : Stored.Candidate ℚ, failed = ⟨retrieval,
    [⟨"span_status", .str "ERROR", .none⟩], .executionError⟩ := ⟨_, rfl⟩
  have hcandidates : Outcome.Loops.raising (exactTracer.analyzer.candidates exactTracer.loaded
      [workflow, retrieval]) = pure [failed] := by
    rw [hfailed, hretrieval, hworkflow]
    rfl
  have hwrappers : (Outcome.Loops.looping (Stored.removeWrapperDuplicates 3 [failed]
      [workflow, retrieval]) : Outcome.Loops Stored.Raised _) = pure [failed] := by
    rw [hfailed, hretrieval, hworkflow]
    rfl
  have hkeyed : Stored.keyed exactTracer.loaded 3 [failed] [workflow, retrieval] =
      pure [((2 ^ 1024, retrieval.startTime, 1), failed)] := by
    rw [hfailed, hretrieval, hworkflow]
    rfl
  have hsorted : exactTracer.loaded.sorted [((2 ^ 1024, retrieval.startTime, 1), failed)] =
      [((2 ^ 1024, retrieval.startTime, 1), failed)] := List.mergeSort_singleton _
  refine ⟨Stored.diagnose exactTracer.loaded (traceIdText 1) failed, ?_, by rw [hfailed, hretrieval]; rfl⟩
  rw [hlength, hspans, Stored.RootCauseAnalyzer.analyze, hordered, hcandidates, pure_bind, hwrappers,
    pure_bind, hkeyed, pure_bind, hsorted]
  rfl
theorem any_failed_firstSpans : (firstSpans.any fun span => span.status == "ERROR") = true := by
  obtain ⟨retrieval, workflow, hspans, hretrieval, -⟩ := exists_firstSpans
  have hany := @List.any_map _ _ (fun span : SerializedSpan ℚ => span.toSerializedSpan) firstSpans
    fun span => span.status == "ERROR"
  rw [hspans, hretrieval] at hany
  exact hany.symm

theorem analyzed_firstSpans : firstSpans ≠ [] ∧
    ∀ trigger, TraceExecution.triggered {} firstSpans = some trigger → ∃ diagnosis,
      (exactTracer.analyzer.analyze exactTracer.loaded (firstSpans.length + 1) (traceIdText 1)
        (firstSpans.map fun span => span.toSerializedSpan) trigger).run = some (.ok diagnosis) := by
  have hany := any_failed_firstSpans
  refine ⟨?_, fun trigger htrigger => ?_⟩
  · intro hnil
    rw [hnil] at hany
    cases hany
  · rw [TraceExecution.triggered, hany] at htrigger
    obtain rfl := Option.some.inj htrigger
    obtain ⟨diagnosis, hdiagnosis, -⟩ := analyze_firstSpans
    exact ⟨diagnosis, hdiagnosis⟩

theorem isSome_firstArtifact : (exactTracer.finalizeHandle (traceIdText 1) {} firstSpans).isSome :=
  isSome_finalizeHandle_iff.mpr analyzed_firstSpans

theorem overlapping_run : ∃ s, Run (TracerStep exactTracer) TracerState.initial overlapping s ∧
    s.phase 0 = .ended ⟨1, 1⟩ {} ∧ ∀ i, i ≠ 0 → ¬(s.phase i).Registered := by
  have henter := Run.start.snoc (show TracerStep exactTracer TracerState.initial (.enter 0 ⟨1, 1⟩) _ from
    .enter rfl (by intro span hspan; cases hspan))
  have hactivate := henter.snoc (show TracerStep exactTracer _ (.activate 0) _ from .activate rfl)
  have hother := hactivate.snoc (show TracerStep exactTracer _ (.enter 1 ⟨2, 1⟩) _ from
    .enter rfl (by intro span hspan; obtain rfl := List.mem_singleton.mp hspan; decide))
  have hboth := hother.snoc (show TracerStep exactTracer _ (.activate 1) _ from .activate rfl)
  have hchild := hboth.snoc (show TracerStep exactTracer _ (.start ⟨⟨1, 2⟩, some ⟨1, 1⟩⟩) _ from
    .start ⟨rfl, by decide, by decide⟩ (by
      intro i root hentered
      match i with
      | 0 | 1 | _ + 2 => cases hentered))
  have hchildren := hchild.snoc (show TracerStep exactTracer _ (.start ⟨⟨2, 2⟩, some ⟨2, 1⟩⟩) _ from
    .start ⟨rfl, by decide, by decide⟩ (by
      intro i root hentered
      match i with
      | 0 | 1 | _ + 2 => cases hentered))
  have hsecond := hchildren.snoc (show TracerStep exactTracer _ (.finish (retrievalSpan 2 "UNSET") 0) _ from
    .finish ⟨by decide, by decide⟩ (by
      intro i hroot
      match i with
      | 0 | 1 => exact absurd (Option.some.inj hroot) (by decide)
      | _ + 2 => cases hroot))
  have hfirst := hsecond.snoc (show TracerStep exactTracer _ (.finish (retrievalSpan 1 "ERROR") 0) _ from
    .finish ⟨by decide, by decide⟩ (by
      intro i hroot
      match i with
      | 0 | 1 => exact absurd (Option.some.inj hroot) (by decide)
      | _ + 2 => cases hroot))
  have hleft := hfirst.snoc (show TracerStep exactTracer _ (.leave 1 (workflowSpan 2) 0 none) _ from
    .leave rfl rfl ⟨by decide, by decide⟩ (by simp))
  have hpopped := hleft.snoc (show TracerStep exactTracer _ (.pop 1) _ from .pop rfl)
  have hleave := hpopped.snoc (show TracerStep exactTracer _ (.leave 0 (workflowSpan 1) 0 none) _ from
    .leave rfl rfl ⟨by decide, by decide⟩ (by simp))
  refine ⟨_, hleave, rfl, fun i hi hregistered => ?_⟩
  match i with
  | 0 => exact hi rfl
  | 1 => exact hregistered
  | _ + 2 => exact hregistered

/-- The first execution comes to hold its two spans. -/
theorem overlapping_popped : ∃ s,
    Run (TracerStep exactTracer) TracerState.initial (overlapping ++ [.pop 0]) s ∧
      s.phase 0 = .popped ⟨1, 1⟩ {} firstSpans ∧ ∀ i, ¬(s.phase i).Registered := by
  obtain ⟨s, hrun, hended, hothers⟩ := overlapping_run
  have hregisters : s.Registers 0 ⟨1, 1⟩ := by
    rw [TracerState.Registers, hended]
    exact ⟨rfl, trivial⟩
  have hspans := ((collects_run hrun).registered 0 ⟨1, 1⟩ hregisters).2
  refine ⟨_, hrun.snoc (.pop hended), ?_, fun i hregistered => ?_⟩
  · rw [SpanCollector.pop, hspans]
    rfl
  · change (Function.update s.phase 0 _ i).Registered at hregistered
    by_cases hi : i = 0
    · rw [hi, Function.update_self] at hregistered
      exact hregistered
    · rw [Function.update_of_ne hi] at hregistered
      exact hothers i hi hregistered

/-- The artifact holds the retrieval under its workflow, and nothing of the execution that ended meanwhile. -/
theorem execution_artifact_overlapping : ∃ (s : TracerState ℚ) (artifact : ForensicTraceArtifact ℚ),
    s.phase 0 = .finalized ⟨1, 1⟩ (some artifact) ∧ artifact.spans.Perm firstSpans ∧
      ShowsExecution exactTracer (overlapping ++ [.pop 0] ++ [.persist 0]) 0 ⟨1, 1⟩ artifact ∧
      getTrace s.store artifact.traceId = some artifact := by
  obtain ⟨s, hrun, hpopped, -⟩ := overlapping_popped
  obtain ⟨artifact, hartifact⟩ := Option.isSome_iff_exists.mp isSome_firstArtifact
  obtain ⟨s', hstep, hfinalized⟩ := exists_persist hpopped hartifact
  refine ⟨s', artifact, hfinalized, ?_, execution_artifact exactTracer _ s' 0 ⟨1, 1⟩ artifact
    (hrun.snoc hstep) hfinalized⟩
  rw [(traceId_finalizeHandle hartifact).2.1]
  exact orderedSpans_perm firstSpans

/-- The retrieval has failed: its parent is walked, and its diagnosis makes the artifact. -/
theorem finalize_ends_overlapping :
    (∀ trigger, Outcome.Ends (exactTracer.analyzer.analyze exactTracer.loaded (firstSpans.length + 1)
      (traceIdText 1) (firstSpans.map fun span => span.toSerializedSpan) trigger)) ∧
    (exactTracer.finalizeHandle (traceIdText 1) {} firstSpans).isSome := by
  obtain ⟨s, hrun, hpopped, -⟩ := overlapping_popped
  obtain ⟨hends, hartifact⟩ := finalize_ends exactTracer _ s 0 ⟨1, 1⟩ {} firstSpans hrun hpopped
  exact ⟨hends, hartifact.mpr analyzed_firstSpans⟩

theorem nothing_left_overlapping : ∃ s, Run (TracerStep exactTracer) TracerState.initial
    (overlapping ++ [.pop 0]) s ∧ s.collector = .empty := by
  obtain ⟨s, hrun, -, hthrough⟩ := overlapping_popped
  exact ⟨s, hrun, nothing_left hrun hthrough⟩

end CoreMesh.Tracing
