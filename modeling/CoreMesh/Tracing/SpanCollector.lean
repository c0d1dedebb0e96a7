import CoreMesh.Tracing.Sanitising
import CoreMesh.Tracing.TraceRegistry
import Mathlib.Data.Finset.Basic

/-!
# Collecting spans

`_CollectingSpanExporter` keeps the ended spans of the traces that are registered with it. A span comes with the
identifiers of OpenTelemetry, which are written as hexadecimal numbers of a fixed width.
-/

namespace CoreMesh.Tracing

/-! ### Identifiers -/

def hexDigits : ℕ → ℕ → List Char
  | 0, _ => []
  | width + 1, n => hexDigits width (n / 16) ++ [Nat.digitChar (n % 16)]

/-- A number below `16 ^ width`, as the format `0<width>x` writes it. -/
def hexText (width n : ℕ) : String := String.ofList (hexDigits width n)

theorem hexDigits_inj {width m n : ℕ} (hm : m < 16 ^ width) (hn : n < 16 ^ width)
    (heq : hexDigits width m = hexDigits width n) : m = n := by
  induction width generalizing m n with
  | zero => omega
  | succ width ih =>
      obtain ⟨hinit, hlast⟩ := List.append_inj' heq rfl
      have hdigit : ∀ a < 16, ∀ b < 16, Nat.digitChar a = Nat.digitChar b → a = b := by decide
      have hmod := hdigit (m % 16) (by omega) (n % 16) (by omega) (List.singleton_inj.mp hlast)
      have hdiv := ih (by omega) (by omega) hinit
      omega

theorem hexText_inj {width m n : ℕ} (hm : m < 16 ^ width) (hn : n < 16 ^ width)
    (heq : hexText width m = hexText width n) : m = n :=
  hexDigits_inj hm hn (String.ofList_injective heq)

/-- The context of a span: its trace and its own identifier. -/
@[ext] structure SpanContext where
  traceId : BitVec 128
  spanId : BitVec 64
  deriving DecidableEq

/-- `_trace_id`. -/
def traceIdText (traceId : BitVec 128) : String := hexText 32 traceId.toNat

/-- `_span_id`, which takes zero for none. -/
def spanIdText (spanId : BitVec 64) : Option String :=
  if spanId = 0 then none else some (hexText 16 spanId.toNat)

theorem traceIdText_inj {s t : BitVec 128} (heq : traceIdText s = traceIdText t) : s = t :=
  BitVec.eq_of_toNat_eq (hexText_inj s.isLt t.isLt heq)

theorem spanIdText_inj {s t : BitVec 64} (heq : hexText 16 s.toNat = hexText 16 t.toNat) : s = t :=
  BitVec.eq_of_toNat_eq (hexText_inj s.isLt t.isLt heq)

/-! ### What is stored of a span -/

structure SpanEvent (F O : Type) where
  name : String
  timestamp : Option ℕ
  attributes : List (String × Sanitising.Value F O)

/-- A span of OpenTelemetry that has ended; times are in nanoseconds. -/
structure ReadableSpan (F O : Type) where
  context : SpanContext
  parent : Option SpanContext
  name : String
  kind : String
  status : String
  startTime : Option ℕ
  endTime : Option ℕ
  attributes : List (String × Sanitising.Value F O)
  events : List (SpanEvent F O)

variable {F O : Type}

mutual

/-- A sanitised value in the artifact. Of bytes and objects, a text is all that is left by then. -/
def storedValue : Sanitising.Value F O → Stored.Value F
  | .none | .bytes _ | .other _ => .none
  | .enum _ value => storedValue value
  | .bool value => .bool value
  | .int value => .int value
  | .float value => .float value
  | .str text => .str text
  | .sequence items => .list (storedItems items)

def storedItems : List (Sanitising.Value F O) → List (Stored.Value F)
  | [] => []
  | item :: items => storedValue item :: storedItems items

end

/-- A time, or that of the clock where it is missing or zero. -/
def timeOr (now : ℕ) (time : Option ℕ) : ℕ := (time.filter (· ≠ 0)).getD now

section Collector

variable (python : Sanitising.Python F O) (milliseconds : ℤ → F) (maxLength : ℕ)

def storedAttributes (attributes : List (String × Sanitising.Value F O)) : List (String × Stored.Value F) :=
  (Sanitising.safeAttributes python maxLength attributes).map fun entry => (entry.1, storedValue entry.2)

def serializeEvent (now : ℕ) (event : SpanEvent F O) : Option (List (String × Stored.Value F)) := do
  let timestamp ← isoTime (timeOr now event.timestamp)
  return [("name", .str event.name), ("timestamp", .str timestamp),
    ("attributes", .dict (storedAttributes python maxLength event.attributes))]

/-- `_serialize`, none where a time is beyond what `datetime` can tell. The clock is at `now`, and
`milliseconds` is the rounded quotient of a duration. -/
def serialize (now : ℕ) (span : ReadableSpan F O) : Option (SerializedSpan F) := do
  let startNs := timeOr now span.startTime
  let endNs := timeOr startNs span.endTime
  let events ← span.events.mapM (serializeEvent python maxLength now)
  let startTime ← isoTime startNs
  let endTime ← isoTime endNs
  return {
    traceId := traceIdText span.context.traceId
    spanId := (spanIdText span.context.spanId).getD "0000000000000000"
    parentSpanId := span.parent.bind fun parent => spanIdText parent.spanId
    name := span.name
    kind := span.kind
    status := span.status
    startTime := startTime
    endTime := endTime
    durationMs := milliseconds ((endNs : ℤ) - startNs)
    attributes := storedAttributes python maxLength span.attributes
    events := events }

/-! ### The exporter -/

/-- `_CollectingSpanExporter`: the registered traces, and what was collected by trace. -/
structure SpanCollector (F : Type) where
  active : Finset String
  spans : String → Option (List (SerializedSpan F))

def SpanCollector.empty : SpanCollector F := ⟨∅, fun _ => none⟩

namespace SpanCollector

def activate (c : SpanCollector F) (traceId : String) : SpanCollector F where
  active := insert traceId c.active
  spans := Function.update c.spans traceId (some ((c.spans traceId).getD []))

/-- `export` of some spans. One that cannot be serialized ends it, and what came before is kept. -/
def exportSpans (c : SpanCollector F) (now : ℕ) : List (ReadableSpan F O) → SpanCollector F
  | [] => c
  | span :: rest =>
      let traceId := traceIdText span.context.traceId
      if traceId ∉ c.active then exportSpans c now rest
      else
        let collected := (c.spans traceId).getD []
        match serialize python milliseconds maxLength now span with
        | none => { c with spans := Function.update c.spans traceId (some collected) }
        | some serialized =>
            exportSpans { c with spans := Function.update c.spans traceId (some (collected ++ [serialized])) }
              now rest

def pop (c : SpanCollector F) (traceId : String) : List (SerializedSpan F) × SpanCollector F :=
  ((c.spans traceId).getD [],
    { active := c.active.erase traceId, spans := Function.update c.spans traceId none })

end SpanCollector

variable {python milliseconds maxLength}

/-- What the identifiers of a stored span are. -/
structure Serialized (span : ReadableSpan F O) (stored : SerializedSpan F) : Prop where
  traceId : stored.traceId = traceIdText span.context.traceId
  spanId : stored.spanId = hexText 16 span.context.spanId.toNat
  parentSpanId : stored.parentSpanId = span.parent.bind fun parent => spanIdText parent.spanId
  status : stored.status = span.status

theorem spanIdText_getD (spanId : BitVec 64) :
    (spanIdText spanId).getD "0000000000000000" = hexText 16 spanId.toNat := by
  rw [spanIdText]
  split
  · rename_i hzero
    rw [hzero]
    decide
  · rfl

theorem serialized_of_serialize {now : ℕ} {span : ReadableSpan F O} {stored : SerializedSpan F}
    (hstored : serialize python milliseconds maxLength now span = some stored) : Serialized span stored := by
  simp only [serialize, Option.bind_eq_bind, Option.pure_def, Option.bind_eq_some_iff] at hstored
  obtain ⟨events, -, startTime, -, endTime, -, heq⟩ := hstored
  obtain rfl := Option.some.inj heq
  exact ⟨rfl, spanIdText_getD _, rfl, rfl⟩

namespace SpanCollector

theorem exportSpans_singleton (c : SpanCollector F) (now : ℕ) (span : ReadableSpan F O) :
    c.exportSpans python milliseconds maxLength now [span] =
      if traceIdText span.context.traceId ∈ c.active then
        { c with
          spans := Function.update c.spans (traceIdText span.context.traceId)
            (some ((c.spans (traceIdText span.context.traceId)).getD [] ++
              (serialize python milliseconds maxLength now span).toList)) }
      else c := by
  simp only [exportSpans, ite_not]
  cases serialize python milliseconds maxLength now span with
  | none => simp only [Option.toList_none, List.append_nil]
  | some stored => rfl

@[simp] theorem active_exportSpans (c : SpanCollector F) (now : ℕ) (span : ReadableSpan F O) :
    (c.exportSpans python milliseconds maxLength now [span]).active = c.active := by
  rw [exportSpans_singleton]
  split <;> rfl

theorem spans_exportSpans (c : SpanCollector F) (now : ℕ) (span : ReadableSpan F O) (traceId : String) :
    (c.exportSpans python milliseconds maxLength now [span]).spans traceId =
      if traceId = traceIdText span.context.traceId ∧ traceId ∈ c.active then
        some ((c.spans traceId).getD [] ++ (serialize python milliseconds maxLength now span).toList)
      else c.spans traceId := by
  rw [exportSpans_singleton]
  generalize (serialize python milliseconds maxLength now span).toList = stored
  by_cases hactive : traceIdText span.context.traceId ∈ c.active
  · rw [if_pos hactive]
    by_cases hsame : traceId = traceIdText span.context.traceId
    · simp only [hsame, hactive, and_self, if_true, Function.update_self]
    · have hnot : ¬(traceId = traceIdText span.context.traceId ∧ traceId ∈ c.active) := fun hboth => hsame hboth.1
      simp only [if_neg hnot, Function.update_of_ne hsame]
  · have hnot : ¬(traceId = traceIdText span.context.traceId ∧ traceId ∈ c.active) := by
      intro hboth
      rw [hboth.1] at hboth
      exact hactive hboth.2
    rw [if_neg hactive, if_neg hnot]

end SpanCollector

end Collector

end CoreMesh.Tracing
