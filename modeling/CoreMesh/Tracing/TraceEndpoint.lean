import CoreMesh.Lib.PosixPath
import CoreMesh.Tracing.Executions

/-!
# The trace endpoint

`GET /v1/traces/<trace_id>` of the HTTP service. The identifier becomes the name of a file, so what is no
identifier of a trace is turned away before any file is read, and those that the tracer gives out are not.
-/

namespace CoreMesh.Tracing

open Transition PosixPath

variable {F O : Type}

def isHex (c : Char) : Bool := ('0' ≤ c && c ≤ '9') || ('a' ≤ c && c ≤ 'f')

/-- A full match of `_TRACE_ID_PATTERN`. -/
def isTraceId (traceId : String) : Bool := traceId.toList.length == 32 && traceId.toList.all isHex

/-- What comes of reading a file and validating what is in it. -/
inductive FileRead (F : Type) where
  | artifact (artifact : ForensicTraceArtifact F)
  | notFound
  /-- An `OSError`, a `UnicodeError` or a `ValidationError`. -/
  | unavailable

inductive TraceResponse (F : Type) where
  | ok (artifact : ForensicTraceArtifact F)
  | error (statusCode : ℕ) (detail : String)

/-- `get_trace` of the service. -/
def traceEndpoint (read : String → FileRead F) (directory traceId : String) : TraceResponse F :=
  if !isTraceId traceId then .error 422 "trace_id must be 32 lowercase hexadecimal characters."
  else
    match read (pathOf directory traceId) with
    | .artifact artifact => .ok artifact
    | .notFound => .error 404 "Forensic trace not found."
    | .unavailable => .error 503 "Forensic trace artifact is unavailable."

/-- The file at a path, where the trace directory holds what the tracer has stored. -/
def TraceStore.fileAt (s : TraceStore F) (directory path : String) : FileRead F :=
  let name := path.toList.drop (directory.toList.length + 1)
  let traceId := String.ofList (name.take (name.length - 5))
  match (if pathOf directory traceId = path then s.files traceId else none) with
  | some artifact => .artifact artifact
  | none => .notFound

/-- The path of an entry of the directory. -/
def EntryOf (directory path : String) : Prop :=
  ∃ name, components path.toList = components directory.toList ++ [name] ∧ name ≠ "..".toList

/-! ### Identifiers -/

theorem length_hexDigits (width n : ℕ) : (hexDigits width n).length = width := by
  induction width generalizing n with
  | zero => rfl
  | succ width ih => rw [hexDigits, List.length_append, ih, List.length_singleton]

theorem isHex_of_mem_hexDigits {width n : ℕ} {c : Char} (hc : c ∈ hexDigits width n) : isHex c = true := by
  induction width generalizing n with
  | zero => cases hc
  | succ width ih =>
      obtain hinit | hlast := List.mem_append.mp hc
      · exact ih hinit
      · have hdigit : ∀ d < 16, isHex (Nat.digitChar d) = true := by decide
        rw [List.mem_singleton.mp hlast]
        exact hdigit (n % 16) (Nat.mod_lt n (by decide))

theorem isTraceId_traceIdText (traceId : BitVec 128) : isTraceId (traceIdText traceId) = true := by
  rw [isTraceId, traceIdText, hexText, String.toList_ofList, length_hexDigits, Bool.and_eq_true]
  exact ⟨beq_self_eq_true 32, List.all_eq_true.mpr fun c hc => isHex_of_mem_hexDigits hc⟩

/-! ### Paths -/

theorem toList_pathOf (directory traceId : String) :
    (pathOf directory traceId).toList = directory.toList ++ '/' :: (traceId.toList ++ ".json".toList) := by
  simp [pathOf]

theorem fileAt_pathOf (s : TraceStore F) (directory traceId : String) :
    s.fileAt directory (pathOf directory traceId) =
      match getTrace s traceId with
      | some artifact => .artifact artifact
      | none => .notFound := by
  have hname : (pathOf directory traceId).toList.drop (directory.toList.length + 1) =
      traceId.toList ++ ".json".toList := by
    rw [toList_pathOf, List.drop_append, List.drop_eq_nil_of_le (by omega)]
    simp
  have hlength : (traceId.toList ++ ".json".toList).length - 5 = traceId.toList.length := by simp
  rw [TraceStore.fileAt, hname, hlength, List.take_left, String.ofList_toList, if_pos rfl]
  rfl

/-- An identifier names an entry of the directory and nothing above or below. -/
theorem entryOf_pathOf {directory traceId : String} (hid : isTraceId traceId = true) :
    EntryOf directory (pathOf directory traceId) := by
  have hhex : ∀ c ∈ traceId.toList, isHex c = true :=
    List.all_eq_true.mp (Bool.and_eq_true_iff.mp hid).2
  have hslash : '/' ∉ traceId.toList ++ ".json".toList := by
    intro hmem
    obtain htext | hending := List.mem_append.mp hmem
    · have hself := hhex _ htext
      simp [isHex] at hself
    · revert hending
      decide
  have hlong : 5 ≤ (traceId.toList ++ ".json".toList).length := by simp
  have hne : ∀ short : Text, short.length < 5 → traceId.toList ++ ".json".toList ≠ short := by
    intro short hshort hsame
    rw [hsame] at hlong
    omega
  refine ⟨traceId.toList ++ ".json".toList, ?_, hne _ (by decide)⟩
  rw [components, components, toList_pathOf, List.splitOn_append_cons_self, List.filter_append,
    List.splitOn_eq_singleton hslash, List.filter_singleton]
  have hnil := hne [] (by decide)
  have hdot := hne ['.'] (by decide)
  simp only [hnil, hdot, ne_eq, not_false_eq_true, decide_true, Bool.and_self, cond_true]

/-- Whatever the tracer has stored of an execution is served under its identifier, and whatever identifier
is asked for, no file but an entry of the trace directory has a part in the answer. -/
theorem traceEndpoint_serves_finalized [Zero F] [Add F] [Sub F] [LinearOrder F] (tracer : ForensicsTracer F O)
    (es : List (TracerEvent F O)) (s : TracerState F)
    (hrun : Run (TracerStep tracer) TracerState.initial es s) :
    (∀ i root artifact, s.phase i = .finalized root (some artifact) →
      traceEndpoint (s.store.fileAt tracer.traceDirectory) tracer.traceDirectory artifact.traceId =
        .ok artifact) ∧
    ∀ read read' : String → FileRead F, (∀ path, EntryOf tracer.traceDirectory path → read path = read' path) →
      ∀ traceId, traceEndpoint read tracer.traceDirectory traceId =
        traceEndpoint read' tracer.traceDirectory traceId := by
  refine ⟨fun i root artifact hfinalized => ?_, fun read read' hagree traceId => ?_⟩
  · obtain ⟨handle, spans, -, hartifact, hget⟩ := (finalizes_run hrun).finalized i root artifact hfinalized
    have htrace := (traceId_finalizeHandle hartifact).1
    rw [← htrace] at hget
    have hid : isTraceId artifact.traceId = true := by
      rw [htrace]
      exact isTraceId_traceIdText root.traceId
    rw [traceEndpoint, hid, fileAt_pathOf, hget]
    rfl
  · rw [traceEndpoint, traceEndpoint]
    cases hid : isTraceId traceId with
    | false => rfl
    | true => rw [hagree _ (entryOf_pathOf hid)]

/-- The trace of the first execution has been stored, and nothing is there but it. -/
theorem traceEndpoint_serves_finalized_overlapping : ∃ (s : TracerState ℚ) (artifact : ForensicTraceArtifact ℚ),
    traceEndpoint (s.store.fileAt ".traces") ".traces" artifact.traceId = .ok artifact := by
  obtain ⟨s, hrun, hpopped, -⟩ := overlapping_popped
  obtain ⟨artifact, hartifact⟩ := Option.isSome_iff_exists.mp isSome_firstArtifact
  obtain ⟨s', hstep, hfinalized⟩ := exists_persist hpopped hartifact
  have hserved := (traceEndpoint_serves_finalized exactTracer _ s' (hrun.snoc hstep)).1
  exact ⟨s', artifact, hserved 0 ⟨1, 1⟩ artifact hfinalized⟩

end CoreMesh.Tracing
