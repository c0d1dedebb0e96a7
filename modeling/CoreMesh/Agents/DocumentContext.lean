import CoreMesh.Agents.SupervisorRuns
import CoreMesh.Lib.Base64
import CoreMesh.Lib.CQuote
import CoreMesh.Lib.PosixPath

/-!
# The document of a session

`_normalize_session_context` takes a binary document out of the session context and puts it back in
base64, unless there is a base64 text already, and `DocumentExtractionTool._resolve_document_bytes`
looks through four keys for a document. A document that the resolver finds first may be one that the
normalisation or the rendering as plain data displaces.
-/

namespace CoreMesh.Agents

open PyValue (Dict get getOr truthy pop set jsonReady jsonReadyEntries get_jsonReadyEntries get_pop
  get_set)

abbrev Bytes := List UInt8

/-! ### The encoder and the resolver -/

def normalizeSessionContext (context : Option Dict) : Option Dict :=
  match context with
  | none => none
  | some context =>
      if context.isEmpty then some context
      else
        match get context "document_bytes" with
        | some (.bytes data) =>
            let normalized := pop context "document_bytes"
            some (if truthy (getOr normalized "document_base64" .none) then normalized
              else set normalized "document_base64" (.str (String.ofList (Base64.encode data))))
        | _ => some context

/-- `base64.b64decode`. -/
def b64decode (value : String) : Except Raised Bytes :=
  match Base64.decode value.toList with
  | .ok data => .ok data
  | .error .notAscii =>
      .error ⟨"ValueError", "string argument should contain only ASCII characters"⟩
  | .error .truncated =>
      let count := value.toList.countP fun c => (Base64.sextet c).isSome
      .error ⟨"Error", "Invalid base64-encoded string: number of data characters (" ++
        toString count ++ ") cannot be 1 more than a multiple of 4"⟩
  | .error .incorrectPadding => .error ⟨"Error", "Incorrect padding"⟩

/-- A value that is a string and not an empty one. -/
def nonemptyString : Option PyValue → Option String
  | some (.str value) | some (.enum value) => if value = "" then none else some value
  | _ => none

section Resolver

variable (python : Python) (readBytes : String → Except Raised Bytes)

/-- `_resolve_document_bytes`. -/
def resolveDocumentBytes (context : Dict) : Except Raised (Option Bytes × String) :=
  let filename := python.str (getOr context "document_filename" (.str "agent-upload"))
  let rawBytes := get context "document_bytes"
  match rawBytes with
  | some (.bytes data) => .ok (some data, filename)
  | _ =>
      match nonemptyString rawBytes with
      | some text =>
          match b64decode text with
          | .ok data => .ok (some data, filename)
          | .error _ => .ok (some (CQuote.encode text.toList), filename)
      | none =>
          match nonemptyString (get context "document_base64") with
          | some text => do
              let data ← b64decode text
              return (some data, filename)
          | none =>
              match nonemptyString (get context "document_path") with
              | some path => do
                  let data ← readBytes path
                  let name := String.ofList (PosixPath.name path.toList)
                  return (some data, python.str (getOr context "document_filename" (.str name)))
              | none => .ok (none, filename)

/-- What the tool is given: the context in the request that the last node has handed on. -/
def handedOn (context : Option Dict) : Dict :=
  ((normalizeSessionContext context).map jsonReadyEntries).getD []

/-- The tool resolves the document that it would resolve in the context as it came. -/
def Preserved (context : Option Dict) : Prop :=
  resolveDocumentBytes python readBytes (handedOn context) =
    resolveDocumentBytes python readBytes (context.getD [])

end Resolver

example (request : ExecutionRequestPayload) :
    ({ request with sessionContext := normalizeSessionContext request.sessionContext } :
      ExecutionRequestPayload).jsonReady.sessionContext.getD [] = handedOn request.sessionContext := rfl

/-! ### The document that is found -/

/-- The value that a resolver goes by. -/
inductive Document where
  | data (bytes : Bytes)
  | text (value : String)
  | base64 (value : String)
  | path (value : String)
  | absent
  deriving DecidableEq

namespace Document

/-- The name of a document without a name. -/
def defaultName : Document → String
  | path value => String.ofList (PosixPath.name value.toList)
  | _ => "agent-upload"

variable (readBytes : String → Except Raised Bytes)

def load : Document → Except Raised (Option Bytes)
  | data bytes => .ok (some bytes)
  | text value =>
      match b64decode value with
      | .ok bytes => .ok (some bytes)
      | .error _ => .ok (some (CQuote.encode value.toList))
  | base64 value => (b64decode value).map some
  | path value => (readBytes value).map some
  | absent => .ok none

/-- The name, under the value of `document_filename`. -/
def name (python : Python) (filename : Option PyValue) (document : Document) : String :=
  python.str <| match filename with
    | some value => if truthy value then value else .str document.defaultName
    | none => .str document.defaultName

def resolved (python : Python) (filename : Option PyValue) (document : Document) :
    Except Raised (Option Bytes × String) :=
  (document.load readBytes).map fun bytes => (bytes, document.name python filename)

end Document

/-- The first document under the keys, where a value that is not binary is read in one way or another. -/
def firstDocument (read : Option PyValue → Option String) (context : Dict) : Document :=
  match read (get context "document_bytes") with
  | some value => .text value
  | none =>
      match read (get context "document_base64") with
      | some value => .base64 value
      | none =>
          match read (get context "document_path") with
          | some value => .path value
          | none => .absent

def documentOf (context : Dict) : Document :=
  match get context "document_bytes" with
  | some (.bytes data) => .data data
  | _ => firstDocument nonemptyString context

theorem Document.name_eq (python : Python) (context : Dict) (document : Document) :
    document.name python (get context "document_filename") =
      python.str (getOr context "document_filename" (.str document.defaultName)) := by
  unfold Document.name getOr
  cases get context "document_filename" <;> rfl

theorem resolveDocumentBytes_eq (python : Python) (readBytes : String → Except Raised Bytes)
    (context : Dict) :
    resolveDocumentBytes python readBytes context =
      (documentOf context).resolved readBytes python (get context "document_filename") := by
  unfold resolveDocumentBytes documentOf Document.resolved
  dsimp only
  split
  · rw [Document.name_eq]
    rfl
  · unfold firstDocument
    cases nonemptyString (get context "document_bytes") with
    | some text =>
        rw [Document.name_eq]
        dsimp only [Document.load]
        cases b64decode text <;> rfl
    | none =>
        cases nonemptyString (get context "document_base64") with
        | some text =>
            rw [Document.name_eq]
            dsimp only [Document.load]
            cases b64decode text <;> rfl
        | none =>
            cases nonemptyString (get context "document_path") with
            | some path =>
                rw [Document.name_eq]
                dsimp only [Document.load]
                cases readBytes path <;> rfl
            | none =>
                rw [Document.name_eq]
                rfl

/-! ### The document that is handed on -/

/-- The text that a value is as plain data. -/
def renderedString (value : Option PyValue) : Option String := nonemptyString (value.map jsonReady)

def renderedPath (context : Dict) : Document :=
  match renderedString (get context "document_path") with
  | some value => .path value
  | none => .absent

/-- The document of a context once it is normalised and rendered. -/
def handedDocument (context : Dict) : Document :=
  match get context "document_bytes" with
  | some (.bytes data) =>
      if truthy (getOr context "document_base64" .none) then
        match renderedString (get context "document_base64") with
        | some value => .base64 value
        | none => renderedPath context
      else if data = [] then renderedPath context
      else .base64 (String.ofList (Base64.encode data))
  | _ => firstDocument renderedString context

theorem nonemptyString_rendered {value : Option PyValue} {text : String}
    (htext : nonemptyString value = some text) : renderedString value = some text := by
  unfold nonemptyString at htext
  split at htext
  · exact htext
  · exact htext
  · cases htext

theorem firstDocument_jsonReady (context : Dict) :
    firstDocument nonemptyString (jsonReadyEntries context) = firstDocument renderedString context := by
  unfold firstDocument renderedString
  rw [get_jsonReadyEntries, get_jsonReadyEntries, get_jsonReadyEntries]

/-- No binary value is left in plain data. -/
theorem documentOf_jsonReady (context : Dict) :
    documentOf (jsonReadyEntries context) = firstDocument renderedString context := by
  rw [← firstDocument_jsonReady]
  unfold documentOf
  split
  · rename_i data hbytes
    rw [get_jsonReadyEntries] at hbytes
    cases hvalue : get context "document_bytes" with
    | none =>
        rw [hvalue] at hbytes
        cases hbytes
    | some value =>
        rw [hvalue] at hbytes
        cases value <;> simp [jsonReady] at hbytes
  · rfl

/-- The context with its binary document taken out, and perhaps put back in base64. -/
theorem firstDocument_of_popped (context : Dict) {normalized : Dict}
    (hbytes : get normalized "document_bytes" = none)
    (hpath : get normalized "document_path" = get context "document_path") :
    firstDocument renderedString normalized =
      match renderedString (get normalized "document_base64") with
      | some value => .base64 value
      | none => renderedPath context := by
  unfold firstDocument renderedPath
  rw [hbytes, hpath]
  rfl

theorem renderedString_encode (data : Bytes) :
    renderedString (some (.str (String.ofList (Base64.encode data)))) =
      if data = [] then none else some (String.ofList (Base64.encode data)) := by
  have hempty : String.ofList (Base64.encode data) = "" ↔ data = [] := by
    rw [← Base64.encode_eq_nil_iff, ← String.toList_inj, String.toList_ofList]
    rfl
  unfold renderedString
  simp only [Option.map_some, jsonReady, nonemptyString, hempty]

theorem documentOf_handedOn (context : Dict) :
    documentOf (handedOn (some context)) = handedDocument context := by
  by_cases hbinary : ∃ data, get context "document_bytes" = some (.bytes data)
  · obtain ⟨data, hdata⟩ := hbinary
    have hne : context.isEmpty = false := by
      cases context with
      | nil => cases hdata
      | cons entry rest => rfl
    have hbase64 : get (pop context "document_bytes") "document_base64" =
        get context "document_base64" := get_pop _ _ _
    have hor : getOr (pop context "document_bytes") "document_base64" .none =
        getOr context "document_base64" .none := by
      unfold getOr
      rw [hbase64]
    unfold handedOn normalizeSessionContext handedDocument
    simp only [hne, Bool.false_eq_true, if_false, hdata, hor, Option.map_some, Option.getD_some,
      documentOf_jsonReady]
    by_cases htruthy : truthy (getOr context "document_base64" .none) = true
    · rw [if_pos htruthy, if_pos htruthy,
        firstDocument_of_popped context (get_pop _ _ _) (get_pop _ _ _), hbase64]
    · rw [if_neg htruthy, if_neg htruthy, firstDocument_of_popped context]
      · rw [get_set, if_pos rfl, renderedString_encode]
        by_cases hempty : data = []
        · rw [if_pos hempty, if_pos hempty]
        · rw [if_neg hempty, if_neg hempty]
      · rw [get_set, if_neg (by decide), get_pop, if_pos rfl]
      · rw [get_set, if_neg (by decide), get_pop, if_neg (by decide)]
  · have hsame : handedOn (some context) = jsonReadyEntries context := by
      unfold handedOn normalizeSessionContext
      dsimp only
      split
      · rfl
      · split
        · rename_i data hdata
          exact absurd ⟨data, hdata⟩ hbinary
        · rfl
    rw [hsame, documentOf_jsonReady]
    unfold handedDocument
    split
    · rename_i data hdata
      exact absurd ⟨data, hdata⟩ hbinary
    · rfl

theorem filename_handedOn (context : Dict) :
    get (handedOn (some context)) "document_filename" =
      (get context "document_filename").map jsonReady := by
  unfold handedOn normalizeSessionContext
  dsimp only
  split
  · exact get_jsonReadyEntries context _
  · split
    · rw [Option.map_some, Option.getD_some, get_jsonReadyEntries]
      split
      · rw [get_pop, if_neg (by decide)]
      · rw [get_set, if_neg (by decide), get_pop, if_neg (by decide)]
    · exact get_jsonReadyEntries context _

/-! ### Displaced documents -/

/-- Another document takes the place of the one that the resolver finds. -/
inductive Displaced (context : Dict) : Prop where
  /-- A binary document beside a base64 one, which is left as it is. -/
  | competing (data : Bytes) (hbytes : get context "document_bytes" = some (.bytes data))
      (hbase64 : truthy (getOr context "document_base64" .none) = true)
  /-- An empty binary document, whose base64 text counts as none. -/
  | empty (hbytes : get context "document_bytes" = some (.bytes []))
  /-- Under the first key that plain data has a text for, there is a path or a byte string. -/
  | rendered (before after : List String) (key value : String)
      (hbytes : ∀ data, get context "document_bytes" ≠ some (.bytes data))
      (hkeys : ["document_bytes", "document_base64", "document_path"] = before ++ key :: after)
      (hbefore : ∀ other ∈ before, renderedString (get context other) = none)
      (hrendered : renderedString (get context key) = some value)
      (hstring : nonemptyString (get context key) = none)

/-- The two documents are read alike. -/
def Alike (document handed : Document) : Prop :=
  handed = document ∨
    ∃ data, document = .data data ∧ handed = .base64 (String.ofList (Base64.encode data))

theorem Alike.load {document handed : Document} (halike : Alike document handed)
    (readBytes : String → Except Raised Bytes) : handed.load readBytes = document.load readBytes := by
  obtain rfl | ⟨data, rfl, rfl⟩ := halike
  · rfl
  · have hdecode : b64decode (String.ofList (Base64.encode data)) = .ok data := by
      unfold b64decode
      rw [String.toList_ofList, Base64.decode_encode]
    change (b64decode _).map some = _
    rw [hdecode]
    rfl

theorem Alike.defaultName {document handed : Document} (halike : Alike document handed) :
    handed.defaultName = document.defaultName := by
  obtain rfl | ⟨data, rfl, rfl⟩ := halike <;> rfl

theorem rendered_of_not_displaced {context : Dict} (hdisplaced : ¬Displaced context)
    (hbytes : ∀ data, get context "document_bytes" ≠ some (.bytes data))
    (before : List String) {after : List String} {key : String}
    (hkeys : ["document_bytes", "document_base64", "document_path"] = before ++ key :: after)
    (hbefore : ∀ other ∈ before, renderedString (get context other) = none) :
    renderedString (get context key) = nonemptyString (get context key) := by
  cases hstring : nonemptyString (get context key) with
  | some value => exact nonemptyString_rendered hstring
  | none =>
      cases hrendered : renderedString (get context key) with
      | none => rfl
      | some value =>
          exact absurd (.rendered before after key value hbytes hkeys hbefore hrendered hstring)
            hdisplaced

theorem alike_of_not_displaced {context : Dict} (hdisplaced : ¬Displaced context) :
    Alike (documentOf context) (handedDocument context) := by
  by_cases hbinary : ∃ data, get context "document_bytes" = some (.bytes data)
  · obtain ⟨data, hdata⟩ := hbinary
    have htruthy : ¬truthy (getOr context "document_base64" .none) = true := fun htruthy =>
      hdisplaced (.competing data hdata htruthy)
    have hne : data ≠ [] := by
      intro hempty
      exact hdisplaced (.empty (hempty ▸ hdata))
    unfold documentOf handedDocument
    simp only [hdata, if_neg htruthy, if_neg hne]
    exact .inr ⟨data, rfl, rfl⟩
  · have hbytes : ∀ data, get context "document_bytes" ≠ some (.bytes data) := fun data hdata =>
      hbinary ⟨data, hdata⟩
    have hdocument : documentOf context = firstDocument nonemptyString context := by
      unfold documentOf
      split
      · rename_i data hdata
        exact absurd hdata (hbytes data)
      · rfl
    have hhanded : handedDocument context = firstDocument renderedString context := by
      unfold handedDocument
      split
      · rename_i data hdata
        exact absurd hdata (hbytes data)
      · rfl
    refine .inl ?_
    rw [hdocument, hhanded]
    unfold firstDocument
    have hfirst := rendered_of_not_displaced hdisplaced hbytes [] rfl
      (List.forall_mem_nil _)
    rw [hfirst]
    cases hnone : nonemptyString (get context "document_bytes") with
    | some value => rfl
    | none =>
        rw [hnone] at hfirst
        have hsecond := rendered_of_not_displaced hdisplaced hbytes ["document_bytes"] rfl
          (List.forall_mem_singleton.mpr hfirst)
        rw [hsecond]
        cases hnone' : nonemptyString (get context "document_base64") with
        | some value => rfl
        | none =>
            rw [hnone'] at hsecond
            have hthird := rendered_of_not_displaced hdisplaced hbytes
              ["document_bytes", "document_base64"] rfl
              (List.forall_mem_cons.mpr ⟨hfirst, List.forall_mem_singleton.mpr hsecond⟩)
            rw [hthird]

/-! ### What is preserved -/

/-- The name of the document is the same text once it is rendered. -/
def NameKept (python : Python) (context : Dict) (document : Document) : Prop :=
  document.name python ((get context "document_filename").map jsonReady) =
    document.name python (get context "document_filename")

/-- The document handed on in place of another happens to be read as it: both are loaded with one error, or
with the same bytes and under one name. -/
def Coincide (python : Python) (readBytes : String → Except Raised Bytes) (context : Dict)
    (document handed : Document) : Prop :=
  (∃ raised, document.load readBytes = .error raised ∧ handed.load readBytes = .error raised) ∨
    ∃ bytes, document.load readBytes = .ok bytes ∧ handed.load readBytes = .ok bytes ∧
      handed.name python ((get context "document_filename").map jsonReady) =
        document.name python (get context "document_filename")

theorem map_pair_eq_iff {loaded loaded' : Except Raised (Option Bytes)} {name name' : String} :
    (loaded'.map fun bytes => (bytes, name')) = (loaded.map fun bytes => (bytes, name)) ↔
      (∃ raised, loaded = .error raised ∧ loaded' = .error raised) ∨
        ∃ bytes, loaded = .ok bytes ∧ loaded' = .ok bytes ∧ name' = name := by
  cases loaded <;> cases loaded' <;> simp [Except.map, eq_comm]

/-- The tool is handed the document that the context came with, unless another displaces it, or its name
is no plain text. -/
theorem preserved_iff (python : Python) (readBytes : String → Except Raised Bytes)
    (context : Option Dict) :
    Preserved python readBytes context ↔
      (¬Displaced (context.getD []) ∧
        ((∃ raised, (documentOf (context.getD [])).load readBytes = .error raised) ∨
          NameKept python (context.getD []) (documentOf (context.getD [])))) ∨
      Displaced (context.getD []) ∧
        Coincide python readBytes (context.getD []) (documentOf (context.getD []))
          (handedDocument (context.getD [])) := by
  have hcontext : handedOn context = handedOn (some (context.getD [])) := by
    cases context <;> rfl
  unfold Preserved
  rw [hcontext, resolveDocumentBytes_eq, resolveDocumentBytes_eq, documentOf_handedOn,
    filename_handedOn]
  generalize context.getD [] = entries
  unfold Document.resolved
  rw [map_pair_eq_iff]
  by_cases hdisplaced : Displaced entries
  · simp only [hdisplaced, not_true_eq_false, false_and, false_or, true_and]
    rfl
  · have halike := alike_of_not_displaced hdisplaced
    have hname : ∀ filename, (handedDocument entries).name python filename =
        (documentOf entries).name python filename := by
      intro filename
      unfold Document.name
      rw [halike.defaultName]
    rw [halike.load, hname]
    cases (documentOf entries).load readBytes <;> simp [hdisplaced, NameKept]

/-! ### Two documents, and an empty one -/

def noFiles (path : String) : Except Raised Bytes :=
  .error ⟨"FileNotFoundError", "[Errno 2] No such file or directory: '" ++ path ++ "'"⟩

/-- A binary document and the base64 text of another. -/
def twoDocuments : Dict := [("document_bytes", .bytes [65]), ("document_base64", .str "Qg==")]

/-- A file that was uploaded empty. -/
def emptyDocument : Dict := [("document_bytes", .bytes [])]

theorem not_preserved_of_two_documents :
    (resolveDocumentBytes asciiPython noFiles twoDocuments = .ok (some [65], "agent-upload") ∧
      resolveDocumentBytes asciiPython noFiles (handedOn (some twoDocuments)) =
        .ok (some [66], "agent-upload")) ∧
    (resolveDocumentBytes asciiPython noFiles emptyDocument = .ok (some [], "agent-upload") ∧
      resolveDocumentBytes asciiPython noFiles (handedOn (some emptyDocument)) =
        .ok (none, "agent-upload")) ∧
    ¬∀ context, Preserved asciiPython noFiles context := by
  have htwo : resolveDocumentBytes asciiPython noFiles (handedOn (some twoDocuments)) =
      .ok (some [66], "agent-upload") := by decide +kernel
  have hone : resolveDocumentBytes asciiPython noFiles twoDocuments =
      .ok (some [65], "agent-upload") := by decide +kernel
  refine ⟨⟨hone, htwo⟩, by decide +kernel, ?_⟩
  intro hall
  have hsame := hall (some twoDocuments)
  rw [Preserved, htwo, Option.getD_some, hone] at hsame
  cases hsame

end CoreMesh.Agents
