import CoreMesh.Ingestion.Processor
import CoreMesh.Rag.Ingestion

/-!
# The ingestion endpoint

An upload is checked, read and, if it asks for it, indexed in the stores of the shared retriever. Indexing can
break off at several points, after which the upload is answered with an error although a store may have been
written.
-/

namespace CoreMesh.Ingestion

open Rag (DenseStore Digest Retriever TextChunk Uuid5 buildDocumentChunks chunk_spec pageId pageId_inj
  upsertChunks upsertChunks_eq)
open OrderedDict (Distinct last?)

structure Upload where
  contentType : Option String
  filename : Option String
  fileBytes : List UInt8
  indexForRag : Bool

/-- Where `index_chunks` breaks off, if it does. -/
inductive IndexFault where
  /-- The points could not be loaded for the sparse corpus. -/
  | hydration
  /-- There are no embeddings, or nothing has been written. -/
  | unwritten
  /-- The points have been written, but the answer was lost. -/
  | answerLost
  /-- The sparse corpus has its chunks, but could not be built anew. -/
  | rebuild

variable {ids : Uuid5} {Page Image : Type}

/-- The stores after `index_chunks`, and if it has returned. -/
def indexWith (fault : Option IndexFault) (r : Retriever ids) (chunks : List TextChunk) :
    Retriever ids × Bool :=
  let hydrated := r.ensureSparseHydrated
  match fault with
  | none => (r.indexChunks chunks, true)
  | some .hydration => (r, false)
  | some .unwritten => (hydrated, false)
  | some .answerLost => ({ hydrated with dense := hydrated.dense.indexChunks chunks }, false)
  | some .rebuild => (r.indexChunks chunks, false)

inductive Answer where
  | rejected (status : Nat) (detail : String)
  | completed (response : IngestResponse)

def allowedContentTypes : List String :=
  ["application/pdf", "image/bmp", "image/jpeg", "image/png", "image/tiff", "image/webp"]

/-- The name that the pipeline and the chunks get. -/
def Upload.name (u : Upload) : String :=
  match u.filename with
  | none => "upload"
  | some filename => if filename = "" then "upload" else filename

/-- The service: its pipeline, the digest of files, and `repr` and `str` in its messages. -/
structure Service (Page Image : Type) where
  world : World Page Image
  sha256 : Digest
  repr : Option String → String
  str : Failure → String

variable (service : Service Page Image)

def Upload.processed (u : Upload) : Except Failure ProcessedDocument :=
  processDocumentWithPages service.world u.fileBytes u.name.toList

def Upload.ingestion (u : Upload) (d : ProcessedDocument) : Rag.Ingestion :=
  ⟨u.fileBytes, u.name, d.pageTexts.map String.ofList⟩

def IngestResponse.withIndex (response : IngestResponse) (result : RAGIndexResult) : IngestResponse :=
  { response with ragIndex := some result }

def ingestDocument (r : Retriever ids) (u : Upload) (fault : Option IndexFault) : Retriever ids × Answer :=
  if u.contentType.all (· ∉ allowedContentTypes) then
    (r, .rejected 415 ("Unsupported content type: " ++ service.repr u.contentType ++
      ". Accepted: ['application/pdf', 'image/bmp', 'image/jpeg', 'image/png', 'image/tiff', 'image/webp']"))
  else if u.fileBytes = [] then (r, .rejected 400 "Uploaded file is empty.")
  else
    match u.processed service with
    | .error failure => (r, .rejected 422 ("Document processing failed: " ++ service.str failure))
    | .ok processed =>
        if u.indexForRag then
          let (documentId, chunks) := buildDocumentChunks service.sha256 (u.ingestion processed)
          if chunks.isEmpty then (r, .rejected 422 "Document contains no indexable text.")
          else
            let (r', returned) := indexWith fault r chunks
            if returned then
              (r', .completed (processed.response.withIndex ⟨documentId, chunks.length⟩))
            else (r', .rejected 503 "RAG indexing dependencies are unavailable.")
        else (r, .completed processed.response)

/-- One upload after another, each with where its indexing breaks off. -/
def ingestRun (r : Retriever ids) (uploads : List (Upload × Option IndexFault)) : Retriever ids :=
  uploads.foldl (fun r upload => (ingestDocument service r upload.1 upload.2).1) r

/-! ### What the stores keep -/

/-- The corpus is a dictionary, and is empty until it has been rebuilt. -/
structure CorpusSound (r : Retriever ids) : Prop where
  distinct : Distinct TextChunk.chunkId r.sparse
  fresh : r.sparseHydrated = false → r.sparse = []

/-- The corpus has been rebuilt, and both stores have the chunk under its identifier. -/
structure Keeps (r : Retriever ids) (chunk : TextChunk) : Prop where
  hydrated : r.sparseHydrated = true
  dense : r.dense.get? chunk.chunkId = some chunk
  sparse : OrderedDict.get? TextChunk.chunkId r.sparse chunk.chunkId = some chunk

variable {r : Retriever ids} {chunks : List TextChunk} {chunk : TextChunk}

theorem corpusSound_start (dense : DenseStore ids) : CorpusSound (Retriever.start dense) :=
  ⟨List.nodup_nil, fun _ => rfl⟩

theorem sparseHydrated_ensure (r : Retriever ids) : r.ensureSparseHydrated.sparseHydrated = true := by
  rw [Retriever.ensureSparseHydrated]
  split <;> rfl

theorem CorpusSound.ensure (hsound : CorpusSound r) : CorpusSound r.ensureSparseHydrated := by
  refine ⟨?_, fun hflag => ?_⟩
  · rw [Retriever.ensureSparseHydrated]
    split
    · exact hsound.distinct
    · exact r.dense.distinct_loadChunks
  · rw [sparseHydrated_ensure] at hflag
    cases hflag

theorem Keeps.ensure (hkeeps : Keeps r chunk) : Keeps r.ensureSparseHydrated chunk := by
  refine ⟨sparseHydrated_ensure r, ?_, ?_⟩
  · rw [r.dense_ensureSparseHydrated]
    exact hkeeps.dense
  · rw [Retriever.ensureSparseHydrated, hkeeps.hydrated]
    exact hkeeps.sparse

theorem indexChunks_eq (hsome : chunks ≠ []) :
    r.indexChunks chunks = ⟨r.ensureSparseHydrated.dense.indexChunks chunks,
      upsertChunks r.ensureSparseHydrated.sparse chunks, true⟩ := by
  rw [Retriever.indexChunks, if_neg (by simpa using hsome)]

theorem CorpusSound.indexChunks (hsound : CorpusSound r) (hsome : chunks ≠ []) :
    CorpusSound (r.indexChunks chunks) := by
  rw [indexChunks_eq hsome]
  refine ⟨?_, fun hflag => by cases hflag⟩
  dsimp only
  rw [upsertChunks_eq hsound.ensure.distinct]
  exact hsound.ensure.distinct.insertAll chunks

theorem get?_sparse_indexChunks (hsound : CorpusSound r) (hsome : chunks ≠ []) (id : String) :
    OrderedDict.get? TextChunk.chunkId (r.indexChunks chunks).sparse id =
      (last? TextChunk.chunkId chunks id).or
        (OrderedDict.get? TextChunk.chunkId r.ensureSparseHydrated.sparse id) := by
  rw [indexChunks_eq hsome]
  dsimp only
  rw [upsertChunks_eq hsound.ensure.distinct, OrderedDict.get?_insertAll]

/-- What has been indexed is kept. -/
theorem keeps_indexChunks (hsound : CorpusSound r) (hdistinct : Distinct TextChunk.chunkId chunks)
    (hmem : chunk ∈ chunks) : Keeps (r.indexChunks chunks) chunk := by
  have hsome : chunks ≠ [] := List.ne_nil_of_mem hmem
  have hlast := hdistinct.last?_eq hmem
  refine ⟨?_, ?_, ?_⟩
  · rw [indexChunks_eq hsome]
  · rw [Retriever.get?_indexChunks, hlast, Option.some_or]
  · rw [get?_sparse_indexChunks hsound hsome, hlast, Option.some_or]

/-- What other chunks are written does not matter to a chunk. -/
theorem Keeps.indexChunks (hkeeps : Keeps r chunk) (hsound : CorpusSound r) (hsome : chunks ≠ [])
    (hother : last? TextChunk.chunkId chunks chunk.chunkId = none) : Keeps (r.indexChunks chunks) chunk := by
  refine ⟨?_, ?_, ?_⟩
  · rw [indexChunks_eq hsome]
  · rw [Retriever.get?_indexChunks, hother, Option.none_or]
    exact hkeeps.dense
  · rw [get?_sparse_indexChunks hsound hsome, hother, Option.none_or]
    exact hkeeps.ensure.sparse

theorem CorpusSound.indexWith (hsound : CorpusSound r) (hsome : chunks ≠ []) (fault : Option IndexFault) :
    CorpusSound (indexWith fault r chunks).1 := by
  unfold Ingestion.indexWith
  split
  · exact hsound.indexChunks hsome
  · exact hsound
  · exact hsound.ensure
  · exact ⟨hsound.ensure.distinct, hsound.ensure.fresh⟩
  · exact hsound.indexChunks hsome

theorem Keeps.indexWith (hkeeps : Keeps r chunk) (hsound : CorpusSound r) (hsome : chunks ≠ [])
    (hother : last? TextChunk.chunkId chunks chunk.chunkId = none) (fault : Option IndexFault) :
    Keeps (indexWith fault r chunks).1 chunk := by
  unfold Ingestion.indexWith
  split
  · exact hkeeps.indexChunks hsound hsome hother
  · exact hkeeps
  · exact hkeeps.ensure
  · refine ⟨hkeeps.ensure.hydrated, ?_, hkeeps.ensure.sparse⟩
    rw [DenseStore.get?_indexChunks, hother, Option.none_or]
    exact hkeeps.ensure.dense
  · exact hkeeps.indexChunks hsound hsome hother

/-- Only a call that does not break off returns. -/
theorem indexWith_returned {fault : Option IndexFault} (hreturned : (indexWith fault r chunks).2 = true) :
    (indexWith fault r chunks).1 = r.indexChunks chunks := by
  unfold indexWith at hreturned ⊢
  split at hreturned
  · rfl
  all_goals cases hreturned

/-! ### One upload -/

variable {service} {u : Upload} {fault : Option IndexFault}

/-- The chunks of an upload that has been read. -/
def Upload.chunksOf (service : Service Page Image) (u : Upload) (d : ProcessedDocument) : List TextChunk :=
  (buildDocumentChunks service.sha256 (u.ingestion d)).2

theorem ragIndex_processed {d : ProcessedDocument} (hread : u.processed service = .ok d) :
    d.response.ragIndex = none := by
  obtain ⟨pages, -, hok⟩ := Outcome.bind_eq_ok hread
  obtain ⟨preprocessed, -, hok⟩ := Outcome.bind_eq_ok hok
  obtain ⟨progress, -, hok⟩ := Outcome.bind_eq_ok hok
  obtain ⟨extracted, -, hok⟩ := Outcome.bind_eq_ok hok
  obtain rfl := Except.ok.inj hok
  rfl

/-- An upload that has got as far as the stores. -/
structure Indexed (service : Service Page Image) (r : Retriever ids) (u : Upload)
    (fault : Option IndexFault) (d : ProcessedDocument) : Prop where
  read : u.processed service = .ok d
  asked : u.indexForRag = true
  some : u.chunksOf service d ≠ []
  stores : (ingestDocument service r u fault).1 = (indexWith fault r (u.chunksOf service d)).1
  answer : (ingestDocument service r u fault).2 =
    if (indexWith fault r (u.chunksOf service d)).2 then
      .completed (d.response.withIndex ⟨service.sha256 u.fileBytes, (u.chunksOf service d).length⟩)
    else .rejected 503 "RAG indexing dependencies are unavailable."

/-- Everything an upload can do. -/
theorem ingestDocument_cases (service : Service Page Image) (r : Retriever ids) (u : Upload)
    (fault : Option IndexFault) :
    ((ingestDocument service r u fault).1 = r ∧ ∀ response,
        (ingestDocument service r u fault).2 = .completed response → response.ragIndex = none) ∨
      ∃ d, Indexed service r u fault d := by
  by_cases htype : u.contentType.all (· ∉ allowedContentTypes) = true
  · rw [ingestDocument, if_pos htype]
    exact .inl ⟨rfl, fun response hanswer => by cases hanswer⟩
  by_cases hempty : u.fileBytes = []
  · rw [ingestDocument, if_neg htype, if_pos hempty]
    exact .inl ⟨rfl, fun response hanswer => by cases hanswer⟩
  cases hread : u.processed service with
  | error failure =>
      rw [ingestDocument, if_neg htype, if_neg hempty, hread]
      exact .inl ⟨rfl, fun response hanswer => by cases hanswer⟩
  | ok d =>
      have hbody : ingestDocument service r u fault =
          if u.indexForRag then
            if (u.chunksOf service d).isEmpty then (r, .rejected 422 "Document contains no indexable text.")
            else if (indexWith fault r (u.chunksOf service d)).2 then
              ((indexWith fault r (u.chunksOf service d)).1, .completed (d.response.withIndex
                ⟨service.sha256 u.fileBytes, (u.chunksOf service d).length⟩))
            else ((indexWith fault r (u.chunksOf service d)).1,
              .rejected 503 "RAG indexing dependencies are unavailable.")
          else (r, .completed d.response) := by
        rw [ingestDocument, if_neg htype, if_neg hempty, hread]
        rfl
      by_cases hasked : u.indexForRag = true
      · by_cases hnone : (u.chunksOf service d).isEmpty = true
        · rw [hbody, if_pos hasked, if_pos hnone]
          exact .inl ⟨rfl, fun response hanswer => by cases hanswer⟩
        · rw [if_pos hasked, if_neg hnone] at hbody
          refine .inr ⟨d, hread, hasked, by simpa using hnone, ?_, ?_⟩
          · rw [hbody]
            split <;> rfl
          · rw [hbody]
            split <;> rfl
      · rw [hbody, if_neg hasked]
        refine .inl ⟨rfl, fun response hanswer => ?_⟩
        obtain rfl := Answer.completed.inj hanswer
        exact ragIndex_processed hread

/-! ### Every run -/

theorem CorpusSound.ingestDocument (hsound : CorpusSound r) (u : Upload) (fault : Option IndexFault) :
    CorpusSound (ingestDocument service r u fault).1 := by
  obtain ⟨hsame, -⟩ | ⟨d, hindexed⟩ := ingestDocument_cases service r u fault
  · rw [hsame]
    exact hsound
  · rw [hindexed.stores]
    exact hsound.indexWith hindexed.some fault

theorem CorpusSound.ingestRun (hsound : CorpusSound r) (uploads : List (Upload × Option IndexFault)) :
    CorpusSound (ingestRun service r uploads) := by
  induction uploads generalizing r with
  | nil => exact hsound
  | cons upload uploads ih => exact ih (hsound.ingestDocument upload.1 upload.2)

/-- A chunk of a document is not touched by the upload of another. -/
theorem last?_chunksOf {d : ProcessedDocument} {documentId : String} {n : Nat}
    (hother : service.sha256 u.fileBytes ≠ documentId) :
    last? TextChunk.chunkId (u.chunksOf service d) (pageId documentId n) = none := by
  rw [OrderedDict.last?_eq_none_iff]
  intro chunk hchunk hid
  obtain ⟨-, n', -, hid'⟩ := chunk_spec hchunk
  exact hother (pageId_inj (hid'.symm.trans hid)).1

theorem Keeps.ingestDocument {documentId : String} {n : Nat} (hid : chunk.chunkId = pageId documentId n)
    (hkeeps : Keeps r chunk) (hsound : CorpusSound r) (u : Upload) (fault : Option IndexFault)
    (hother : u.indexForRag = true → service.sha256 u.fileBytes ≠ documentId) :
    Keeps (ingestDocument service r u fault).1 chunk := by
  obtain ⟨hsame, -⟩ | ⟨d, hindexed⟩ := ingestDocument_cases service r u fault
  · rw [hsame]
    exact hkeeps
  · rw [hindexed.stores]
    apply hkeeps.indexWith hsound hindexed.some
    rw [hid]
    exact last?_chunksOf (hother hindexed.asked)

/-- A chunk that is kept stays, whatever other documents are uploaded and wherever their indexing breaks
off. -/
theorem Keeps.ingestRun {documentId : String} {n : Nat} (hid : chunk.chunkId = pageId documentId n)
    (hkeeps : Keeps r chunk) (hsound : CorpusSound r) (uploads : List (Upload × Option IndexFault))
    (hother : ∀ e ∈ uploads, e.1.indexForRag = true → service.sha256 e.1.fileBytes ≠ documentId) :
    Keeps (ingestRun service r uploads) chunk := by
  induction uploads generalizing r with
  | nil => exact hkeeps
  | cons upload uploads ih =>
      have hstep := hkeeps.ingestDocument hid hsound upload.1 upload.2 (hother upload List.mem_cons_self)
      exact ih hstep (hsound.ingestDocument upload.1 upload.2)
        fun e he => hother e (List.mem_cons_of_mem _ he)

/-- An upload that is answered as indexed has had its pages that are not blank written to both stores, and
they stay there, and are there after a restart, through any uploads of other documents, wherever the indexing
of these breaks off. -/
theorem indexed_upload_kept (service : Service Page Image) (store : DenseStore ids)
    {before after : List (Upload × Option IndexFault)} {u : Upload} {fault : Option IndexFault}
    {response : IngestResponse} {result : RAGIndexResult}
    (hanswer : (ingestDocument service (ingestRun service (Retriever.start store) before) u fault).2 =
      .completed response) (hindex : response.ragIndex = some result)
    (hother : ∀ e ∈ after, e.1.indexForRag = true →
      service.sha256 e.1.fileBytes ≠ service.sha256 u.fileBytes) :
    ∃ d, u.processed service = .ok d ∧ result.documentId = service.sha256 u.fileBytes ∧
      result.chunkCount = (u.chunksOf service d).length ∧ 0 < result.chunkCount ∧
      ∀ chunk ∈ u.chunksOf service d, ∀ r,
        r = ingestRun service (Retriever.start store) (before ++ (u, fault) :: after) →
        chunk ∈ r.dense.chunks ∧ chunk ∈ r.sparse ∧
          chunk ∈ (Retriever.start r.dense).ensureSparseHydrated.sparse := by
  have hsound : CorpusSound (ingestRun service (Retriever.start store) before) :=
    (corpusSound_start store).ingestRun before
  obtain ⟨-, hnone⟩ | ⟨d, hindexed⟩ :=
    ingestDocument_cases service (ingestRun service (Retriever.start store) before) u fault
  · rw [hnone response hanswer] at hindex
    cases hindex
  · have hreturned : (indexWith fault (ingestRun service (Retriever.start store) before)
        (u.chunksOf service d)).2 = true := by
      by_contra hbroken
      rw [hindexed.answer, if_neg hbroken] at hanswer
      cases hanswer
    rw [hindexed.answer, if_pos hreturned] at hanswer
    obtain rfl := Answer.completed.inj hanswer
    obtain rfl := Option.some.inj hindex
    refine ⟨d, hindexed.read, rfl, rfl, List.length_pos_of_ne_nil hindexed.some, ?_⟩
    intro chunk hchunk r hr
    have hafter : r = ingestRun service
        (ingestDocument service (ingestRun service (Retriever.start store) before) u fault).1 after := by
      rw [hr, ingestRun, List.foldl_append]
      rfl
    obtain ⟨-, n, -, hid⟩ := chunk_spec hchunk
    have hkeeps : Keeps r chunk := by
      rw [hafter]
      refine Keeps.ingestRun hid ?_ (hsound.ingestDocument u fault) after hother
      rw [hindexed.stores, indexWith_returned hreturned]
      exact keeps_indexChunks hsound (Rag.distinct_buildDocumentChunks _ _) hchunk
    have hdistinct : Distinct TextChunk.chunkId r.sparse := by
      rw [hafter]
      exact ((hsound.ingestDocument u fault).ingestRun after).distinct
    refine ⟨?_, hdistinct.mem_iff.mpr hkeeps.sparse, ?_⟩
    · rw [r.dense.distinct_chunks.mem_iff, ← DenseStore.get?_eq]
      exact hkeeps.dense
    · refine r.dense.distinct_loadChunks.mem_iff.mpr ?_
      rw [r.dense.get?_loadChunks]
      exact hkeeps.dense

/-- Any file is one page, and the engine reads the same on all. -/
def plainWorld : World Unit Unit where
  llmAvailable := true
  ocrVarianceThreshold := .zero
  loadPdf := fun _ => .ok [()]
  loadImage := fun _ => .ok ()
  preprocessPage := .ok
  pageToGrayscale := .ok
  tesseract := fun _ => .ok ⟨[], "TOTAL 5".toList⟩
  easyocrReader := none
  extractTextViaVision := fun _ => .error (.raised "refused")
  extractWithLlm := fun _ => .ok ⟨[], [], [], .zero, .zero⟩
  toFloat := fun _ => none
  tesseract_short := by
    intro _ data hdata
    obtain rfl := Except.ok.inj hdata
    decide
  easyocr_short := fun _ hread => by cases hread

/-- The digest tells files by their lengths. -/
def plainService : Service Unit Unit where
  world := plainWorld
  sha256 := fun bytes => toString bytes.length
  repr := fun _ => ""
  str := fun _ => ""

def scanUpload : Upload := ⟨some "image/png", some "a.png", [1], true⟩

/-- A scan is indexed, and the indexing of another breaks off behind the dense store. -/
theorem indexed_upload_kept_scan :
    ∃ d, scanUpload.processed plainService = .ok d ∧ 0 < (scanUpload.chunksOf plainService d).length ∧
      ∀ chunk ∈ scanUpload.chunksOf plainService d, ∀ r,
        r = ingestRun plainService (Retriever.start (DenseStore.empty Rag.nameIds))
          ([] ++ (scanUpload, none) :: [({ scanUpload with fileBytes := [1, 2] }, some .answerLost)]) →
        chunk ∈ r.dense.chunks ∧ chunk ∈ r.sparse ∧
          chunk ∈ (Retriever.start r.dense).ensureSparseHydrated.sparse := by
  have hother : ∀ e ∈ [(({ scanUpload with fileBytes := [1, 2] } : Upload), some IndexFault.answerLost)],
      e.1.indexForRag = true → plainService.sha256 e.1.fileBytes ≠ plainService.sha256 scanUpload.fileBytes := by
    intro e he _
    obtain rfl := List.mem_singleton.mp he
    decide
  have hanswer : (ingestDocument plainService (ingestRun plainService
      (Retriever.start (DenseStore.empty Rag.nameIds)) []) scanUpload none).2 = .completed _ := rfl
  obtain ⟨d, hread, -, hcount, hpos, hkept⟩ := indexed_upload_kept plainService
    (DenseStore.empty Rag.nameIds) hanswer rfl hother
  exact ⟨d, hread, hcount ▸ hpos, hkept⟩

end CoreMesh.Ingestion
