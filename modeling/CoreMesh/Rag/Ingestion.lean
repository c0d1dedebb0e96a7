import CoreMesh.Lib.Separators
import CoreMesh.Rag.Retriever
import CoreMesh.SqlEngine.Sandbox

/-!
# Documents that are ingested again

The chunks of a document are its pages that are not blank, under identifiers made from the document's
bytes and the numbers of the pages. The stores only ever add or overwrite.
-/

namespace CoreMesh.Rag

open OrderedDict (Distinct last?)
open SqlEngine (strip)

variable {ids : Uuid5}

/-- A file, and what has been read from its pages. -/
structure Ingestion where
  fileBytes : List UInt8
  filename : String
  pageTexts : List String

def stripped (text : String) : String := String.ofList (strip text.toList)

/-- `sha256(file_bytes).hexdigest()`. -/
abbrev Digest := List UInt8 → String

section Chunks

variable (sha256 : Digest)

def Ingestion.documentId (i : Ingestion) : String := sha256 i.fileBytes

def Ingestion.source (i : Ingestion) : String :=
  if stripped i.filename = "" then "upload" else stripped i.filename

def pageId (documentId : String) (pageNumber : Nat) : String :=
  documentId ++ ":page:" ++ toString pageNumber

def Ingestion.chunk (i : Ingestion) (text : String) (pageNumber : Nat) : TextChunk where
  chunkId := pageId (i.documentId sha256) pageNumber
  text := stripped text
  source := i.source
  metadata := [("document_id", .str (i.documentId sha256)), ("filename", .str i.source),
    ("page_number", .num (toString pageNumber))]

/-- The pages that are not blank, numbered from one. -/
def Ingestion.numberedPages (i : Ingestion) : List (String × Nat) :=
  (i.pageTexts.zipIdx 1).filter fun page => stripped page.1 ≠ ""

def buildDocumentChunks (i : Ingestion) : String × List TextChunk :=
  (i.documentId sha256, i.numberedPages.map fun page => i.chunk sha256 page.1 page.2)

/-- The chunks of one document after another are indexed. -/
def ingestAll (r : Retriever ids) (history : List Ingestion) : Retriever ids :=
  r.indexAll (history.map fun i => (buildDocumentChunks sha256 i).2)

/-- The numbers of the pages that are not blank. -/
def Ingestion.pages (i : Ingestion) : List Nat := i.numberedPages.map Prod.snd

/-- The chunk is stored for the document. -/
def TextChunk.IsOf (documentId : String) (chunk : TextChunk) : Prop :=
  chunk.metadata.lookup "document_id" = some (.str documentId)

/-- Of the document, the chunks of this ingestion are stored, and no others. -/
def Retriever.Holds (r : Retriever ids) (i : Ingestion) : Prop :=
  (∀ chunk, (chunk ∈ r.dense.chunks ∧ chunk.IsOf (i.documentId sha256)) ↔
      chunk ∈ (buildDocumentChunks sha256 i).2) ∧
    ∀ chunk, (chunk ∈ r.sparse ∧ chunk.IsOf (i.documentId sha256)) ↔
      chunk ∈ (buildDocumentChunks sha256 i).2

end Chunks

/-! ### The chunks of a document -/

section Chunks

variable {sha256 : Digest} {i : Ingestion}

theorem pageId_inj {documentId documentId' : String} {n n' : Nat}
    (heq : pageId documentId n = pageId documentId' n') : documentId = documentId' ∧ n = n' := by
  have hlist := congrArg String.toList heq
  have hplain : ∀ n : Nat, ':' ∉ (toString n).toList := fun n hmem =>
    absurd ((Separators.digits_toString n).2.1 _ hmem) (by decide)
  have hshape : ∀ (d : String) (n : Nat),
      (pageId d n).toList = (d.toList ++ ":page".toList) ++ ':' :: (toString n).toList := by
    intro d n
    simp [pageId, String.toList_append]
  rw [hshape, hshape] at hlist
  obtain ⟨hfront, hdigits⟩ := Separators.last_separator (hplain n) (hplain n') hlist
  refine ⟨String.toList_inj.mp (List.append_cancel_right hfront), ?_⟩
  rw [← (Separators.digits_toString n).2.2, hdigits, (Separators.digits_toString n').2.2]

theorem chunkIds_eq (sha256 : Digest) (i : Ingestion) :
    (buildDocumentChunks sha256 i).2.map TextChunk.chunkId =
      i.pages.map (pageId (i.documentId sha256)) := by
  rw [buildDocumentChunks, Ingestion.pages, List.map_map, List.map_map]
  rfl

theorem distinct_buildDocumentChunks (sha256 : Digest) (i : Ingestion) :
    Distinct TextChunk.chunkId (buildDocumentChunks sha256 i).2 := by
  have hpages : i.pages.Nodup := by
    have hsub : i.pages.Sublist ((i.pageTexts.zipIdx 1).map Prod.snd) := List.filter_sublist.map _
    rw [List.zipIdx_map_snd] at hsub
    exact hsub.nodup List.nodup_range'
  rw [Distinct, chunkIds_eq]
  exact hpages.map fun n n' heq => (pageId_inj heq).2

theorem mem_pages {sha256 : Digest} {n : Nat} :
    n ∈ i.pages ↔ pageId (i.documentId sha256) n ∈
      (buildDocumentChunks sha256 i).2.map TextChunk.chunkId := by
  rw [chunkIds_eq, List.mem_map]
  constructor
  · exact fun hn => ⟨n, hn, rfl⟩
  · rintro ⟨n', hn', heq⟩
    rwa [← (pageId_inj heq).2]

/-- The chunks of a document are told by their metadata and by their identifiers. -/
theorem chunk_spec {chunk : TextChunk} (hchunk : chunk ∈ (buildDocumentChunks sha256 i).2) :
    (∀ documentId, chunk.IsOf documentId ↔ i.documentId sha256 = documentId) ∧
      ∃ n ∈ i.pages, chunk.chunkId = pageId (i.documentId sha256) n := by
  obtain ⟨page, hpage, rfl⟩ := List.mem_map.mp hchunk
  refine ⟨fun documentId => ?_, page.2, List.mem_map_of_mem hpage, rfl⟩
  show some (Json.str (i.documentId sha256)) = some (Json.str documentId) ↔ _
  rw [Option.some_inj, Json.str.injEq]

end Chunks

/-! ### What is stored of a document -/

section History

variable {sha256 : Digest} {i : Ingestion} {history before after : List Ingestion}

/-- All chunks that have been built, in their order. -/
def built (sha256 : Digest) (history : List Ingestion) : List TextChunk :=
  history.flatMap fun i => (buildDocumentChunks sha256 i).2

theorem mem_built {chunk : TextChunk} :
    chunk ∈ built sha256 history ↔ ∃ i ∈ history, chunk ∈ (buildDocumentChunks sha256 i).2 :=
  List.mem_flatMap

theorem get?_ingestAll (history : List Ingestion) (id : String) :
    (ingestAll sha256 (Retriever.start (DenseStore.empty ids)) history).dense.get? id =
      last? TextChunk.chunkId (built sha256 history) id := by
  rw [ingestAll, Retriever.get?_indexAll]
  exact Option.or_none

/-- What the stores have under an identifier is what was built last with it. -/
theorem stored_ingestAll (history : List Ingestion) (chunk : TextChunk) :
    (chunk ∈ (ingestAll sha256 (Retriever.start (DenseStore.empty ids)) history).dense.chunks ↔
        last? TextChunk.chunkId (built sha256 history) chunk.chunkId = some chunk) ∧
      (chunk ∈ (ingestAll sha256 (Retriever.start (DenseStore.empty ids)) history).sparse ↔
        last? TextChunk.chunkId (built sha256 history) chunk.chunkId = some chunk) := by
  have hstart : (Retriever.start (DenseStore.empty ids)).Agrees := ⟨List.nodup_nil, fun _ => rfl⟩
  have hagrees := hstart.indexAll (.start _) (history.map fun i => (buildDocumentChunks sha256 i).2)
  constructor
  · rw [← get?_ingestAll, DenseStore.get?_eq]
    exact (DenseStore.distinct_chunks _).mem_iff
  · rw [← get?_ingestAll]
    exact hagrees.distinct.mem_iff.trans (by rw [hagrees.get?]; rfl)

theorem last?_built_append (history history' : List Ingestion) (id : String) :
    last? TextChunk.chunkId (built sha256 (history ++ history')) id =
      (last? TextChunk.chunkId (built sha256 history') id).or
        (last? TextChunk.chunkId (built sha256 history) id) := by
  rw [built, List.flatMap_append, OrderedDict.last?_append]
  rfl

/-- The last chunk under the identifier of a page, if the document has not been ingested again. -/
theorem last?_page (hlatest : ∀ j ∈ after, j.documentId sha256 ≠ i.documentId sha256) (n : Nat) :
    last? TextChunk.chunkId (built sha256 (before ++ i :: after)) (pageId (i.documentId sha256) n) =
      (last? TextChunk.chunkId (buildDocumentChunks sha256 i).2 (pageId (i.documentId sha256) n)).or
        (last? TextChunk.chunkId (built sha256 before) (pageId (i.documentId sha256) n)) := by
  have hafter : last? TextChunk.chunkId (built sha256 after) (pageId (i.documentId sha256) n) = none := by
    rw [OrderedDict.last?_eq_none_iff]
    intro chunk hchunk hid
    obtain ⟨j, hj, hchunk⟩ := mem_built.mp hchunk
    obtain ⟨-, n', -, hid'⟩ := chunk_spec hchunk
    exact hlatest j hj (pageId_inj (hid'.symm.trans hid)).1
  have hcons : built sha256 (i :: after) = (buildDocumentChunks sha256 i).2 ++ built sha256 after :=
    List.flatMap_cons
  rw [last?_built_append, hcons, OrderedDict.last?_append, hafter, Option.none_or]

/-- What is stored of a document is its latest chunks exactly if its latest pages are all it ever had. -/
theorem latest_iff (hlatest : ∀ j ∈ after, j.documentId sha256 ≠ i.documentId sha256) :
    (∀ chunk : TextChunk, (last? TextChunk.chunkId (built sha256 (before ++ i :: after)) chunk.chunkId =
          some chunk ∧ chunk.IsOf (i.documentId sha256)) ↔ chunk ∈ (buildDocumentChunks sha256 i).2) ↔
      ∀ j ∈ before, j.documentId sha256 = i.documentId sha256 → ∀ n ∈ j.pages, n ∈ i.pages := by
  constructor
  · intro hstored j hj hsame n hn
    by_contra hmissing
    have hnone : last? TextChunk.chunkId (buildDocumentChunks sha256 i).2
        (pageId (i.documentId sha256) n) = none := by
      rw [OrderedDict.last?_eq_none_iff]
      intro chunk hchunk hid
      exact hmissing (mem_pages.mpr (by rw [← hid]; exact List.mem_map_of_mem hchunk))
    obtain ⟨old, hold, hid⟩ := List.mem_map.mp (mem_pages.mp hn)
    rw [hsame] at hid
    obtain ⟨stale, hstale⟩ : ∃ stale, last? TextChunk.chunkId (built sha256 before)
        (pageId (i.documentId sha256) n) = some stale := by
      rw [← Option.ne_none_iff_exists', ne_eq, OrderedDict.last?_eq_none_iff]
      exact fun hall => hall old (mem_built.mpr ⟨j, hj, hold⟩) hid
    obtain ⟨hstaleId, hstaleMem⟩ := OrderedDict.key_of_last? hstale
    obtain ⟨j', hj', hbuilt⟩ := mem_built.mp hstaleMem
    obtain ⟨hof, n', hn', hpage⟩ := chunk_spec hbuilt
    have hkept : stale ∈ (buildDocumentChunks sha256 i).2 := by
      refine (hstored stale).mp ⟨?_, (hof _).mpr (pageId_inj (hpage.symm.trans hstaleId)).1⟩
      rw [hstaleId, last?_page hlatest, hnone, hstale]
      rfl
    exact hmissing (mem_pages.mpr (by rw [← hstaleId]; exact List.mem_map_of_mem hkept))
  · intro hpages chunk
    constructor
    · rintro ⟨hlast, hof⟩
      obtain ⟨-, hmem⟩ := OrderedDict.key_of_last? hlast
      obtain ⟨j, hj, hbuilt⟩ := mem_built.mp hmem
      obtain ⟨hof', n, hn, hid⟩ := chunk_spec hbuilt
      have hsame := (hof' _).mp hof
      have hin : n ∈ i.pages := by
        obtain hbefore | hrest := List.mem_append.mp hj
        · exact hpages j hbefore hsame n hn
        · obtain rfl | hafter := List.mem_cons.mp hrest
          · exact hn
          · exact absurd hsame (hlatest j hafter)
      obtain ⟨own, hown, hownId⟩ := List.mem_map.mp (mem_pages.mp hin)
      have hlast' := (distinct_buildDocumentChunks sha256 i).last?_eq hown
      rw [hid, hsame, last?_page hlatest, ← hownId, hlast', Option.some_or] at hlast
      obtain rfl := Option.some.inj hlast
      exact hown
    · intro hchunk
      obtain ⟨hof, n, hn, hid⟩ := chunk_spec hchunk
      have hlast := (distinct_buildDocumentChunks sha256 i).last?_eq hchunk
      refine ⟨?_, (hof _).mpr rfl⟩
      rw [hid, last?_page hlatest, ← hid, hlast, Option.some_or]

/-- After any ingestions, both stores hold of a document exactly the chunks of its latest ingestion if and
only if every page that had a text in an earlier one has a text in the latest. -/
theorem holds_latest_iff (ids : Uuid5) (hlatest : ∀ j ∈ after, j.documentId sha256 ≠ i.documentId sha256) :
    (ingestAll sha256 (Retriever.start (DenseStore.empty ids)) (before ++ i :: after)).Holds sha256 i ↔
      ∀ j ∈ before, j.documentId sha256 = i.documentId sha256 → ∀ n ∈ j.pages, n ∈ i.pages := by
  rw [← latest_iff hlatest, Retriever.Holds]
  constructor
  · rintro ⟨hdense, -⟩ chunk
    exact (and_congr_left' (stored_ingestAll _ chunk).1).symm.trans (hdense chunk)
  · intro hstored
    refine ⟨fun chunk => ?_, fun chunk => ?_⟩
    · rw [(stored_ingestAll _ chunk).1]
      exact hstored chunk
    · rw [(stored_ingestAll _ chunk).2]
      exact hstored chunk

end History

/-! ### A page that turns blank -/

def pdfDigest : Digest := fun _ => "315d429b7714cedb6ad04ac31240145257692630457f3c88253c5beceac76027"

/-- The same file, with what was read from its two pages. -/
def scan (first second : String) : Ingestion := ⟨[37, 80, 68, 70], "scan.pdf", [first, second]⟩

theorem holds_latest_corrected :
    (ingestAll pdfDigest (Retriever.start (DenseStore.empty nameIds))
      ([scan "total" ""] ++ scan "Total" "due" :: [])).Holds pdfDigest (scan "Total" "due") := by
  refine (holds_latest_iff nameIds (fun j hj => absurd hj List.not_mem_nil)).mpr ?_
  intro j hj _
  obtain rfl := List.mem_singleton.mp hj
  decide

/-- The second page is blank when the file is read again, and its old text stays. -/
theorem not_holds_latest_of_blank :
    (scan "Total" "due").chunk pdfDigest "due" 2 ∈ (ingestAll pdfDigest
        (Retriever.start (DenseStore.empty nameIds)) [scan "Total" "due", scan "Total" ""]).dense.chunks ∧
      ¬ (ingestAll pdfDigest (Retriever.start (DenseStore.empty nameIds))
        [scan "Total" "due", scan "Total" ""]).Holds pdfDigest (scan "Total" "") := by
  have hstale : (scan "Total" "due").chunk pdfDigest "due" 2 ∈ (ingestAll pdfDigest
      (Retriever.start (DenseStore.empty nameIds)) [scan "Total" "due", scan "Total" ""]).dense.chunks :=
    (stored_ingestAll _ _).1.mpr rfl
  refine ⟨hstale, fun hholds => ?_⟩
  have hkept := (hholds.1 _).mp ⟨hstale, rfl⟩
  obtain ⟨-, n, hn, hid⟩ := chunk_spec hkept
  have hpage : n = 2 := (pageId_inj hid).2.symm
  subst hpage
  exact absurd hn (by decide)

end CoreMesh.Rag
