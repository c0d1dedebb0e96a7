import CoreMesh.Lib.Json
import CoreMesh.Lib.OrderedDict
import Mathlib.Data.List.Find
import Mathlib.Data.List.Sort
import Mathlib.Data.String.Basic

/-!
# The two stores of the retriever

Dense points are kept under identifiers made from those of their chunks; the sparse corpus is a
dictionary in process memory, rebuilt from the dense points once.
-/

namespace CoreMesh.Rag

open OrderedDict (Distinct last?)

structure TextChunk where
  chunkId : String
  text : String
  source : String
  metadata : List (String × Json)

/-- `uuid.uuid5` in the namespace of URLs, with no two names that collide. -/
structure Uuid5 where
  ofName : String → String
  injective : Function.Injective ofName

def Uuid5.stablePointId (ids : Uuid5) (chunkId : String) : String := ids.ofName ("coremesh:rag:" ++ chunkId)

theorem Uuid5.stablePointId_inj {ids : Uuid5} {chunkId chunkId' : String} :
    ids.stablePointId chunkId = ids.stablePointId chunkId' ↔ chunkId = chunkId' := by
  rw [stablePointId, stablePointId, ids.injective.eq_iff, String.ext_iff, String.toList_append,
    String.toList_append, List.append_cancel_left_eq, ← String.ext_iff]

structure Point where
  id : String
  payload : TextChunk

/-- A Qdrant collection: each point has the identifier of its chunk. -/
structure DenseStore (ids : Uuid5) where
  points : List Point
  distinct : Distinct Point.id points
  named : ∀ point ∈ points, point.id = ids.stablePointId point.payload.chunkId

def DenseStore.empty (ids : Uuid5) : DenseStore ids where
  points := []
  distinct := List.nodup_nil
  named := fun _ hpoint => absurd hpoint List.not_mem_nil

variable {ids : Uuid5}

def toPoint (ids : Uuid5) (chunk : TextChunk) : Point := ⟨ids.stablePointId chunk.chunkId, chunk⟩

/-- `QdrantDenseIndex.index_chunks`. -/
def DenseStore.indexChunks (store : DenseStore ids) (chunks : List TextChunk) : DenseStore ids where
  points := OrderedDict.insertAll Point.id store.points (chunks.map (toPoint ids))
  distinct := store.distinct.insertAll _
  named := by
    intro point hpoint
    obtain hold | hnew := OrderedDict.mem_insertAll hpoint
    · exact store.named point hold
    · obtain ⟨chunk, -, rfl⟩ := List.mem_map.mp hnew
      rfl

/-! ### Loading -/

/-- `scroll`: a page of the points, in the order of their identifiers, and where the next one begins. -/
def scroll (points : List Point) (limit : Nat) (offset : Option String) : List Point × Option String :=
  let listed := points.insertionSort fun a b => a.id ≤ b.id
  let rest := match offset with
    | none => listed
    | some first => listed.dropWhile fun point => point.id < first
  (rest.take limit, (rest.drop limit).head?.map Point.id)

/-- The loop of `load_chunks`, for as many pages. -/
def loadPages (points : List Point) : Nat → Option String → Option (List Point)
  | 0, _ => none
  | fuel + 1, offset =>
      match scroll points 256 offset with
      | (page, none) => some page
      | (page, some next) => (loadPages points fuel (some next)).map (page ++ ·)

def DenseStore.loadChunks (store : DenseStore ids) : List TextChunk :=
  (((loadPages store.points (store.points.length + 1) none).getD []).map Point.payload).insertionSort
    fun a b => a.chunkId ≤ b.chunkId

/-! ### What the stores hold -/

/-- The chunk stored under an identifier. -/
def DenseStore.get? (store : DenseStore ids) (chunkId : String) : Option TextChunk :=
  (OrderedDict.get? Point.id store.points (ids.stablePointId chunkId)).map Point.payload

def DenseStore.chunks (store : DenseStore ids) : List TextChunk := store.points.map Point.payload

theorem DenseStore.distinct_chunks (store : DenseStore ids) :
    Distinct TextChunk.chunkId store.chunks := by
  have hids : store.points.map Point.id =
      (store.chunks.map TextChunk.chunkId).map ids.stablePointId := by
    rw [chunks, List.map_map, List.map_map]
    exact List.map_congr_left store.named
  have hdistinct := store.distinct
  rw [Distinct, hids] at hdistinct
  exact hdistinct.of_map _

theorem DenseStore.get?_eq (store : DenseStore ids) (chunkId : String) :
    store.get? chunkId = OrderedDict.get? TextChunk.chunkId store.chunks chunkId := by
  rw [get?, chunks, OrderedDict.get?, OrderedDict.get?, List.find?_map]
  congr 1
  refine List.find?_congr fun point hpoint => ?_
  rw [store.named point hpoint]
  simp [Uuid5.stablePointId_inj]

theorem DenseStore.get?_indexChunks (store : DenseStore ids) (chunks : List TextChunk)
    (chunkId : String) :
    (store.indexChunks chunks).get? chunkId =
      (last? TextChunk.chunkId chunks chunkId).or (store.get? chunkId) := by
  have hadded : last? Point.id (chunks.map (toPoint ids)) (ids.stablePointId chunkId) =
      (last? TextChunk.chunkId chunks chunkId).map (toPoint ids) := by
    rw [last?, last?, ← List.map_reverse, OrderedDict.get?, OrderedDict.get?, List.find?_map]
    congr 1
    refine List.find?_congr fun chunk _ => ?_
    simp [toPoint, Uuid5.stablePointId_inj]
  rw [get?, indexChunks, OrderedDict.get?_insertAll, hadded, get?]
  cases last? TextChunk.chunkId chunks chunkId with
  | none => rfl
  | some chunk => rfl

/-! ### What is loaded -/

instance : Std.Total fun a b : Point => a.id ≤ b.id := ⟨fun a b => le_total a.id b.id⟩

instance : IsTrans Point fun a b => a.id ≤ b.id := ⟨fun _ _ _ => le_trans⟩

instance : Std.Total fun a b : TextChunk => a.chunkId ≤ b.chunkId :=
  ⟨fun a b => le_total a.chunkId b.chunkId⟩

instance : IsTrans TextChunk fun a b => a.chunkId ≤ b.chunkId := ⟨fun _ _ _ => le_trans⟩

theorem DenseStore.pairwise_listed (store : DenseStore ids) :
    (store.points.insertionSort fun a b => a.id ≤ b.id).Pairwise fun a b => a.id < b.id := by
  have hsorted := List.pairwise_insertionSort (fun a b : Point => a.id ≤ b.id) store.points
  have hdistinct : (store.points.insertionSort fun a b => a.id ≤ b.id).Pairwise
      fun a b => a.id ≠ b.id :=
    List.pairwise_map.mp
      (((List.perm_insertionSort _ store.points).map Point.id).nodup_iff.mpr store.distinct)
  exact (hsorted.and hdistinct).imp fun h => lt_of_le_of_ne h.1 h.2

theorem DenseStore.scroll_some (store : DenseStore ids) {front rest : List Point} {first : Point}
    (hlisted : (store.points.insertionSort fun a b => a.id ≤ b.id) = front ++ first :: rest)
    (limit : Nat) :
    scroll store.points limit (some first.id) =
      ((first :: rest).take limit, ((first :: rest).drop limit).head?.map Point.id) := by
  have hsorted := store.pairwise_listed
  rw [hlisted] at hsorted
  obtain ⟨-, -, hbefore⟩ := List.pairwise_append.mp hsorted
  have hskip : (front ++ first :: rest).dropWhile (fun point => decide (point.id < first.id)) =
      first :: rest := by
    rw [List.dropWhile_append_of_pos fun point hpoint => by
      simpa using hbefore point hpoint first List.mem_cons_self]
    exact List.dropWhile_cons_of_neg (by simp)
  rw [scroll, hlisted, hskip]

/-- From any offset on, the pages are the points that are left. -/
theorem DenseStore.loadPages_eq (store : DenseStore ids) {front rest : List Point}
    {offset : Option String}
    (hlisted : (store.points.insertionSort fun a b => a.id ≤ b.id) = front ++ rest)
    (hscroll : scroll store.points 256 offset = (rest.take 256, (rest.drop 256).head?.map Point.id))
    {fuel : Nat} (hfuel : rest.length < fuel) : loadPages store.points fuel offset = some rest := by
  induction fuel generalizing front rest offset with
  | zero => cases hfuel
  | succ fuel ih =>
      rw [loadPages, hscroll]
      cases hmore : rest.drop 256 with
      | nil =>
          show some _ = some _
          rw [List.take_of_length_le (List.drop_eq_nil_iff.mp hmore)]
      | cons next later =>
          have hcut : rest.take 256 ++ next :: later = rest := by
            rw [← hmore, List.take_append_drop]
          have hlisted' : (store.points.insertionSort fun a b => a.id ≤ b.id) =
              (front ++ rest.take 256) ++ next :: later := by
            rw [List.append_assoc, hcut, hlisted]
          have hlater : (next :: later).length < fuel := by
            rw [← hmore, List.length_drop]
            have hlength := congrArg List.length hmore
            rw [List.length_drop, List.length_cons] at hlength
            omega
          have hrest := ih hlisted' (store.scroll_some hlisted' 256) hlater
          show (loadPages store.points fuel (some next.id)).map _ = _
          rw [hrest, Option.map_some, hcut]

/-- Loading lists every chunk that is stored. -/
theorem DenseStore.perm_loadChunks (store : DenseStore ids) :
    store.loadChunks.Perm store.chunks := by
  have hperm := List.perm_insertionSort (fun a b : Point => a.id ≤ b.id) store.points
  have hfuel : (store.points.insertionSort fun a b => a.id ≤ b.id).length < store.points.length + 1 := by
    rw [hperm.length_eq]
    exact Nat.lt_succ_self _
  have hfirst : scroll store.points 256 none =
      ((store.points.insertionSort fun a b => a.id ≤ b.id).take 256,
        ((store.points.insertionSort fun a b => a.id ≤ b.id).drop 256).head?.map Point.id) := rfl
  have hpages := store.loadPages_eq (List.nil_append _).symm hfirst hfuel
  rw [loadChunks, hpages]
  exact (List.perm_insertionSort _ _).trans (hperm.map Point.payload)

theorem DenseStore.pairwise_loadChunks (store : DenseStore ids) :
    store.loadChunks.Pairwise fun a b => a.chunkId < b.chunkId := by
  have hsorted := List.pairwise_insertionSort (fun a b : TextChunk => a.chunkId ≤ b.chunkId)
    (((loadPages store.points (store.points.length + 1) none).getD []).map Point.payload)
  have hdistinct : store.loadChunks.Pairwise fun a b => a.chunkId ≠ b.chunkId :=
    List.pairwise_map.mp
      ((store.perm_loadChunks.map TextChunk.chunkId).nodup_iff.mpr store.distinct_chunks)
  exact (List.Pairwise.and hsorted hdistinct).imp fun h => lt_of_le_of_ne h.1 h.2

theorem DenseStore.distinct_loadChunks (store : DenseStore ids) :
    Distinct TextChunk.chunkId store.loadChunks :=
  (store.perm_loadChunks.map TextChunk.chunkId).nodup_iff.mpr store.distinct_chunks

theorem DenseStore.get?_loadChunks (store : DenseStore ids) (id : String) :
    OrderedDict.get? TextChunk.chunkId store.loadChunks id = store.get? id := by
  rw [store.get?_eq]
  exact (store.distinct_loadChunks.perm_iff store.distinct_chunks).mp store.perm_loadChunks id

/-! ### The sparse corpus -/

/-- `BM25SparseIndex.upsert_chunks`, on the corpus. -/
def upsertChunks (corpus chunks : List TextChunk) : List TextChunk :=
  OrderedDict.insertAll TextChunk.chunkId (OrderedDict.insertAll TextChunk.chunkId [] corpus) chunks

theorem upsertChunks_eq {corpus : List TextChunk} (hdistinct : Distinct TextChunk.chunkId corpus)
    (chunks : List TextChunk) :
    upsertChunks corpus chunks = OrderedDict.insertAll TextChunk.chunkId corpus chunks := by
  rw [upsertChunks, OrderedDict.insertAll_of_distinct hdistinct]

end CoreMesh.Rag
