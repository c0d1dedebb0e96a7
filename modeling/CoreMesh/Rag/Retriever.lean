import CoreMesh.Rag.Hydration

/-!
# One call after another

What an indexing call does to the stores when no other call is under way, and what they hold after a
sequence of such calls.
-/

namespace CoreMesh.Rag

open OrderedDict (Distinct last?)

variable {ids : Uuid5}

structure Retriever (ids : Uuid5) where
  dense : DenseStore ids
  sparse : List TextChunk
  sparseHydrated : Bool

/-- A retriever that has just been made, over the points that are there. -/
def Retriever.start (dense : DenseStore ids) : Retriever ids := ⟨dense, [], false⟩

def Retriever.ensureSparseHydrated (r : Retriever ids) : Retriever ids :=
  if r.sparseHydrated || !r.sparse.isEmpty then { r with sparseHydrated := true }
  else { r with sparse := r.dense.loadChunks, sparseHydrated := true }

def Retriever.indexChunks (r : Retriever ids) (chunks : List TextChunk) : Retriever ids :=
  if chunks.isEmpty then r
  else
    let r := r.ensureSparseHydrated
    { dense := r.dense.indexChunks chunks
      sparse := upsertChunks r.sparse chunks
      sparseHydrated := true }

/-! ### What the stores hold -/

/-- The corpus holds what the dense store does, or is still to be rebuilt from it. -/
inductive Retriever.Synced (r : Retriever ids) : Prop where
  | fresh (hflag : r.sparseHydrated = false) (hsparse : r.sparse = [])
  | hydrated (hflag : r.sparseHydrated = true) (hdistinct : Distinct TextChunk.chunkId r.sparse)
      (hagrees : ∀ id, OrderedDict.get? TextChunk.chunkId r.sparse id = r.dense.get? id)

variable {r : Retriever ids}

theorem Retriever.Synced.start (dense : DenseStore ids) : (Retriever.start dense).Synced :=
  .fresh rfl rfl

@[simp] theorem Retriever.dense_ensureSparseHydrated (r : Retriever ids) :
    r.ensureSparseHydrated.dense = r.dense := by
  rw [ensureSparseHydrated]
  split <;> rfl

/-- What the corpus holds once it has been rebuilt. -/
theorem Retriever.Synced.ensureSparseHydrated (hsynced : r.Synced) :
    r.ensureSparseHydrated.sparseHydrated = true ∧
      Distinct TextChunk.chunkId r.ensureSparseHydrated.sparse ∧
      ∀ id, OrderedDict.get? TextChunk.chunkId r.ensureSparseHydrated.sparse id = r.dense.get? id := by
  rw [Retriever.ensureSparseHydrated]
  cases hsynced with
  | fresh hflag hsparse =>
      rw [hflag, hsparse]
      exact ⟨rfl, r.dense.distinct_loadChunks, r.dense.get?_loadChunks⟩
  | hydrated hflag hdistinct hagrees =>
      rw [hflag]
      exact ⟨rfl, hdistinct, hagrees⟩

theorem Retriever.Synced.indexChunks (hsynced : r.Synced) (chunks : List TextChunk) :
    (r.indexChunks chunks).Synced := by
  rw [Retriever.indexChunks]
  split
  · exact hsynced
  · obtain ⟨-, hdistinct, hagrees⟩ := hsynced.ensureSparseHydrated
    refine .hydrated rfl ?_ fun id => ?_
    · show Distinct _ (upsertChunks _ chunks)
      rw [upsertChunks_eq hdistinct]
      exact hdistinct.insertAll chunks
    · show OrderedDict.get? _ (upsertChunks _ chunks) id = (r.ensureSparseHydrated.dense.indexChunks chunks).get? id
      rw [upsertChunks_eq hdistinct, OrderedDict.get?_insertAll, hagrees, DenseStore.get?_indexChunks,
        r.dense_ensureSparseHydrated]

theorem Retriever.get?_indexChunks (r : Retriever ids) (chunks : List TextChunk) (id : String) :
    (r.indexChunks chunks).dense.get? id =
      (last? TextChunk.chunkId chunks id).or (r.dense.get? id) := by
  rw [indexChunks]
  split
  · rename_i hempty
    rw [List.isEmpty_iff.mp hempty]
    rfl
  · show (r.ensureSparseHydrated.dense.indexChunks chunks).get? id = _
    rw [DenseStore.get?_indexChunks, r.dense_ensureSparseHydrated]

/-- The corpus has the chunks of the dense store. -/
structure Retriever.Agrees (r : Retriever ids) : Prop where
  distinct : Distinct TextChunk.chunkId r.sparse
  get? : ∀ id, OrderedDict.get? TextChunk.chunkId r.sparse id = r.dense.get? id

theorem Retriever.Agrees.indexChunks (hagrees : r.Agrees) (hsynced : r.Synced)
    (chunks : List TextChunk) : (r.indexChunks chunks).Agrees := by
  by_cases hempty : chunks = []
  · subst hempty
    exact hagrees
  · cases hsynced.indexChunks chunks with
    | fresh hflag hsparse =>
        rw [Retriever.indexChunks, if_neg (by simpa using hempty)] at hflag
        cases hflag
    | hydrated hflag hdistinct hsame => exact ⟨hdistinct, hsame⟩

/-- One indexing call after another. -/
def Retriever.indexAll (r : Retriever ids) (calls : List (List TextChunk)) : Retriever ids :=
  calls.foldl Retriever.indexChunks r

theorem Retriever.Synced.indexAll (hsynced : r.Synced) (calls : List (List TextChunk)) :
    (r.indexAll calls).Synced := by
  induction calls generalizing r with
  | nil => exact hsynced
  | cons chunks calls ih => exact ih (hsynced.indexChunks chunks)

theorem Retriever.Agrees.indexAll (hagrees : r.Agrees) (hsynced : r.Synced)
    (calls : List (List TextChunk)) : (r.indexAll calls).Agrees := by
  induction calls generalizing r with
  | nil => exact hagrees
  | cons chunks calls ih => exact ih (hagrees.indexChunks hsynced chunks) (hsynced.indexChunks chunks)

/-- The dense store holds what was indexed last, and what was there before. -/
theorem Retriever.get?_indexAll (r : Retriever ids) (calls : List (List TextChunk)) (id : String) :
    (r.indexAll calls).dense.get? id =
      (last? TextChunk.chunkId calls.flatten id).or (r.dense.get? id) := by
  induction calls generalizing r with
  | nil => rfl
  | cons chunks calls ih =>
      rw [List.flatten_cons, OrderedDict.last?_append, Option.or_assoc, ← r.get?_indexChunks]
      exact ih (r.indexChunks chunks)

end CoreMesh.Rag
