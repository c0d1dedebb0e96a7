import Mathlib.Data.Finset.Card
import Mathlib.Data.Prod.Lex
import Mathlib.Data.String.Basic
import CoreMesh.Lib.Except
import CoreMesh.Lib.OrderedDict
import CoreMesh.Lib.Selection
import CoreMesh.LogMiner.Schema
import CoreMesh.LogMiner.Seeds

/-!
# Embeddings

`_embed_records`: the vectors of the prompts of a run, from the cache where a row of it can be used and
from the provider otherwise. A run of it is its result together with what it asked the provider and what
it stored, of which there can be some although it raises. The arithmetic of the vectors is numpy's.
-/

namespace CoreMesh.LogMiner

open Outcome Selection PyText

variable {F : Type}

/-- What numpy computes with float64s. -/
structure Numpy (F : Type) where
  isFinite : F → Bool
  isZero : F → Bool
  /-- `np.linalg.norm` of a row. -/
  norm : List F → F
  divide : F → F → F
  /-- Whether a norm is at most zero. -/
  nonPositive : F → Bool

inductive EmbeddingError where
  | valueError (message : String)
  | validationError
  | keyError
  | runClaimLost
  /-- Whatever the provider raises. -/
  | providerError
  deriving DecidableEq

/-! ### Normalization -/

namespace Numpy

variable (numpy : Numpy F)

/-- A row divided by its norm. -/
def normalize (vector : List F) : List F := vector.map fun x => numpy.divide x (numpy.norm vector)

def validateAndNormalizeEmbeddings (vectors : List (List F)) (expectedCount : Option ℕ) :
    Except EmbeddingError (List (List F)) :=
  -- Lists of different lengths are no array, and the empty list is one of one dimension.
  if vectors.any fun vector => vectors.any fun other => vector.length != other.length then
    .error (.valueError "embeddings must have consistent numeric dimensions")
  else if vectors.isEmpty || vectors.any List.isEmpty then
    .error (.valueError "embeddings must be a non-empty two-dimensional matrix")
  else if expectedCount.any fun count => vectors.length != count then
    .error (.valueError ("embedding provider returned " ++ toString vectors.length ++ " vectors for " ++
      toString (expectedCount.getD 0) ++ " prompts"))
  else if !vectors.all fun vector => vector.all numpy.isFinite then
    .error (.valueError "embeddings must contain only finite values")
  else if vectors.any fun vector => numpy.nonPositive (numpy.norm vector) then
    .error (.valueError "embeddings must not contain zero-length vectors")
  else .ok (vectors.map numpy.normalize)

end Numpy

/-! ### The cache -/

/-- A row of the table of the cache, in which an element of the array can be null. -/
structure CacheRow (F : Type) where
  profile : EmbeddingProfile
  embeddingDimensions : ℕ
  embeddingValues : List (Option F)

structure CachedEmbedding (F : Type) where
  profile : EmbeddingProfile
  embeddingDimensions : ℕ
  embeddingValues : List F

/-- The constraints of the fields. -/
structure CachedEmbedding.Valid (embedding : CachedEmbedding F) : Prop where
  promptFingerprint : embedding.profile.promptFingerprint.length = 64
  providerName : 1 ≤ embedding.profile.providerName.length ∧ embedding.profile.providerName.length ≤ 128
  embeddingModel : 1 ≤ embedding.profile.embeddingModel.length ∧ embedding.profile.embeddingModel.length ≤ 255
  inputVersion : 1 ≤ embedding.profile.inputVersion.length ∧ embedding.profile.inputVersion.length ≤ 64
  embeddingDimensions : 0 < embedding.embeddingDimensions
  embeddingValues : 1 ≤ embedding.embeddingValues.length

instance (embedding : CachedEmbedding F) : Decidable embedding.Valid :=
  decidable_of_iff
    (embedding.profile.promptFingerprint.length = 64 ∧
      (1 ≤ embedding.profile.providerName.length ∧ embedding.profile.providerName.length ≤ 128) ∧
      (1 ≤ embedding.profile.embeddingModel.length ∧ embedding.profile.embeddingModel.length ≤ 255) ∧
      (1 ≤ embedding.profile.inputVersion.length ∧ embedding.profile.inputVersion.length ≤ 64) ∧
      0 < embedding.embeddingDimensions ∧ 1 ≤ embedding.embeddingValues.length)
    ⟨fun ⟨h₁, h₂, h₃, h₄, h₅, h₆⟩ => ⟨h₁, h₂, h₃, h₄, h₅, h₆⟩,
      fun h => ⟨h.promptFingerprint, h.providerName, h.embeddingModel, h.inputVersion,
        h.embeddingDimensions, h.embeddingValues⟩⟩

/-- A row as an instance of the model, if it is one. -/
def CacheRow.load (row : CacheRow F) : Except EmbeddingError (CachedEmbedding F) :=
  match row.embeddingValues.mapM id with
  | none => .error .validationError
  | some values =>
      let fingerprint := String.ofList (strip row.profile.promptFingerprint.toList)
      let embedding : CachedEmbedding F :=
        { profile := { row.profile with promptFingerprint := fingerprint }
          embeddingDimensions := row.embeddingDimensions
          embeddingValues := values }
      if embedding.Valid then .ok embedding else .error .validationError

/-! ### Records -/

/-- The moments at which it is looked whether the lease is held. -/
inductive Checkpoint where
  | loading
  | asking (call : ℕ)
  | answered (call : ℕ)
  | storing
  /-- `_assert_claim` in the transaction that stores. -/
  | stored
  deriving DecidableEq

/-- A miner's embedding profile, and what is around it in a run. -/
structure Embedder (F : Type) where
  numpy : Numpy F
  nfkc : String → String
  /-- The hexadecimal digest of a text in UTF-8. -/
  sha256 : String → String
  providerName : String
  embeddingModel : String
  inputVersion : String
  /-- The rows of `log_miner_embedding_cache`. -/
  cache : List (CacheRow F)
  /-- The provider's answer in each of the calls, unless it raises. -/
  embed : ℕ → List String → Option (List (List F))
  /-- The answers of `claim_is_active`. -/
  active : Checkpoint → Bool

/-- What was made of some of the prompts, and the texts of each call to the provider. -/
structure Embedded (F : Type) where
  vectors : Except EmbeddingError (List (String × List F))
  calls : List (List String) := []

structure EmbeddingRun (F : Type) where
  result : Except EmbeddingError (List (List F))
  calls : List (List String) := []
  stored : List (String × List F) := []
  embeddedCount : ℕ := 0

namespace Embedder

variable (e : Embedder F)

def canonical (record : InteractionRecord) : String := normalizePrompt e.nfkc record.redactedPrompt

/-- `build_prompt_fingerprint`. -/
def buildPromptFingerprint (prompt : String) : String := e.sha256 (normalizePrompt e.nfkc prompt)

def fingerprint (record : InteractionRecord) : String := e.buildPromptFingerprint (e.canonical record)

/-- The profile under which the vector of a prompt is cached. -/
def profile (fingerprint : String) : EmbeddingProfile where
  promptFingerprint := fingerprint
  providerName := e.providerName
  embeddingModel := e.embeddingModel
  inputVersion := e.inputVersion

/-- The loop over the records, which makes `canonical_by_fingerprint`. -/
def canonicalByFingerprint (records : List InteractionRecord) :
    Except EmbeddingError (List (String × String)) :=
  records.foldlM (fun canonicals record =>
    match canonicals.lookup (e.fingerprint record) with
    | none => .ok (canonicals ++ [(e.fingerprint record, e.canonical record)])
    | some previous =>
        if previous = e.canonical record then .ok canonicals
        else .error (.valueError "prompt fingerprint collision detected")) []

/-- The rows that the statement of `load_cached_embeddings` selects. -/
def selects (fingerprints : List String) (row : CacheRow F) : Bool :=
  fingerprints.contains row.profile.promptFingerprint &&
    row.profile == e.profile row.profile.promptFingerprint

/-- `load_cached_embeddings`, before the rows are put into lists by their fingerprint. -/
def loadCachedEmbeddings (fingerprints : List String) : Except EmbeddingError (List (CachedEmbedding F)) :=
  if fingerprints.isEmpty then .ok []
  else
    (sortedBy (fun row => toLex (row.profile.promptFingerprint, row.embeddingDimensions))
      (e.cache.filter (e.selects fingerprints))).mapM CacheRow.load

/-- What is used of the rows under a fingerprint. -/
def cachedVector (rows : List (CachedEmbedding F)) (fingerprint : String) : Option (List F) :=
  match rows.filter fun row => row.profile.promptFingerprint == fingerprint with
  | [row] =>
      if row.profile ≠ e.profile fingerprint ∨ row.embeddingValues.length ≠ row.embeddingDimensions then none
      else
        match e.numpy.validateAndNormalizeEmbeddings [row.embeddingValues] (some 1) with
        | .error _ => none
        | .ok normalized => normalized.head?
  | _ => none

/-- The widths of the vectors of a dictionary. -/
def widths (vectors : List (String × List F)) : Finset ℕ :=
  (vectors.map fun entry => entry.2.length).toFinset

/-- `cached_vectors`, which is cleared if the widths are mixed. -/
def cachedVectors (rows : List (CachedEmbedding F)) (fingerprints : List String) : List (String × List F) :=
  let vectors := fingerprints.filterMap fun fingerprint =>
    (e.cachedVector rows fingerprint).map fun vector => (fingerprint, vector)
  if 1 < (widths vectors).card then [] else vectors

/-- `embed_fingerprints`. -/
def embedFingerprints (canonicals : List (String × String)) (call : ℕ) (fingerprints : List String) :
    Embedded F :=
  if fingerprints.isEmpty then { vectors := .ok [] }
  else if !e.active (.asking call) then { vectors := .error .runClaimLost }
  else
    match fingerprints.mapM fun fingerprint => canonicals.lookup fingerprint with
    | none => { vectors := .error .keyError }
    | some texts =>
        match e.embed call texts with
        | none => { vectors := .error .providerError, calls := [texts] }
        | some raw =>
            if !e.active (.answered call) then { vectors := .error .runClaimLost, calls := [texts] }
            else
              { vectors := (e.numpy.validateAndNormalizeEmbeddings raw (some fingerprints.length)).map
                  fingerprints.zip
                calls := [texts] }

/-- The last lines, from the dictionaries of the vectors and the keys that the provider was asked for. -/
def finish (records : List InteractionRecord) (calls : List (List String)) (embedded : List String)
    (cached fresh : List (String × List F)) : EmbeddingRun F :=
  let vectors := OrderedDict.insertAll Prod.fst cached fresh
  let vectorOf (fingerprint : String) := (OrderedDict.get? Prod.fst vectors fingerprint).map Prod.snd
  match embedded.mapM fun fingerprint => (vectorOf fingerprint).map fun vector => (fingerprint, vector) with
  | none => { result := .error .keyError, calls := calls }
  | some toStore =>
      if !toStore.isEmpty && !(e.active .storing && e.active .stored) then
        { result := .error .runClaimLost, calls := calls }
      else
        { result :=
            match records.mapM fun record => vectorOf (e.fingerprint record) with
            | none => .error .keyError
            | some rows => e.numpy.validateAndNormalizeEmbeddings rows (some records.length)
          calls := calls
          stored := toStore
          embeddedCount := embedded.length }

def missing (canonicals : List (String × String)) (cached : List (String × List F)) : List String :=
  (canonicals.map Prod.fst).filter fun fingerprint => (cached.lookup fingerprint).isNone

/-- Whether the width of the vectors has changed. -/
def rewidened (cached fresh : List (String × List F)) : Bool :=
  !cached.isEmpty && !fresh.isEmpty && decide (widths fresh ≠ widths cached)

/-- The lines from the definition of `missing` on. -/
def embedMissing (records : List InteractionRecord) (canonicals : List (String × String))
    (cached : List (String × List F)) : EmbeddingRun F :=
  let missing := missing canonicals cached
  let first := e.embedFingerprints canonicals 0 missing
  match first.vectors with
  | .error error => { result := .error error, calls := first.calls }
  | .ok fresh =>
      if rewidened cached fresh then
        let second := e.embedFingerprints canonicals 1 (cached.map Prod.fst)
        match second.vectors with
        | .error error => { result := .error error, calls := first.calls ++ second.calls }
        | .ok recomputed =>
            e.finish records (first.calls ++ second.calls) (missing ++ cached.map Prod.fst) recomputed fresh
      else e.finish records first.calls missing cached fresh

/-- `_embed_records`. -/
def embedRecords (records : List InteractionRecord) : EmbeddingRun F :=
  if records.isEmpty then { result := .ok [] }
  else
    match e.canonicalByFingerprint records with
    | .error error => { result := .error error }
    | .ok canonicals =>
        if !e.active .loading then { result := .error .runClaimLost }
        else
          match e.loadCachedEmbeddings (canonicals.map Prod.fst) with
          | .error error => { result := .error error }
          | .ok rows => e.embedMissing records canonicals (e.cachedVectors rows (canonicals.map Prod.fst))

end Embedder

end CoreMesh.LogMiner
