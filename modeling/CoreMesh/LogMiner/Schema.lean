import CoreMesh.Lib.Json
import CoreMesh.Lib.Table

/-!
# Tables of the log miner

The tables of `migrations/001_log_miner.sql`, with the columns the repository reads or writes. Ids are
natural numbers, times count microseconds, and a double is its 64-bit pattern, since nothing here
computes with it. The ownership constraint of a lease row, all three owner columns or none, is the
type of its `owner`.
-/

namespace CoreMesh.LogMiner

abbrev Uuid := Nat

abbrev Double := UInt64

/-- A JSONB value: one that was bound as JSON, or an SQL value that `jsonb_build_object` converted. -/
inductive Jsonb where
  | json (value : Json)
  | int (value : Int)
  | boolean (value : Bool)
  | double (value : Double)
  | uuid (value : Uuid)
  | null

/-- A JSONB object. -/
abbrev Provenance := List (String × Jsonb)

/-- The operator `||` on JSONB objects. -/
def Provenance.concat (left right : Provenance) : Provenance :=
  left.filter (fun member => !right.any (·.1 == member.1)) ++ right

inductive CandidateStatus where
  | pendingReview
  | promoted
  deriving DecidableEq, Repr

inductive DifficultyRating where
  | simple
  | moderate
  | hard
  | adversarial
  deriving DecidableEq, Repr

inductive RunStatus where
  | running
  | completed
  | failed
  | skipped
  deriving DecidableEq, Repr

/-- The three owner columns of a lease that is taken. -/
structure LeaseOwner where
  claimToken : Uuid
  runId : Uuid
  leaseExpiresAt : Int
  deriving DecidableEq, Repr

structure LeaseRow where
  leaseName : String
  owner : Option LeaseOwner := none
  heartbeatAt : Option Int := none
  deriving DecidableEq, Repr

/-- The counters of a run's audit row. -/
structure RunCounts where
  eligibleCount : Nat := 0
  embeddedCount : Nat := 0
  candidateCount : Nat := 0
  promotedCount : Nat := 0
  pendingReviewCount : Nat := 0
  duplicateCount : Nat := 0
  errorCount : Nat := 0
  purgedCount : Nat := 0
  deriving DecidableEq, Repr

structure RunRow where
  runId : Uuid
  status : RunStatus
  windowStart : Int
  windowEnd : Int
  configuration : Json
  counts : RunCounts := {}
  errorMessage : Option String := none
  startedAt : Int
  completedAt : Option Int := none

/-- The columns of the embedding cache that name a provider profile. -/
structure EmbeddingProfile where
  promptFingerprint : String
  providerName : String
  embeddingModel : String
  inputVersion : String
  deriving DecidableEq, Repr

structure EmbeddingRow where
  profile : EmbeddingProfile
  embeddingDimensions : Nat
  embeddingValues : List Double
  deriving DecidableEq, Repr

structure CandidateRow where
  candidateId : Uuid
  runId : Uuid
  sourceFingerprint : String
  featureScope : String
  userInput : String
  representativeTraceId : String
  memberTraceIds : List String
  clusterLabel : Option Int
  isNoise : Bool
  outlierScore : Option Double
  expectedOutput : Json
  difficultyRating : DifficultyRating
  labelConfidence : Double
  status : CandidateStatus
  goldenCaseId : Option Uuid := none
  provenance : Provenance
  createdAt : Int
  updatedAt : Int

structure MemberRow where
  candidateId : Uuid
  traceId : String
  deriving DecidableEq, Repr

structure GoldenRow where
  caseId : Uuid
  featureScope : String
  userInput : String
  expectedOutput : Json
  difficultyRating : DifficultyRating
  originSource : String
  sourceFingerprint : Option String
  provenance : Provenance

/-- The columns of a source log that a purge looks at. -/
structure LogRow where
  traceId : String
  promptFingerprint : String
  createdAt : Int
  deriving DecidableEq, Repr

structure Database where
  leases : List LeaseRow := []
  runs : List RunRow := []
  embeddingCache : List EmbeddingRow := []
  candidates : List CandidateRow := []
  members : List MemberRow := []
  golden : List GoldenRow := []
  logs : List LogRow := []

end CoreMesh.LogMiner
