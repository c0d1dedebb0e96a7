import Mathlib.Data.List.Dedup
import CoreMesh.LogMiner.Schema

/-!
# The repository's transactions

`PostgresLogMinerRepository`, one function per transaction. A transaction maps the database it begins
with to the one it commits, or raises and is rolled back. It reads the clock more than once: `NOW()` is
the time it began, and `clock_timestamp()` moves on between its statements.
-/

namespace CoreMesh.LogMiner

structure RunClaim where
  runId : Uuid
  leaseName : String
  claimToken : Uuid
  leaseExpiresAt : Int
  deriving DecidableEq, Repr

/-- The clock readings of one transaction, in order. -/
structure TxClock where
  /-- `NOW()`. -/
  began : Int
  /-- `clock_timestamp()` where the lease is looked at. -/
  checked : Int
  /-- `clock_timestamp()` in the last statement. -/
  written : Int
  began_le : began ≤ checked
  checked_le : checked ≤ written

inductive RepositoryError where
  | runClaimLost
  | valueError (message : String)
  | runtimeError (message : String)
  /-- A constraint of the schema was violated. -/
  | integrityError
  /-- `.one()` or `.scalar_one()` found no row. -/
  | noResultFound
  /-- `int()` of a value that is no number. -/
  | typeError
  deriving DecidableEq, Repr

/-- What a transaction can do: raise, and be rolled back, or return a value. -/
abbrev Try := Except RepositoryError

/-- The condition of every fenced statement. -/
def ownedBy (claim : RunClaim) (now : Int) (lease : LeaseRow) : Bool :=
  lease.leaseName == claim.leaseName &&
    match lease.owner with
    | none => false
    | some owner =>
        owner.claimToken == claim.claimToken && owner.runId == claim.runId &&
          decide (now < owner.leaseExpiresAt)

def claimIsActive (db : Database) (claim : RunClaim) (now : Int) : Bool :=
  db.leases.any (ownedBy claim now)

/-- `_assert_claim`. -/
def assertClaim (db : Database) (claim : RunClaim) (now : Int) : Try Unit :=
  if claimIsActive db claim now then .ok () else .error .runClaimLost

def seconds (n : Int) : Int := n * 1000000

structure ClaimRequest where
  leaseName : String
  leaseTtlSeconds : Int
  windowStart : Int
  windowEnd : Int
  configuration : Json

/-- The run a lease still referenced when it was taken over. -/
def expireRun (runs : List RunRow) (owner : Option LeaseOwner) (now : Int) : List RunRow :=
  match owner with
  | none => runs
  | some owner =>
      Table.update runs (fun run => run.runId == owner.runId && run.status == .running) fun run =>
        { run with
          status := .failed
          counts := { run.counts with errorCount := run.counts.errorCount + 1 }
          errorMessage := some "RunLeaseExpired"
          completedAt := some now }

/-- The audit row of a run that starts. -/
def ClaimRequest.runRow (request : ClaimRequest) (runId : Uuid) (now : Int) : RunRow where
  runId := runId
  status := .running
  windowStart := request.windowStart
  windowEnd := request.windowEnd
  configuration := request.configuration
  startedAt := now

/-- The claim handed out, and the lease's owner. -/
def ClaimRequest.claim (request : ClaimRequest) (runId claimToken : Uuid) (now : Int) : RunClaim where
  runId := runId
  leaseName := request.leaseName
  claimToken := claimToken
  leaseExpiresAt := now + seconds request.leaseTtlSeconds

def RunClaim.owner (claim : RunClaim) : LeaseOwner where
  claimToken := claim.claimToken
  runId := claim.runId
  leaseExpiresAt := claim.leaseExpiresAt

/-- `claim_run`, drawing `runId` and `claimToken`. -/
def claimRun (db : Database) (request : ClaimRequest) (runId claimToken : Uuid) (clock : TxClock) :
    Try (Option RunClaim × Database) :=
  if request.leaseName = "" ∨ request.leaseTtlSeconds < 1 then
    .error (.valueError "lease_name and a positive lease TTL are required")
  else
    let leases := Table.insertIgnore LeaseRow.leaseName db.leases { leaseName := request.leaseName }
    match leases.find? (fun lease => lease.leaseName == request.leaseName) with
    | none => .error .noResultFound
    | some lease =>
        if lease.owner.any (fun owner => decide (clock.checked < owner.leaseExpiresAt)) then
          .ok (none, { db with leases := leases })
        else
          match Table.insert RunRow.runId (expireRun db.runs lease.owner clock.began)
              (request.runRow runId clock.began) with
          | none => .error .integrityError
          | some runs =>
              let claim := request.claim runId claimToken clock.written
              .ok (some claim,
                { db with
                  runs := runs
                  leases := Table.update leases (fun lease => lease.leaseName == request.leaseName)
                    fun lease =>
                      { lease with owner := some claim.owner, heartbeatAt := some clock.written } })

/-- `renew_claim`. -/
def renewClaim (db : Database) (claim : RunClaim) (leaseTtlSeconds : Int) (clock : TxClock) :
    Try (Bool × Database) := do
  if leaseTtlSeconds < 1 then throw (.valueError "lease TTL must be positive")
  let leases := Table.update db.leases (ownedBy claim clock.checked) fun lease =>
    { lease with
      owner := lease.owner.map fun owner =>
        { owner with leaseExpiresAt := clock.written + seconds leaseTtlSeconds }
      heartbeatAt := some clock.written }
  return (claimIsActive db claim clock.checked, { db with leases := leases })

/-- `record_skipped_run`, drawing `runId`. -/
def recordSkippedRun (db : Database) (request : ClaimRequest) (reason : String) (runId : Uuid)
    (clock : TxClock) : Try (Uuid × Database) := do
  let some runs := Table.insert RunRow.runId db.runs
    { runId := runId
      status := .skipped
      windowStart := request.windowStart
      windowEnd := request.windowEnd
      configuration := request.configuration
      errorMessage := some reason
      startedAt := clock.began
      completedAt := some clock.began } | throw .integrityError
  return (runId, { db with runs := runs })

/-- The loop body of `store_cached_embeddings`: the rows of a profile are replaced. -/
def storeEmbedding (cache : List EmbeddingRow) (profile : EmbeddingProfile) (values : List Double) :
    Try (List EmbeddingRow) := do
  if values.isEmpty then throw (.valueError "cached embeddings must not be empty")
  return Table.delete cache (fun row => row.profile == profile) ++
    [{ profile := profile, embeddingDimensions := values.length, embeddingValues := values }]

/-- `store_cached_embeddings`. -/
def storeCachedEmbeddings (db : Database) (claim : RunClaim)
    (providerName embeddingModel inputVersion : String)
    (embeddings : List (String × List Double)) (clock : TxClock) : Try (Unit × Database) := do
  if embeddings.isEmpty then return ((), db)
  assertClaim db claim clock.checked
  let cache ← (embeddings.mergeSort fun a b => decide (a.1 ≤ b.1)).foldlM
    (fun cache entry => storeEmbedding cache
      { promptFingerprint := entry.1
        providerName := providerName
        embeddingModel := embeddingModel
        inputVersion := inputVersion } entry.2)
    db.embeddingCache
  return ((), { db with embeddingCache := cache })

/-- What a cluster says of a candidate each time it is seen. -/
structure ClusterFacts where
  clusterLabel : Option Int
  isNoise : Bool
  outlierScore : Option Double
  nearestExampleCount : Int

def sortedTraceIds (traceIds : List String) : List String :=
  traceIds.dedup.mergeSort fun a b => decide (a ≤ b)

/-- The members of a candidate, in the database's order of their ids. -/
def membersOf (members : List MemberRow) (candidateId : Uuid) : List String :=
  ((members.filter fun row => row.candidateId == candidateId).map MemberRow.traceId).mergeSort
    fun a b => decide (a ≤ b)

def clusterProvenance (memberCount : Nat) (facts : ClusterFacts) : Provenance :=
  [("member_count", .int memberCount),
    ("nearest_example_count", .int facts.nearestExampleCount),
    ("cluster_label", facts.clusterLabel.elim .null .int),
    ("is_noise", .boolean facts.isNoise),
    ("outlier_score", facts.outlierScore.elim .null .double)]

/-- `_merge_members_on_connection`. -/
def mergeMembers (db : Database) (candidateId : Uuid) (memberTraceIds : List String)
    (facts : ClusterFacts) (now : Int) : Database :=
  let members := (sortedTraceIds memberTraceIds).foldl
    (fun members traceId => Table.insertIgnore id members
      { candidateId := candidateId, traceId := traceId }) db.members
  let ids := membersOf members candidateId
  let candidates := Table.update db.candidates (fun row => row.candidateId == candidateId) fun row =>
    { row with
      clusterLabel := facts.clusterLabel
      isNoise := facts.isNoise
      outlierScore := facts.outlierScore
      memberTraceIds := ids
      provenance := row.provenance.concat (clusterProvenance ids.length facts)
      updatedAt := now }
  let golden := match candidates.find? (fun row => row.candidateId == candidateId) with
    | none => db.golden
    | some candidate =>
        Table.update db.golden (fun row => candidate.goldenCaseId == some row.caseId) fun row =>
          { row with provenance := row.provenance.concat candidate.provenance }
  { db with members := members, candidates := candidates, golden := golden }

/-- `merge_candidate_members`. -/
def mergeCandidateMembers (db : Database) (claim : RunClaim) (sourceFingerprint : String)
    (memberTraceIds : List String) (facts : ClusterFacts) (clock : TxClock) : Try (Bool × Database) := do
  assertClaim db claim clock.checked
  match db.candidates.find? (fun row => row.sourceFingerprint == sourceFingerprint) with
  | none => return (false, db)
  | some candidate =>
      return (true, mergeMembers db candidate.candidateId memberTraceIds facts clock.began)

structure Candidate where
  sourceFingerprint : String
  featureScope : String
  userInput : String
  representativeTraceId : String
  memberTraceIds : List String
  clusterLabel : Option Int
  isNoise : Bool
  outlierScore : Option Double
  expectedOutput : Json
  difficultyRating : DifficultyRating
  labelConfidence : Double
  status : CandidateStatus
  provenance : List (String × Json)

structure PersistResult where
  created : Bool
  candidateId : Option Uuid
  goldenCaseId : Option Uuid
  deriving DecidableEq, Repr

/-- `int` of a JSON value. -/
def toInt : Json → Try Int
  | .num literal => .ok (Json.decimal literal).truncate
  | .bool value => .ok (if value then 1 else 0)
  | _ => .error .typeError

/-- The cluster facts a candidate carries. -/
def Candidate.facts (candidate : Candidate) : Try ClusterFacts := do
  let nearestExampleCount ← match Json.lookup candidate.provenance "nearest_example_count" with
    | none => .ok 0
    | some value => toInt value
  return {
    clusterLabel := candidate.clusterLabel
    isNoise := candidate.isNoise
    outlierScore := candidate.outlierScore
    nearestExampleCount := nearestExampleCount }

def Candidate.boundProvenance (candidate : Candidate) : Provenance :=
  candidate.provenance.map fun member => (member.1, .json member.2)

def Candidate.allTraceIds (candidate : Candidate) : List String :=
  candidate.representativeTraceId :: candidate.memberTraceIds

/-- The row `persist_candidate` inserts. -/
def Candidate.row (candidate : Candidate) (candidateId runId : Uuid) (now : Int) : CandidateRow where
  candidateId := candidateId
  runId := runId
  sourceFingerprint := candidate.sourceFingerprint
  featureScope := candidate.featureScope
  userInput := candidate.userInput
  representativeTraceId := candidate.representativeTraceId
  memberTraceIds := candidate.memberTraceIds
  clusterLabel := candidate.clusterLabel
  isNoise := candidate.isNoise
  outlierScore := candidate.outlierScore
  expectedOutput := candidate.expectedOutput
  difficultyRating := candidate.difficultyRating
  labelConfidence := candidate.labelConfidence
  status := candidate.status
  provenance := candidate.boundProvenance
  createdAt := now
  updatedAt := now

/-- The golden case a promoted candidate becomes, unless its fingerprint has one. -/
def Candidate.goldenRow (candidate : Candidate) (caseId candidateId runId : Uuid) : GoldenRow where
  caseId := caseId
  featureScope := candidate.featureScope
  userInput := candidate.userInput
  expectedOutput := candidate.expectedOutput
  difficultyRating := candidate.difficultyRating
  originSource := "production_miner"
  sourceFingerprint := some candidate.sourceFingerprint
  provenance := candidate.boundProvenance.concat
    [("candidate_id", .uuid candidateId), ("run_id", .uuid runId),
      ("label_confidence", .double candidate.labelConfidence)]

/-- The insert of a golden case, ignoring a conflict on its fingerprint only. -/
def insertGolden (golden : List GoldenRow) (row : GoldenRow) : Try (List GoldenRow) :=
  if golden.any (fun other => other.sourceFingerprint == row.sourceFingerprint) then .ok golden
  else match Table.insert GoldenRow.caseId golden row with
    | none => .error .integrityError
    | some golden => .ok golden

/-- Promotion: the golden case of the fingerprint, inserted if it is missing, is linked. -/
def promote (db : Database) (candidate : Candidate) (claim : RunClaim) (candidateId caseId : Uuid)
    (now : Int) : Try (Uuid × Database) := do
  let row := candidate.goldenRow caseId candidateId claim.runId
  let golden ← insertGolden db.golden row
  match golden.find? (fun other => other.sourceFingerprint == row.sourceFingerprint) with
  | none => .error .noResultFound
  | some linked =>
      .ok (linked.caseId,
        { db with
          golden := golden
          candidates := Table.update db.candidates (fun other => other.candidateId == candidateId)
            fun other => { other with goldenCaseId := some linked.caseId, updatedAt := now } })

/-- `persist_candidate`, drawing `candidateId` and `caseId`. -/
def persistCandidate (db : Database) (claim : RunClaim) (candidate : Candidate)
    (candidateId caseId : Uuid) (clock : TxClock) : Try (PersistResult × Database) := do
  assertClaim db claim clock.checked
  match db.candidates.find? (fun row => row.sourceFingerprint == candidate.sourceFingerprint) with
  | some existing =>
      let facts ← candidate.facts
      return ({ created := false
                candidateId := some existing.candidateId
                goldenCaseId := existing.goldenCaseId },
        mergeMembers db existing.candidateId candidate.allTraceIds facts clock.began)
  | none =>
      let some candidates := Table.insert CandidateRow.candidateId db.candidates
        (candidate.row candidateId claim.runId clock.began) | throw .integrityError
      let facts ← candidate.facts
      let merged := mergeMembers { db with candidates := candidates } candidateId
        candidate.allTraceIds facts clock.began
      match candidate.status with
      | .pendingReview =>
          return ({ created := true, candidateId := some candidateId, goldenCaseId := none }, merged)
      | .promoted =>
          let (linked, db) ← promote merged candidate claim candidateId caseId clock.began
          return ({ created := true, candidateId := some candidateId, goldenCaseId := some linked }, db)

structure RunSummary where
  status : RunStatus
  counts : RunCounts
  errorMessage : Option String

/-- `_update_run`. -/
def updateRun (db : Database) (runId : Uuid) (summary : RunSummary) (now : Int) : Try (Unit × Database) :=
  if db.runs.countP (fun run => run.runId == runId) = 1 then
    .ok ((), { db with runs := Table.update db.runs (fun run => run.runId == runId) fun run =>
      { run with
        status := summary.status
        counts := summary.counts
        errorMessage := summary.errorMessage
        completedAt := some now } })
  else .error (.runtimeError "log-miner run audit row is missing")

/-- The last statement of `finalize_run` and `fail_run`: the owner columns become null. -/
def releaseLease (db : Database) (claim : RunClaim) (now : Int) : Database :=
  { db with
    leases := Table.update db.leases
      (fun lease => lease.leaseName == claim.leaseName &&
        lease.owner.any fun owner =>
          owner.claimToken == claim.claimToken && owner.runId == claim.runId)
      fun lease => { lease with owner := none, heartbeatAt := some now } }

/-- The three purges of `finalize_run`: what is left and how many rows went. -/
def purge (db : Database) (retentionCutoff : Int) : Nat × Database :=
  let logs := Table.delete db.logs fun row => decide (row.createdAt < retentionCutoff)
  let candidates := Table.delete db.candidates fun row =>
    row.status == .pendingReview && decide (row.createdAt < retentionCutoff)
  let cache := Table.delete db.embeddingCache fun row =>
    !logs.any fun source => source.promptFingerprint == row.profile.promptFingerprint
  let members := Table.delete db.members fun row =>
    !candidates.any fun candidate => candidate.candidateId == row.candidateId
  ((db.logs.length - logs.length) + (db.candidates.length - candidates.length)
      + (db.embeddingCache.length - cache.length),
    { db with logs := logs, candidates := candidates, embeddingCache := cache, members := members })

/-- `finalize_run`. -/
def finalizeRun (db : Database) (claim : RunClaim) (summary : RunSummary) (retentionCutoff : Int)
    (clock : TxClock) : Try (Nat × Database) := do
  assertClaim db claim clock.checked
  let (purgedCount, db) := purge db retentionCutoff
  let completed := { summary with counts := { summary.counts with purgedCount := purgedCount } }
  let ((), db) ← updateRun db claim.runId completed clock.began
  return (purgedCount, releaseLease db claim clock.written)

/-- The transaction of `fail_run`; `fail_run` itself answers a lost claim with `False`. -/
def failRun (db : Database) (claim : RunClaim) (summary : RunSummary) (clock : TxClock) : Try (Unit × Database) := do
  assertClaim db claim clock.checked
  let ((), db) ← updateRun db claim.runId summary clock.began
  return ((), releaseLease db claim clock.written)

end CoreMesh.LogMiner
