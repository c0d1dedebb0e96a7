import CoreMesh.LogMiner.CandidateStore
import CoreMesh.LogMiner.Seeds

/-!
# The mining pipeline

`_run_pipeline` after the records are embedded: the seeds of every feature scope are looked up and
labelled one after the other, and what came of them is merged and persisted. The run is one thread of a
worker. Between its steps the heartbeat renews the lease and other workers do what they do, so a lookup
sees the database of its own moment.
-/

namespace CoreMesh.LogMiner

open Transition

variable {K : Type}

/-- What the pipeline takes from Python and its libraries. -/
structure Runtime (K : Type) where
  numpy : NumpyArrays K
  nfkc : String → String
  /-- The hexadecimal digest of a text in UTF-8. -/
  sha256 : String → String
  double : K → Double
  /-- The literal of a double in a JSON text. -/
  literal : Double → String
  doubleLe : Double → Double → Bool

/-- A miner's settings, and its clusterer. -/
structure ProductionLogMiner (K : Type) where
  retentionDays : Int := 30
  maxNoisePerFeature : Int := 20
  maxClusterExamples : Int := 3
  /-- 0.80 -/
  promotionConfidence : Double := 0x3FE999999999999A
  fingerprintVersion : String := "1.0"
  embeddingProviderName : String
  embeddingModel : String
  embeddingInputVersion : String := "nfkc-whitespace-v1"
  referenceModel : Option String
  cluster : {width : ℕ} → List (Fin width → K) → Except Raised (ClusterAssignments K)

structure GeneratedReference where
  expectedOutput : Json
  difficultyRating : DifficultyRating
  labelConfidence : Double

/-- What `generate`, or a look at the lease around it, raises. -/
inductive GenerationError where
  | runClaimLost
  | exception
  deriving DecidableEq

/-- `_MemberMerge`. -/
structure MemberMerge where
  sourceFingerprint : String
  memberTraceIds : List String
  facts : ClusterFacts

/-! ### Seeds -/

section Seeds

variable (runtime : Runtime K) (miner : ProductionLogMiner K)

/-- `build_source_fingerprint`. -/
def buildSourceFingerprint (featureScope representativePrompt version : String) : String :=
  runtime.sha256 (version ++ "\x00" ++ featureScope ++ "\x00" ++
    normalizePrompt runtime.nfkc representativePrompt)

/-- The records of a feature scope with their rows of the matrix. -/
def featureOf {width : ℕ} (rows : List (InteractionRecord × (Fin width → K))) (scope : String) :
    Feature K :=
  let rows := rows.filter fun row => row.1.featureScope == scope
  { records := rows.map Prod.fst
    width := width
    vectors := fun i => (rows.get (i.cast (List.length_map _))).2 }

/-- The first half of `_build_candidates`: the seeds of every feature scope, the scopes in order. -/
def candidateSeeds [Field K] [LinearOrder K] {width : ℕ} (records : List InteractionRecord)
    (matrix : List (Fin width → K)) : Except Raised (List (CandidateSeed K)) :=
  if records.isEmpty then .ok []
  else if matrix.length ≠ records.length then .error .valueError
  else do
    let scopes := (records.map InteractionRecord.featureScope).toFinset.sort (· ≤ ·)
    let seeds ← scopes.mapM fun scope => do
      let feature := featureOf (records.zip matrix) scope
      let assignments ← miner.cluster (List.ofFn feature.vectors)
      buildCandidateSeeds runtime.numpy runtime.nfkc feature assignments miner.maxNoisePerFeature
        miner.maxClusterExamples
    return seeds.flatten

namespace CandidateSeed

variable (seed : CandidateSeed K)

def sourceFingerprint : String :=
  buildSourceFingerprint runtime seed.representative.featureScope seed.representative.redactedPrompt
    miner.fingerprintVersion

def memberTraceIds : List String := seed.members.map InteractionRecord.traceId

def memberMerge : MemberMerge where
  sourceFingerprint := seed.sourceFingerprint runtime miner
  memberTraceIds := seed.memberTraceIds
  facts := {
    clusterLabel := seed.clusterLabel
    isNoise := seed.isNoise
    outlierScore := seed.outlierScore.map runtime.double
    nearestExampleCount := seed.clusterExamples.length }

/-- The provenance of a candidate, for vectors of a width. -/
def provenance (width : ℕ) : List (String × Json) :=
  [("origin_source", .str "production_miner"),
    ("fingerprint_version", .str miner.fingerprintVersion),
    ("source_prompt_fingerprint", seed.representative.promptFingerprint.elim .null .str),
    ("member_count", .num (toString seed.members.length)),
    ("nearest_example_count", .num (toString seed.clusterExamples.length)),
    ("cluster_label", seed.clusterLabel.elim .null fun label => .num (toString label)),
    ("is_noise", .bool seed.isNoise),
    ("outlier_score", seed.outlierScore.elim .null fun score =>
      .num (runtime.literal (runtime.double score))),
    ("embedding_provider", .str miner.embeddingProviderName),
    ("embedding_model", .str miner.embeddingModel),
    ("embedding_dimensions", .num (toString width)),
    ("embedding_input_version", .str miner.embeddingInputVersion),
    ("reference_model", miner.referenceModel.elim .null .str)]

def candidate (width : ℕ) (generated : GeneratedReference) : Candidate where
  sourceFingerprint := seed.sourceFingerprint runtime miner
  featureScope := seed.representative.featureScope
  userInput := seed.representative.redactedPrompt
  representativeTraceId := seed.representative.traceId
  memberTraceIds := seed.memberTraceIds
  clusterLabel := seed.clusterLabel
  isNoise := seed.isNoise
  outlierScore := seed.outlierScore.map runtime.double
  expectedOutput := generated.expectedOutput
  difficultyRating := generated.difficultyRating
  labelConfidence := generated.labelConfidence
  status := if runtime.doubleLe miner.promotionConfidence generated.labelConfidence then .promoted
    else .pendingReview
  provenance := seed.provenance runtime miner width

end CandidateSeed

end Seeds

/-- `source_fingerprint_exists`. -/
def sourceFingerprintExists (db : Database) (sourceFingerprint : String) : Bool :=
  db.candidates.any (fun row => row.sourceFingerprint == sourceFingerprint) ||
    db.golden.any fun row => row.sourceFingerprint == some sourceFingerprint

/-! ### Runs -/

/-- A run: a worker's thread, its claim, and the end of its window. -/
structure MinerRun (K : Type) where
  runtime : Runtime K
  miner : ProductionLogMiner K
  worker : WorkerId
  claim : RunClaim
  windowEnd : Int

/-- What the loop over the seeds made of one. -/
inductive SeedOutcome where
  | merge
  | prepared
  | failed
  deriving DecidableEq

inductive Stage where
  | claimed
  | working
  | completed
  /-- An exception is on its way to `_fail_run`. -/
  | failing
  | failed
  deriving DecidableEq

structure Mining (K : Type) where
  world : World
  stage : Stage := .claimed
  counts : RunCounts := {}
  /-- The width of the matrix. -/
  width : ℕ := 0
  seeds : List (CandidateSeed K) := []
  /-- The seeds that the loop has yet to come to. -/
  pending : List (CandidateSeed K) := []
  outcomes : List (CandidateSeed K × SeedOutcome) := []
  merges : List MemberMerge := []
  prepared : List Candidate := []

/-- What happens next: the run's own step with what it is told from outside, or another's. -/
inductive MiningEvent (K : Type) where
  | aside (event : Event)
  | cluster (records : List InteractionRecord) (embeddedCount width : ℕ)
      (matrix : List (Fin width → K))
  | generate (generated : Except GenerationError GeneratedReference)
  | mergeCandidateMembers (clock : TxClock)
  | persistCandidate (candidateId caseId : Uuid) (clock : TxClock)
  | finalizeRun (clock : TxClock)
  /-- An exception of any other kind. -/
  | raised
  | failRun (errorMessage : String) (clock : TxClock)

/-- A worker that claims asks for the lease. -/
def Event.asksFor (leaseName : String) : Event → Bool
  | .claimRun _ request _ _ _ => request.leaseName == leaseName
  | _ => true

def Operation.isRenewal : Operation → Bool
  | .renewClaim _ => true
  | _ => false

namespace MinerRun

variable (run : MinerRun K)

/-- What is done beside the run: under its claim only the heartbeat's renewals, and all workers are
built with the one lease. -/
def admits (event : Event) : Bool :=
  event.asksFor run.claim.leaseName &&
    match event with
    | .fenced _ claim operation _ => claim != run.claim || operation.isRenewal
    | _ => true

def raised (m : Mining K) : Mining K :=
  { m with stage := .failing, counts := { m.counts with errorCount := m.counts.errorCount + 1 } }

/-- A transaction of the run, and how the run goes on with its answer. -/
def transact {α : Type} (m : Mining K) (operation : Operation) (clock : TxClock)
    (answer : Try (α × Database)) (goOn : Mining K → α → Mining K) : Option (Mining K) :=
  (m.world.next (.fenced run.worker run.claim operation clock)).map fun world =>
    match answer with
    | .error _ => raised { m with world := world }
    | .ok (value, _) => goOn { m with world := world } value

/-- The body of the loop over the seeds. -/
def buildSeed (m : Mining K) (seed : CandidateSeed K) (rest : List (CandidateSeed K))
    (generated : Except GenerationError GeneratedReference) : Mining K :=
  if sourceFingerprintExists m.world.db (seed.sourceFingerprint run.runtime run.miner) then
    { m with
      pending := rest
      outcomes := m.outcomes ++ [(seed, .merge)]
      counts := { m.counts with duplicateCount := m.counts.duplicateCount + 1 }
      merges := m.merges ++ [seed.memberMerge run.runtime run.miner] }
  else
    match generated with
    | .error .runClaimLost => raised m
    | .error .exception =>
        { m with
          pending := rest
          outcomes := m.outcomes ++ [(seed, .failed)]
          counts := { m.counts with errorCount := m.counts.errorCount + 1 } }
    | .ok generated =>
        { m with
          pending := rest
          outcomes := m.outcomes ++ [(seed, .prepared)]
          prepared := m.prepared ++ [seed.candidate run.runtime run.miner m.width generated] }

/-- What `_persist_prepared` counts for a candidate. -/
def countPersisted (counts : RunCounts) (status : CandidateStatus) (created : Bool) : RunCounts :=
  if !created then { counts with duplicateCount := counts.duplicateCount + 1 }
  else
    let counts := { counts with candidateCount := counts.candidateCount + 1 }
    match status with
    | .promoted => { counts with promotedCount := counts.promotedCount + 1 }
    | .pendingReview => { counts with pendingReviewCount := counts.pendingReviewCount + 1 }

def retentionCutoff : Int := run.windowEnd - run.miner.retentionDays * seconds 86400

/-- The summary that `finalize_run` is given. -/
def provisional (m : Mining K) : RunSummary where
  status := .completed
  counts := m.counts
  errorMessage := none

def failure (m : Mining K) (errorMessage : String) : RunSummary where
  status := .failed
  counts := m.counts
  errorMessage := some errorMessage

variable [Field K] [LinearOrder K]

def next (m : Mining K) : MiningEvent K → Option (Mining K)
  | .aside event =>
      if run.admits event then (m.world.next event).map fun world => { m with world := world }
      else none
  | .cluster records embeddedCount width matrix =>
      if m.stage = .claimed then
        match candidateSeeds run.runtime run.miner records matrix with
        | .error _ => some (raised m)
        | .ok seeds => some { m with
            stage := .working
            width := width
            counts := { m.counts with
              eligibleCount := records.length
              embeddedCount := embeddedCount }
            seeds := seeds
            pending := seeds }
      else none
  | .generate generated =>
      match m.stage, m.pending with
      | .working, seed :: rest => some (run.buildSeed m seed rest generated)
      | _, _ => none
  | .mergeCandidateMembers clock =>
      match m.stage, m.pending, m.merges with
      | .working, [], merge :: rest =>
          run.transact m
            (.mergeCandidateMembers merge.sourceFingerprint merge.memberTraceIds merge.facts) clock
            (LogMiner.mergeCandidateMembers m.world.db run.claim merge.sourceFingerprint
              merge.memberTraceIds merge.facts clock)
            fun m _ => { m with merges := rest }
      | _, _, _ => none
  | .persistCandidate candidateId caseId clock =>
      match m.stage, m.pending, m.merges, m.prepared with
      | .working, [], [], candidate :: rest =>
          run.transact m (.persistCandidate candidate candidateId caseId) clock
            (LogMiner.persistCandidate m.world.db run.claim candidate candidateId caseId clock)
            fun m persisted => { m with
              prepared := rest
              counts := countPersisted m.counts candidate.status persisted.created }
      | _, _, _, _ => none
  | .finalizeRun clock =>
      match m.stage, m.pending, m.merges, m.prepared with
      | .working, [], [], [] =>
          run.transact m (.finalizeRun (provisional m) run.retentionCutoff) clock
            (LogMiner.finalizeRun m.world.db run.claim (provisional m) run.retentionCutoff clock)
            fun m purgedCount => { m with
              stage := .completed
              counts := { m.counts with purgedCount := purgedCount } }
      | _, _, _, _ => none
  | .raised =>
      if m.stage = .claimed ∨ m.stage = .working then some (raised m) else none
  | .failRun errorMessage clock =>
      if m.stage = .failing then
        let operation := .failRun (failure m errorMessage)
        (m.world.next (.fenced run.worker run.claim operation clock)).map fun world =>
          { m with world := world, stage := .failed }
      else none

end MinerRun

end CoreMesh.LogMiner
