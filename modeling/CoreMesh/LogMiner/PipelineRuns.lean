import CoreMesh.LogMiner.Pipeline

/-!
# No seed is lost

The loop over the seeds only reads, and while the claim is the lease's newest nobody else writes the store,
so all the seeds of a fingerprint that are not in error go one way: to the merges if the fingerprint was
there, and else to the candidates, of which the first is inserted and the others are merged into it. A
merge that finds no candidate is one of a golden case alone, and no candidate of its fingerprint is
prepared.
-/

namespace CoreMesh.LogMiner

open Transition Outcome

variable {K : Type}

/-! ### One lease -/

section OneLease

variable {w w' : World} {leaseName : String} {event : Event}

/-- All the claims so far are of one lease. -/
structure OneLease (leaseName : String) (w : World) : Prop where
  inv : w.Inv
  consistent : Consistent w.db
  claims : ∀ claim ∈ w.granted, claim.leaseName = leaseName

theorem claimRun_leaseName {db db' : Database} {request : ClaimRequest} {runId claimToken : Uuid}
    {clock : TxClock} {claim : RunClaim}
    (hok : claimRun db request runId claimToken clock = .ok (some claim, db')) :
    claim.leaseName = request.leaseName := by
  unfold claimRun at hok
  dsimp only at hok
  split at hok
  · cases hok
  · split at hok
    · cases hok
    · split at hok
      · cases (Prod.mk.inj (Except.ok.inj hok)).1
      · split at hok
        · cases hok
        · obtain rfl := Option.some.inj (Prod.mk.inj (Except.ok.inj hok)).1
          rfl

theorem OneLease.next (hlease : OneLease leaseName w) (hasks : event.asksFor leaseName = true)
    (hstep : w.next event = some w') : OneLease leaseName w' := by
  refine ⟨hlease.inv.next hstep, World.consistent_next hlease.consistent hstep, ?_⟩
  cases World.next_effect hstep with
  | claimGranted hok =>
      intro claim hclaim
      obtain rfl | hold := List.mem_cons.mp hclaim
      · rw [claimRun_leaseName hok]
        exact beq_iff_eq.mp hasks
      · exact hlease.claims claim hold
  | idle | claimRefused | runSkipped | committed => exact hlease.claims

/-- What is done beside a run whose claim is still the newest leaves the store alone. -/
theorem MinerRun.storeKept_of_newest {run : MinerRun K} (hlease : OneLease run.claim.leaseName w)
    (hgranted : run.claim ∈ w.granted) (hadmits : run.admits event = true)
    (hstep : w.next event = some w')
    (hnewest : newest w'.granted run.claim.leaseName = some run.claim) :
    StoreKept w.db w'.db ∧ newest w.granted run.claim.leaseName = some run.claim := by
  have hsame : StoreKept w.db w.db := ⟨rfl, rfl, rfl⟩
  cases World.next_effect hstep with
  | idle => exact ⟨hsame, hnewest⟩
  | claimRefused hok => exact ⟨World.claimRun_kept hok, hnewest⟩
  | runSkipped hok => exact ⟨World.recordSkippedRun_kept hok, hnewest⟩
  | @claimGranted worker request runId claimToken clock claim db hok =>
      -- A new claim is the newest one, and its run is not the run's.
      have hname : claim.leaseName = run.claim.leaseName := by
        rw [claimRun_leaseName hok]
        exact beq_iff_eq.mp (Bool.and_eq_true_iff.mp hadmits).1
      have hfirst : newest (claim :: w.granted) run.claim.leaseName = some claim := by
        unfold newest
        rw [List.find?_cons, hname, beq_self_eq_true]
      obtain rfl := Option.some.inj (hfirst.symm.trans hnewest)
      obtain ⟨hnone, -⟩ | ⟨claim, hsome, hfresh⟩ := claimRun_spec hok
      · cases hnone
      · obtain rfl := Option.some.inj hsome
        exact absurd (hlease.inv.runs run.claim hgranted) hfresh.fresh
  | @committed worker claim operation clock db hheld hcommit =>
      refine ⟨?_, hnewest⟩
      obtain hactive | rfl := (Operation.commit_fenced hcommit).active
      · have hclaim := hlease.inv.held worker claim hheld
        have hlast := hlease.inv.newest_of_active hclaim hactive
        rw [hlease.claims claim hclaim] at hlast
        obtain rfl := Option.some.inj (hlast.symm.trans hnewest)
        have hrenewal : operation.isRenewal = true := by
          have h := (Bool.and_eq_true_iff.mp hadmits).2
          simpa using h
        cases operation with
        | renewClaim ttl =>
            obtain ⟨_, hok⟩ := committed_eq_some hcommit
            exact renewClaim_kept hok
        | _ => cases hrenewal
      · exact hsame

end OneLease

/-! ### Stores that grow -/

/-- The candidates of the one store are in the other, with their members. -/
structure StoreGrows (db db' : Database) : Prop where
  candidates : ∀ row ∈ db.candidates, ∃ row' ∈ db'.candidates,
    row'.candidateId = row.candidateId ∧ row'.sourceFingerprint = row.sourceFingerprint
  members : db.members ⊆ db'.members

section StoreGrows

variable {db db' db'' : Database} {claim : RunClaim} {clock : TxClock}

theorem StoreGrows.trans (hleft : StoreGrows db db') (hright : StoreGrows db' db'') :
    StoreGrows db db'' where
  candidates := by
    intro row hrow
    obtain ⟨row', hrow', hid', hfingerprint'⟩ := hleft.candidates row hrow
    obtain ⟨row'', hrow'', hid'', hfingerprint''⟩ := hright.candidates row' hrow'
    exact ⟨row'', hrow'', hid''.trans hid', hfingerprint''.trans hfingerprint'⟩
  members := fun _ hmem => hright.members (hleft.members hmem)

theorem StoreGrows.hasMembers (hgrows : StoreGrows db db') {sourceFingerprint : String}
    {traceIds : List String} (hhas : HasMembers db sourceFingerprint traceIds) :
    HasMembers db' sourceFingerprint traceIds := by
  obtain ⟨row, hrow, hfingerprint, hall⟩ := hhas
  obtain ⟨row', hrow', hid, hfingerprint'⟩ := hgrows.candidates row hrow
  refine ⟨row', hrow', hfingerprint'.trans hfingerprint, fun traceId hmem => ?_⟩
  rw [hid]
  exact hgrows.members (hall traceId hmem)

/-- An update that leaves ids and fingerprints alone. -/
theorem storeGrows_of_update {condition : CandidateRow → Bool} {set : CandidateRow → CandidateRow}
    (hset : ∀ row, (set row).candidateId = row.candidateId ∧
      (set row).sourceFingerprint = row.sourceFingerprint)
    (hcandidates : db'.candidates = Table.update db.candidates condition set)
    (hmembers : db.members ⊆ db'.members) : StoreGrows db db' where
  candidates := by
    intro row hrow
    rw [hcandidates]
    cases hcondition : condition row with
    | true => exact ⟨set row, Table.mem_update.mpr (.inl ⟨row, hrow, hcondition, rfl⟩), hset row⟩
    | false => exact ⟨row, Table.mem_update.mpr (.inr ⟨hrow, hcondition⟩), rfl, rfl⟩
  members := hmembers

theorem storeGrows_mergeMembers (db : Database) (candidateId : Uuid) (traceIds : List String)
    (facts : ClusterFacts) (now : Int) :
    StoreGrows db (mergeMembers db candidateId traceIds facts now) := by
  apply storeGrows_of_update _ (mergeMembers_candidates db candidateId traceIds facts now)
  · intro row hrow
    exact (mem_mergeMembers_members _ _ _ _ _).mpr (.inl hrow)
  · exact fun row => ⟨rfl, rfl⟩

theorem storeGrows_inserted (db : Database) (row : CandidateRow) : StoreGrows db (db.inserted row) where
  candidates := fun old hold => ⟨old, List.mem_append_left _ hold, rfl, rfl⟩
  members := List.Subset.refl _

/-- A candidate that is persisted adds its own fingerprint at most. -/
theorem persistCandidate_grows {candidate : Candidate} {candidateId caseId : Uuid}
    {result : PersistResult}
    (hok : persistCandidate db claim candidate candidateId caseId clock = .ok (result, db')) :
    StoreGrows db db' ∧ ∀ sourceFingerprint ∈ db'.candidates.map CandidateRow.sourceFingerprint,
      sourceFingerprint ∈ db.candidates.map CandidateRow.sourceFingerprint ∨
        sourceFingerprint = candidate.sourceFingerprint := by
  obtain ⟨existing, facts, -, -, rfl⟩ | ⟨row, facts, merged, hrow, -, -, hmerged, hstatus⟩ :=
    persistCandidate_cases hok
  · refine ⟨storeGrows_mergeMembers _ _ _ _ _, fun sourceFingerprint hmem => .inl ?_⟩
    rwa [mergeMembers_map _ _ _ _ _ fun _ => rfl] at hmem
  have hgrows : StoreGrows db merged := by
    rw [hmerged]
    exact (storeGrows_inserted db row).trans (storeGrows_mergeMembers _ _ _ _ _)
  have hfingerprints : merged.candidates.map CandidateRow.sourceFingerprint =
      db.candidates.map CandidateRow.sourceFingerprint ++ [candidate.sourceFingerprint] := by
    rw [hmerged, mergeMembers_map _ _ _ _ _ fun _ => rfl, Database.inserted, List.map_append, hrow]
    rfl
  have hmem {sourceFingerprint : String}
      (h : sourceFingerprint ∈ merged.candidates.map CandidateRow.sourceFingerprint) :
      sourceFingerprint ∈ db.candidates.map CandidateRow.sourceFingerprint ∨
        sourceFingerprint = candidate.sourceFingerprint := by
    rw [hfingerprints, List.mem_append, List.mem_singleton] at h
    exact h
  obtain ⟨-, rfl⟩ | ⟨-, linked, hpromote⟩ := hstatus
  · exact ⟨hgrows, fun _ h => hmem h⟩
  · obtain ⟨hmembers, -, -, hcandidates⟩ := promote_spec hpromote
    refine ⟨hgrows.trans ?_, fun sourceFingerprint h => hmem ?_⟩
    · apply storeGrows_of_update _ hcandidates
      · rw [hmembers]
        exact List.Subset.refl _
      · exact fun row => ⟨rfl, rfl⟩
    · rw [hcandidates, Table.map_update] at h
      · exact h
      · exact fun _ => rfl

theorem sourceFingerprintExists_iff {sourceFingerprint : String} :
    sourceFingerprintExists db sourceFingerprint = true ↔
      sourceFingerprint ∈ db.candidates.map CandidateRow.sourceFingerprint ∨
        some sourceFingerprint ∈ db.golden.map GoldenRow.sourceFingerprint := by
  simp [sourceFingerprintExists]

theorem sourceFingerprintExists_congr
    (hcandidates : db'.candidates.map CandidateRow.sourceFingerprint =
      db.candidates.map CandidateRow.sourceFingerprint)
    (hgolden : db'.golden.map GoldenRow.sourceFingerprint = db.golden.map GoldenRow.sourceFingerprint)
    (sourceFingerprint : String) :
    sourceFingerprintExists db' sourceFingerprint = sourceFingerprintExists db sourceFingerprint := by
  rw [Bool.eq_iff_iff, sourceFingerprintExists_iff, sourceFingerprintExists_iff, hcandidates, hgolden]

theorem sourceFingerprintExists_mergeMembers (db : Database) (candidateId : Uuid)
    (traceIds : List String) (facts : ClusterFacts) (now : Int) (sourceFingerprint : String) :
    sourceFingerprintExists (mergeMembers db candidateId traceIds facts now) sourceFingerprint =
      sourceFingerprintExists db sourceFingerprint := by
  apply sourceFingerprintExists_congr
  · exact mergeMembers_map _ _ _ _ _ fun _ => rfl
  · unfold mergeMembers
    dsimp only
    split
    · rfl
    · apply Table.map_update
      exact fun _ => rfl

/-- A finalization leaves the candidates that stay with all their members. -/
theorem finalizeRun_purged {summary : RunSummary} {retentionCutoff : Int} {purgedCount : Nat}
    (hok : finalizeRun db claim summary retentionCutoff clock = .ok (purgedCount, db')) :
    ∀ row ∈ db'.candidates, row ∈ db.candidates ∧ ∀ traceId,
      (⟨row.candidateId, traceId⟩ : MemberRow) ∈ db.members →
        (⟨row.candidateId, traceId⟩ : MemberRow) ∈ db'.members := by
  obtain ⟨-, hrest⟩ := assertClaim_bind hok
  obtain ⟨⟨⟨⟩, updated⟩, hupdate, hreturn⟩ := bind_eq_ok hrest
  obtain rfl := (Prod.mk.inj (Except.ok.inj hreturn)).2
  obtain ⟨hcandidates, hmembers, -⟩ := updateRun_kept hupdate
  intro row hrow
  have hkept : row ∈ (purge db retentionCutoff).2.candidates := hcandidates ▸ hrow
  refine ⟨List.mem_of_mem_filter hkept, fun traceId hmem => ?_⟩
  show _ ∈ updated.members
  rw [hmembers]
  refine List.mem_filter.mpr ⟨hmem, ?_⟩
  rw [Bool.not_not]
  exact List.any_eq_true.mpr ⟨row, hkept, by simp⟩

end StoreGrows

/-! ### Steps -/

namespace MinerRun

variable {run : MinerRun K} {m m' : Mining K}

/-- A transaction of the run is a step of its worker, and the run has failed or goes on with what was
committed. -/
theorem transact_eq_some {α : Type} {operation : Operation} {clock : TxClock}
    {answer : Try (α × Database)} {goOn : Mining K → α → Mining K}
    (hcommit : operation.commit m.world.db run.claim clock = committed answer)
    (hstep : run.transact m operation clock answer goOn = some m') :
    ∃ world, m.world.next (.fenced run.worker run.claim operation clock) = some world ∧
      world.granted = m.world.granted ∧
      (m' = raised { m with world := world } ∨
        ∃ value, answer = .ok (value, world.db) ∧ m' = goOn { m with world := world } value) := by
  obtain ⟨world, hnext, rfl⟩ := Option.map_eq_some_iff.mp hstep
  have hworld := hnext
  simp only [World.next] at hworld
  split at hworld
  · obtain rfl := Option.some.inj hworld
    refine ⟨_, hnext, rfl, ?_⟩
    rw [hcommit]
    cases answer with
    | error error => exact .inl rfl
    | ok result =>
        obtain ⟨value, db⟩ := result
        exact .inr ⟨value, rfl, rfl⟩
  · cases hworld

variable (run m)

/-- What a step of the run comes to. -/
inductive Effect : Mining K → Prop where
  | aside {event : Event} {world : World} (hadmits : run.admits event = true)
      (hnext : m.world.next event = some world) : Effect { m with world := world }
  | clustered (hstage : m.stage = .claimed) (seeds : List (CandidateSeed K))
      (eligibleCount embeddedCount width : ℕ) :
      Effect { m with
        stage := .working
        width := width
        counts := { m.counts with eligibleCount := eligibleCount, embeddedCount := embeddedCount }
        seeds := seeds
        pending := seeds }
  | built (hstage : m.stage = .working) {seed : CandidateSeed K} {rest : List (CandidateSeed K)}
      (hpending : m.pending = seed :: rest)
      (generated : Except GenerationError GeneratedReference) :
      Effect (run.buildSeed m seed rest generated)
  | merged (hstage : m.stage = .working) (hpending : m.pending = []) {merge : MemberMerge}
      {rest : List MemberMerge} (hmerges : m.merges = merge :: rest) {world : World}
      {operation : Operation} {clock : TxClock} {found : Bool}
      (hnext : m.world.next (.fenced run.worker run.claim operation clock) = some world)
      (hgranted : world.granted = m.world.granted)
      (hok : LogMiner.mergeCandidateMembers m.world.db run.claim merge.sourceFingerprint
        merge.memberTraceIds merge.facts clock = .ok (found, world.db)) :
      Effect { m with world := world, merges := rest }
  | persisted (hstage : m.stage = .working) (hpending : m.pending = []) (hmerges : m.merges = [])
      {candidate : Candidate} {rest : List Candidate} (hprepared : m.prepared = candidate :: rest)
      {world : World} {operation : Operation} {candidateId caseId : Uuid} {clock : TxClock}
      {result : PersistResult}
      (hnext : m.world.next (.fenced run.worker run.claim operation clock) = some world)
      (hgranted : world.granted = m.world.granted)
      (hok : LogMiner.persistCandidate m.world.db run.claim candidate candidateId caseId clock =
        .ok (result, world.db)) :
      Effect { m with
        world := world
        prepared := rest
        counts := countPersisted m.counts candidate.status result.created }
  | finalized (hstage : m.stage = .working) (hpending : m.pending = []) (hmerges : m.merges = [])
      (hprepared : m.prepared = []) {world : World} {operation : Operation} {clock : TxClock}
      {purgedCount : ℕ}
      (hnext : m.world.next (.fenced run.worker run.claim operation clock) = some world)
      (hok : LogMiner.finalizeRun m.world.db run.claim (provisional m) run.retentionCutoff clock =
        .ok (purgedCount, world.db)) :
      Effect { m with
        world := world
        stage := .completed
        counts := { m.counts with purgedCount := purgedCount } }
  | failing {world : World} (hworld : world = m.world ∨ ∃ operation clock,
      m.world.next (.fenced run.worker run.claim operation clock) = some world) :
      Effect (raised { m with world := world })
  | failed {world : World} {operation : Operation} {clock : TxClock}
      (hnext : m.world.next (.fenced run.worker run.claim operation clock) = some world) :
      Effect { m with world := world, stage := .failed }

variable {run m}

theorem next_effect [Field K] [LinearOrder K] {event : MiningEvent K} (hstep : run.next m event = some m') : run.Effect m m' := by
  cases event with
  | aside event =>
      simp only [next] at hstep
      split at hstep
      · next hadmits =>
          obtain ⟨world, hnext, rfl⟩ := Option.map_eq_some_iff.mp hstep
          exact .aside hadmits hnext
      · cases hstep
  | cluster records embeddedCount width matrix =>
      simp only [next] at hstep
      split at hstep
      · next hstage =>
          split at hstep
          · obtain rfl := Option.some.inj hstep
            exact .failing (.inl rfl)
          · obtain rfl := Option.some.inj hstep
            exact .clustered hstage _ _ _ _
      · cases hstep
  | generate generated =>
      simp only [next] at hstep
      split at hstep
      · next hstage hpending =>
          obtain rfl := Option.some.inj hstep
          exact .built hstage hpending generated
      · cases hstep
  | mergeCandidateMembers clock =>
      simp only [next] at hstep
      split at hstep
      · next hstage hpending hmerges =>
          obtain ⟨world, hnext, hgranted, rfl | ⟨found, hok, rfl⟩⟩ := transact_eq_some rfl hstep
          · exact .failing (.inr ⟨_, _, hnext⟩)
          · exact .merged hstage hpending hmerges hnext hgranted hok
      · cases hstep
  | persistCandidate candidateId caseId clock =>
      simp only [next] at hstep
      split at hstep
      · next hstage hpending hmerges hprepared =>
          obtain ⟨world, hnext, hgranted, rfl | ⟨result, hok, rfl⟩⟩ := transact_eq_some rfl hstep
          · exact .failing (.inr ⟨_, _, hnext⟩)
          · exact .persisted hstage hpending hmerges hprepared hnext hgranted hok
      · cases hstep
  | finalizeRun clock =>
      simp only [next] at hstep
      split at hstep
      · next hstage hpending hmerges hprepared =>
          obtain ⟨world, hnext, -, rfl | ⟨purgedCount, hok, rfl⟩⟩ := transact_eq_some rfl hstep
          · exact .failing (.inr ⟨_, _, hnext⟩)
          · exact .finalized hstage hpending hmerges hprepared hnext hok
      · cases hstep
  | raised =>
      simp only [next] at hstep
      split at hstep
      · obtain rfl := Option.some.inj hstep
        exact .failing (.inl rfl)
      · cases hstep
  | failRun errorMessage clock =>
      simp only [next] at hstep
      split at hstep
      · obtain ⟨world, hnext, rfl⟩ := Option.map_eq_some_iff.mp hstep
        exact .failed hnext
      · cases hstep

/-! ### The tally -/

/-- Every seed that the loop has come to is prepared and waits, or is counted. -/
structure Tally (m : Mining K) : Prop where
  seeds : m.outcomes.map Prod.fst ++ m.pending = m.seeds
  total : m.outcomes.length = m.prepared.length + m.counts.candidateCount +
    m.counts.duplicateCount + m.counts.errorCount
  candidates : m.counts.candidateCount = m.counts.promotedCount + m.counts.pendingReviewCount
  errors : m.counts.errorCount = m.outcomes.countP fun entry => entry.2 = .failed

/-- A run that has not begun to cluster has counted nothing. -/
structure Fresh (m : Mining K) : Prop where
  counts : m.counts = {}
  outcomes : m.outcomes = []
  merges : m.merges = []
  prepared : m.prepared = []

structure Tallied (m : Mining K) : Prop where
  fresh : m.stage = .claimed → Fresh m
  tally : m.stage = .working ∨ m.stage = .completed → Tally m

theorem Tally.buildSeed (htally : Tally m) {seed : CandidateSeed K} {rest : List (CandidateSeed K)}
    (hpending : m.pending = seed :: rest) (generated : Except GenerationError GeneratedReference)
    (hstage : (run.buildSeed m seed rest generated).stage ≠ .failing) :
    Tally (run.buildSeed m seed rest generated) := by
  obtain ⟨hseeds, htotal, hcandidates, herrors⟩ := htally
  have hrest (outcome : SeedOutcome) :
      (m.outcomes ++ [(seed, outcome)]).map Prod.fst ++ rest = m.seeds := by
    rw [← hseeds, hpending]
    simp
  unfold MinerRun.buildSeed at hstage ⊢
  split
  · exact {
      seeds := hrest .merge
      total := by simp only [List.length_append, List.length_singleton]; omega
      candidates := hcandidates
      errors := by simp [herrors] }
  · rename_i hexists
    rw [if_neg hexists] at hstage
    split
    · exact absurd rfl hstage
    · exact {
        seeds := hrest .failed
        total := by simp only [List.length_append, List.length_singleton]; omega
        candidates := hcandidates
        errors := by simp [herrors] }
    · exact {
        seeds := hrest .prepared
        total := by simp only [List.length_append, List.length_singleton]; omega
        candidates := hcandidates
        errors := by simp [herrors] }

theorem Tally.countPersisted (htally : Tally m) {candidate : Candidate} {rest : List Candidate}
    (hprepared : m.prepared = candidate :: rest) (world : World) (status : CandidateStatus)
    (created : Bool) :
    Tally { m with
      world := world
      prepared := rest
      counts := countPersisted m.counts status created } := by
  obtain ⟨hseeds, htotal, hcandidates, herrors⟩ := htally
  rw [hprepared, List.length_cons] at htotal
  refine ⟨hseeds, ?_, ?_, ?_⟩
  all_goals
    cases created <;> cases status <;>
      simp only [MinerRun.countPersisted, Bool.not_false, Bool.not_true, Bool.false_eq_true,
        ↓reduceIte] <;> omega

theorem buildSeed_stage (run : MinerRun K) (hstage : m.stage = .working) (seed : CandidateSeed K)
    (rest : List (CandidateSeed K)) (generated : Except GenerationError GeneratedReference) :
    (run.buildSeed m seed rest generated).stage = .working ∨
      run.buildSeed m seed rest generated = raised m := by
  unfold buildSeed
  split
  · exact .inl hstage
  · split
    · exact .inr rfl
    · exact .inl hstage
    · exact .inl hstage

theorem Tallied.of_stage {stage : Stage} (htally : Tally m) (hstage : m.stage = stage)
    (hne : stage ≠ .claimed) : Tallied m where
  fresh := fun hclaimed => absurd (hstage.symm.trans hclaimed) hne
  tally := fun _ => htally

theorem tallied_of_over (hstage : m.stage = .failing ∨ m.stage = .failed) : Tallied m := by
  constructor
  · intro hclaimed
    simp [hclaimed] at hstage
  · intro hworking
    obtain hworking | hworking := hworking
    · simp [hworking] at hstage
    · simp [hworking] at hstage

theorem Tallied.next (htallied : Tallied m) (heffect : run.Effect m m') : Tallied m' := by
  have hworking (hstage : m.stage = .working) : Tally m := htallied.tally (.inl hstage)
  cases heffect with
  | @aside event world _ _ =>
      refine ⟨fun hstage => ?_, fun hstage => ?_⟩
      · obtain ⟨hcounts, houtcomes, hmerges, hprepared⟩ := htallied.fresh hstage
        exact ⟨hcounts, houtcomes, hmerges, hprepared⟩
      · obtain ⟨hseeds, htotal, hcandidates, herrors⟩ := htallied.tally hstage
        exact ⟨hseeds, htotal, hcandidates, herrors⟩
  | clustered hstage seeds eligibleCount embeddedCount width =>
      obtain ⟨hcounts, houtcomes, hmerges, hprepared⟩ := htallied.fresh hstage
      have htally : Tally { m with
          stage := .working
          width := width
          counts := { m.counts with eligibleCount := eligibleCount, embeddedCount := embeddedCount }
          seeds := seeds
          pending := seeds } := by
        constructor
        · simp [houtcomes]
        · simp [houtcomes, hprepared, hcounts]
        · simp [hcounts]
        · simp [houtcomes, hcounts]
      exact .of_stage htally rfl Stage.noConfusion
  | @built hstage seed rest hpending generated =>
      obtain hbuilt | hraised := buildSeed_stage run hstage seed rest generated
      · refine .of_stage ((hworking hstage).buildSeed hpending generated ?_) hbuilt (by decide)
        rw [hbuilt]
        decide
      · rw [hraised]
        exact tallied_of_over (.inl rfl)
  | @merged hstage hpending merge rest hmerges world =>
      obtain ⟨hseeds, htotal, hcandidates, herrors⟩ := hworking hstage
      exact .of_stage ⟨hseeds, htotal, hcandidates, herrors⟩ hstage (by decide)
  | @persisted hstage hpending hmerges candidate rest hprepared world operation candidateId caseId
      clock result =>
      exact .of_stage ((hworking hstage).countPersisted hprepared world candidate.status result.created)
        hstage (by decide)
  | @finalized hstage hpending hmerges hprepared world operation clock purgedCount =>
      obtain ⟨hseeds, htotal, hcandidates, herrors⟩ := hworking hstage
      exact .of_stage ⟨hseeds, htotal, hcandidates, herrors⟩ rfl Stage.noConfusion
  | failing => exact tallied_of_over (.inl rfl)
  | failed => exact tallied_of_over (.inr rfl)

/-! ### The members of a seed -/

variable (run m)

/-- Where the members of a seed are that is not in error. -/
inductive Kept (seed : CandidateSeed K) : Prop where
  | prepared {candidate : Candidate} (hmem : candidate ∈ m.prepared)
      (hfingerprint : candidate.sourceFingerprint = seed.sourceFingerprint run.runtime run.miner)
      (hmembers : candidate.memberTraceIds = seed.memberTraceIds)
  | merging {merge : MemberMerge} (hmem : merge ∈ m.merges)
      (hfingerprint : merge.sourceFingerprint = seed.sourceFingerprint run.runtime run.miner)
      (hmembers : merge.memberTraceIds = seed.memberTraceIds)
  | stored (hhas : HasMembers m.world.db (seed.sourceFingerprint run.runtime run.miner)
      seed.memberTraceIds)
  /-- The fingerprint is that of a golden case alone, and the run will add no candidate for it. -/
  | golden (hpending : m.pending = [])
      (habsent : seed.sourceFingerprint run.runtime run.miner ∉
        m.world.db.candidates.map CandidateRow.sourceFingerprint)
      (hprepared : ∀ candidate ∈ m.prepared,
        candidate.sourceFingerprint ≠ seed.sourceFingerprint run.runtime run.miner)

/-- Until the merges are done, what is prepared is not in the store and what is merged is. -/
structure Sound : Prop where
  absent : m.pending ≠ [] ∨ m.merges ≠ [] → ∀ candidate ∈ m.prepared,
    sourceFingerprintExists m.world.db candidate.sourceFingerprint = false
  present : ∀ merge ∈ m.merges, sourceFingerprintExists m.world.db merge.sourceFingerprint = true
  kept : ∀ entry ∈ m.outcomes, entry.2 ≠ .failed → Kept run m entry.1

variable {run m}

theorem Sound.of_storeKept (hsound : Sound run m) {world : World}
    (hkept : StoreKept m.world.db world.db) : Sound run { m with world := world } := by
  have hexists (sourceFingerprint : String) : sourceFingerprintExists world.db sourceFingerprint =
      sourceFingerprintExists m.world.db sourceFingerprint := by
    apply sourceFingerprintExists_congr
    · rw [hkept.candidates]
    · rw [hkept.golden]
  constructor
  · intro hwaits candidate hcandidate
    rw [hexists]
    exact hsound.absent hwaits candidate hcandidate
  · intro merge hmerge
    rw [hexists]
    exact hsound.present merge hmerge
  · intro entry hentry hfailed
    cases hsound.kept entry hentry hfailed with
    | prepared hmem hfingerprint hmembers => exact .prepared hmem hfingerprint hmembers
    | merging hmem hfingerprint hmembers => exact .merging hmem hfingerprint hmembers
    | stored hhas =>
        refine .stored ?_
        unfold HasMembers
        rw [hkept.candidates, hkept.members]
        exact hhas
    | golden hpending habsent hprepared =>
        refine .golden hpending ?_ hprepared
        rw [hkept.candidates]
        exact habsent

theorem Sound.buildSeed (hsound : Sound run m) {seed : CandidateSeed K} {rest : List (CandidateSeed K)}
    (hpending : m.pending = seed :: rest) (generated : Except GenerationError GeneratedReference)
    (hstage : (run.buildSeed m seed rest generated).stage ≠ .failing) :
    Sound run (run.buildSeed m seed rest generated) := by
  have hwaits : m.pending ≠ [] ∨ m.merges ≠ [] := .inl (by rw [hpending]; exact List.cons_ne_nil _ _)
  -- While the loop goes on no seed is given up.
  have hold {m' : Mining K} (hworld : m'.world = m.world) (hprepared : m.prepared ⊆ m'.prepared)
      (hmerges : m.merges ⊆ m'.merges) (entry : CandidateSeed K × SeedOutcome)
      (hentry : entry ∈ m.outcomes) (hfailed : entry.2 ≠ .failed) : Kept run m' entry.1 := by
    cases hsound.kept entry hentry hfailed with
    | prepared hmem hfingerprint hmembers => exact .prepared (hprepared hmem) hfingerprint hmembers
    | merging hmem hfingerprint hmembers => exact .merging (hmerges hmem) hfingerprint hmembers
    | stored hhas => exact .stored (hworld ▸ hhas)
    | golden hnone => rw [hpending] at hnone; cases hnone
  unfold MinerRun.buildSeed at hstage ⊢
  split
  · next hexists =>
      constructor
      · intro _
        exact hsound.absent hwaits
      · intro merge hmerge
        obtain hmerge | hmerge := List.mem_append.mp hmerge
        · exact hsound.present merge hmerge
        · rw [List.mem_singleton.mp hmerge]
          exact hexists
      · intro entry hentry hfailed
        obtain hentry | hentry := List.mem_append.mp hentry
        · apply hold
          · rfl
          · exact List.Subset.refl _
          · exact List.subset_append_left _ _
          · exact hentry
          · exact hfailed
        · rw [List.mem_singleton.mp hentry]
          exact .merging (List.mem_append_right _ List.mem_cons_self) rfl rfl
  · next hexists =>
      rw [if_neg hexists] at hstage
      split
      · exact absurd rfl hstage
      · constructor
        · intro _
          exact hsound.absent hwaits
        · exact hsound.present
        · intro entry hentry hfailed
          obtain hentry | hentry := List.mem_append.mp hentry
          · apply hold
            · rfl
            · exact List.Subset.refl _
            · exact List.Subset.refl _
            · exact hentry
            · exact hfailed
          · rw [List.mem_singleton.mp hentry] at hfailed
            exact absurd rfl hfailed
      · constructor
        · intro _ candidate hcandidate
          obtain hcandidate | hcandidate := List.mem_append.mp hcandidate
          · exact hsound.absent hwaits candidate hcandidate
          · rw [List.mem_singleton.mp hcandidate]
            exact Bool.eq_false_iff.mpr hexists
        · exact hsound.present
        · intro entry hentry hfailed
          obtain hentry | hentry := List.mem_append.mp hentry
          · apply hold
            · rfl
            · exact List.subset_append_left _ _
            · exact List.Subset.refl _
            · exact hentry
            · exact hfailed
          · rw [List.mem_singleton.mp hentry]
            exact .prepared (List.mem_append_right _ List.mem_cons_self) rfl rfl

theorem Sound.merge (hsound : Sound run m) (hpending : m.pending = []) {merge : MemberMerge}
    {rest : List MemberMerge} (hmerges : m.merges = merge :: rest) {world : World} {clock : TxClock}
    {found : Bool}
    (hok : LogMiner.mergeCandidateMembers m.world.db run.claim merge.sourceFingerprint
      merge.memberTraceIds merge.facts clock = .ok (found, world.db)) :
    Sound run { m with world := world, merges := rest } := by
  have hwaits : m.pending ≠ [] ∨ m.merges ≠ [] := .inr (by rw [hmerges]; exact List.cons_ne_nil _ _)
  have habsent := hsound.absent hwaits
  have hpresent := hsound.present merge (by rw [hmerges]; exact List.mem_cons_self)
  have hrest {other : MemberMerge} (hmem : other ∈ rest) : other ∈ m.merges := by
    rw [hmerges]
    exact List.mem_cons_of_mem _ hmem
  obtain ⟨hmissing, hsame⟩ | ⟨row, hrow, hfound, hmerged⟩ := mergeCandidateMembers_cases hok
  · rw [← hsame] at hpresent habsent
    constructor
    · exact fun _ => habsent
    · intro other hother
      rw [hsame]
      exact hsound.present other (hrest hother)
    · intro entry hentry hfailed
      cases hsound.kept entry hentry hfailed with
      | prepared hmem hfingerprint hmembers => exact .prepared hmem hfingerprint hmembers
      | @merging other hmem hfingerprint hmembers =>
          rw [hmerges] at hmem
          obtain rfl | hmem := List.mem_cons.mp hmem
          · rw [hfingerprint, ← hsame] at hmissing
            refine .golden hpending hmissing fun candidate hcandidate heq => ?_
            rw [← heq] at hfingerprint
            rw [hfingerprint, habsent candidate hcandidate] at hpresent
            cases hpresent
          · exact .merging hmem hfingerprint hmembers
      | stored hhas =>
          rw [← hsame] at hhas
          exact .stored hhas
      | golden hnone hmissing hprepared =>
          rw [← hsame] at hmissing
          exact .golden hnone hmissing hprepared
  · have hexists (sourceFingerprint : String) : sourceFingerprintExists world.db sourceFingerprint =
        sourceFingerprintExists m.world.db sourceFingerprint := by
      rw [hmerged]
      exact sourceFingerprintExists_mergeMembers _ _ _ _ _ _
    have hgrows : StoreGrows m.world.db world.db := by
      rw [hmerged]
      exact storeGrows_mergeMembers _ _ _ _ _
    constructor
    · intro _ candidate hcandidate
      rw [hexists]
      exact habsent candidate hcandidate
    · intro other hother
      rw [hexists]
      exact hsound.present other (hrest hother)
    · intro entry hentry hfailed
      cases hsound.kept entry hentry hfailed with
      | prepared hmem hfingerprint hmembers => exact .prepared hmem hfingerprint hmembers
      | @merging other hmem hfingerprint hmembers =>
          rw [hmerges] at hmem
          obtain rfl | hmem := List.mem_cons.mp hmem
          · refine .stored ?_
            have hhas := hasMembers_mergeMembers hrow other.memberTraceIds other.facts clock.began
            rw [← hmerged, hfound, hfingerprint, hmembers] at hhas
            exact hhas
          · exact .merging hmem hfingerprint hmembers
      | stored hhas => exact .stored (hgrows.hasMembers hhas)
      | golden hnone hmissing hprepared =>
          refine .golden hnone ?_ hprepared
          rw [hmerged, mergeMembers_map _ _ _ _ _ fun _ => rfl]
          exact hmissing

theorem Sound.persist (hsound : Sound run m) (hpending : m.pending = []) (hmerges : m.merges = [])
    {candidate : Candidate} {rest : List Candidate} (hprepared : m.prepared = candidate :: rest)
    {world : World} {candidateId caseId : Uuid} {clock : TxClock} {result : PersistResult}
    (hok : LogMiner.persistCandidate m.world.db run.claim candidate candidateId caseId clock =
      .ok (result, world.db)) (counts : RunCounts) :
    Sound run { m with world := world, prepared := rest, counts := counts } := by
  obtain ⟨hgrows, hfingerprints⟩ := persistCandidate_grows hok
  constructor
  · rintro (hne | hne)
    · exact absurd hpending hne
    · exact absurd hmerges hne
  · intro merge hmerge
    rw [show m.merges = [] from hmerges] at hmerge
    cases hmerge
  · intro entry hentry hfailed
    cases hsound.kept entry hentry hfailed with
    | @prepared other hmem hfingerprint hmembers =>
        rw [hprepared] at hmem
        obtain rfl | hmem := List.mem_cons.mp hmem
        · obtain ⟨row, hrow, hrowFingerprint, hall⟩ := persistCandidate_hasMembers hok
          refine .stored ⟨row, hrow, hrowFingerprint.trans hfingerprint, fun traceId htrace => ?_⟩
          apply hall
          rw [Candidate.allTraceIds, hmembers]
          exact List.mem_cons_of_mem _ htrace
        · exact .prepared hmem hfingerprint hmembers
    | merging hmem =>
        rw [hmerges] at hmem
        cases hmem
    | stored hhas => exact .stored (hgrows.hasMembers hhas)
    | golden hnone hmissing hothers =>
        rw [hprepared] at hothers
        refine .golden hnone (fun hmem => ?_) fun other hother => hothers other (List.mem_cons_of_mem _ hother)
        obtain hold | hnew := hfingerprints _ hmem
        · exact hmissing hold
        · exact hothers candidate List.mem_cons_self hnew.symm

/-! ### Runs -/

theorem granted_subset {w w' : World} {event : Event} (hstep : w.next event = some w') :
    w.granted ⊆ w'.granted := by
  cases World.next_effect hstep with
  | claimGranted => exact List.subset_cons_self _ _
  | idle | claimRefused | runSkipped | committed => exact List.Subset.refl _

variable (run m)

structure Invariant : Prop where
  lease : OneLease run.claim.leaseName m.world
  granted : run.claim ∈ m.world.granted
  tallied : Tallied m
  sound : newest m.world.granted run.claim.leaseName = some run.claim → m.stage = .working →
    Sound run m

variable {run m}

theorem Invariant.next (hinv : Invariant run m) (heffect : run.Effect m m') : Invariant run m' := by
  have htallied := hinv.tallied.next heffect
  -- A step of the worker under the claim, and no step at all.
  have hown {world : World} {operation : Operation} {clock : TxClock}
      (hnext : m.world.next (.fenced run.worker run.claim operation clock) = some world) :
      OneLease run.claim.leaseName world ∧ run.claim ∈ world.granted :=
    ⟨hinv.lease.next rfl hnext, granted_subset hnext hinv.granted⟩
  cases heffect with
  | @aside event world hadmits hnext =>
      have hasks := (Bool.and_eq_true_iff.mp hadmits).1
      refine ⟨hinv.lease.next hasks hnext, granted_subset hnext hinv.granted, htallied, ?_⟩
      intro hnewest hstage
      obtain ⟨hkept, hbefore⟩ :=
        storeKept_of_newest hinv.lease hinv.granted hadmits hnext hnewest
      exact (hinv.sound hbefore hstage).of_storeKept hkept
  | clustered hstage seeds eligibleCount embeddedCount width =>
      obtain ⟨-, houtcomes, hmerges, hprepared⟩ := hinv.tallied.fresh hstage
      refine ⟨hinv.lease, hinv.granted, htallied, fun _ _ => ?_⟩
      constructor
      · simp [hprepared]
      · simp [hmerges]
      · simp [houtcomes]
  | @built hstage seed rest hpending generated =>
      have hworld : (run.buildSeed m seed rest generated).world = m.world := by
        unfold buildSeed
        split
        · rfl
        · split
          · rfl
          · rfl
          · rfl
      refine ⟨hworld ▸ hinv.lease, hworld ▸ hinv.granted, htallied, fun hnewest hworking => ?_⟩
      rw [hworld] at hnewest
      apply (hinv.sound hnewest hstage).buildSeed hpending generated
      rw [hworking]
      decide
  | @merged hstage hpending merge rest hmerges world operation clock found hnext hgranted hok =>
      obtain ⟨hlease, hclaim⟩ := hown hnext
      refine ⟨hlease, hclaim, htallied, fun hnewest _ => ?_⟩
      rw [show _ = m.world.granted from hgranted] at hnewest
      exact (hinv.sound hnewest hstage).merge hpending hmerges hok
  | @persisted hstage hpending hmerges candidate rest hprepared world operation candidateId caseId
      clock result hnext hgranted hok =>
      obtain ⟨hlease, hclaim⟩ := hown hnext
      refine ⟨hlease, hclaim, htallied, fun hnewest _ => ?_⟩
      rw [show _ = m.world.granted from hgranted] at hnewest
      exact (hinv.sound hnewest hstage).persist hpending hmerges hprepared hok _
  | finalized _ _ _ _ hnext =>
      obtain ⟨hlease, hclaim⟩ := hown hnext
      exact ⟨hlease, hclaim, htallied, fun _ hstage => by cases hstage⟩
  | failing hworld =>
      obtain rfl | ⟨operation, clock, hnext⟩ := hworld
      · exact ⟨hinv.lease, hinv.granted, htallied, fun _ hstage => by cases hstage⟩
      · obtain ⟨hlease, hclaim⟩ := hown hnext
        exact ⟨hlease, hclaim, htallied, fun _ hstage => by cases hstage⟩
  | failed hnext =>
      obtain ⟨hlease, hclaim⟩ := hown hnext
      exact ⟨hlease, hclaim, htallied, fun _ hstage => by cases hstage⟩

/-- If the fingerprint of a seed has a candidate, the traces of the seed are members of it. -/
def MembersStored (run : MinerRun K) (db : Database) (seed : CandidateSeed K) : Prop :=
  ∀ row ∈ db.candidates, row.sourceFingerprint = seed.sourceFingerprint run.runtime run.miner →
    ∀ member ∈ seed.members, (⟨row.candidateId, member.traceId⟩ : MemberRow) ∈ db.members

/-- When nothing waits any more, what is kept is stored. -/
theorem Kept.membersStored {seed : CandidateSeed K} (hkept : Kept run m seed)
    (hconsistent : Consistent m.world.db) (hmerges : m.merges = []) (hprepared : m.prepared = []) :
    MembersStored run m.world.db seed := by
  intro row hrow hfingerprint member hmember
  cases hkept with
  | prepared hmem =>
      rw [hprepared] at hmem
      cases hmem
  | merging hmem =>
      rw [hmerges] at hmem
      cases hmem
  | stored hhas =>
      obtain ⟨row', hrow', hfingerprint', hall⟩ := hhas
      obtain rfl : row' = row := List.inj_on_of_nodup_map hconsistent.fingerprints hrow' hrow
        (hfingerprint'.trans hfingerprint.symm)
      exact hall member.traceId (List.mem_map_of_mem hmember)
  | golden _ habsent =>
      refine absurd ?_ habsent
      exact List.mem_map.mpr ⟨row, hrow, hfingerprint⟩

section Runs

variable [Field K] [LinearOrder K]

theorem invariant_of_run {golden : List GoldenRow} {logs : List LogRow} {start : Int}
    {before : List Event} {w : World} {es : List (MiningEvent K)}
    (hbefore : Run (Steps World.next) (World.initial (Database.migrated golden logs) start) before w)
    (hasks : ∀ event ∈ before, event.asksFor run.claim.leaseName = true)
    (hheld : run.claim ∈ w.held run.worker)
    (hrun : Run (Steps run.next) { world := w } es m) : Invariant run m := by
  have hlease : OneLease run.claim.leaseName w := by
    have hstart : OneLease run.claim.leaseName (World.initial (Database.migrated golden logs) start) := by
      refine ⟨World.Inv.initial (fun lease hlease => ?_) start, consistent_migrated golden logs, ?_⟩
      · rw [List.mem_singleton.mp hlease]
      · intro claim hclaim
        cases hclaim
    refine hbefore.history_invariant
      (fun es w => (∀ event ∈ es, event.asksFor run.claim.leaseName = true) →
        OneLease run.claim.leaseName w) (fun _ => hstart) ?_ hasks
    intro es w event w' _ ih hstep hall
    rw [List.forall_mem_append, List.forall_mem_singleton] at hall
    exact (ih hall.1).next hall.2 hstep
  apply hrun.invariant (Invariant run) _ fun m event m' hinv hstep => hinv.next (next_effect hstep)
  exact {
    lease := hlease
    granted := hlease.inv.held run.worker run.claim hheld
    tallied := ⟨fun _ => ⟨rfl, rfl, rfl, rfl⟩, fun hstage => by simp at hstage⟩
    sound := fun _ hstage => by cases hstage }

/-- In every run that is completed, every seed is counted once, and the members of one that is not in
error are those of the candidate of its fingerprint, if there is one: before the finalization and after. -/
theorem completed_run_accounts {golden : List GoldenRow} {logs : List LogRow} {start : Int}
    {before : List Event} {w : World} {es : List (MiningEvent K)} {clock : TxClock}
    (hbefore : Run (Steps World.next) (World.initial (Database.migrated golden logs) start) before w)
    (hasks : ∀ event ∈ before, event.asksFor run.claim.leaseName = true)
    (hheld : run.claim ∈ w.held run.worker)
    (hrun : Run (Steps run.next) { world := w } es m)
    (hlast : run.next m (.finalizeRun clock) = some m') (hcompleted : m'.stage = .completed) :
    m'.outcomes.map Prod.fst = m'.seeds ∧
    m'.seeds.length =
      m'.counts.candidateCount + m'.counts.duplicateCount + m'.counts.errorCount ∧
    m'.counts.candidateCount = m'.counts.promotedCount + m'.counts.pendingReviewCount ∧
    m'.counts.errorCount = m'.outcomes.countP (fun entry => entry.2 = .failed) ∧
    ∀ entry ∈ m'.outcomes, entry.2 ≠ .failed →
      MembersStored run m.world.db entry.1 ∧ MembersStored run m'.world.db entry.1 := by
  have hinv := invariant_of_run hbefore hasks hheld hrun
  have htally := (hinv.tallied.next (next_effect hlast)).tally (.inr hcompleted)
  simp only [next] at hlast
  split at hlast
  · next hstage hpending hmerges hprepared =>
      obtain ⟨world, -, -, rfl | ⟨purgedCount, hok, rfl⟩⟩ := transact_eq_some rfl hlast
      · cases hcompleted
      obtain ⟨hseeds, htotal, hcandidates, herrors⟩ := htally
      rw [show _ = ([] : List (CandidateSeed K)) from hpending, List.append_nil] at hseeds
      rw [show _ = ([] : List Candidate) from hprepared, List.length_nil, zero_add] at htotal
      refine ⟨hseeds, ?_, hcandidates, herrors, fun entry hentry hfailed => ?_⟩
      · rw [← hseeds, List.length_map]
        exact htotal
      · obtain ⟨hactive, -⟩ := assertClaim_bind hok
        have hnewest := hinv.lease.inv.newest_of_active hinv.granted hactive
        have hkept := (hinv.sound hnewest hstage).kept entry hentry hfailed
        have hstored := hkept.membersStored hinv.lease.consistent hmerges hprepared
        refine ⟨hstored, fun row hrow hfingerprint member hmember => ?_⟩
        obtain ⟨hold, hmembers⟩ := finalizeRun_purged hok row hrow
        exact hmembers _ (hstored row hold hfingerprint member hmember)
  · cases hlast

end Runs

/-! ### Two seeds of one prompt -/

/-- A miner whose clusterer leaves out all records but the first. -/
def twinMiner : ProductionLogMiner ℚ where
  embeddingProviderName := "openai"
  embeddingModel := "text-embedding-3-small"
  referenceModel := none
  cluster := fun vectors => .ok {
    labels := vectors.mapIdx fun i _ => if i = 0 then 0 else -1
    outlierScores := vectors.map fun _ => some 0 }

def twinRun : MinerRun ℚ where
  runtime := {
    numpy := binary64Arrays
    nfkc := id
    sha256 := id
    double := fun _ => 0
    literal := fun _ => "0.0"
    doubleLe := fun x y => x ≤ y }
  miner := twinMiner
  worker := 0
  claim := World.productionRequest.claim 0 100 1
  windowEnd := 0

def twinReference : GeneratedReference where
  expectedOutput := .obj []
  difficultyRating := .hard
  labelConfidence := 0

/-- A cluster and an outlier with one prompt, each labelled, so that the second meets the first. -/
def twinEvents : List (MiningEvent ℚ) :=
  [.cluster [lineRecord "a" "Who are you?", lineRecord "b" "Who are you?"] 2 1 [fun _ => 0, fun _ => 9],
    .generate (.ok twinReference), .generate (.ok twinReference),
    .persistCandidate 7 8 (World.instant 2), .persistCandidate 9 10 (World.instant 3)]

theorem completed_run_accounts_twins :
    ∃ m : Mining ℚ, m.stage = .completed ∧ m.counts.candidateCount = 1 ∧ m.counts.duplicateCount = 1 ∧
      m.seeds.length = m.counts.candidateCount + m.counts.duplicateCount + m.counts.errorCount ∧
      ∀ entry ∈ m.outcomes, entry.2 ≠ .failed → MembersStored twinRun m.world.db entry.1 := by
  have hend : (([.claimRun 0 World.productionRequest 0 100 (World.instant 1)].foldlM World.next
      (World.initial (Database.migrated [] []) 0)).bind fun w =>
        (twinEvents.foldlM twinRun.next { world := w }).bind fun m =>
          (twinRun.next m (.finalizeRun (World.instant 4))).map fun m' =>
            (m'.stage, m'.counts.candidateCount, m'.counts.duplicateCount,
              decide (twinRun.claim ∈ w.held 0))) = some (.completed, 1, 1, true) := by
    decide +kernel
  obtain ⟨w, hbefore, hend⟩ := Option.bind_eq_some_iff.mp hend
  obtain ⟨m, hrun, hend⟩ := Option.bind_eq_some_iff.mp hend
  obtain ⟨m', hlast, hend⟩ := Option.map_eq_some_iff.mp hend
  simp only [Prod.mk.injEq, decide_eq_true_eq] at hend
  obtain ⟨hcompleted, hcandidates, hduplicates, hheld⟩ := hend
  obtain ⟨-, htotal, -, -, hstored⟩ := completed_run_accounts (run_iff_foldlM.mpr hbefore)
    (fun event hevent => by rw [List.mem_singleton.mp hevent]; rfl) hheld (run_iff_foldlM.mpr hrun)
    hlast hcompleted
  exact ⟨m', hcompleted, hcandidates, hduplicates, htotal, fun entry hentry hfailed =>
    (hstored entry hentry hfailed).2⟩

end MinerRun

end CoreMesh.LogMiner
