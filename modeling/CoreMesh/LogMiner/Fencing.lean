import CoreMesh.Lib.Except
import CoreMesh.Lib.Transition
import CoreMesh.LogMiner.Repository

/-!
# Lease fencing

Workers claim a lease, work under the claim, stall, resume after their lease expired, and crash. Every
transaction of theirs is one step, serialized by the row lock it takes on the lease. A claim is known
by its run id, which the primary key of `log_miner_runs` keeps from being drawn twice, so a lease that
was taken over no longer matches the claims before.

`granted` remembers every claim handed out, newest first.
-/

namespace CoreMesh.LogMiner

open Transition

abbrev WorkerId := Nat

/-- What a worker does under a claim. -/
inductive Operation where
  | renewClaim (leaseTtlSeconds : Int)
  | storeCachedEmbeddings (providerName embeddingModel inputVersion : String)
      (embeddings : List (String × List Double))
  | mergeCandidateMembers (sourceFingerprint : String) (memberTraceIds : List String)
      (facts : ClusterFacts)
  | persistCandidate (candidate : Candidate) (candidateId caseId : Uuid)
  | finalizeRun (summary : RunSummary) (retentionCutoff : Int)
  | failRun (summary : RunSummary)

/-- The database a transaction commits, if it commits. -/
def committed {α : Type} : Try (α × Database) → Option Database
  | .ok (_, db) => some db
  | .error _ => none

def Operation.commit (db : Database) (claim : RunClaim) (clock : TxClock) :
    Operation → Option Database
  | .renewClaim leaseTtlSeconds => committed (LogMiner.renewClaim db claim leaseTtlSeconds clock)
  | .storeCachedEmbeddings providerName embeddingModel inputVersion embeddings =>
      committed (LogMiner.storeCachedEmbeddings db claim providerName embeddingModel inputVersion
        embeddings clock)
  | .mergeCandidateMembers sourceFingerprint memberTraceIds facts =>
      committed (LogMiner.mergeCandidateMembers db claim sourceFingerprint memberTraceIds facts clock)
  | .persistCandidate candidate candidateId caseId =>
      committed (LogMiner.persistCandidate db claim candidate candidateId caseId clock)
  | .finalizeRun summary retentionCutoff =>
      committed (LogMiner.finalizeRun db claim summary retentionCutoff clock)
  | .failRun summary => committed (LogMiner.failRun db claim summary clock)

structure World where
  db : Database
  clock : Int
  held : WorkerId → List RunClaim
  granted : List RunClaim

inductive Event where
  | tick (now : Int)
  | claimRun (worker : WorkerId) (request : ClaimRequest) (runId claimToken : Uuid) (clock : TxClock)
  | recordSkippedRun (request : ClaimRequest) (reason : String) (runId : Uuid) (clock : TxClock)
  | fenced (worker : WorkerId) (claim : RunClaim) (operation : Operation) (clock : TxClock)
  | crash (worker : WorkerId)

namespace World

def initial (db : Database) (clock : Int) : World where
  db := db
  clock := clock
  held := fun _ => []
  granted := []

/-- A worker receives a claim. -/
def grant (w : World) (worker : WorkerId) (claim : RunClaim) : World :=
  { w with
    held := fun other => if other = worker then claim :: w.held other else w.held other
    granted := claim :: w.granted }

def claimRun (w : World) (worker : WorkerId) (request : ClaimRequest) (runId claimToken : Uuid)
    (clock : TxClock) : World :=
  match LogMiner.claimRun w.db request runId claimToken clock with
  | .error _ => { w with clock := clock.written }
  | .ok (none, db) => { w with db := db, clock := clock.written }
  | .ok (some claim, db) => { w with db := db, clock := clock.written }.grant worker claim

def next (w : World) : Event → Option World
  | .tick now => if w.clock ≤ now then some { w with clock := now } else none
  | .claimRun worker request runId claimToken clock =>
      if w.clock ≤ clock.checked then some (w.claimRun worker request runId claimToken clock)
      else none
  | .recordSkippedRun request reason runId clock =>
      if w.clock ≤ clock.checked then
        some { w with
          db := (committed (LogMiner.recordSkippedRun w.db request reason runId clock)).getD w.db
          clock := clock.written }
      else none
  | .fenced worker claim operation clock =>
      if w.clock ≤ clock.checked ∧ claim ∈ w.held worker then
        some { w with
          db := (operation.commit w.db claim clock).getD w.db
          clock := clock.written }
      else none
  | .crash worker =>
      some { w with held := fun other => if other = worker then [] else w.held other }

/-- The claim is active now. -/
def Active (w : World) (claim : RunClaim) : Prop := claimIsActive w.db claim w.clock = true

/-- A later claim of the same lease has been granted. -/
def Superseded (w : World) (claim : RunClaim) : Prop :=
  ∃ newer older, w.granted = newer ++ claim :: older ∧
    ∃ later ∈ newer, later.leaseName = claim.leaseName

end World

/-! ### What a transaction does to leases and runs -/

/-- No lease has gained an owner and no run has gone. -/
structure Keeps (db db' : Database) : Prop where
  owners : ∀ lease' ∈ db'.leases, ∀ owner', lease'.owner = some owner' →
    ∃ lease ∈ db.leases, lease.leaseName = lease'.leaseName ∧
      ∃ owner, lease.owner = some owner ∧ owner.runId = owner'.runId ∧
        owner.claimToken = owner'.claimToken
  runIds : db.runs.map RunRow.runId ⊆ db'.runs.map RunRow.runId

theorem Keeps.of_eq {db db' : Database} (hleases : db'.leases = db.leases)
    (hruns : db'.runs.map RunRow.runId = db.runs.map RunRow.runId) : Keeps db db' where
  owners := fun lease hlease owner howner =>
    ⟨lease, hleases ▸ hlease, rfl, owner, howner, rfl, rfl⟩
  runIds := fun _ hmem => hruns ▸ hmem

theorem committed_eq_some {α : Type} {tx : Try (α × Database)} {db : Database}
    (hcommit : committed tx = some db) : ∃ value, tx = .ok (value, db) := by
  cases tx with
  | error err => cases hcommit
  | ok result =>
      obtain ⟨value, db'⟩ := result
      obtain rfl := Option.some.inj hcommit
      exact ⟨value, rfl⟩

/-- What is done after a successful check is done under an active claim. -/
theorem assertClaim_bind {α : Type} {db : Database} {claim : RunClaim} {now : Int}
    {rest : Try α} {result : α}
    (hok : (do assertClaim db claim now; rest) = .ok result) :
    claimIsActive db claim now = true ∧ rest = .ok result := by
  unfold assertClaim at hok
  split at hok
  · rename_i hactive
    exact ⟨hactive, hok⟩
  · cases hok

/-- A transaction under a claim: it writes only while the claim is active, and keeps the others'
leases and the runs. -/
structure Fenced (db : Database) (claim : RunClaim) (now : Int) (db' : Database) : Prop where
  keeps : Keeps db db'
  active : claimIsActive db claim now = true ∨ db' = db

theorem updateRun_spec {db db' : Database} {runId : Uuid} {summary : RunSummary} {now : Int}
    (hok : updateRun db runId summary now = .ok ((), db')) :
    db'.leases = db.leases ∧ db'.runs.map RunRow.runId = db.runs.map RunRow.runId := by
  unfold updateRun at hok
  split at hok
  · obtain rfl := (Prod.mk.inj (Except.ok.inj hok)).2
    refine ⟨rfl, Table.map_update ?_ _ _⟩
    exact fun _ => rfl
  · cases hok

theorem releaseLease_keeps (db : Database) (claim : RunClaim) (now : Int) :
    Keeps db (releaseLease db claim now) where
  owners := by
    intro lease' hlease' owner' howner'
    rcases Table.mem_update.mp hlease' with ⟨lease, _, _, rfl⟩ | ⟨hlease, _⟩
    · cases howner'
    · exact ⟨lease', hlease, rfl, owner', howner', rfl, rfl⟩
  runIds := fun _ hmem => hmem

theorem Keeps.trans {db db' db'' : Database} (hleft : Keeps db db') (hright : Keeps db' db'') :
    Keeps db db'' where
  owners := by
    intro lease'' hlease'' owner'' howner''
    obtain ⟨lease', hlease', hname', owner', howner', hrun', htoken'⟩ :=
      hright.owners lease'' hlease'' owner'' howner''
    obtain ⟨lease, hlease, hname, owner, howner, hrun, htoken⟩ :=
      hleft.owners lease' hlease' owner' howner'
    exact ⟨lease, hlease, hname.trans hname', owner, howner, hrun.trans hrun',
      htoken.trans htoken'⟩
  runIds := fun _ hmem => hright.runIds (hleft.runIds hmem)

theorem renewClaim_fenced {db db' : Database} {claim : RunClaim} {ttl : Int} {clock : TxClock}
    {renewed : Bool} (hok : renewClaim db claim ttl clock = .ok (renewed, db')) :
    Fenced db claim clock.checked db' := by
  unfold renewClaim at hok
  split at hok
  · cases hok
  · obtain rfl := (Prod.mk.inj (Except.ok.inj hok)).2
    refine ⟨⟨fun lease' hlease' owner' howner' => ?_, fun _ hmem => hmem⟩, ?_⟩
    · rcases Table.mem_update.mp hlease' with ⟨lease, hlease, _, rfl⟩ | ⟨hlease, _⟩
      · obtain ⟨owner, howner, rfl⟩ := Option.map_eq_some_iff.mp howner'
        exact ⟨lease, hlease, rfl, owner, howner, rfl, rfl⟩
      · exact ⟨lease', hlease, rfl, owner', howner', rfl, rfl⟩
    · cases hactive : claimIsActive db claim clock.checked with
      | true => exact .inl rfl
      | false =>
          refine .inr ?_
          rw [Table.update_of_not_any _ hactive]

/-- A transaction under a claim that leaves leases and runs as they are. -/
structure LeavesRuns (db : Database) (claim : RunClaim) (now : Int) (db' : Database) : Prop where
  leases : db'.leases = db.leases
  runs : db'.runs = db.runs
  active : claimIsActive db claim now = true ∨ db' = db

theorem LeavesRuns.fenced {db db' : Database} {claim : RunClaim} {now : Int}
    (hleaves : LeavesRuns db claim now db') : Fenced db claim now db' :=
  ⟨.of_eq hleaves.leases (by rw [hleaves.runs]), hleaves.active⟩

theorem storeCachedEmbeddings_leavesRuns {db db' : Database} {claim : RunClaim}
    {providerName embeddingModel inputVersion : String} {embeddings : List (String × List Double)}
    {clock : TxClock} (hok : storeCachedEmbeddings db claim providerName embeddingModel inputVersion
      embeddings clock = .ok ((), db')) : LeavesRuns db claim clock.checked db' := by
  unfold storeCachedEmbeddings at hok
  split at hok
  · obtain rfl := (Prod.mk.inj (Except.ok.inj hok)).2
    exact ⟨rfl, rfl, .inr rfl⟩
  · obtain ⟨hactive, hrest⟩ := assertClaim_bind hok
    obtain ⟨cache, _, hreturn⟩ := Outcome.bind_eq_ok hrest
    obtain rfl := (Prod.mk.inj (Except.ok.inj hreturn)).2
    exact ⟨rfl, rfl, .inl hactive⟩

theorem mergeCandidateMembers_leavesRuns {db db' : Database} {claim : RunClaim}
    {sourceFingerprint : String} {memberTraceIds : List String} {facts : ClusterFacts}
    {clock : TxClock} {merged : Bool}
    (hok : mergeCandidateMembers db claim sourceFingerprint memberTraceIds facts clock
      = .ok (merged, db')) : LeavesRuns db claim clock.checked db' := by
  obtain ⟨hactive, hrest⟩ := assertClaim_bind hok
  split at hrest
  · obtain rfl := (Prod.mk.inj (Except.ok.inj hrest)).2
    exact ⟨rfl, rfl, .inl hactive⟩
  · obtain rfl := (Prod.mk.inj (Except.ok.inj hrest)).2
    exact ⟨rfl, rfl, .inl hactive⟩

theorem promote_leavesRuns {db db' : Database} {candidate : Candidate} {claim : RunClaim}
    {candidateId caseId linked : Uuid} {now : Int}
    (hok : promote db candidate claim candidateId caseId now = .ok (linked, db')) :
    db'.leases = db.leases ∧ db'.runs = db.runs := by
  unfold promote at hok
  obtain ⟨golden, _, hlink⟩ := Outcome.bind_eq_ok hok
  split at hlink
  · cases hlink
  · obtain rfl := (Prod.mk.inj (Except.ok.inj hlink)).2
    exact ⟨rfl, rfl⟩

theorem persistCandidate_leavesRuns {db db' : Database} {claim : RunClaim} {candidate : Candidate}
    {candidateId caseId : Uuid} {clock : TxClock} {result : PersistResult}
    (hok : persistCandidate db claim candidate candidateId caseId clock = .ok (result, db')) :
    LeavesRuns db claim clock.checked db' := by
  obtain ⟨hactive, hrest⟩ := assertClaim_bind hok
  split at hrest
  · obtain ⟨facts, _, hreturn⟩ := Outcome.bind_eq_ok hrest
    obtain rfl := (Prod.mk.inj (Except.ok.inj hreturn)).2
    exact ⟨rfl, rfl, .inl hactive⟩
  · split at hrest
    · obtain ⟨facts, _, hstatus⟩ := Outcome.bind_eq_ok hrest
      split at hstatus
      · obtain rfl := (Prod.mk.inj (Except.ok.inj hstatus)).2
        exact ⟨rfl, rfl, .inl hactive⟩
      · obtain ⟨⟨linked, promoted⟩, hpromote, hreturn⟩ := Outcome.bind_eq_ok hstatus
        obtain rfl := (Prod.mk.inj (Except.ok.inj hreturn)).2
        obtain ⟨hleases, hruns⟩ := promote_leavesRuns hpromote
        exact ⟨hleases, hruns, .inl hactive⟩
    · cases hrest

theorem finalizeRun_fenced {db db' : Database} {claim : RunClaim} {summary : RunSummary}
    {retentionCutoff : Int} {clock : TxClock} {purgedCount : Nat}
    (hok : finalizeRun db claim summary retentionCutoff clock = .ok (purgedCount, db')) :
    Fenced db claim clock.checked db' := by
  obtain ⟨hactive, hrest⟩ := assertClaim_bind hok
  refine ⟨?_, .inl hactive⟩
  obtain ⟨⟨⟨⟩, updated⟩, hupdate, hreturn⟩ := Outcome.bind_eq_ok hrest
  obtain rfl := (Prod.mk.inj (Except.ok.inj hreturn)).2
  have hupdated : Keeps db updated := .of_eq (updateRun_spec hupdate).1 (updateRun_spec hupdate).2
  exact hupdated.trans (releaseLease_keeps _ _ _)

theorem failRun_fenced {db db' : Database} {claim : RunClaim} {summary : RunSummary}
    {clock : TxClock} (hok : failRun db claim summary clock = .ok ((), db')) :
    Fenced db claim clock.checked db' := by
  obtain ⟨hactive, hrest⟩ := assertClaim_bind hok
  refine ⟨?_, .inl hactive⟩
  obtain ⟨⟨⟨⟩, updated⟩, hupdate, hreturn⟩ := Outcome.bind_eq_ok hrest
  obtain rfl := (Prod.mk.inj (Except.ok.inj hreturn)).2
  have hupdated : Keeps db updated := .of_eq (updateRun_spec hupdate).1 (updateRun_spec hupdate).2
  exact hupdated.trans (releaseLease_keeps _ _ _)

/-- Every operation under a claim is fenced. -/
theorem Operation.commit_fenced {db db' : Database} {claim : RunClaim} {clock : TxClock}
    {operation : Operation} (hcommit : operation.commit db claim clock = some db') :
    Fenced db claim clock.checked db' := by
  cases operation with
  | renewClaim ttl =>
      obtain ⟨_, hok⟩ := committed_eq_some hcommit
      exact renewClaim_fenced hok
  | storeCachedEmbeddings providerName embeddingModel inputVersion embeddings =>
      obtain ⟨_, hok⟩ := committed_eq_some hcommit
      exact (storeCachedEmbeddings_leavesRuns hok).fenced
  | mergeCandidateMembers sourceFingerprint memberTraceIds facts =>
      obtain ⟨_, hok⟩ := committed_eq_some hcommit
      exact (mergeCandidateMembers_leavesRuns hok).fenced
  | persistCandidate candidate candidateId caseId =>
      obtain ⟨_, hok⟩ := committed_eq_some hcommit
      exact (persistCandidate_leavesRuns hok).fenced
  | finalizeRun summary retentionCutoff =>
      obtain ⟨_, hok⟩ := committed_eq_some hcommit
      exact finalizeRun_fenced hok
  | failRun summary =>
      obtain ⟨_, hok⟩ := committed_eq_some hcommit
      exact failRun_fenced hok

theorem recordSkippedRun_keeps {db db' : Database} {request : ClaimRequest} {reason : String}
    {runId skipped : Uuid} {clock : TxClock}
    (hok : recordSkippedRun db request reason runId clock = .ok (skipped, db')) : Keeps db db' := by
  unfold recordSkippedRun at hok
  split at hok
  · rename_i runs hinsert
    obtain ⟨_, rfl⟩ := Prod.mk.inj (Except.ok.inj hok)
    obtain ⟨_, rfl⟩ := Table.insert_eq_some hinsert
    refine ⟨(Keeps.of_eq rfl rfl).owners, fun runId hmem => ?_⟩
    rw [List.map_append]
    exact List.mem_append_left _ hmem
  · cases hok

/-- A claim that is granted belongs to a run that is new, and takes over every row of its lease. -/
structure Granted (db : Database) (claim : RunClaim) (db' : Database) : Prop where
  fresh : claim.runId ∉ db.runs.map RunRow.runId
  runIds : db'.runs.map RunRow.runId = db.runs.map RunRow.runId ++ [claim.runId]
  owners : ∀ lease' ∈ db'.leases, ∀ owner', lease'.owner = some owner' →
    (lease'.leaseName = claim.leaseName ∧ owner' = claim.owner) ∨
      (lease'.leaseName ≠ claim.leaseName ∧ lease' ∈ db.leases)

theorem expireRun_runIds (runs : List RunRow) (owner : Option LeaseOwner) (now : Int) :
    (expireRun runs owner now).map RunRow.runId = runs.map RunRow.runId := by
  unfold expireRun
  split
  · rfl
  · refine Table.map_update ?_ _ _
    exact fun _ => rfl

theorem insertLease_owned {leases : List LeaseRow} {name : String} {lease : LeaseRow}
    {owner : LeaseOwner}
    (hmem : lease ∈ Table.insertIgnore LeaseRow.leaseName leases { leaseName := name })
    (howner : lease.owner = some owner) : lease ∈ leases := by
  rcases Table.mem_insertIgnore hmem with hold | rfl
  · exact hold
  · cases howner

theorem claimRun_spec {db db' : Database} {request : ClaimRequest} {runId claimToken : Uuid}
    {clock : TxClock} {result : Option RunClaim}
    (hok : claimRun db request runId claimToken clock = .ok (result, db')) :
    (result = none ∧ Keeps db db') ∨ ∃ claim, result = some claim ∧ Granted db claim db' := by
  unfold claimRun at hok
  dsimp only at hok
  split at hok
  · cases hok
  · split at hok
    · cases hok
    · split at hok
      · obtain ⟨rfl, rfl⟩ := Prod.mk.inj (Except.ok.inj hok)
        refine .inl ⟨rfl, fun lease hlease owner howner => ?_, fun _ hmem => hmem⟩
        exact ⟨lease, insertLease_owned hlease howner, rfl, owner, howner, rfl, rfl⟩
      · split at hok
        · cases hok
        · rename_i runs hinsert
          obtain ⟨rfl, rfl⟩ := Prod.mk.inj (Except.ok.inj hok)
          obtain ⟨hfresh, rfl⟩ := Table.insert_eq_some hinsert
          rw [expireRun_runIds] at hfresh
          refine .inr ⟨_, rfl, hfresh, ?_, fun lease' hlease' owner' howner' => ?_⟩
          · simp only [List.map_append, expireRun_runIds]
            rfl
          · rcases Table.mem_update.mp hlease' with ⟨lease, _, hname, rfl⟩ | ⟨hlease, hother⟩
            · have hsame : lease.leaseName = request.leaseName := by simpa using hname
              exact .inl ⟨hsame, (Option.some.inj howner').symm⟩
            · have hdiffers : lease'.leaseName ≠ request.leaseName := by simpa using hother
              exact .inr ⟨hdiffers, insertLease_owned hlease howner'⟩

/-! ### The newest claim of a lease is the only one that can be active -/

/-- The claim last granted for a lease. -/
def newest (granted : List RunClaim) (leaseName : String) : Option RunClaim :=
  granted.find? fun claim => claim.leaseName == leaseName

namespace World

structure Inv (w : World) : Prop where
  runs : ∀ claim ∈ w.granted, claim.runId ∈ w.db.runs.map RunRow.runId
  distinct : (w.granted.map RunClaim.runId).Nodup
  owner : ∀ lease ∈ w.db.leases, ∀ owner, lease.owner = some owner →
    ∃ claim, newest w.granted lease.leaseName = some claim ∧ claim.runId = owner.runId
  held : ∀ worker, ∀ claim ∈ w.held worker, claim ∈ w.granted

theorem Inv.initial {db : Database} (hfree : ∀ lease ∈ db.leases, lease.owner = none) (clock : Int) :
    (World.initial db clock).Inv where
  runs := fun _ hgranted => by cases hgranted
  distinct := List.nodup_nil
  owner := fun lease hlease owner howner => by
    rw [hfree lease hlease] at howner
    cases howner
  held := fun _ _ hheld => by cases hheld

/-- A change of the database that keeps owners and runs keeps the invariant. -/
theorem Inv.keeps {w : World} (hinv : w.Inv) {db : Database} (hkeeps : Keeps w.db db) (clock : Int) :
    { w with db := db, clock := clock }.Inv where
  runs := fun claim hgranted => hkeeps.runIds (hinv.runs claim hgranted)
  distinct := hinv.distinct
  owner := by
    intro lease' hlease' owner' howner'
    obtain ⟨lease, hlease, hname, owner, howner, hrun, _⟩ :=
      hkeeps.owners lease' hlease' owner' howner'
    obtain ⟨claim, hnewest, hclaim⟩ := hinv.owner lease hlease owner howner
    exact ⟨claim, hname ▸ hnewest, hclaim.trans hrun⟩
  held := hinv.held

theorem Inv.grant {w : World} (hinv : w.Inv) {db : Database} {claim : RunClaim}
    (hgranted : Granted w.db claim db) (worker : WorkerId) (clock : Int) :
    ({ w with db := db, clock := clock }.grant worker claim).Inv where
  runs := by
    intro other hother
    show other.runId ∈ db.runs.map RunRow.runId
    rw [hgranted.runIds, List.mem_append]
    rcases List.mem_cons.mp hother with rfl | hold
    · exact .inr List.mem_cons_self
    · exact .inl (hinv.runs other hold)
  distinct := by
    refine List.nodup_cons.mpr ⟨fun hmem => ?_, hinv.distinct⟩
    obtain ⟨other, hother, hrun⟩ := List.mem_map.mp hmem
    exact hgranted.fresh (hrun ▸ hinv.runs other hother)
  owner := by
    intro lease hlease owner howner
    rcases hgranted.owners lease hlease owner howner with ⟨hname, rfl⟩ | ⟨hother, hold⟩
    · exact ⟨claim, by simp [newest, World.grant, hname], rfl⟩
    · obtain ⟨newestClaim, hnewest, hrun⟩ := hinv.owner lease hold owner howner
      refine ⟨newestClaim, ?_, hrun⟩
      have hskip : (claim.leaseName == lease.leaseName) = false := by
        simpa using fun h => hother h.symm
      show List.find? _ (claim :: w.granted) = _
      rw [List.find?_cons, hskip]
      exact hnewest
  held := by
    intro other c hc
    have hcases : c = claim ∨ c ∈ w.held other := by
      by_cases hworker : other = worker
      · have hmem : c ∈ claim :: w.held other := by simpa [World.grant, hworker] using hc
        exact List.mem_cons.mp hmem
      · exact .inr (by simpa [World.grant, hworker] using hc)
    rcases hcases with rfl | hold
    · exact List.mem_cons_self
    · exact List.mem_cons_of_mem _ (hinv.held other c hold)

/-- What an event comes to: nothing is written, or the transaction that it is about commits. -/
inductive Effect (w : World) : Event → World → Prop where
  | idle (e : Event) (clock : Int) {held : WorkerId → List RunClaim}
      (hheld : ∀ worker, held worker ⊆ w.held worker) :
      Effect w e { w with clock := clock, held := held }
  | claimRefused {worker : WorkerId} {request : ClaimRequest} {runId claimToken : Uuid}
      {clock : TxClock} {db : Database}
      (hok : LogMiner.claimRun w.db request runId claimToken clock = .ok (none, db)) :
      Effect w (.claimRun worker request runId claimToken clock)
        { w with db := db, clock := clock.written }
  | claimGranted {worker : WorkerId} {request : ClaimRequest} {runId claimToken : Uuid}
      {clock : TxClock} {claim : RunClaim} {db : Database}
      (hok : LogMiner.claimRun w.db request runId claimToken clock = .ok (some claim, db)) :
      Effect w (.claimRun worker request runId claimToken clock)
        ({ w with db := db, clock := clock.written }.grant worker claim)
  | runSkipped {request : ClaimRequest} {reason : String} {runId skipped : Uuid} {clock : TxClock}
      {db : Database}
      (hok : LogMiner.recordSkippedRun w.db request reason runId clock = .ok (skipped, db)) :
      Effect w (.recordSkippedRun request reason runId clock) { w with db := db, clock := clock.written }
  | committed {worker : WorkerId} {claim : RunClaim} {operation : Operation} {clock : TxClock}
      {db : Database} (hheld : claim ∈ w.held worker)
      (hcommit : operation.commit w.db claim clock = some db) :
      Effect w (.fenced worker claim operation clock) { w with db := db, clock := clock.written }

theorem next_effect {w w' : World} {e : Event} (hstep : w.next e = some w') : w.Effect e w' := by
  have hsame : ∀ worker, w.held worker ⊆ w.held worker := fun _ => List.Subset.refl _
  cases e with
  | tick now =>
      simp only [World.next] at hstep
      split at hstep
      · obtain rfl := Option.some.inj hstep
        exact .idle _ now hsame
      · cases hstep
  | claimRun worker request runId claimToken clock =>
      simp only [World.next] at hstep
      split at hstep
      · obtain rfl := Option.some.inj hstep
        unfold World.claimRun
        split
        · exact .idle _ clock.written hsame
        · next hok => exact .claimRefused hok
        · next hok => exact .claimGranted hok
      · cases hstep
  | recordSkippedRun request reason runId clock =>
      simp only [World.next] at hstep
      split at hstep
      · obtain rfl := Option.some.inj hstep
        cases hcommit : LogMiner.committed (LogMiner.recordSkippedRun w.db request reason runId clock) with
        | none => exact .idle _ clock.written hsame
        | some db =>
            obtain ⟨_, hok⟩ := committed_eq_some hcommit
            exact .runSkipped hok
      · cases hstep
  | fenced worker claim operation clock =>
      simp only [World.next] at hstep
      split at hstep
      · next henabled =>
          obtain rfl := Option.some.inj hstep
          cases hcommit : operation.commit w.db claim clock with
          | none => exact .idle _ clock.written hsame
          | some db => exact .committed henabled.2 hcommit
      · cases hstep
  | crash worker =>
      obtain rfl := Option.some.inj hstep
      refine .idle _ w.clock fun other => ?_
      split
      · exact List.nil_subset _
      · exact List.Subset.refl _

theorem Inv.next {w w' : World} {e : Event} (hinv : w.Inv) (hstep : w.next e = some w') :
    w'.Inv := by
  cases next_effect hstep with
  | idle _ clock hheld =>
      refine ⟨hinv.runs, hinv.distinct, hinv.owner, ?_⟩
      intro other claim hclaim
      exact hinv.held other claim (hheld other hclaim)
  | claimRefused hok =>
      rcases claimRun_spec hok with ⟨_, hkeeps⟩ | ⟨_, hsome, _⟩
      · exact hinv.keeps hkeeps _
      · cases hsome
  | claimGranted hok =>
      rcases claimRun_spec hok with ⟨hnone, _⟩ | ⟨granted, hsome, hgranted⟩
      · cases hnone
      · obtain rfl := Option.some.inj hsome
        exact hinv.grant hgranted _ _
  | runSkipped hok => exact hinv.keeps (recordSkippedRun_keeps hok) _
  | committed _ hcommit => exact hinv.keeps (Operation.commit_fenced hcommit).keeps _

/-- Two granted claims of one run are one claim. -/
theorem Inv.eq_of_runId {w : World} (hinv : w.Inv) {claim other : RunClaim}
    (hclaim : claim ∈ w.granted) (hother : other ∈ w.granted) (hrun : claim.runId = other.runId) :
    claim = other :=
  List.inj_on_of_nodup_map hinv.distinct hclaim hother hrun

/-- Whatever the time, an active claim is the one last granted for its lease. -/
theorem Inv.newest_of_active {w : World} (hinv : w.Inv) {claim : RunClaim} {now : Int}
    (hgranted : claim ∈ w.granted) (hactive : claimIsActive w.db claim now = true) :
    newest w.granted claim.leaseName = some claim := by
  obtain ⟨lease, hlease, howned⟩ := List.any_eq_true.mp hactive
  unfold ownedBy at howned
  split at howned
  · simp at howned
  · rename_i owner howner
    simp only [Bool.and_eq_true, beq_iff_eq, decide_eq_true_eq] at howned
    obtain ⟨hname, ⟨_, hrun⟩, _⟩ := howned
    obtain ⟨last, hlast, hlastRun⟩ := hinv.owner lease hlease owner howner
    have hsame : last = claim :=
      hinv.eq_of_runId (List.mem_of_find?_eq_some hlast) hgranted (hlastRun.trans hrun)
    rw [← hname, hlast, hsame]

theorem Inv.not_newest_of_superseded {w : World} (hinv : w.Inv) {claim : RunClaim}
    (hsuperseded : w.Superseded claim) : newest w.granted claim.leaseName ≠ some claim := by
  obtain ⟨newer, older, heq, later, hlater, hname⟩ := hsuperseded
  intro hnewest
  have hdistinct := hinv.distinct
  rw [heq, List.map_append, List.map_cons] at hdistinct
  obtain ⟨_, _, hdisjoint⟩ := List.nodup_append.mp hdistinct
  rw [heq] at hnewest
  unfold newest at hnewest
  rw [List.find?_append] at hnewest
  have hfound : (newer.find? fun c => c.leaseName == claim.leaseName).isSome := by
    rw [List.find?_isSome]
    exact ⟨later, hlater, by simpa using hname⟩
  obtain ⟨first, hfirst⟩ := Option.isSome_iff_exists.mp hfound
  rw [hfirst, Option.some_or] at hnewest
  obtain rfl := Option.some.inj hnewest
  have hmem : first.runId ∈ newer.map RunClaim.runId :=
    List.mem_map.mpr ⟨first, List.mem_of_find?_eq_some hfirst, rfl⟩
  exact hdisjoint _ hmem _ List.mem_cons_self rfl

theorem Inv.run {db : Database} (hfree : ∀ lease ∈ db.leases, lease.owner = none) {start : Int}
    {es : List Event} {w : World} (hrun : Run (Steps World.next) (World.initial db start) es w) :
    w.Inv :=
  hrun.invariant Inv (Inv.initial hfree start) fun _ _ _ hinv hstep => hinv.next hstep

/-- A superseded claim commits nothing, whichever operation it is used for. -/
theorem Inv.commit_of_superseded {w : World} (hinv : w.Inv) {claim : RunClaim} {clock : TxClock}
    {operation : Operation} (hgranted : claim ∈ w.granted) (hsuperseded : w.Superseded claim) :
    (operation.commit w.db claim clock).getD w.db = w.db := by
  cases hcommit : operation.commit w.db claim clock with
  | none => rfl
  | some db =>
      rcases (Operation.commit_fenced hcommit).active with hactive | hsame
      · exact absurd (hinv.newest_of_active hgranted hactive)
          (hinv.not_newest_of_superseded hsuperseded)
      · exact hsame

/-- In every run one claim of a lease at most is active, and a claim that a later one has superseded
writes nothing any more. -/
theorem lease_fencing {db : Database} (hfree : ∀ lease ∈ db.leases, lease.owner = none)
    {start : Int} {es : List Event} {w : World}
    (hrun : Run (Steps World.next) (World.initial db start) es w) :
    (∀ claim ∈ w.granted, ∀ other ∈ w.granted, claim.leaseName = other.leaseName →
      w.Active claim → w.Active other → claim = other) ∧
    ∀ before worker claim operation clock rest w₁ w₂,
      es = before ++ .fenced worker claim operation clock :: rest →
      Run (Steps World.next) (World.initial db start) before w₁ →
      w₁.next (.fenced worker claim operation clock) = some w₂ →
      w₁.Superseded claim → w₂.db = w₁.db := by
  refine ⟨fun claim hclaim other hother hname hactive hactive' => ?_, ?_⟩
  · have hinv := Inv.run hfree hrun
    have hnewest := hinv.newest_of_active hclaim hactive
    rw [hname, hinv.newest_of_active hother hactive'] at hnewest
    exact (Option.some.inj hnewest).symm
  · intro before worker claim operation clock rest w₁ w₂ _ hbefore hstep hsuperseded
    have hinv := Inv.run hfree hbefore
    simp only [World.next] at hstep
    split at hstep
    · rename_i henabled
      obtain rfl := Option.some.inj hstep
      exact hinv.commit_of_superseded (hinv.held worker claim henabled.2) hsuperseded
    · cases hstep

/-- A clock that stands still during a transaction. -/
def instant (now : Int) : TxClock where
  began := now
  checked := now
  written := now
  began_le := Int.le_refl _
  checked_le := Int.le_refl _

/-- A lease of ten seconds on the production lease, for the window up to time zero. -/
def productionRequest : ClaimRequest where
  leaseName := "production-log-miner"
  leaseTtlSeconds := 10
  windowStart := -1
  windowEnd := 0
  configuration := .obj []

/-- Worker 0 stalls past its lease, worker 1 takes over, and worker 0's failure report is refused. -/
theorem lease_fencing_takeover :
    ∃ w : World, w.granted.length = 2 ∧
      (∀ claim ∈ w.granted, ∀ other ∈ w.granted, claim.leaseName = other.leaseName →
        w.Active claim → w.Active other → claim = other) ∧
      (w.db.runs.map RunRow.status) = [.failed, .running] := by
  let stalled := productionRequest.claim 0 100 1
  have hrun : ∃ w, Run (Steps World.next) (World.initial {} 0)
      [.claimRun 0 productionRequest 0 100 (instant 1), .tick (seconds 20),
        .claimRun 1 productionRequest 1 101 (instant (seconds 20)),
        .fenced 0 stalled (.failRun { status := .failed, counts := {}, errorMessage := none })
          (instant (seconds 21))] w ∧
      w.granted.length = 2 ∧ w.db.runs.map RunRow.status = [.failed, .running] :=
    ⟨_, run_iff_foldlM.mpr rfl, rfl, rfl⟩
  obtain ⟨w, hrun, hgranted, hstatus⟩ := hrun
  have hfree : ∀ lease ∈ ({} : Database).leases, lease.owner = none := fun _ hmem => by cases hmem
  exact ⟨w, hgranted, (lease_fencing hfree hrun).1, hstatus⟩

end World

end CoreMesh.LogMiner
