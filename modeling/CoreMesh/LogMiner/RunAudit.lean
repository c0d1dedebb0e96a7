import CoreMesh.LogMiner.Fencing

/-!
# The run audit

The audit of runs reads three things of the world: which run a lease references, the statuses of the
runs, and the claims granted so far, which say for which lease a run was started. Each transaction
changes them in one of five ways, and the audit is consistent after each.

The runs that `finalize_run` and `fail_run` report are over: the miner reports them as completed and
as failed.
-/

namespace CoreMesh.LogMiner

open Transition

/-- The summary that an operation reports is one of a run that is over. -/
def Operation.Reports : Operation → Prop
  | .finalizeRun summary _ => summary.status ≠ .running
  | .failRun summary => summary.status ≠ .running
  | _ => True

def Event.Reports : Event → Prop
  | .fenced _ _ operation _ => operation.Reports
  | _ => True

/-- The tables after the migration. -/
def Database.migrated (golden : List GoldenRow) (logs : List LogRow) : Database :=
  { leases := [{ leaseName := "production-log-miner" }], golden, logs }

/-! ### What transactions do to leases and runs -/

/-- A lease with the run it references. -/
def LeaseRow.holder (lease : LeaseRow) : String × Option Uuid :=
  (lease.leaseName, lease.owner.map LeaseOwner.runId)

def holders (db : Database) : List (String × Option Uuid) := db.leases.map LeaseRow.holder

/-- The run of an active claim is reported and its lease given up. -/
structure Settles (db : Database) (claim : RunClaim) (db' : Database) : Prop where
  active : ∃ now, claimIsActive db claim now = true
  runs : ∃ status report, status ≠ RunStatus.running ∧
    (∀ run : RunRow, (report run).runId = run.runId ∧ (report run).status = status) ∧
    db'.runs = Table.update db.runs (fun run => run.runId == claim.runId) report
  leases : ∃ now, db'.leases = (releaseLease db claim now).leases

/-- A new run is started for a lease, and a run that the lease references has failed. -/
structure Starts (db : Database) (claim : RunClaim) (db' : Database) : Prop where
  fresh : claim.runId ∉ db.runs.map RunRow.runId
  taken : ∃ lease ∈ Table.insertIgnore LeaseRow.leaseName db.leases { leaseName := claim.leaseName },
    lease.leaseName = claim.leaseName ∧
    ∃ now row, row.runId = claim.runId ∧ row.status = RunStatus.running ∧
      db'.runs = expireRun db.runs lease.owner now ++ [row]
  leases : ∃ now, db'.leases = Table.update
    (Table.insertIgnore LeaseRow.leaseName db.leases { leaseName := claim.leaseName })
    (fun lease => lease.leaseName == claim.leaseName)
    fun lease => { lease with owner := some claim.owner, heartbeatAt := some now }

/-- What a transaction changes that the audit reads. -/
inductive AuditStep (db : Database) (granted : List RunClaim) : Database → List RunClaim → Prop where
  | kept {db' : Database} (hruns : db'.runs = db.runs) (hholders : holders db' = holders db) :
      AuditStep db granted db' granted
  | opened {db' : Database} (name : String) (hfresh : name ∉ db.leases.map LeaseRow.leaseName)
      (hruns : db'.runs = db.runs) (hleases : db'.leases = db.leases ++ [{ leaseName := name }]) :
      AuditStep db granted db' granted
  | skipped {db' : Database} (row : RunRow) (hfresh : row.runId ∉ db.runs.map RunRow.runId)
      (hstatus : row.status ≠ .running) (hruns : db'.runs = db.runs ++ [row])
      (hleases : db'.leases = db.leases) : AuditStep db granted db' granted
  | settled {db' : Database} (claim : RunClaim) (hgranted : claim ∈ granted)
      (hsettles : Settles db claim db') : AuditStep db granted db' granted
  | started {db' : Database} (claim : RunClaim) (hstarts : Starts db claim db') :
      AuditStep db granted db' (claim :: granted)

theorem AuditStep.of_eq {db db' : Database} {granted : List RunClaim} (hruns : db'.runs = db.runs)
    (hleases : db'.leases = db.leases) : AuditStep db granted db' granted :=
  .kept hruns (by rw [holders, holders, hleases])

theorem renewClaim_audit {db db' : Database} {claim : RunClaim} {ttl : Int} {clock : TxClock}
    {renewed : Bool} (granted : List RunClaim)
    (hok : renewClaim db claim ttl clock = .ok (renewed, db')) : AuditStep db granted db' granted := by
  unfold renewClaim at hok
  split at hok
  · cases hok
  · obtain rfl := (Prod.mk.inj (Except.ok.inj hok)).2
    refine .kept rfl (Table.map_update (fun lease => ?_) _ _)
    simp only [LeaseRow.holder, Option.map_map]
    rfl

theorem LeavesRuns.audit {db db' : Database} {claim : RunClaim} {now : Int} (granted : List RunClaim)
    (hleaves : LeavesRuns db claim now db') : AuditStep db granted db' granted :=
  .of_eq hleaves.runs hleaves.leases

/-- The update of the audit row and the release of the lease, after what a report begins with. -/
theorem settles_of_updateRun {db purged updated : Database} {claim : RunClaim} {summary : RunSummary}
    {now checked written : Int} (hactive : claimIsActive db claim checked = true)
    (hruns : purged.runs = db.runs) (hleases : purged.leases = db.leases)
    (hstatus : summary.status ≠ .running)
    (hupdate : updateRun purged claim.runId summary now = .ok ((), updated)) :
    Settles db claim (releaseLease updated claim written) := by
  unfold updateRun at hupdate
  split at hupdate
  · obtain rfl := (Prod.mk.inj (Except.ok.inj hupdate)).2
    let report (run : RunRow) : RunRow :=
      { run with
        status := summary.status
        counts := summary.counts
        errorMessage := summary.errorMessage
        completedAt := some now }
    refine ⟨⟨checked, hactive⟩, ⟨summary.status, report, hstatus, fun run => ⟨rfl, rfl⟩, ?_⟩, written, ?_⟩
    · rw [← hruns]
      rfl
    · simp only [releaseLease, hleases]
  · cases hupdate

theorem finalizeRun_settles {db db' : Database} {claim : RunClaim} {summary : RunSummary}
    {retentionCutoff : Int} {clock : TxClock} {purgedCount : Nat} (hstatus : summary.status ≠ .running)
    (hok : finalizeRun db claim summary retentionCutoff clock = .ok (purgedCount, db')) :
    Settles db claim db' := by
  obtain ⟨hactive, hrest⟩ := assertClaim_bind hok
  obtain ⟨⟨⟨⟩, updated⟩, hupdate, hreturn⟩ := Outcome.bind_eq_ok hrest
  obtain rfl := (Prod.mk.inj (Except.ok.inj hreturn)).2
  apply settles_of_updateRun hactive _ _ _ hupdate
  · rfl
  · rfl
  · exact hstatus

theorem failRun_settles {db db' : Database} {claim : RunClaim} {summary : RunSummary}
    {clock : TxClock} (hstatus : summary.status ≠ .running)
    (hok : failRun db claim summary clock = .ok ((), db')) : Settles db claim db' := by
  obtain ⟨hactive, hrest⟩ := assertClaim_bind hok
  obtain ⟨⟨⟨⟩, updated⟩, hupdate, hreturn⟩ := Outcome.bind_eq_ok hrest
  obtain rfl := (Prod.mk.inj (Except.ok.inj hreturn)).2
  exact settles_of_updateRun hactive rfl rfl hstatus hupdate

theorem Operation.commit_audit {db db' : Database} {claim : RunClaim} {clock : TxClock}
    {operation : Operation} {granted : List RunClaim} (hgranted : claim ∈ granted)
    (hreports : operation.Reports) (hcommit : operation.commit db claim clock = some db') :
    AuditStep db granted db' granted := by
  cases operation with
  | renewClaim ttl =>
      obtain ⟨_, hok⟩ := committed_eq_some hcommit
      exact renewClaim_audit granted hok
  | storeCachedEmbeddings providerName embeddingModel inputVersion embeddings =>
      obtain ⟨_, hok⟩ := committed_eq_some hcommit
      exact (storeCachedEmbeddings_leavesRuns hok).audit granted
  | mergeCandidateMembers sourceFingerprint memberTraceIds facts =>
      obtain ⟨_, hok⟩ := committed_eq_some hcommit
      exact (mergeCandidateMembers_leavesRuns hok).audit granted
  | persistCandidate candidate candidateId caseId =>
      obtain ⟨_, hok⟩ := committed_eq_some hcommit
      exact (persistCandidate_leavesRuns hok).audit granted
  | finalizeRun summary retentionCutoff =>
      obtain ⟨_, hok⟩ := committed_eq_some hcommit
      exact .settled claim hgranted (finalizeRun_settles hreports hok)
  | failRun summary =>
      obtain ⟨_, hok⟩ := committed_eq_some hcommit
      exact .settled claim hgranted (failRun_settles hreports hok)

theorem recordSkippedRun_audit {db db' : Database} {request : ClaimRequest} {reason : String}
    {runId skipped : Uuid} {clock : TxClock} (granted : List RunClaim)
    (hok : recordSkippedRun db request reason runId clock = .ok (skipped, db')) :
    AuditStep db granted db' granted := by
  unfold recordSkippedRun at hok
  split at hok
  · next runs hinsert =>
      obtain ⟨-, rfl⟩ := Prod.mk.inj (Except.ok.inj hok)
      obtain ⟨hfresh, rfl⟩ := Table.insert_eq_some hinsert
      exact .skipped _ hfresh (fun h => by cases h) rfl rfl
  · cases hok

theorem claimRun_audit {db db' : Database} {request : ClaimRequest} {runId claimToken : Uuid}
    {clock : TxClock} {result : Option RunClaim} (granted : List RunClaim)
    (hok : claimRun db request runId claimToken clock = .ok (result, db')) :
    AuditStep db granted db' (result.toList ++ granted) := by
  unfold claimRun at hok
  dsimp only at hok
  split at hok
  · cases hok
  · split at hok
    · cases hok
    · next lease hlease =>
        split at hok
        · obtain ⟨rfl, rfl⟩ := Prod.mk.inj (Except.ok.inj hok)
          by_cases hpresent : request.leaseName ∈ db.leases.map LeaseRow.leaseName
          · refine .of_eq rfl (if_pos ?_)
            obtain ⟨other, hother, hname⟩ := List.mem_map.mp hpresent
            exact List.any_eq_true.mpr ⟨other, hother, by simp [hname]⟩
          · refine .opened request.leaseName hpresent rfl (if_neg fun hany => hpresent ?_)
            obtain ⟨other, hother, hname⟩ := List.any_eq_true.mp hany
            exact List.mem_map.mpr ⟨other, hother, by simpa using hname⟩
        · split at hok
          · cases hok
          · next runs hinsert =>
              obtain ⟨rfl, rfl⟩ := Prod.mk.inj (Except.ok.inj hok)
              obtain ⟨hfresh, rfl⟩ := Table.insert_eq_some hinsert
              rw [expireRun_runIds] at hfresh
              refine .started _ ⟨hfresh, ⟨lease, List.mem_of_find?_eq_some hlease, ?_, _, _, rfl, rfl, rfl⟩,
                _, rfl⟩
              have hname : lease.leaseName = request.leaseName := by simpa using List.find?_some hlease
              exact hname

/-! ### The invariant -/

namespace World

/-- The runs that are running are those that lease rows reference, each started for its lease. -/
structure Audited (w : World) : Prop where
  inv : w.Inv
  runIds : (w.db.runs.map RunRow.runId).Nodup
  names : (w.db.leases.map LeaseRow.leaseName).Nodup
  owned : ∀ name runId, (name, some runId) ∈ holders w.db →
    ∃ run ∈ w.db.runs, run.runId = runId ∧ run.status = .running
  running : ∀ run ∈ w.db.runs, run.status = .running → ∃ claim ∈ w.granted,
    claim.runId = run.runId ∧ (claim.leaseName, some run.runId) ∈ holders w.db

theorem mem_holders {db : Database} {name : String} {runId : Uuid} :
    (name, some runId) ∈ holders db ↔
      ∃ lease ∈ db.leases, lease.leaseName = name ∧ ∃ owner, lease.owner = some owner ∧
        owner.runId = runId := by
  unfold holders LeaseRow.holder
  rw [List.mem_map]
  refine exists_congr fun lease => and_congr_right fun _ => ?_
  rw [Prod.mk.injEq, Option.map_eq_some_iff]

theorem names_eq (db : Database) : db.leases.map LeaseRow.leaseName = (holders db).map Prod.fst := by
  unfold holders
  rw [List.map_map]
  rfl

variable {w : World}

/-- A run is referenced by the lease it was started for. -/
theorem Inv.claim_of_holder (hinv : w.Inv) {name : String} {runId : Uuid}
    (hholder : (name, some runId) ∈ holders w.db) :
    ∃ claim ∈ w.granted, claim.leaseName = name ∧ claim.runId = runId := by
  obtain ⟨lease, hlease, rfl, owner, howner, rfl⟩ := mem_holders.mp hholder
  obtain ⟨claim, hnewest, hrun⟩ := hinv.owner lease hlease owner howner
  refine ⟨claim, List.mem_of_find?_eq_some hnewest, ?_, hrun⟩
  have hname := List.find?_some hnewest
  simpa using hname

theorem Inv.holder_name_unique (hinv : w.Inv) {name name' : String} {runId : Uuid}
    (hholder : (name, some runId) ∈ holders w.db) (hholder' : (name', some runId) ∈ holders w.db) :
    name = name' := by
  obtain ⟨claim, hclaim, rfl, hrun⟩ := hinv.claim_of_holder hholder
  obtain ⟨claim', hclaim', rfl, hrun'⟩ := hinv.claim_of_holder hholder'
  rw [hinv.eq_of_runId hclaim hclaim' (hrun.trans hrun'.symm)]

theorem Audited.run_unique (haudited : w.Audited) {run run' : RunRow} (hrun : run ∈ w.db.runs)
    (hrun' : run' ∈ w.db.runs) (hid : run.runId = run'.runId) : run = run' :=
  List.inj_on_of_nodup_map haudited.runIds hrun hrun' hid

/-- The lease row of an active claim references its run. -/
theorem mem_holders_of_active {db : Database} {claim : RunClaim} {now : Int}
    (hactive : claimIsActive db claim now = true) :
    ∃ lease ∈ db.leases, lease.leaseName = claim.leaseName ∧ ∃ owner, lease.owner = some owner ∧
      owner.runId = claim.runId ∧ owner.claimToken = claim.claimToken := by
  obtain ⟨lease, hlease, howned⟩ := List.any_eq_true.mp hactive
  unfold ownedBy at howned
  split at howned
  · simp at howned
  · next owner howner =>
      simp only [Bool.and_eq_true, beq_iff_eq, decide_eq_true_eq] at howned
      obtain ⟨hname, ⟨htoken, hrun⟩, -⟩ := howned
      exact ⟨lease, hlease, hname, owner, howner, hrun, htoken⟩

/-- Giving up the lease of an active claim leaves the other leases with their runs. -/
theorem Audited.mem_holders_released (haudited : w.Audited) {claim : RunClaim} {db' : Database}
    (hsettles : Settles w.db claim db') (name : String) (runId : Uuid) :
    (name, some runId) ∈ holders db' ↔ (name, some runId) ∈ holders w.db ∧ runId ≠ claim.runId := by
  obtain ⟨now, hactive⟩ := hsettles.active
  obtain ⟨written, hleases⟩ := hsettles.leases
  obtain ⟨active, hmem, hname, activeOwner, hactiveOwner, hrun, htoken⟩ := mem_holders_of_active hactive
  rw [mem_holders, mem_holders, hleases]
  simp only [releaseLease]
  constructor
  · rintro ⟨lease, hlease, rfl, owner, howner, rfl⟩
    obtain ⟨old, -, -, rfl⟩ | ⟨hold, hother⟩ := Table.mem_update.mp hlease
    · cases howner
    · refine ⟨⟨lease, hold, rfl, owner, howner, rfl⟩, fun hsame => ?_⟩
      -- A lease that references the run of the claim is the active one, which is given up.
      have hlease' : (lease.leaseName, some claim.runId) ∈ holders w.db :=
        mem_holders.mpr ⟨lease, hold, rfl, owner, howner, hsame⟩
      have hactive' : (claim.leaseName, some claim.runId) ∈ holders w.db :=
        mem_holders.mpr ⟨active, hmem, hname, activeOwner, hactiveOwner, hrun⟩
      have hleaseName := haudited.inv.holder_name_unique hlease' hactive'
      obtain rfl : lease = active :=
        List.inj_on_of_nodup_map haudited.names hold hmem (hleaseName.trans hname.symm)
      obtain rfl := Option.some.inj (hactiveOwner.symm.trans howner)
      simp [hname, hactiveOwner, hrun, htoken] at hother
  · rintro ⟨⟨lease, hlease, rfl, owner, howner, rfl⟩, hother⟩
    refine ⟨lease, Table.mem_update.mpr (.inr ⟨hlease, ?_⟩), rfl, owner, howner, rfl⟩
    simp [howner, hother]

/-- Taking over a lease leaves the other leases with their runs. -/
theorem mem_holders_started {db db' : Database} {claim : RunClaim} (hstarts : Starts db claim db')
    (name : String) (runId : Uuid) : (name, some runId) ∈ holders db' ↔
      (name = claim.leaseName ∧ runId = claim.runId) ∨
        (name ≠ claim.leaseName ∧ (name, some runId) ∈ holders db) := by
  obtain ⟨written, hleases⟩ := hstarts.leases
  obtain ⟨taken, htaken, hname, -⟩ := hstarts.taken
  rw [mem_holders, mem_holders, hleases]
  constructor
  · rintro ⟨lease, hlease, rfl, owner, howner, rfl⟩
    obtain ⟨old, -, hold, rfl⟩ | ⟨hold, hother⟩ := Table.mem_update.mp hlease
    · obtain rfl := Option.some.inj howner
      exact .inl ⟨by simpa using hold, rfl⟩
    · refine .inr ⟨by simpa using hother, lease, ?_, rfl, owner, howner, rfl⟩
      exact insertLease_owned hold howner
  · rintro (⟨rfl, rfl⟩ | ⟨hother, lease, hlease, rfl, owner, howner, rfl⟩)
    · exact ⟨_, Table.mem_update.mpr (.inl ⟨taken, htaken, by simpa using hname, rfl⟩), hname, _, rfl,
        rfl⟩
    · refine ⟨lease, Table.mem_update.mpr (.inr ⟨Table.subset_insertIgnore _ _ _ hlease, ?_⟩), rfl,
        owner, howner, rfl⟩
      simpa using hother

/-- A run that a takeover leaves running is not the one of the lease. -/
theorem mem_expireRun_running {runs : List RunRow} {owner : Option LeaseOwner} {now : Int} {run : RunRow}
    (hstatus : run.status = .running) : run ∈ expireRun runs owner now ↔
      run ∈ runs ∧ owner.map LeaseOwner.runId ≠ some run.runId := by
  unfold expireRun
  cases owner with
  | none => simp
  | some owner =>
      rw [Table.mem_update, Option.map_some, ne_eq, Option.some.injEq]
      constructor
      · rintro (⟨old, -, -, rfl⟩ | ⟨hmem, hother⟩)
        · cases hstatus
        · refine ⟨hmem, fun hid => ?_⟩
          simp [hid, hstatus] at hother
      · rintro ⟨hmem, hother⟩
        refine .inr ⟨hmem, ?_⟩
        simp [hstatus, Ne.symm hother]

theorem mem_expireRun_of_terminal {runs : List RunRow} (owner : Option LeaseOwner) (now : Int)
    {run : RunRow} (hmem : run ∈ runs) (hstatus : run.status ≠ .running) :
    run ∈ expireRun runs owner now := by
  unfold expireRun
  cases owner with
  | none => exact hmem
  | some owner => exact Table.mem_update.mpr (.inr ⟨hmem, by simp [hstatus]⟩)

theorem taken_holder {db : Database} {lease : LeaseRow} {name : String}
    (hlease : lease ∈ Table.insertIgnore LeaseRow.leaseName db.leases { leaseName := name })
    {runId : Uuid} (howner : lease.owner.map LeaseOwner.runId = some runId) :
    (lease.leaseName, some runId) ∈ holders db := by
  obtain ⟨owner, hsome, hrun⟩ := Option.map_eq_some_iff.mp howner
  exact mem_holders.mpr ⟨lease, insertLease_owned hlease hsome, rfl, owner, hsome, hrun⟩

/-- A running run of the lease that is taken is the one its row references. -/
theorem Audited.taken_of_holder (haudited : w.Audited) {lease : LeaseRow}
    (hlease : lease ∈ Table.insertIgnore LeaseRow.leaseName w.db.leases { leaseName := lease.leaseName })
    {runId : Uuid} (hholder : (lease.leaseName, some runId) ∈ holders w.db) :
    lease.owner.map LeaseOwner.runId = some runId := by
  obtain ⟨row, hrow, hname, owner, howner, hrun⟩ := mem_holders.mp hholder
  have hrow' := Table.subset_insertIgnore LeaseRow.leaseName w.db.leases
    { leaseName := lease.leaseName } hrow
  have hnames := Table.nodup_map_insertIgnore { leaseName := lease.leaseName } haudited.names
  obtain rfl := List.inj_on_of_nodup_map hnames hrow' hlease hname
  rw [howner, Option.map_some, hrun]

theorem Audited.settled (haudited : w.Audited) {w' : World} (hinv : w'.Inv) {claim : RunClaim}
    (hgranted : w'.granted = w.granted) (hsettles : Settles w.db claim w'.db) : w'.Audited := by
  obtain ⟨status, report, hstatus, hreport, hruns⟩ := hsettles.runs
  have hreleased := haudited.mem_holders_released hsettles
  refine
    { inv := hinv
      runIds := ?_
      names := ?_
      owned := fun name runId hholder => ?_
      running := fun run hmem hrunning => ?_ }
  · rw [hruns, Table.map_update fun run => (hreport run).1]
    exact haudited.runIds
  · obtain ⟨now, hleases⟩ := hsettles.leases
    have hnames : w'.db.leases.map LeaseRow.leaseName = w.db.leases.map LeaseRow.leaseName := by
      rw [hleases]
      refine Table.map_update ?_ _ _
      exact fun _ => rfl
    rw [hnames]
    exact haudited.names
  · obtain ⟨hbefore, hother⟩ := (hreleased name runId).mp hholder
    obtain ⟨run, hmem, rfl, hrunning⟩ := haudited.owned name runId hbefore
    refine ⟨run, ?_, rfl, hrunning⟩
    rw [hruns]
    exact Table.mem_update.mpr (.inr ⟨hmem, by simpa using hother⟩)
  · rw [hruns] at hmem
    obtain ⟨old, -, -, rfl⟩ | ⟨hold, hother⟩ := Table.mem_update.mp hmem
    · exact absurd ((hreport old).2.symm.trans hrunning) hstatus
    · obtain ⟨started, hstarted, hid, hholder⟩ := haudited.running run hold hrunning
      rw [hgranted]
      exact ⟨started, hstarted, hid, (hreleased _ _).mpr ⟨hholder, by simpa using hother⟩⟩

theorem Audited.started (haudited : w.Audited) {w' : World} (hinv : w'.Inv) {claim : RunClaim}
    (hgranted : w'.granted = claim :: w.granted) (hstarts : Starts w.db claim w'.db) :
    w'.Audited := by
  have hholders := mem_holders_started hstarts
  obtain ⟨taken, htaken, hname, now, row, hrow, hrowStatus, hruns⟩ := hstarts.taken
  refine
    { inv := hinv
      runIds := ?_
      names := ?_
      owned := fun name runId hholder => ?_
      running := fun run hmem hrunning => ?_ }
  · rw [hruns]
    apply Table.nodup_map_concat
    · rw [expireRun_runIds]
      exact haudited.runIds
    · rw [expireRun_runIds, hrow]
      exact hstarts.fresh
  · obtain ⟨written, hleases⟩ := hstarts.leases
    have hnames : w'.db.leases.map LeaseRow.leaseName =
        (Table.insertIgnore LeaseRow.leaseName w.db.leases { leaseName := claim.leaseName }).map
          LeaseRow.leaseName := by
      rw [hleases]
      refine Table.map_update ?_ _ _
      exact fun _ => rfl
    rw [hnames]
    exact Table.nodup_map_insertIgnore _ haudited.names
  · rw [hruns]
    obtain ⟨rfl, rfl⟩ | ⟨hother, hbefore⟩ := (hholders name runId).mp hholder
    · exact ⟨row, List.mem_append_right _ List.mem_cons_self, hrow, hrowStatus⟩
    · obtain ⟨run, hmem, rfl, hrunning⟩ := haudited.owned name _ hbefore
      refine ⟨run, List.mem_append_left _ ((mem_expireRun_running hrunning).mpr ⟨hmem, fun howner => ?_⟩),
        rfl, hrunning⟩
      -- The run of another lease is not the one that the takeover ends.
      exact hother (haudited.inv.holder_name_unique hbefore (hname ▸ taken_holder htaken howner))
  · rw [hgranted]
    rw [hruns, List.mem_append, List.mem_singleton] at hmem
    obtain hmem | rfl := hmem
    · obtain ⟨hbefore, hother⟩ := (mem_expireRun_running hrunning).mp hmem
      obtain ⟨older, holder, hid, hholder⟩ := haudited.running run hbefore hrunning
      refine ⟨older, List.mem_cons_of_mem _ holder, hid, (hholders _ _).mpr (.inr ⟨fun hsame => ?_, hholder⟩)⟩
      rw [← hname] at hsame htaken
      rw [hsame] at hholder
      exact hother (haudited.taken_of_holder htaken hholder)
    · exact ⟨claim, List.mem_cons_self, hrow.symm, (hholders _ _).mpr (.inl ⟨rfl, hrow⟩)⟩

/-- Each transaction keeps the audit consistent. -/
theorem Audited.step (haudited : w.Audited) {w' : World} (hinv : w'.Inv)
    (hstep : AuditStep w.db w.granted w'.db w'.granted) : w'.Audited := by
  generalize hgranted : w'.granted = granted at hstep
  generalize hdb : w'.db = db at hstep
  cases hstep with
  | kept hruns hholders =>
      subst hdb
      refine
        { inv := hinv
          runIds := by rw [hruns]; exact haudited.runIds
          names := ?_
          owned := ?_
          running := ?_ }
      · rw [names_eq, hholders, ← names_eq]
        exact haudited.names
      · rw [hruns, hholders]
        exact haudited.owned
      · rw [hruns, hholders, hgranted]
        exact haudited.running
  | opened name hfresh hruns hleases =>
      subst hdb
      have hholders (name' : String) (runId : Uuid) :
          (name', some runId) ∈ holders w'.db ↔ (name', some runId) ∈ holders w.db := by
        unfold holders
        rw [hleases, List.map_append, List.mem_append]
        simp [LeaseRow.holder]
      refine
        { inv := hinv
          runIds := by rw [hruns]; exact haudited.runIds
          names := ?_
          owned := fun name' runId hholder => ?_
          running := fun run hmem hrunning => ?_ }
      · rw [hleases]
        exact Table.nodup_map_concat haudited.names hfresh
      · rw [hruns]
        exact haudited.owned name' runId ((hholders name' runId).mp hholder)
      · rw [hruns] at hmem
        obtain ⟨claim, hclaim, hid, hholder⟩ := haudited.running run hmem hrunning
        rw [hgranted]
        exact ⟨claim, hclaim, hid, (hholders _ _).mpr hholder⟩
  | skipped row hfresh hstatus hruns hleases =>
      subst hdb
      have hholders : holders w'.db = holders w.db := by rw [holders, holders, hleases]
      refine
        { inv := hinv
          runIds := ?_
          names := by rw [hleases]; exact haudited.names
          owned := fun name runId hholder => ?_
          running := fun run hmem hrunning => ?_ }
      · rw [hruns]
        exact Table.nodup_map_concat haudited.runIds hfresh
      · rw [hholders] at hholder
        obtain ⟨run, hmem, hrun⟩ := haudited.owned name runId hholder
        rw [hruns]
        exact ⟨run, List.mem_append_left _ hmem, hrun⟩
      · rw [hruns, List.mem_append, List.mem_singleton] at hmem
        obtain hmem | rfl := hmem
        · rw [hholders, hgranted]
          exact haudited.running run hmem hrunning
        · exact absurd hrunning hstatus
  | settled claim _ hsettles =>
      subst hdb
      exact haudited.settled hinv hgranted hsettles
  | started claim hstarts =>
      subst hdb
      exact haudited.started hinv hgranted hstarts

/-- A run that is over keeps its status. -/
theorem Audited.terminal (haudited : w.Audited) {db : Database} {granted : List RunClaim}
    (hstep : AuditStep w.db w.granted db granted) {run : RunRow} (hmem : run ∈ w.db.runs)
    (hstatus : run.status ≠ .running) : run ∈ db.runs := by
  cases hstep with
  | kept hruns => rwa [hruns]
  | opened _ _ hruns => rwa [hruns]
  | skipped row _ _ hruns =>
      rw [hruns]
      exact List.mem_append_left _ hmem
  | started claim hstarts =>
      obtain ⟨taken, -, -, now, row, -, -, hruns⟩ := hstarts.taken
      rw [hruns]
      exact List.mem_append_left _ (mem_expireRun_of_terminal _ now hmem hstatus)
  | settled claim _ hsettles =>
      obtain ⟨status, report, -, -, hruns⟩ := hsettles.runs
      obtain ⟨now, hactive⟩ := hsettles.active
      obtain ⟨lease, hlease, hname, owner, howner, hrun, -⟩ := mem_holders_of_active hactive
      -- The claim is active, so its run is running and is another one.
      obtain ⟨running, hrunning, hid, hrunningStatus⟩ := haudited.owned claim.leaseName claim.runId
        (mem_holders.mpr ⟨lease, hlease, hname, owner, howner, hrun⟩)
      rw [hruns]
      refine Table.mem_update.mpr (.inr ⟨hmem, ?_⟩)
      rw [beq_eq_false_iff_ne]
      intro hsame
      rw [haudited.run_unique hmem hrunning (hsame.trans hid.symm)] at hstatus
      exact hstatus hrunningStatus

theorem next_audit {w' : World} {e : Event} (hinv : w.Inv) (hreports : e.Reports)
    (hstep : w.next e = some w') : AuditStep w.db w.granted w'.db w'.granted := by
  cases next_effect hstep with
  | idle => exact .of_eq rfl rfl
  | claimRefused hok => exact claimRun_audit w.granted hok
  | claimGranted hok => exact claimRun_audit w.granted hok
  | runSkipped hok => exact recordSkippedRun_audit w.granted hok
  | committed hheld hcommit => exact Operation.commit_audit (hinv.held _ _ hheld) hreports hcommit

theorem Audited.next (haudited : w.Audited) {w' : World} {e : Event} (hreports : e.Reports)
    (hstep : w.next e = some w') : w'.Audited :=
  haudited.step (haudited.inv.next hstep) (next_audit haudited.inv hreports hstep)

theorem Audited.migrated (golden : List GoldenRow) (logs : List LogRow) (start : Int) :
    (World.initial (Database.migrated golden logs) start).Audited where
  inv := by
    apply Inv.initial
    simp [Database.migrated]
  runIds := List.nodup_nil
  names := List.nodup_singleton _
  owned := by simp [World.initial, Database.migrated, holders, LeaseRow.holder]
  running := by simp [World.initial, Database.migrated]

/-- A run keeps the audit consistent, and the rows of the runs that were over. -/
theorem Audited.run (haudited : w.Audited) {es : List Event} {w' : World}
    (hreports : ∀ e ∈ es, e.Reports) (hrun : Run (Steps World.next) w es w') :
    w'.Audited ∧ ∀ run ∈ w.db.runs, run.status ≠ .running → run ∈ w'.db.runs := by
  induction hrun with
  | start => exact ⟨haudited, fun run hmem _ => hmem⟩
  | snoc _ hstep ih =>
      obtain ⟨hmid, hkept⟩ := ih fun e he => hreports e (List.mem_append_left _ he)
      have hlast := hreports _ (List.mem_append_right _ List.mem_cons_self)
      exact ⟨hmid.next hlast hstep, fun run hmem hstatus =>
        hmid.terminal (next_audit hmid.inv hlast hstep) (hkept run hmem hstatus) hstatus⟩

/-- The run was started under a claim of the lease. -/
def StartedFor (w : World) (run : RunRow) (lease : LeaseRow) : Prop :=
  ∃ claim ∈ w.granted, claim.runId = run.runId ∧ claim.leaseName = lease.leaseName

/-- A running run is the one that the lease it was started for references. -/
theorem Audited.holder_of_running (haudited : w.Audited) {run : RunRow} {lease : LeaseRow}
    (hrun : run ∈ w.db.runs) (hlease : lease ∈ w.db.leases) (hstatus : run.status = .running)
    (hstarted : w.StartedFor run lease) : ∃ owner, lease.owner = some owner ∧ owner.runId = run.runId := by
  obtain ⟨claim, hclaim, hid, hname⟩ := hstarted
  obtain ⟨claim', hclaim', hid', hholder⟩ := haudited.running run hrun hstatus
  rw [haudited.inv.eq_of_runId hclaim' hclaim (hid'.trans hid.symm), hname] at hholder
  obtain ⟨row, hrow, hrowName, hown⟩ := mem_holders.mp hholder
  rwa [List.inj_on_of_nodup_map haudited.names hrow hlease hrowName] at hown

/-- In every run of the miner's transactions from the migrated database, a lease references the one
running run that was started for it, a lease that references none has none, and a run that is over
stays as it is. -/
theorem leases_reference_running {golden : List GoldenRow} {logs : List LogRow} {start : Int} {es : List Event}
    {w : World} (hreports : ∀ e ∈ es, e.Reports)
    (hrun : Run (Steps World.next) (World.initial (Database.migrated golden logs) start) es w) :
    (∀ lease ∈ w.db.leases, ∀ owner, lease.owner = some owner →
      ∃ run ∈ w.db.runs, run.runId = owner.runId ∧ run.status = .running ∧ w.StartedFor run lease ∧
        ∀ other ∈ w.db.runs, other.status = .running → w.StartedFor other lease → other = run) ∧
    (∀ lease ∈ w.db.leases, lease.owner = none →
      ∀ run ∈ w.db.runs, w.StartedFor run lease → run.status ≠ .running) ∧
    ∀ later w', (∀ e ∈ later, e.Reports) → Run (Steps World.next) w later w' →
      ∀ run ∈ w.db.runs, run.status ≠ .running → run ∈ w'.db.runs ∧
        ∀ run' ∈ w'.db.runs, run'.runId = run.runId → run'.status = run.status := by
  obtain ⟨haudited, -⟩ := (Audited.migrated golden logs start).run hreports hrun
  refine ⟨fun lease hlease owner howner => ?_, fun lease hlease howner run hmem hstarted hstatus => ?_,
    fun later w' hlater hcontinued run hmem hstatus => ?_⟩
  · have hholder : (lease.leaseName, some owner.runId) ∈ holders w.db :=
      mem_holders.mpr ⟨lease, hlease, rfl, owner, howner, rfl⟩
    obtain ⟨run, hmem, hid, hstatus⟩ := haudited.owned _ _ hholder
    obtain ⟨claim, hclaim, hname, hclaimId⟩ := haudited.inv.claim_of_holder hholder
    refine ⟨run, hmem, hid, hstatus, ⟨claim, hclaim, hclaimId.trans hid.symm, hname⟩, ?_⟩
    intro other hother hotherStatus hstarted
    obtain ⟨owner', howner', hotherId⟩ :=
      haudited.holder_of_running hother hlease hotherStatus hstarted
    rw [howner] at howner'
    obtain rfl := Option.some.inj howner'
    exact haudited.run_unique hother hmem (hotherId.symm.trans hid.symm)
  · obtain ⟨owner, hsome, -⟩ := haudited.holder_of_running hmem hlease hstatus hstarted
    rw [howner] at hsome
    cases hsome
  · obtain ⟨haudited', hkept⟩ := haudited.run hlater hcontinued
    have hmem' := hkept run hmem hstatus
    refine ⟨hmem', fun run' hrun' hid => ?_⟩
    rw [haudited'.run_unique hrun' hmem' hid]

/-- A run is taken over after its lease ran out, and the next one is completed. -/
theorem leases_reference_running_takeover :
    ∃ w : World, w.db.runs.map RunRow.status = [.failed, .completed, .running] ∧
      ∀ lease ∈ w.db.leases, ∀ owner, lease.owner = some owner →
        ∃ run ∈ w.db.runs, run.runId = owner.runId ∧ run.status = .running ∧ w.StartedFor run lease ∧
          ∀ other ∈ w.db.runs, other.status = .running → w.StartedFor other lease → other = run := by
  let second := productionRequest.claim 1 101 (seconds 20)
  let es : List Event :=
    [.claimRun 0 productionRequest 0 100 (instant 1),
      .claimRun 1 productionRequest 1 101 (instant (seconds 20)),
      .fenced 1 second (.finalizeRun { status := .completed, counts := {}, errorMessage := none } 0)
        (instant (seconds 21)),
      .claimRun 0 productionRequest 2 102 (instant (seconds 22))]
  have hrun : ∃ w, Run (Steps World.next) (World.initial (Database.migrated [] []) 0) es w ∧
      w.db.runs.map RunRow.status = [.failed, .completed, .running] :=
    ⟨_, run_iff_foldlM.mpr rfl, rfl⟩
  obtain ⟨w, hrun, hstatus⟩ := hrun
  have hreports : ∀ e ∈ es, e.Reports := by simp [es, Event.Reports, Operation.Reports]
  exact ⟨w, hstatus, (leases_reference_running hreports hrun).1⟩

end World

end CoreMesh.LogMiner
