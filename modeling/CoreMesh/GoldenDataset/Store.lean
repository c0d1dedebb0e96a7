import CoreMesh.LogMiner.CandidateStore

/-!
# The golden dataset

Two programs write the table `golden_datasets`: the workers of the log miner, which promote candidates, and the
regression runner, which seeds it with cases of its own. Their transactions come in any order. Nothing of a case but
its provenance is ever written again, so the table without its provenance only grows at its end.

The seeds are those of the runner's version. Their ids are name based, the ids that the database draws are random,
and a version number in the id tells the two apart.
-/

namespace CoreMesh.GoldenDataset

open Transition CoreMesh.LogMiner

/-- A case of `_seed_cases`. -/
structure SeedCase where
  caseId : Uuid
  sourceFingerprint : String
  featureScope : String
  userInput : String
  expectedOutput : Json
  difficultyRating : DifficultyRating
  originSource : String

/-- The row that `seed_golden_cases` proposes for a case. -/
def SeedCase.row (seed : SeedCase) : GoldenRow where
  caseId := seed.caseId
  featureScope := seed.featureScope
  userInput := seed.userInput
  expectedOutput := seed.expectedOutput
  difficultyRating := seed.difficultyRating
  originSource := seed.originSource
  sourceFingerprint := some seed.sourceFingerprint
  provenance := [("ci_seed", .json (.bool true)), ("seed_version", .json (.str "model-regression-ci-v1"))]

/-- The insert of a seed, which replaces the row of its id. The fingerprint of another row makes it fail. -/
def upsertCase (golden : List GoldenRow) (seed : SeedCase) : Try (List GoldenRow) :=
  if golden.any (fun other => other.caseId != seed.caseId &&
      other.sourceFingerprint == some seed.sourceFingerprint) then .error .integrityError
  else .ok (Table.upsert GoldenRow.caseId (fun _ proposed => proposed) golden seed.row)

/-- `seed_golden_cases`, one transaction. -/
def seedGoldenCases (db : Database) (seeds : List SeedCase) : Try (Nat × Database) := do
  let golden ← seeds.foldlM upsertCase db.golden
  return (seeds.length, { db with golden := golden })

inductive DatasetEvent where
  | mining (event : Event)
  | seed

/-- The log miner's workers and the runner at one database. -/
def next (seeds : List SeedCase) (w : World) : DatasetEvent → Option World
  | .mining event => w.next event
  | .seed => some { w with db := (committed (seedGoldenCases w.db seeds)).getD w.db }

/-- A case without its provenance. -/
def label (row : GoldenRow) : GoldenRow := { row with provenance := [] }

def labels (w : World) : List GoldenRow := w.db.golden.map label

/-- The keys of the table hold, and a row with the id of a seed is that seed. -/
structure WellFormed (seeds : List SeedCase) (golden : List GoldenRow) : Prop where
  ids : (golden.map GoldenRow.caseId).Nodup
  fingerprints : (golden.filterMap GoldenRow.sourceFingerprint).Nodup
  seeded : ∀ row ∈ golden, ∀ seed ∈ seeds, row.caseId = seed.caseId → label row = label seed.row

/-- A worker persists a candidate that is promoted, and the row is that of its case. -/
inductive Promotes : Event → GoldenRow → Prop where
  | persist {worker : WorkerId} {claim : RunClaim} {candidate : Candidate} {candidateId caseId : Uuid}
      {clock : TxClock} (hpromoted : candidate.status = .promoted) :
      Promotes (.fenced worker claim (.persistCandidate candidate candidateId caseId) clock)
        (candidate.goldenRow caseId candidateId claim.runId)

/-- No id that the transaction draws for a case is that of a seed. -/
def DrawsApart (seeds : List SeedCase) : Event → Prop
  | .fenced _ _ (.persistCandidate _ _ caseId) _ => caseId ∉ seeds.map SeedCase.caseId
  | _ => True

/-! ### New cases -/

theorem caseId_of_label {row row' : GoldenRow} (hlabel : label row = label row') : row.caseId = row'.caseId := by
  have hid := congrArg GoldenRow.caseId hlabel
  exact hid

theorem sourceFingerprint_of_label {row row' : GoldenRow} (hlabel : label row = label row') :
    row.sourceFingerprint = row'.sourceFingerprint := by
  have hfingerprint := congrArg GoldenRow.sourceFingerprint hlabel
  exact hfingerprint

section NewCases

variable {seeds : List SeedCase} {golden golden' : List GoldenRow} {row : GoldenRow}

/-- What is said of the keys is said of the labels. -/
theorem WellFormed.of_labels (hformed : WellFormed seeds golden)
    (hlabels : golden'.map label = golden.map label) : WellFormed seeds golden' where
  ids := by
    have hids := congrArg (List.map GoldenRow.caseId) hlabels
    rw [List.map_map, List.map_map] at hids
    have hsame : golden'.map GoldenRow.caseId = golden.map GoldenRow.caseId := hids
    exact hsame ▸ hformed.ids
  fingerprints := by
    have hfingerprints := congrArg (List.filterMap GoldenRow.sourceFingerprint) hlabels
    rw [List.filterMap_map, List.filterMap_map] at hfingerprints
    have hsame : golden'.filterMap GoldenRow.sourceFingerprint = golden.filterMap GoldenRow.sourceFingerprint :=
      hfingerprints
    exact hsame ▸ hformed.fingerprints
  seeded := by
    intro row' hrow' seed hseed hid
    have hmem : label row' ∈ golden.map label := hlabels ▸ List.mem_map_of_mem hrow'
    obtain ⟨row, hrow, hlabel⟩ := List.mem_map.mp hmem
    rw [← hlabel]
    exact hformed.seeded row hrow seed hseed ((caseId_of_label hlabel).trans hid)

/-- A row that can be added: its id and its fingerprint are new. -/
structure Fresh (golden : List GoldenRow) (row : GoldenRow) : Prop where
  id : row.caseId ∉ golden.map GoldenRow.caseId
  fingerprint : ∀ other ∈ golden, ∀ text, other.sourceFingerprint = some text → row.sourceFingerprint ≠ some text

theorem WellFormed.concat (hformed : WellFormed seeds golden) (hfresh : Fresh golden row)
    (hseeded : ∀ seed ∈ seeds, row.caseId = seed.caseId → label row = label seed.row) :
    WellFormed seeds (golden ++ [row]) where
  ids := Table.nodup_map_concat hformed.ids hfresh.id
  fingerprints := by
    rw [List.filterMap_append]
    refine List.nodup_append.mpr ⟨hformed.fingerprints, ?_, ?_⟩
    · cases htext : row.sourceFingerprint with
      | none => simp [htext]
      | some text => simp [htext]
    · intro text htext other hother heq
      obtain ⟨old, hold, hfingerprint⟩ := List.mem_filterMap.mp htext
      obtain ⟨row', hrow', hfingerprint'⟩ := List.mem_filterMap.mp hother
      obtain rfl := List.mem_singleton.mp hrow'
      exact hfresh.fingerprint old hold text hfingerprint (heq ▸ hfingerprint')
  seeded := by
    intro row' hrow' seed hseed hid
    obtain hold | hnew := List.mem_append.mp hrow'
    · exact hformed.seeded row' hold seed hseed hid
    · obtain rfl := List.mem_singleton.mp hnew
      exact hseeded seed hseed hid

/-- The labels are as they were, or one case is new. -/
inductive Grows (golden : List GoldenRow) (New : GoldenRow → Prop) (golden' : List GoldenRow) : Prop where
  | kept (hlabels : golden'.map label = golden.map label)
  | added {row : GoldenRow} (hnew : New row) (hfresh : Fresh golden row)
      (hlabels : golden'.map label = golden.map label ++ [label row])

/-- The cases of two tables that agree in their labels are the same to what is new. -/
theorem Fresh.of_labels (hfresh : Fresh golden row) (hlabels : golden'.map label = golden.map label) :
    Fresh golden' row where
  id := by
    have hids := congrArg (List.map GoldenRow.caseId) hlabels
    rw [List.map_map, List.map_map] at hids
    have hsame : golden'.map GoldenRow.caseId = golden.map GoldenRow.caseId := hids
    exact hsame ▸ hfresh.id
  fingerprint := by
    intro other hother text htext
    have hmem : label other ∈ golden.map label := hlabels ▸ List.mem_map_of_mem hother
    obtain ⟨old, hold, hlabel⟩ := List.mem_map.mp hmem
    exact hfresh.fingerprint old hold text ((sourceFingerprint_of_label hlabel).trans htext)

theorem Grows.of_labels {New : GoldenRow → Prop} {before : List GoldenRow}
    (hlabels : golden.map label = before.map label) (hgrows : Grows golden New golden') :
    Grows before New golden' := by
  cases hgrows with
  | kept hkept => exact .kept (hkept.trans hlabels)
  | added hnew hfresh hadded => exact .added hnew (hfresh.of_labels hlabels.symm) (by rw [hadded, hlabels])

theorem Grows.mono {New New' : GoldenRow → Prop} (hgrows : Grows golden New golden')
    (himp : ∀ row, New row → New' row) : Grows golden New' golden' := by
  cases hgrows with
  | kept hkept => exact .kept hkept
  | added hnew hfresh hadded => exact .added (himp _ hnew) hfresh hadded

theorem Grows.wellFormed {New : GoldenRow → Prop} (hformed : WellFormed seeds golden)
    (hgrows : Grows golden New golden')
    (hseeded : ∀ row, New row → ∀ seed ∈ seeds, row.caseId = seed.caseId → label row = label seed.row) :
    WellFormed seeds golden' := by
  cases hgrows with
  | kept hkept => exact hformed.of_labels hkept
  | added hnew hfresh hadded =>
      apply (hformed.concat hfresh (hseeded _ hnew)).of_labels
      rw [hadded, List.map_append, List.map_singleton]

theorem Grows.grown {New : GoldenRow → Prop} (hgrows : Grows golden New golden') :
    golden.map label <+: golden'.map label := by
  cases hgrows with
  | kept hkept => exact hkept ▸ List.prefix_refl _
  | added hnew hfresh hadded =>
      rw [hadded]
      exact List.prefix_append _ _

end NewCases

/-! ### Mining -/

section Mining

variable {db db' : Database} {claim : RunClaim} {clock : TxClock}

/-- A merge of members writes into the provenance of a case and into no other column. -/
theorem labels_mergeMembers (db : Database) (candidateId : Uuid) (memberTraceIds : List String)
    (facts : ClusterFacts) (now : Int) :
    (mergeMembers db candidateId memberTraceIds facts now).golden.map label = db.golden.map label := by
  unfold mergeMembers
  dsimp only
  split
  · rfl
  · next candidate _ =>
      have hlabel : ∀ row : GoldenRow,
          label { row with provenance := row.provenance.concat candidate.provenance } = label row := fun _ => rfl
      exact Table.map_update hlabel _ _

theorem grows_insertGolden {golden golden' : List GoldenRow} {row : GoldenRow}
    (hok : insertGolden golden row = .ok golden') : Grows golden (· = row) golden' := by
  unfold insertGolden at hok
  split at hok
  · obtain rfl := Except.ok.inj hok
    exact .kept rfl
  · next hnone =>
      split at hok
      · cases hok
      · next golden'' hinsert =>
          obtain rfl := Except.ok.inj hok
          obtain ⟨hid, rfl⟩ := Table.insert_eq_some hinsert
          refine .added rfl ⟨hid, fun other hother text hother' hsame => hnone ?_⟩ (by simp)
          exact List.any_eq_true.mpr ⟨other, hother, by simp [hother', hsame]⟩

theorem grows_promote {candidate : Candidate} {candidateId caseId linked : Uuid} {now : Int}
    (hok : promote db candidate claim candidateId caseId now = .ok (linked, db')) :
    Grows db.golden (· = candidate.goldenRow caseId candidateId claim.runId) db'.golden := by
  unfold promote at hok
  obtain ⟨golden, hinsert, hlink⟩ := Outcome.bind_eq_ok hok
  split at hlink
  · cases hlink
  · obtain ⟨-, rfl⟩ := Prod.mk.inj (Except.ok.inj hlink)
    exact grows_insertGolden hinsert

/-- What is new behind a transaction: the case of the promoted candidate that it persists. -/
def CommitNew (claim : RunClaim) (operation : Operation) (row : GoldenRow) : Prop :=
  ∃ candidate candidateId caseId, operation = .persistCandidate candidate candidateId caseId ∧
    candidate.status = .promoted ∧ row = candidate.goldenRow caseId candidateId claim.runId

theorem grows_commit {operation : Operation} (hcommit : operation.commit db claim clock = some db') :
    Grows db.golden (CommitNew claim operation) db'.golden := by
  have hkept (hstore : StoreKept db db') : Grows db.golden (CommitNew claim operation) db'.golden :=
    .kept (by rw [hstore.golden])
  cases operation with
  | renewClaim ttl =>
      obtain ⟨_, hok⟩ := committed_eq_some hcommit
      exact hkept (renewClaim_kept hok)
  | storeCachedEmbeddings providerName embeddingModel inputVersion embeddings =>
      obtain ⟨_, hok⟩ := committed_eq_some hcommit
      exact hkept (storeCachedEmbeddings_kept hok)
  | mergeCandidateMembers sourceFingerprint memberTraceIds facts =>
      obtain ⟨_, hok⟩ := committed_eq_some hcommit
      obtain ⟨-, rfl⟩ | ⟨candidate, -, -, rfl⟩ := mergeCandidateMembers_cases hok
      · exact .kept rfl
      · exact .kept (labels_mergeMembers db _ _ _ _)
  | persistCandidate candidate candidateId caseId =>
      obtain ⟨_, hok⟩ := committed_eq_some hcommit
      obtain ⟨existing, facts, -, -, rfl⟩ | ⟨row, facts, merged, rfl, -, -, rfl, hstatus⟩ :=
        persistCandidate_cases hok
      · exact .kept (labels_mergeMembers db _ _ _ _)
      · have hmerged := labels_mergeMembers (db.inserted (candidate.row candidateId claim.runId clock.began))
          candidateId candidate.allTraceIds facts clock.began
        obtain ⟨-, rfl⟩ | ⟨hpromoted, linked, hpromote⟩ := hstatus
        · exact .kept hmerged
        · apply Grows.of_labels hmerged
          exact (grows_promote hpromote).mono fun row hrow => ⟨_, _, _, rfl, hpromoted, hrow⟩
  | finalizeRun summary retentionCutoff =>
      obtain ⟨_, hok⟩ := committed_eq_some hcommit
      obtain ⟨-, hrest⟩ := assertClaim_bind hok
      obtain ⟨⟨⟨⟩, updated⟩, hupdate, hreturn⟩ := Outcome.bind_eq_ok hrest
      obtain rfl := (Prod.mk.inj (Except.ok.inj hreturn)).2
      -- No purge looks at the golden cases.
      have hgolden : updated.golden = db.golden := (updateRun_kept hupdate).golden
      exact .kept (congrArg (List.map label) hgolden)
  | failRun summary =>
      obtain ⟨_, hok⟩ := committed_eq_some hcommit
      exact hkept (failRun_kept hok)

theorem grows_mining {w w' : World} {event : Event} (hstep : w.next event = some w') :
    Grows w.db.golden (Promotes event) w'.db.golden := by
  cases World.next_effect hstep with
  | idle => exact .kept rfl
  | claimRefused hok => exact .kept (by rw [(World.claimRun_kept hok).golden])
  | claimGranted hok =>
      exact .kept (congrArg (List.map label) (World.claimRun_kept hok).golden)
  | runSkipped hok => exact .kept (by rw [(World.recordSkippedRun_kept hok).golden])
  | committed _ hcommit =>
      refine (grows_commit hcommit).mono fun row hnew => ?_
      obtain ⟨candidate, candidateId, caseId, rfl, hpromoted, rfl⟩ := hnew
      exact .persist hpromoted

end Mining

/-! ### Seeding -/

section Seeding

variable {seeds : List SeedCase} {golden golden' : List GoldenRow}

theorem grows_upsertCase (hformed : WellFormed seeds golden) {seed : SeedCase} (hseed : seed ∈ seeds)
    (hok : upsertCase golden seed = .ok golden') : Grows golden (· = seed.row) golden' := by
  unfold upsertCase at hok
  split at hok
  · cases hok
  · next hother =>
      obtain rfl := Except.ok.inj hok
      unfold Table.upsert
      split
      · -- The row that is there is the seed's.
        refine .kept ?_
        unfold Table.update
        rw [List.map_map]
        apply List.map_congr_left
        intro row hrow
        by_cases hid : row.caseId = seed.caseId
        · have hsame := hformed.seeded row hrow seed hseed hid
          simpa [hid, SeedCase.row] using hsame.symm
        · simp [hid, SeedCase.row]
      · next hnone =>
          have hid : seed.row.caseId ∉ golden.map GoldenRow.caseId := by
            intro hmem
            obtain ⟨row, hrow, hid⟩ := List.mem_map.mp hmem
            exact hnone (List.any_eq_true.mpr ⟨row, hrow, by simp [hid]⟩)
          refine .added rfl ⟨hid, fun other hmem text htext hsame => hother ?_⟩ (by simp)
          obtain rfl := Option.some.inj hsame
          refine List.any_eq_true.mpr ⟨other, hmem, ?_⟩
          have hne : other.caseId ≠ seed.caseId := fun heq => hid (List.mem_map.mpr ⟨other, hmem, heq⟩)
          simp [hne, htext]

/-- What seeding leaves: the labels before it with some of the seeds behind them. -/
structure Seeded (seeds : List SeedCase) (golden golden' : List GoldenRow) : Prop where
  wellFormed : WellFormed seeds golden'
  kept : golden.map label <+: golden'.map label
  origin : ∀ row ∈ golden', label row ∈ golden.map label ∨ ∃ seed ∈ seeds, label row = label seed.row

theorem Seeded.refl (hformed : WellFormed seeds golden) : Seeded seeds golden golden where
  wellFormed := hformed
  kept := List.prefix_refl _
  origin := fun _ hrow => .inl (List.mem_map_of_mem hrow)

theorem Seeded.upsertCase (hseeds : (seeds.map SeedCase.caseId).Nodup) {before : List GoldenRow}
    (hseeded : Seeded seeds before golden) {seed : SeedCase} (hseed : seed ∈ seeds)
    (hok : upsertCase golden seed = .ok golden') : Seeded seeds before golden' := by
  have hgrows := grows_upsertCase hseeded.wellFormed hseed hok
  refine ⟨?_, hseeded.kept.trans hgrows.grown, ?_⟩
  · apply hgrows.wellFormed hseeded.wellFormed
    rintro row rfl other hother hid
    obtain rfl : seed = other := List.inj_on_of_nodup_map hseeds hseed hother hid
    rfl
  · intro row hrow
    have hmem := List.mem_map_of_mem (f := label) hrow
    have hold (hlabel : label row ∈ golden.map label) :
        label row ∈ before.map label ∨ ∃ seed ∈ seeds, label row = label seed.row := by
      obtain ⟨old, hin, heq⟩ := List.mem_map.mp hlabel
      exact heq ▸ hseeded.origin old hin
    cases hgrows with
    | kept hlabels => exact hold (hlabels ▸ hmem)
    | added hnew hfresh hlabels =>
        rw [hlabels, List.mem_append, List.mem_singleton] at hmem
        obtain hlabel | hlabel := hmem
        · exact hold hlabel
        · obtain rfl := hnew
          exact .inr ⟨seed, hseed, hlabel⟩

theorem seeded_seedGoldenCases (hseeds : (seeds.map SeedCase.caseId).Nodup) {db db' : Database} {count : Nat}
    (hformed : WellFormed seeds db.golden) (hok : seedGoldenCases db seeds = .ok (count, db')) :
    db' = { db with golden := db'.golden } ∧ Seeded seeds db.golden db'.golden := by
  obtain ⟨golden, hfold, hreturn⟩ := Outcome.bind_eq_ok hok
  obtain ⟨-, rfl⟩ := Prod.mk.inj (Except.ok.inj hreturn)
  refine ⟨rfl, ?_⟩
  apply Outcome.foldlM_eq_ok (fun _ golden => Seeded seeds db.golden golden) (.refl hformed) _ hfold
  intro done seed rest golden golden' hsplit hseeded hstep
  apply hseeded.upsertCase hseeds _ hstep
  rw [hsplit]
  exact List.mem_append_right _ List.mem_cons_self

end Seeding

/-! ### Runs -/

section Runs

variable {seeds : List SeedCase} {golden : List GoldenRow} {w w' : World}

/-- Where a case came from: the table at the start, a seed, or a promotion. -/
def Origin (seeds : List SeedCase) (golden : List GoldenRow) (es : List DatasetEvent) (row : GoldenRow) : Prop :=
  label row ∈ golden.map label ∨ (.seed ∈ es ∧ ∃ seed ∈ seeds, label row = label seed.row) ∨
    ∃ event promoted, .mining event ∈ es ∧ Promotes event promoted ∧ label row = label promoted

theorem Origin.append {es : List DatasetEvent} {row : GoldenRow} (horigin : Origin seeds golden es row)
    (es' : List DatasetEvent) : Origin seeds golden (es ++ es') row := by
  obtain hstart | ⟨hmem, hseed⟩ | ⟨event, promoted, hmem, hpromotes⟩ := horigin
  · exact .inl hstart
  · exact .inr (.inl ⟨List.mem_append_left _ hmem, hseed⟩)
  · exact .inr (.inr ⟨event, promoted, List.mem_append_left _ hmem, hpromotes⟩)

theorem Origin.of_label {es : List DatasetEvent} {row row' : GoldenRow} (horigin : Origin seeds golden es row)
    (hlabel : label row' = label row) : Origin seeds golden es row' := by
  unfold Origin
  rw [hlabel]
  exact horigin

/-- Golden cases with other provenance serve as links just as well. -/
theorem consistent_of_labels {db : Database} (hconsistent : Consistent db) {golden' : List GoldenRow}
    (hkept : db.golden.map label <+: golden'.map label) : Consistent { db with golden := golden' } where
  ids := hconsistent.ids
  fingerprints := hconsistent.fingerprints
  members := hconsistent.members
  counted := hconsistent.counted
  linked := by
    intro row hrow
    refine (hconsistent.linked row hrow).of_same ⟨rfl, rfl, rfl, rfl, rfl⟩ ?_
    intro case hcase
    obtain ⟨case', hcase', hlabel⟩ := List.mem_map.mp (hkept.subset (List.mem_map_of_mem hcase))
    exact ⟨case', hcase', caseId_of_label hlabel, sourceFingerprint_of_label hlabel⟩

/-- What a step keeps. -/
structure Kept (seeds : List SeedCase) (golden : List GoldenRow) (es : List DatasetEvent) (w : World) : Prop where
  wellFormed : WellFormed seeds w.db.golden
  consistent : Consistent w.db
  grown : golden.map label <+: labels w
  origin : ∀ row ∈ w.db.golden, Origin seeds golden es row

theorem Kept.mining {es : List DatasetEvent} (hkept : Kept seeds golden es w) {event : Event}
    (hdraws : DrawsApart seeds event) (hstep : w.next event = some w') :
    Kept seeds golden (es ++ [.mining event]) w' := by
  have hgrows := grows_mining hstep
  refine ⟨hgrows.wellFormed hkept.wellFormed ?_, World.consistent_next hkept.consistent hstep,
    hkept.grown.trans hgrows.grown, ?_⟩
  · intro row hpromotes seed hseed hid
    cases hpromotes with
    | persist hpromoted => exact absurd (List.mem_map.mpr ⟨seed, hseed, hid.symm⟩) hdraws
  · intro row hrow
    have hmem := List.mem_map_of_mem (f := label) hrow
    have hold (hlabel : label row ∈ w.db.golden.map label) : Origin seeds golden (es ++ [.mining event]) row := by
      obtain ⟨old, hin, heq⟩ := List.mem_map.mp hlabel
      exact ((hkept.origin old hin).of_label heq.symm).append _
    cases hgrows with
    | kept hlabels => exact hold (hlabels ▸ hmem)
    | added hnew hfresh hlabels =>
        rw [hlabels, List.mem_append, List.mem_singleton] at hmem
        obtain hlabel | hlabel := hmem
        · exact hold hlabel
        · exact .inr (.inr ⟨event, _, by simp, hnew, hlabel⟩)

theorem Kept.seed (hseeds : (seeds.map SeedCase.caseId).Nodup) {es : List DatasetEvent}
    (hkept : Kept seeds golden es w) (hstep : next seeds w .seed = some w') :
    Kept seeds golden (es ++ [.seed]) w' := by
  obtain rfl := Option.some.inj hstep
  cases hcommit : committed (seedGoldenCases w.db seeds) with
  | none =>
      exact ⟨hkept.wellFormed, hkept.consistent, hkept.grown, fun row hrow => (hkept.origin row hrow).append _⟩
  | some db =>
      obtain ⟨count, hok⟩ := committed_eq_some hcommit
      obtain ⟨hdb, hseeded⟩ := seeded_seedGoldenCases hseeds hkept.wellFormed hok
      rw [Option.getD_some]
      refine ⟨hseeded.wellFormed, ?_, hkept.grown.trans hseeded.kept, ?_⟩
      · show Consistent db
        rw [hdb]
        exact consistent_of_labels hkept.consistent hseeded.kept
      · intro row hrow
        obtain hold | hseed := hseeded.origin row hrow
        · obtain ⟨old, hin, heq⟩ := List.mem_map.mp hold
          exact ((hkept.origin old hin).of_label heq.symm).append _
        · exact .inr (.inl ⟨by simp, hseed⟩)

theorem Kept.run (hseeds : (seeds.map SeedCase.caseId).Nodup) {start : World} {es : List DatasetEvent}
    (hformed : WellFormed seeds start.db.golden) (hconsistent : Consistent start.db)
    (hrun : Run (Steps (next seeds)) start es w) (hdraws : ∀ event, .mining event ∈ es → DrawsApart seeds event) :
    Kept seeds start.db.golden es w := by
  revert hdraws
  refine hrun.history_invariant (fun es w => (∀ event, .mining event ∈ es → DrawsApart seeds event) →
    Kept seeds start.db.golden es w) (fun _ => ⟨hformed, hconsistent, List.prefix_refl _,
      fun row hrow => .inl (List.mem_map_of_mem hrow)⟩) ?_
  intro es w event w' _ ih hstep hdraws
  have hkept := ih fun event hmem => hdraws event (List.mem_append_left _ hmem)
  cases event with
  | mining event => exact hkept.mining (hdraws event (by simp)) hstep
  | seed => exact hkept.seed hseeds hstep

end Runs

/-- The law of the dataset. Over every interleaving of mining and seeding, from any table with its keys: at a later
time every case is there with the label it had, whatever was merged, purged, mined again or seeded; ids and
fingerprints stay unique; each case is one of the start, a seed, or that of a candidate which some worker promoted;
and what a promoted candidate is linked to is, then and for ever, the case of its fingerprint with one label. -/
theorem golden_append_only (seeds : List SeedCase) (hseeds : (seeds.map SeedCase.caseId).Nodup)
    (golden : List GoldenRow) (hformed : WellFormed seeds golden) (logs : List LogRow) (start : Int)
    (es later : List DatasetEvent) (w w' : World)
    (hrun : Run (Steps (next seeds)) (World.initial (Database.migrated golden logs) start) es w)
    (hlater : Run (Steps (next seeds)) w later w')
    (hdraws : ∀ event, .mining event ∈ es ++ later → DrawsApart seeds event) :
    labels w <+: labels w' ∧
    (w'.db.golden.map GoldenRow.caseId).Nodup ∧ (w'.db.golden.filterMap GoldenRow.sourceFingerprint).Nodup ∧
    (∀ row ∈ w'.db.golden, Origin seeds golden (es ++ later) row) ∧
    ∀ candidate ∈ w.db.candidates, candidate.status = .promoted →
      ∃ case ∈ w.db.golden, candidate.goldenCaseId = some case.caseId ∧
        case.sourceFingerprint = some candidate.sourceFingerprint ∧
        ∃ case' ∈ w'.db.golden, label case' = label case := by
  have hfirst : Kept seeds golden es w := Kept.run hseeds hformed (consistent_migrated golden logs) hrun
    fun event hmem => hdraws event (List.mem_append_left _ hmem)
  have hsecond : Kept seeds w.db.golden later w' := Kept.run hseeds hfirst.wellFormed hfirst.consistent hlater
    fun event hmem => hdraws event (List.mem_append_right _ hmem)
  have hall : Kept seeds golden (es ++ later) w' :=
    Kept.run hseeds hformed (consistent_migrated golden logs) (hrun.append hlater) hdraws
  refine ⟨hsecond.grown, hsecond.wellFormed.ids, hsecond.wellFormed.fingerprints, hall.origin, ?_⟩
  intro candidate hcandidate hpromoted
  obtain ⟨case, hcase, hlinked, hfingerprint⟩ := (hfirst.consistent.linked candidate hcandidate).promoted hpromoted
  obtain ⟨case', hcase', hlabel⟩ := List.mem_map.mp (hsecond.grown.subset (List.mem_map_of_mem hcase))
  exact ⟨case, hcase, hlinked, hfingerprint, case', hcase', hlabel⟩

/-- A seed of the runner. -/
def routingSeed : SeedCase where
  caseId := 1
  sourceFingerprint := "5ef1c0de5ef1c0de5ef1c0de5ef1c0de5ef1c0de5ef1c0de5ef1c0de5ef1c0de"
  featureScope := "gateway_autopilot"
  userInput := "Reformat this contact into JSON"
  expectedOutput := .obj []
  difficultyRating := .simple
  originSource := "human_curated"

/-- The table is seeded, a candidate is promoted, and later the runner seeds again and the candidate is merged. -/
theorem golden_append_only_promotion : ∃ w w' : World, (labels w).length = 2 ∧ labels w <+: labels w' ∧
    (w'.db.golden.filterMap GoldenRow.sourceFingerprint).Nodup := by
  let claim := World.productionRequest.claim 0 100 1
  let es : List DatasetEvent := [.seed, .mining (.claimRun 0 World.productionRequest 0 100 (World.instant 1)),
    .mining (.fenced 0 claim (.persistCandidate World.promotedCandidate 7 8) (World.instant 2))]
  let later : List DatasetEvent := [.seed,
    .mining (.fenced 0 claim (.mergeCandidateMembers "8f434346" ["trace-2"] ⟨some 0, false, none, 1⟩)
      (World.instant 3))]
  have hrun : ∃ w w', Run (Steps (next [routingSeed])) (World.initial (Database.migrated [] []) 0) es w ∧
      Run (Steps (next [routingSeed])) w later w' ∧ (labels w).length = 2 :=
    ⟨_, _, run_iff_foldlM.mpr rfl, run_iff_foldlM.mpr rfl, rfl⟩
  obtain ⟨w, w', hrun, hlater, hlength⟩ := hrun
  have hformed : WellFormed [routingSeed] [] := by
    refine ⟨List.nodup_nil, List.nodup_nil, ?_⟩
    intro row hrow
    cases hrow
  obtain ⟨hgrown, -, hfingerprints, -⟩ := golden_append_only [routingSeed] (List.nodup_singleton _) [] hformed [] 0
    es later w w' hrun hlater (by simp [es, later, DrawsApart, routingSeed])
  exact ⟨w, w', hlength, hgrown, hfingerprints⟩

end CoreMesh.GoldenDataset
