import CoreMesh.GoldenDataset.Readers

/-!
# Training sets from the golden dataset

When a split is refused: the loop over the cases is followed with what it has seen written out. Of a table that
mining and seeding have written, neither the scopes nor the keys can be a reason.
-/

namespace CoreMesh.FineTuner

section SplitOutcome

variable {python : Python} {config : DatasetConfig}

def contentHash (python : Python) (case : GoldenTrainingCase) : String := python.sha256Json (contentOf case)

/-- What the loop has seen after some cases. -/
def seenAfter (python : Python) (done : List GoldenTrainingCase) : Seen where
  validated := done
  seenKeys := (done.map GoldenTrainingCase.caseKey).reverse
  seenContent := (done.map fun case => (contentHash python case, case.caseKey)).reverse

theorem lookup_seenContent {done : List GoldenTrainingCase} {hash : String} :
    (seenAfter python done).seenContent.lookup hash = none ↔ hash ∉ done.map (contentHash python) := by
  rw [List.lookup_eq_none_iff]
  constructor
  · intro hnone hmem
    obtain ⟨case, hcase, rfl⟩ := List.mem_map.mp hmem
    have hentry := hnone (contentHash python case, case.caseKey)
      (List.mem_reverse.mpr (List.mem_map.mpr ⟨case, hcase, rfl⟩))
    simp at hentry
  · intro hnot entry hentry
    obtain ⟨case, hcase, rfl⟩ := List.mem_map.mp (List.mem_reverse.mp hentry)
    apply bne_iff_ne.mpr
    rintro rfl
    exact hnot (List.mem_map_of_mem hcase)

theorem validateCase_eq_ok_iff {done : List GoldenTrainingCase} {case : GoldenTrainingCase} {seen : Seen} :
    validateCase python config (seenAfter python done) case = .ok seen ↔
      (Valid config case ∧ case.caseKey ∉ done.map GoldenTrainingCase.caseKey ∧
        contentHash python case ∉ done.map (contentHash python)) ∧ seen = seenAfter python (done ++ [case]) := by
  have hkey : (seenAfter python done).seenKeys.contains case.caseKey = true ↔
      case.caseKey ∈ done.map GoldenTrainingCase.caseKey := by
    rw [List.contains_iff_mem, seenAfter, List.mem_reverse]
  have hnext : seenAfter python (done ++ [case]) = ⟨(seenAfter python done).validated ++ [case],
      case.caseKey :: (seenAfter python done).seenKeys,
      (contentHash python case, case.caseKey) :: (seenAfter python done).seenContent⟩ := by
    simp [seenAfter]
  have hrefused {P : Prop} (hnot : ¬P) {error : GoldenDatasetError} :
      (.error error : Except GoldenDatasetError Seen) = .ok seen ↔ P ∧ seen = seenAfter python (done ++ [case]) :=
    iff_of_false (fun heq => by cases heq) fun h => hnot h.1
  rw [validateCase]
  split
  · next hscope => exact hrefused fun h => hscope h.1.scope
  · next hscope =>
      split
      · next hprompt => exact hrefused fun h => h.1.prompt hprompt
      · next hprompt =>
          split
          · next hanswer => exact hrefused fun h => h.1.referenceAnswer hanswer
          · next hanswer =>
              split
              · next hseen => exact hrefused fun h => h.2.1 (hkey.mp hseen)
              · next hfresh =>
                  dsimp only
                  split
                  · next other hother =>
                      refine hrefused fun h => ?_
                      have hnone := lookup_seenContent.mpr h.2.2
                      rw [contentHash, hother] at hnone
                      cases hnone
                  · next hnone =>
                      have hvalid : Valid config case := ⟨not_not.mp hscope, hprompt, hanswer⟩
                      have hhash := lookup_seenContent.mp hnone
                      rw [hnext]
                      constructor
                      · intro hok
                        exact ⟨⟨hvalid, fun hmem => hfresh (hkey.mpr hmem), hhash⟩, (Except.ok.inj hok).symm⟩
                      · exact fun hseen => congrArg Except.ok hseen.2.symm

/-- The loop gets to its end exactly if each case is valid and no two have one key or one hash. -/
theorem validate_eq_ok_iff {cases done : List GoldenTrainingCase} {seen : Seen}
    (hkeys : (done.map GoldenTrainingCase.caseKey).Nodup) (hhashes : (done.map (contentHash python)).Nodup) :
    cases.foldlM (validateCase python config) (seenAfter python done) = .ok seen ↔
      ((∀ case ∈ cases, Valid config case) ∧ ((done ++ cases).map GoldenTrainingCase.caseKey).Nodup ∧
        ((done ++ cases).map (contentHash python)).Nodup) ∧ seen = seenAfter python (done ++ cases) := by
  induction cases generalizing done with
  | nil =>
      rw [List.append_nil, List.foldlM_nil]
      constructor
      · intro hok
        exact ⟨⟨fun case hcase => absurd hcase List.not_mem_nil, hkeys, hhashes⟩, (Except.ok.inj hok).symm⟩
      · exact fun hseen => congrArg Except.ok hseen.2.symm
  | cons case rest ih =>
      have hsplit : done ++ case :: rest = (done ++ [case]) ++ rest := by simp
      have hconcat {β : Type} {f : GoldenTrainingCase → β} :
          ((done ++ [case]).map f).Nodup ↔ f case ∉ done.map f ∧ (done.map f).Nodup := by
        rw [List.map_append, List.map_singleton, ← List.concat_eq_append, List.nodup_concat]
      rw [List.foldlM_cons, hsplit, List.forall_mem_cons]
      constructor
      · intro hok
        obtain ⟨next, hnext, hrest⟩ := Outcome.bind_eq_ok hok
        obtain ⟨⟨hvalid, hkey, hhash⟩, rfl⟩ := validateCase_eq_ok_iff.mp hnext
        have hkeys' := hconcat.mpr ⟨hkey, hkeys⟩
        have hhashes' := hconcat.mpr ⟨hhash, hhashes⟩
        obtain ⟨⟨hall, hnodup⟩, hseen⟩ := (ih hkeys' hhashes').mp hrest
        exact ⟨⟨⟨hvalid, hall⟩, hnodup⟩, hseen⟩
      · intro ⟨⟨⟨hvalid, hall⟩, hnodup, hnodup'⟩, hseen⟩
        have hfront {β : Type} {f : GoldenTrainingCase → β} (h : (((done ++ [case]) ++ rest).map f).Nodup) :
            ((done ++ [case]).map f).Nodup := by
          rw [List.map_append] at h
          exact (List.nodup_append.mp h).1
        have hkey := (hconcat.mp (hfront hnodup)).1
        have hhash := (hconcat.mp (hfront hnodup')).1
        have hnext := validateCase_eq_ok_iff.mpr
          ⟨⟨hvalid, hkey, hhash⟩, (rfl : seenAfter python (done ++ [case]) = seenAfter python (done ++ [case]))⟩
        rw [hnext]
        exact (ih (hfront hnodup) (hfront hnodup')).mpr ⟨⟨hall, hnodup, hnodup'⟩, hseen⟩

/-- A split is refused for a case that is not valid, for a key or a content that comes twice, or for too few cases. -/
theorem splitGoldenCases_eq_ok_iff {cases : List GoldenTrainingCase} {splits : DatasetSplits} :
    splitGoldenCases python config cases = .ok splits ↔
      ((∀ case ∈ cases, Valid config case) ∧ (cases.map GoldenTrainingCase.caseKey).Nodup ∧
        (cases.map (contentHash python)).Nodup ∧ 3 ≤ cases.length) ∧
      splits = cut config (limited python config cases) := by
  have hloop (seen : Seen) := @validate_eq_ok_iff python config cases [] seen List.nodup_nil List.nodup_nil
  rw [splitGoldenCases]
  constructor
  · intro hok
    obtain ⟨seen, hseen, hrest⟩ := Outcome.bind_eq_ok hok
    obtain ⟨⟨hvalid, hkeys, hhashes⟩, rfl⟩ := (hloop seen).mp hseen
    have hvalidated : (seenAfter python ([] ++ cases)).validated = cases := rfl
    rw [hvalidated] at hrest
    split at hrest
    · cases hrest
    · next hthree =>
        have hlimited := @length_limited python config cases (not_lt.mp hthree)
        dsimp only at hrest
        rw [if_neg (not_lt.mpr hlimited)] at hrest
        exact ⟨⟨hvalid, hkeys, hhashes, not_lt.mp hthree⟩, (Except.ok.inj hrest).symm⟩
  · intro hall
    obtain ⟨⟨hvalid, hkeys, hhashes, hthree⟩, hsplits⟩ := hall
    have hseen := (hloop (seenAfter python cases)).mpr ⟨⟨hvalid, hkeys, hhashes⟩, rfl⟩
    have hstart : (⟨[], [], []⟩ : Seen) = seenAfter python [] := rfl
    rw [hstart, hseen, hsplits]
    show (if cases.length < 3 then _ else _) = _
    rw [if_neg (not_lt.mpr hthree)]
    have hlimited := @length_limited python config cases hthree
    show (if (limited python config cases).length < 3 then _ else _) = _
    rw [if_neg (not_lt.mpr hlimited)]
    rfl

end SplitOutcome

end CoreMesh.FineTuner

namespace CoreMesh.GoldenDataset

open Transition CoreMesh.LogMiner
open CoreMesh.FineTuner (GoldenTrainingCase DatasetConfig Valid IsPartition contentOf splitGoldenCases limited shuffled
  splitGoldenCases_eq_ok_iff isPartition_cut length_limited nodup_limited allCases_cut shuffled_perm plainPython thirds
  supportCase)

theorem trainingCase_read {driver : Driver} {row : GoldenRow} {case : GoldenTrainingCase}
    (hok : trainingCase driver row = .ok case) :
    case.caseKey = keyOf driver row ∧ case.featureScope = row.featureScope := by
  obtain ⟨members, -, hreturn⟩ := Outcome.bind_eq_ok hok
  obtain rfl := Except.ok.inj hreturn
  exact ⟨rfl, rfl⟩

/-- A training set from the dataset, over every interleaving of mining and seeding: what is loaded for a scope is
split exactly if each case has a prompt and an answer, no two have one content and there are three or more; and the
split is a partition of the limited shuffled cases of that scope. -/
theorem training_split (driver : Driver) (hcanonical : driver.Canonical)
    (seeds : List SeedCase) (hseeds : (seeds.map SeedCase.caseId).Nodup)
    (hseedDigests : ∀ seed ∈ seeds, IsDigest seed.sourceFingerprint)
    (golden : List GoldenRow) (hformed : WellFormed seeds golden) (hdigests : Digests golden) (logs : List LogRow)
    (start : Int) (es : List DatasetEvent) (w : World)
    (hrun : Run (Steps (next seeds)) (World.initial (Database.migrated golden logs) start) es w)
    (hdraws : ∀ event, .mining event ∈ es → DrawsApart seeds event)
    (hpersisted : ∀ event, .mining event ∈ es → PersistsDigest event)
    (python : FineTuner.Python) (config : DatasetConfig) (cases : List GoldenTrainingCase)
    (hload : loadTrainingCases driver config.featureScope w.db.golden = .ok cases) :
    ((∃ splits, splitGoldenCases python config cases = .ok splits) ↔
      (∀ case ∈ cases, case.prompt ≠ [] ∧ case.referenceAnswer ≠ []) ∧
        (cases.map fun case => python.sha256Json (contentOf case)).Nodup ∧ 3 ≤ cases.length) ∧
    ∀ splits, splitGoldenCases python config cases = .ok splits →
      IsPartition splits (limited python config cases) ∧
        ∀ case ∈ splits.allCases, ∃ row ∈ w.db.golden, row.featureScope = config.featureScope ∧
          trainingCase driver row = .ok case := by
  have hkept : Kept seeds golden es w := Kept.run hseeds hformed (consistent_migrated golden logs) hrun hdraws
  have hdigests' : Digests w.db.golden := digests_of_origin hdigests hseedDigests hpersisted hkept.origin
  have hrow {case : GoldenTrainingCase} (hcase : case ∈ cases) : ∃ row ∈ w.db.golden,
      row.featureScope = config.featureScope ∧ trainingCase driver row = .ok case := by
    obtain ⟨row, hmem, hok⟩ := Outcome.exists_of_mem_mapM hload hcase
    obtain ⟨hin, hscope⟩ := List.mem_filter.mp (List.mem_mergeSort.mp hmem)
    exact ⟨row, hin, beq_iff_eq.mp hscope, hok⟩
  have hkeys : (cases.map GoldenTrainingCase.caseKey).Nodup := by
    rw [map_of_mapM (fun _ _ hok => (trainingCase_read hok).1) hload]
    apply ((List.mergeSort_perm _ _).map _).nodup_iff.mpr
    exact (nodup_keys hcanonical hkept.wellFormed hdigests').sublist (List.filter_sublist.map _)
  have hscope : ∀ case ∈ cases, case.featureScope = config.featureScope := by
    intro case hcase
    obtain ⟨row, -, hsame, hok⟩ := hrow hcase
    exact (trainingCase_read hok).2.trans hsame
  constructor
  · constructor
    · intro ⟨splits, hok⟩
      obtain ⟨⟨hvalid, -, hhashes, hthree⟩, -⟩ := splitGoldenCases_eq_ok_iff.mp hok
      exact ⟨fun case hcase => ⟨(hvalid case hcase).prompt, (hvalid case hcase).referenceAnswer⟩, hhashes, hthree⟩
    · intro ⟨hcontent, hhashes, hthree⟩
      have hvalid : ∀ case ∈ cases, Valid config case := fun case hcase =>
        ⟨hscope case hcase, (hcontent case hcase).1, (hcontent case hcase).2⟩
      exact ⟨_, splitGoldenCases_eq_ok_iff.mpr ⟨⟨hvalid, hkeys, hhashes, hthree⟩, rfl⟩⟩
  · intro splits hok
    obtain ⟨⟨-, -, -, hthree⟩, rfl⟩ := splitGoldenCases_eq_ok_iff.mp hok
    refine ⟨isPartition_cut config (length_limited hthree) (nodup_limited (hkeys.of_map _)), ?_⟩
    intro case hcase
    rw [allCases_cut] at hcase
    have hlimited : case ∈ shuffled python config cases := by
      rw [limited] at hcase
      split at hcase
      · exact List.mem_of_mem_take hcase
      · exact hcase
    exact hrow ((shuffled_perm python config cases).mem_iff.mp hlimited)

def supportRow : GoldenRow where
  caseId := 11
  featureScope := "support"
  userInput := "a"
  expectedOutput := .obj [("reference_answer", .str "yes")]
  difficultyRating := .simple
  originSource := "human_curated"
  sourceFingerprint := none
  provenance := []

def supportSeed : SeedCase where
  caseId := 2
  sourceFingerprint := "5ef2c0de5ef2c0de5ef2c0de5ef2c0de5ef2c0de5ef2c0de5ef2c0de5ef2c0de"
  featureScope := "support"
  userInput := "b"
  expectedOutput := .obj [("reference_answer", .str "yes")]
  difficultyRating := .simple
  originSource := "human_curated"

def supportCandidate : Candidate :=
  { ordersCandidate with
    featureScope := "support"
    userInput := "c"
    expectedOutput := .obj [("reference_answer", .str "yes")] }

/-- A case that people wrote, one that was seeded and one that was mined. -/
def supportCases : List GoldenTrainingCase :=
  [{ supportCase "a" with caseId := "-11" },
    { supportCase "b" with caseId := "-2", sourceFingerprint := some supportSeed.sourceFingerprint },
    { supportCase "c" with caseId := "-8", sourceFingerprint := some supportCandidate.sourceFingerprint }]

/-- One case of a scope is there, the runner seeds another, and a worker promotes the third. -/
theorem training_split_support : ∃ splits, splitGoldenCases plainPython thirds supportCases = .ok splits ∧
    splits.train ≠ [] ∧ splits.validation ≠ [] ∧ splits.test ≠ [] := by
  let claim := World.productionRequest.claim 0 100 1
  let es : List DatasetEvent := [.seed, .mining (.claimRun 0 World.productionRequest 0 100 (World.instant 1)),
    .mining (.fenced 0 claim (.persistCandidate supportCandidate 7 8) (World.instant 2))]
  let seeds := [routingSeed, supportSeed]
  have hrun : ∃ w, Run (Steps (next seeds)) (World.initial (Database.migrated [supportRow] []) 0) es w ∧
      w.db.golden.filter (fun row => row.featureScope == thirds.featureScope) =
        [supportRow, supportSeed.row, supportCandidate.goldenRow 8 7 claim.runId] :=
    ⟨_, run_iff_foldlM.mpr rfl, rfl⟩
  obtain ⟨w, hrun, hfilter⟩ := hrun
  have hformed : WellFormed seeds [supportRow] := by
    refine ⟨by decide, by decide, ?_⟩
    intro row hrow seed hseed hid
    obtain rfl := List.mem_singleton.mp hrow
    have hapart : ∀ seed ∈ seeds, supportRow.caseId ≠ seed.caseId := by decide
    exact absurd hid (hapart seed hseed)
  have hdigests : Digests [supportRow] := by
    intro row hrow text htext
    obtain rfl := List.mem_singleton.mp hrow
    cases htext
  have hdigest (text : String) (htext : text.toList.length = 64 ∧
      text.toList.all ("0123456789abcdef".toList.contains ·) = true) : IsDigest text :=
    ⟨htext.1, fun c hc => by simpa using List.all_eq_true.mp htext.2 c hc⟩
  have hrouting : IsDigest routingSeed.sourceFingerprint := hdigest _ (by decide +kernel)
  have hseeded : IsDigest supportSeed.sourceFingerprint := hdigest _ (by decide +kernel)
  have hmined : IsDigest supportCandidate.sourceFingerprint := hdigest _ (by decide +kernel)
  have hload : loadTrainingCases hyphenated thirds.featureScope w.db.golden = .ok supportCases := by
    rw [loadTrainingCases, hfilter, List.mergeSort_of_pairwise (by decide +kernel), Outcome.mapM_eq_ok_iff_forall₂]
    refine .cons rfl (.cons ?_ (.cons ?_ .nil))
    · rw [trainingCase, SeedCase.row]
      dsimp only
      rw [hseeded.loadedFingerprint_eq]
      rfl
    · rw [trainingCase, Candidate.goldenRow]
      dsimp only
      rw [hmined.loadedFingerprint_eq]
      rfl
  obtain ⟨hiff, hsplits⟩ := training_split hyphenated canonical_hyphenated seeds (by decide)
    (by simpa [seeds] using ⟨hrouting, hseeded⟩) [supportRow] hformed hdigests [] 0 es w hrun
    (by simp [es, seeds, DrawsApart, routingSeed, supportSeed]) (by simpa [es, PersistsDigest] using hmined)
    plainPython thirds supportCases hload
  have hvalid : ∀ case ∈ supportCases, case.prompt ≠ [] ∧ case.referenceAnswer ≠ [] := by decide
  obtain ⟨splits, hok⟩ := hiff.mpr ⟨hvalid, by decide, by decide⟩
  have hpartition := (hsplits splits hok).1
  exact ⟨splits, hok, hpartition.train, hpartition.validation, hpartition.test⟩

end CoreMesh.GoldenDataset
