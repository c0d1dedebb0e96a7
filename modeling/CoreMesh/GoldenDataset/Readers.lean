import CoreMesh.FineTuner.Splits
import CoreMesh.GoldenDataset.Store
import CoreMesh.Lib.Separators
import CoreMesh.ModelRegression.Comparison

/-!
# The readers of the golden dataset

The regression runner and the fine tuner read the table and know a case by its key: the fingerprint if it has one,
and else its id. A fingerprint is a digest in hexadecimal and an id is written with hyphens, so no two rows of the
table have one key. What the runner reads at a later time has all that it read before.
-/

namespace CoreMesh.GoldenDataset

open Transition CoreMesh.LogMiner CoreMesh.ModelRegression

/-- What the readers get from PostgreSQL and Python: the text of an id, the order of texts, and `json.loads`, which
may raise. -/
structure Driver where
  uuidText : Uuid → String
  collation : String → String → Bool
  loads : String → Option Json

/-- Ids have canonical texts. -/
structure Driver.Canonical (driver : Driver) : Prop where
  injective : Function.Injective driver.uuidText
  hyphen : ∀ id, '-' ∈ (driver.uuidText id).toList

def ratingText : DifficultyRating → String
  | .simple => "simple"
  | .moderate => "moderate"
  | .hard => "hard"
  | .adversarial => "adversarial"

/-- `str(fingerprint).strip() if fingerprint else None`. -/
def loadedFingerprint : Option String → Option String
  | none => none
  | some text => if text = "" then none else some (String.ofList (PyText.strip text.toList))

section Loading

variable (driver : Driver)

/-- `ORDER BY COALESCE(source_fingerprint, ''), case_id`. -/
def precedesInScope (a b : GoldenRow) : Bool :=
  let first := a.sourceFingerprint.getD ""
  let second := b.sourceFingerprint.getD ""
  if first ≠ second then driver.collation first second else decide (a.caseId ≤ b.caseId)

/-- `ORDER BY feature_scope` and then as above. -/
def precedes (a b : GoldenRow) : Bool :=
  if a.featureScope ≠ b.featureScope then driver.collation a.featureScope b.featureScope
  else precedesInScope driver a b

inductive LoadError where
  | runner (error : RunnerError)
  | jsonDecodeError

/-- The runner's `_normalize_expected_output`. -/
def expectedOutput (raw : Json) : Except LoadError (List (String × Json)) := do
  let raw ← match raw with
    | .str text => match driver.loads text with
      | some value => .ok value
      | none => .error .jsonDecodeError
    | raw => .ok raw
  match raw with
  | .obj members => return members
  | _ => throw (.runner (.scoringConfiguration "expected_output must be a JSON object"))

def goldenCase (row : GoldenRow) : Except LoadError GoldenCase := do
  let expectedOutput ← expectedOutput driver row.expectedOutput
  return {
    caseId := driver.uuidText row.caseId
    sourceFingerprint := loadedFingerprint row.sourceFingerprint
    featureScope := row.featureScope
    userInput := row.userInput
    expectedOutput := expectedOutput
    difficultyRating := ratingText row.difficultyRating
    originSource := row.originSource }

/-- The runner's `load_golden_cases`. -/
def loadGoldenCases (golden : List GoldenRow) : Except LoadError (List GoldenCase) :=
  (golden.mergeSort (precedes driver)).mapM (goldenCase driver)

/-- The fine tuner's `_normalize_expected_output`. -/
def trainingOutput (raw : Json) (caseId : String) :
    Except FineTuner.GoldenDatasetError (List (String × Json)) := do
  let raw ← match raw with
    | .str text => match driver.loads text with
      | some value => .ok value
      | none => .error ⟨"golden case " ++ caseId ++ " expected_output is invalid JSON"⟩
    | raw => .ok raw
  match raw with
  | .obj members => return members
  | _ => throw ⟨"golden case " ++ caseId ++ " expected_output must be a JSON object"⟩

def trainingCase (row : GoldenRow) : Except FineTuner.GoldenDatasetError FineTuner.GoldenTrainingCase := do
  let expectedOutput ← trainingOutput driver row.expectedOutput (driver.uuidText row.caseId)
  return {
    caseId := driver.uuidText row.caseId
    sourceFingerprint := loadedFingerprint row.sourceFingerprint
    featureScope := row.featureScope
    userInput := row.userInput
    expectedOutput := expectedOutput }

/-- The fine tuner's `load_golden_cases`, of one scope. -/
def loadTrainingCases (featureScope : String) (golden : List GoldenRow) :
    Except FineTuner.GoldenDatasetError (List FineTuner.GoldenTrainingCase) :=
  ((golden.filter fun row => row.featureScope == featureScope).mergeSort (precedesInScope driver)).mapM
    (trainingCase driver)

/-- The key by which both readers know a row. -/
def keyOf (row : GoldenRow) : String :=
  match loadedFingerprint row.sourceFingerprint with
  | some fingerprint => if fingerprint = "" then driver.uuidText row.caseId else fingerprint
  | none => driver.uuidText row.caseId

end Loading

/-! ### Digests -/

/-- `hexdigest` of SHA-256. -/
def IsDigest (text : String) : Prop :=
  text.toList.length = 64 ∧ ∀ c ∈ text.toList, c ∈ "0123456789abcdef".toList

theorem isSpace_hex : ∀ c ∈ "0123456789abcdef".toList, PyText.isSpace c = false := by simp [PyText.isSpace]

theorem IsDigest.strip_eq {text : String} (hdigest : IsDigest text) : PyText.strip text.toList = text.toList := by
  apply PyText.Trimmed.trim_eq
  constructor
  · intro c hc
    exact isSpace_hex c (hdigest.2 c (List.mem_of_head? hc))
  · intro c hc
    exact isSpace_hex c (hdigest.2 c (List.mem_of_getLast? hc))

theorem IsDigest.ne_empty {text : String} (hdigest : IsDigest text) : text ≠ "" := by
  rintro rfl
  have hlength := hdigest.1
  simp at hlength

theorem IsDigest.no_hyphen {text : String} (hdigest : IsDigest text) : '-' ∉ text.toList := by
  intro hmem
  have hhex := hdigest.2 '-' hmem
  simp at hhex

theorem IsDigest.loadedFingerprint_eq {text : String} (hdigest : IsDigest text) :
    loadedFingerprint (some text) = some text := by
  rw [loadedFingerprint, if_neg hdigest.ne_empty, hdigest.strip_eq, String.ofList_toList]

/-- Each fingerprint of the table is a digest. -/
def Digests (golden : List GoldenRow) : Prop :=
  ∀ row ∈ golden, ∀ text, row.sourceFingerprint = some text → IsDigest text

/-- The candidate that a worker persists has a digest for its fingerprint. -/
def PersistsDigest : Event → Prop
  | .fenced _ _ (.persistCandidate candidate _ _) _ => IsDigest candidate.sourceFingerprint
  | _ => True

section Keys

variable {driver : Driver} {seeds : List SeedCase} {golden golden' : List GoldenRow}

theorem keyOf_of_digest {row : GoldenRow} {text : String} (htext : row.sourceFingerprint = some text)
    (hdigest : IsDigest text) : keyOf driver row = text := by
  rw [keyOf, htext, hdigest.loadedFingerprint_eq]
  exact if_neg hdigest.ne_empty

theorem keyOf_of_none {row : GoldenRow} (hnone : row.sourceFingerprint = none) :
    keyOf driver row = driver.uuidText row.caseId := by
  rw [keyOf, hnone]
  rfl

/-- Of a list without repetition among what a partial function gives, no two elements give the same. -/
theorem eq_of_nodup_filterMap {α β : Type} {f : α → Option β} {l : List α} (hnodup : (l.filterMap f).Nodup)
    {a a' : α} (ha : a ∈ l) (ha' : a' ∈ l) {b : β} (hb : f a = some b) (hb' : f a' = some b) : a = a' := by
  induction l with
  | nil => cases ha
  | cons first rest ih =>
      have hrest : (rest.filterMap f).Nodup := by
        refine hnodup.sublist ?_
        exact (List.sublist_cons_self first rest).filterMap f
      obtain hfirst | hin := List.mem_cons.mp ha
      · obtain hfirst' | hin' := List.mem_cons.mp ha'
        · exact hfirst.trans hfirst'.symm
        · rw [List.filterMap_cons_some (hfirst ▸ hb)] at hnodup
          exact absurd (List.mem_filterMap.mpr ⟨a', hin', hb'⟩) (List.nodup_cons.mp hnodup).1
      · obtain hfirst' | hin' := List.mem_cons.mp ha'
        · rw [List.filterMap_cons_some (hfirst' ▸ hb')] at hnodup
          exact absurd (List.mem_filterMap.mpr ⟨a, hin, hb⟩) (List.nodup_cons.mp hnodup).1
        · exact ih hrest hin hin'

/-- No two rows have one key: not by their fingerprints, not by their ids, and not by one of each. -/
theorem nodup_keys (hcanonical : driver.Canonical) (hformed : WellFormed seeds golden) (hdigests : Digests golden) :
    (golden.map (keyOf driver)).Nodup := by
  have hnodup : golden.Nodup := hformed.ids.of_map _
  refine hnodup.map_on ?_
  have hmixed {row other : GoldenRow} {text : String} (hrow : row ∈ golden)
      (htext : row.sourceFingerprint = some text) (hnone : other.sourceFingerprint = none) : keyOf driver row ≠ keyOf driver other := by
    have hdigest := hdigests row hrow text htext
    rw [keyOf_of_digest htext hdigest, keyOf_of_none hnone]
    intro hsame
    exact hdigest.no_hyphen (hsame ▸ hcanonical.hyphen other.caseId)
  intro row hrow other hother hsame
  cases hfirst : row.sourceFingerprint with
  | some text =>
      cases hsecond : other.sourceFingerprint with
      | some text' =>
          rw [keyOf_of_digest hfirst (hdigests row hrow text hfirst),
            keyOf_of_digest hsecond (hdigests other hother text' hsecond)] at hsame
          exact eq_of_nodup_filterMap hformed.fingerprints hrow hother hfirst (hsame ▸ hsecond)
      | none => exact absurd hsame (hmixed hrow hfirst hsecond)
  | none =>
      cases hsecond : other.sourceFingerprint with
      | some text => exact absurd hsame.symm (hmixed hother hsecond hfirst)
      | none =>
          rw [keyOf_of_none hfirst, keyOf_of_none hsecond] at hsame
          exact List.inj_on_of_nodup_map hformed.ids hrow hother (hcanonical.injective hsame)

theorem digests_of_origin {es : List DatasetEvent} (hgolden : Digests golden)
    (hseeds : ∀ seed ∈ seeds, IsDigest seed.sourceFingerprint)
    (hpersisted : ∀ event, .mining event ∈ es → PersistsDigest event)
    (horigin : ∀ row ∈ golden', Origin seeds golden es row) : Digests golden' := by
  intro row hrow text htext
  obtain hstart | ⟨-, seed, hseed, hlabel⟩ | ⟨event, promoted, hmem, hpromotes, hlabel⟩ := horigin row hrow
  · obtain ⟨old, hold, hlabel⟩ := List.mem_map.mp hstart
    exact hgolden old hold text ((sourceFingerprint_of_label hlabel).trans htext)
  · obtain rfl : seed.sourceFingerprint = text :=
      Option.some.inj ((sourceFingerprint_of_label hlabel).symm.trans htext)
    exact hseeds seed hseed
  · have hpersists := hpersisted event hmem
    have hfingerprint := (sourceFingerprint_of_label hlabel).symm.trans htext
    cases hpromotes with
    | persist hpromoted => exact Option.some.inj hfingerprint ▸ hpersists

end Keys

/-! ### What is loaded -/

section Loaded

variable {driver : Driver} {golden golden' : List GoldenRow} {cases cases' : List GoldenCase}

theorem goldenCase_of_label {row row' : GoldenRow} (hlabel : label row = label row') :
    goldenCase driver row = goldenCase driver row' := by
  have hread : ∀ row, goldenCase driver (label row) = goldenCase driver row := fun _ => rfl
  rw [← hread row, hlabel, hread]

theorem caseKey_goldenCase {row : GoldenRow} {case : GoldenCase} (hok : goldenCase driver row = .ok case) :
    case.caseKey = keyOf driver row := by
  obtain ⟨members, -, hreturn⟩ := Outcome.bind_eq_ok hok
  obtain rfl := Except.ok.inj hreturn
  rfl

/-- The results of a loop, read by a function that the elements determine. -/
theorem map_of_mapM {ε α β γ : Type} {f : α → Except ε β} {g : α → γ} {h : β → γ} {l : List α} {results : List β}
    (hread : ∀ a b, f a = .ok b → h b = g a) (hok : l.mapM f = .ok results) : results.map h = l.map g := by
  have hall := Outcome.mapM_eq_ok_iff_forall₂.mp hok
  induction hall with
  | nil => rfl
  | cons hfirst hrest ih =>
      rw [List.map_cons, List.map_cons, hread _ _ hfirst, ih (Outcome.mapM_eq_ok_iff_forall₂.mpr hrest)]

theorem nodup_caseKeys (hload : loadGoldenCases driver golden = .ok cases)
    (hkeys : (golden.map (keyOf driver)).Nodup) : (cases.map GoldenCase.caseKey).Nodup := by
  rw [map_of_mapM (fun _ _ => caseKey_goldenCase) hload]
  exact ((List.mergeSort_perm golden _).map _).nodup_iff.mpr hkeys

/-- A case is loaded again from a table that has its label still. -/
theorem subset_of_labels (hload : loadGoldenCases driver golden = .ok cases)
    (hload' : loadGoldenCases driver golden' = .ok cases') (hkept : golden.map label <+: golden'.map label) :
    cases ⊆ cases' := by
  intro case hcase
  obtain ⟨row, hrow, hok⟩ := Outcome.exists_of_mem_mapM hload hcase
  have hlabel : label row ∈ golden.map label := List.mem_map_of_mem (List.mem_mergeSort.mp hrow)
  obtain ⟨row', hrow', hsame⟩ := List.mem_map.mp (hkept.subset hlabel)
  obtain ⟨case', hcase', hok'⟩ := Outcome.mem_mapM hload' (List.mem_mergeSort.mpr hrow')
  rw [goldenCase_of_label hsame, hok] at hok'
  exact Except.ok.inj hok' ▸ hcase'

variable {evaluation : Evaluation} {info : RunInfo} {report : Report}

theorem results_of_buildReport (hbuild : buildReport evaluation info cases = .ok report) :
    report = reportOf info report.cases ∧ cases.mapM (evaluateCase evaluation) = .ok report.cases := by
  refine ⟨buildReport_eq_ok hbuild, ?_⟩
  rw [buildReport] at hbuild
  split at hbuild
  · cases hbuild
  · obtain ⟨results, hresults, heq⟩ := Outcome.bind_eq_ok hbuild
    obtain rfl := Except.ok.inj heq
    exact hresults

theorem evaluateCase_read {case : GoldenCase} {result : CaseResult}
    (hok : evaluateCase evaluation case = .ok result) : result.caseKey = case.caseKey ∧ result.featureScope = case.featureScope := by
  obtain ⟨outcome, -, hreturn⟩ := Outcome.bind_eq_ok hok
  obtain rfl := Except.ok.inj hreturn
  exact ⟨rfl, rfl⟩

theorem caseKeys_of_buildReport (hbuild : buildReport evaluation info cases = .ok report) :
    report.cases.map CaseResult.caseKey = cases.map GoldenCase.caseKey :=
  map_of_mapM (fun _ _ hok => (evaluateCase_read hok).1) (results_of_buildReport hbuild).2

theorem scopes_of_buildReport (hbuild : buildReport evaluation info cases = .ok report) (scope : String) :
    scope ∈ report.byFeatureScope.map Prod.fst ↔ scope ∈ cases.map GoldenCase.featureScope := by
  obtain ⟨hreport, hresults⟩ := results_of_buildReport hbuild
  have hfst : report.byFeatureScope.map Prod.fst = scopes report.cases := by
    rw [hreport, reportOf, List.map_map]
    exact List.map_id _
  rw [hfst, mem_scopes, map_of_mapM (fun _ _ hok => (evaluateCase_read hok).2) hresults]

/-- One evaluation of cases that are there both times: each key has the same result in both reports. -/
theorem caseMap_eq {infoB infoC : RunInfo} {baseline candidate : Report}
    (hbaseline : buildReport evaluation infoB cases = .ok baseline)
    (hcandidate : buildReport evaluation infoC cases' = .ok candidate) (hsubset : cases ⊆ cases')
    (hkeys : (cases'.map GoldenCase.caseKey).Nodup) {key : String} {result : CaseResult}
    (hresult : caseMap baseline key = some result) : caseMap candidate key = some result := by
  obtain ⟨rfl, hmem⟩ := OrderedDict.key_of_last? hresult
  obtain ⟨case, hcase, hok⟩ := Outcome.exists_of_mem_mapM (results_of_buildReport hbaseline).2 hmem
  obtain ⟨result', hmem', hok'⟩ := Outcome.mem_mapM (results_of_buildReport hcandidate).2 (hsubset hcase)
  rw [hok] at hok'
  obtain rfl := Except.ok.inj hok'
  apply OrderedDict.Distinct.last?_eq _ hmem'
  unfold OrderedDict.Distinct
  rw [caseKeys_of_buildReport hcandidate]
  exact hkeys

end Loaded

/-- Two reports on the dataset, at a time and at any later one, over every interleaving of mining and seeding: the
gate never fails for a missing case or a scope without results, no result hides another, each case that was loaded is
loaded again as it was, and where the gateway answers as it did, no case has got worse or better. -/
theorem reports_comparable (driver : Driver) (hcanonical : driver.Canonical)
    (seeds : List SeedCase) (hseeds : (seeds.map SeedCase.caseId).Nodup)
    (hseedDigests : ∀ seed ∈ seeds, IsDigest seed.sourceFingerprint)
    (golden : List GoldenRow) (hformed : WellFormed seeds golden) (hdigests : Digests golden) (logs : List LogRow)
    (start : Int) (es later : List DatasetEvent) (w w' : World)
    (hrun : Run (Steps (next seeds)) (World.initial (Database.migrated golden logs) start) es w)
    (hlater : Run (Steps (next seeds)) w later w')
    (hdraws : ∀ event, .mining event ∈ es ++ later → DrawsApart seeds event)
    (hpersisted : ∀ event, .mining event ∈ es ++ later → PersistsDigest event)
    (casesB casesC : List GoldenCase) (hloadB : loadGoldenCases driver w.db.golden = .ok casesB)
    (hloadC : loadGoldenCases driver w'.db.golden = .ok casesC)
    (evaluationB evaluationC : Evaluation) (infoB infoC : RunInfo) (baseline candidate : Report)
    (hbaseline : buildReport evaluationB infoB casesB = .ok baseline)
    (hcandidate : buildReport evaluationC infoC casesC = .ok candidate) (maxDrop minAccuracy : ℚ) :
    (compareReports baseline candidate maxDrop minAccuracy).missingCases = [] ∧
    (∀ scope ∈ baseline.byFeatureScope.map Prod.fst, scope ∈ candidate.byFeatureScope.map Prod.fst) ∧
    (baseline.cases.map CaseResult.caseKey).Nodup ∧ (candidate.cases.map CaseResult.caseKey).Nodup ∧
    casesB ⊆ casesC ∧
    (evaluationB = evaluationC →
      (compareReports baseline candidate maxDrop minAccuracy).regressions = [] ∧
      (compareReports baseline candidate maxDrop minAccuracy).improvements = []) := by
  have hfirst : Kept seeds golden es w := Kept.run hseeds hformed (consistent_migrated golden logs) hrun
    fun event hmem => hdraws event (List.mem_append_left _ hmem)
  have hsecond : Kept seeds w.db.golden later w' := Kept.run hseeds hfirst.wellFormed hfirst.consistent hlater
    fun event hmem => hdraws event (List.mem_append_right _ hmem)
  have hdigestsB : Digests w.db.golden := digests_of_origin hdigests hseedDigests
    (fun event hmem => hpersisted event (List.mem_append_left _ hmem)) hfirst.origin
  have hdigestsC : Digests w'.db.golden := digests_of_origin hdigestsB hseedDigests
    (fun event hmem => hpersisted event (List.mem_append_right _ hmem)) hsecond.origin
  have hsubset : casesB ⊆ casesC := subset_of_labels hloadB hloadC hsecond.grown
  have hkeysC := nodup_caseKeys hloadC (nodup_keys hcanonical hsecond.wellFormed hdigestsC)
  refine ⟨?_, ?_, ?_, ?_, hsubset, ?_⟩
  · show ((sortedKeys baseline.cases).filter fun key => (caseMap candidate key).isNone) = []
    rw [(results_of_buildReport hcandidate).1, missing_eq_nil_iff, caseKeys_of_buildReport hbaseline,
      caseKeys_of_buildReport hcandidate]
    exact fun key hkey => List.map_subset _ hsubset hkey
  · intro scope hscope
    rw [scopes_of_buildReport hcandidate]
    exact List.map_subset _ hsubset ((scopes_of_buildReport hbaseline scope).mp hscope)
  · rw [caseKeys_of_buildReport hbaseline]
    exact nodup_caseKeys hloadB (nodup_keys hcanonical hfirst.wellFormed hdigestsB)
  · rw [caseKeys_of_buildReport hcandidate]
    exact hkeysC
  · rintro rfl
    have hsame {key : String} {result : CaseResult} (hresult : caseMap baseline key = some result) :
        caseMap candidate key = some result := caseMap_eq hbaseline hcandidate hsubset hkeysC hresult
    constructor
    · show (sortedKeys baseline.cases).filterMap (regressionOf baseline candidate) = []
      rw [List.filterMap_eq_nil_iff]
      intro key _
      rw [regressionOf_eq_none_iff]
      intro first second hbefore hafter hpassed
      obtain rfl := Option.some.inj ((hsame hbefore).symm.trans hafter)
      exact hpassed
    · show (sortedKeys baseline.cases).filterMap (improvementOf baseline candidate) = []
      rw [List.filterMap_eq_nil_iff]
      intro key _
      unfold improvementOf
      cases hbefore : caseMap baseline key with
      | none => rfl
      | some result =>
          rw [hsame hbefore]
          simp

def hyphenated : Driver where
  uuidText id := "-" ++ toString id
  collation a b := decide (a ≤ b)
  loads _ := none

theorem canonical_hyphenated : hyphenated.Canonical where
  injective := by
    intro id id' hsame
    have hrest : toString id = toString id' := String.append_right_inj "-" |>.mp hsame
    rw [← (Separators.digits_toString id).2.2, hrest, (Separators.digits_toString id').2.2]
  hyphen id := by simp [hyphenated]

def ordersCandidate : Candidate :=
  { World.promotedCandidate with
    sourceFingerprint := "8f4343468f4343468f4343468f4343468f4343468f4343468f4343468f434346" }

/-- A gateway that gets each case right. -/
def steadyEvaluation : Evaluation := fun _ =>
  .ok ⟨true, 1, [], "headers", "/v1/chat/completions", .code 200, 1, .null⟩

theorem exists_report {golden : List GoldenRow} (hsome : golden ≠ [])
    (hobjects : ∀ row ∈ golden, row.expectedOutput = .obj []) (info : RunInfo) :
    ∃ cases report, loadGoldenCases hyphenated golden = .ok cases ∧
      buildReport steadyEvaluation info cases = .ok report := by
  have hload : ∃ cases, loadGoldenCases hyphenated golden = .ok cases := by
    apply Outcome.exists_mapM_eq_ok_iff.mpr
    intro row hrow
    have hobject := hobjects row (List.mem_mergeSort.mp hrow)
    exact ⟨_, by rw [goldenCase, hobject]; rfl⟩
  obtain ⟨cases, hload⟩ := hload
  have hne : cases ≠ [] := by
    intro hnil
    have hlength := Outcome.length_mapM hload
    rw [hnil, List.length_mergeSort] at hlength
    exact hsome (List.length_eq_zero_iff.mp hlength.symm)
  obtain ⟨results, hresults⟩ := Outcome.exists_mapM_eq_ok_iff.mpr fun case (_ : case ∈ cases) =>
    (⟨_, rfl⟩ : ∃ result, evaluateCase steadyEvaluation case = .ok result)
  refine ⟨cases, reportOf info results, hload, ?_⟩
  rw [buildReport, if_neg hne, hresults]
  rfl

/-- The baseline is built behind the seeding, and the candidate when a case was mined and promoted. -/
theorem reports_comparable_mined : ∃ baseline candidate : Report, baseline.cases.length = 1 ∧
    candidate.cases.length = 2 ∧ (compareReports baseline candidate 0 1).missingCases = [] ∧
    (compareReports baseline candidate 0 1).regressions = [] := by
  let claim := World.productionRequest.claim 0 100 1
  let later : List DatasetEvent := [.mining (.claimRun 0 World.productionRequest 0 100 (World.instant 1)),
    .mining (.fenced 0 claim (.persistCandidate ordersCandidate 7 8) (World.instant 2))]
  have hrun : ∃ w w', Run (Steps (next [routingSeed])) (World.initial (Database.migrated [] []) 0) [.seed] w ∧
      Run (Steps (next [routingSeed])) w later w' ∧ w.db.golden.map GoldenRow.expectedOutput = [.obj []] ∧
      w'.db.golden.map GoldenRow.expectedOutput = [.obj [], .obj []] :=
    ⟨_, _, run_iff_foldlM.mpr rfl, run_iff_foldlM.mpr rfl, rfl, rfl⟩
  obtain ⟨w, w', hrun, hlater, hgolden, hgolden'⟩ := hrun
  have hobjects {golden : List GoldenRow} {count : ℕ}
      (hmap : golden.map GoldenRow.expectedOutput = List.replicate count (.obj [])) :
      golden.length = count ∧ ∀ row ∈ golden, row.expectedOutput = .obj [] := by
    constructor
    · simpa using congrArg List.length hmap
    · exact fun row hrow => List.eq_of_mem_replicate (hmap ▸ List.mem_map_of_mem hrow)
  obtain ⟨hlength, hall⟩ := @hobjects _ 1 hgolden
  obtain ⟨hlength', hall'⟩ := @hobjects _ 2 hgolden'
  obtain ⟨casesB, baseline, hloadB, hbaseline⟩ :=
    exists_report (List.ne_nil_of_length_eq_add_one hlength) hall ⟨"1", "", "main", "a1", "http://localhost:8080"⟩
  obtain ⟨casesC, candidate, hloadC, hcandidate⟩ :=
    exists_report (List.ne_nil_of_length_eq_add_one hlength') hall' ⟨"2", "", "head", "b2", "http://localhost:8080"⟩
  have hformed : WellFormed [routingSeed] [] := by
    refine ⟨List.nodup_nil, List.nodup_nil, ?_⟩
    intro row hrow
    cases hrow
  have hdigest (text : String) (htext : text.toList.length = 64 ∧
      text.toList.all ("0123456789abcdef".toList.contains ·) = true) : IsDigest text :=
    ⟨htext.1, fun c hc => by simpa using List.all_eq_true.mp htext.2 c hc⟩
  obtain ⟨hmissing, -, -, -, -, hsame⟩ := reports_comparable hyphenated canonical_hyphenated [routingSeed]
    (List.nodup_singleton _) (by simpa using hdigest routingSeed.sourceFingerprint (by decide +kernel)) [] hformed
    (fun row hrow => absurd hrow List.not_mem_nil) [] 0 [.seed] later w w' hrun hlater
    (by simp [later, DrawsApart, routingSeed])
    (by simpa [later, PersistsDigest] using hdigest ordersCandidate.sourceFingerprint (by decide +kernel))
    casesB casesC hloadB hloadC steadyEvaluation steadyEvaluation _ _ baseline candidate hbaseline hcandidate 0 1
  have hcount {golden : List GoldenRow} {cases : List GoldenCase} {info : RunInfo} {report : Report}
      (hload : loadGoldenCases hyphenated golden = .ok cases)
      (hbuild : buildReport steadyEvaluation info cases = .ok report) : report.cases.length = golden.length := by
    rw [Outcome.length_mapM (results_of_buildReport hbuild).2, Outcome.length_mapM hload, List.length_mergeSort]
  exact ⟨baseline, candidate, (hcount hloadB hbaseline).trans hlength, (hcount hloadC hcandidate).trans hlength',
    hmissing, (hsame rfl).1⟩

end CoreMesh.GoldenDataset
