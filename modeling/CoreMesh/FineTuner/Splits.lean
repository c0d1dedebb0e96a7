import Mathlib.Data.List.Nodup
import CoreMesh.Lib.Except
import CoreMesh.Lib.Json
import CoreMesh.Lib.PyText
import CoreMesh.Lib.Rounding
import CoreMesh.Lib.Shuffle

/-!
# Splits of the golden cases

`split_golden_cases` of `fine_tuner/train.py`, with ratios that are exact. A configuration carries what its
validators check. What the generator draws for a seed and a length is a parameter.
-/

namespace CoreMesh.FineTuner

open PyText (Text strip words)
open Rounding (halfEven)

structure DatasetConfig where
  featureScope : String
  maxCases : Option ℕ
  seed : ℤ
  trainRatio : ℚ
  validationRatio : ℚ
  testRatio : ℚ
  featureScope_ne : featureScope ≠ ""
  maxCases_ge : ∀ limit ∈ maxCases, 3 ≤ limit
  trainRatio_range : 0 < trainRatio ∧ trainRatio < 1
  validationRatio_range : 0 < validationRatio ∧ validationRatio < 1
  testRatio_range : 0 < testRatio ∧ testRatio < 1
  total : |trainRatio + validationRatio + testRatio - 1| ≤ 1 / 10 ^ 9

/-- The fields of a configuration before they are validated. -/
structure DatasetFields where
  featureScope : String
  maxCases : Option ℕ := none
  seed : ℤ := 42
  trainRatio : ℚ := 8 / 10
  validationRatio : ℚ := 1 / 10
  testRatio : ℚ := 1 / 10

/-- `DatasetConfig.model_validate`: the scope is measured before it is stripped. -/
def DatasetConfig.modelValidate (fields : DatasetFields) : Option DatasetConfig :=
  let scope := String.ofList (strip fields.featureScope.toList)
  if h : (1 ≤ fields.featureScope.length ∧ fields.featureScope.length ≤ 64 ∧ scope ≠ "") ∧
      (∀ limit ∈ fields.maxCases, 3 ≤ limit) ∧
      (0 < fields.trainRatio ∧ fields.trainRatio < 1) ∧
      (0 < fields.validationRatio ∧ fields.validationRatio < 1) ∧
      (0 < fields.testRatio ∧ fields.testRatio < 1) ∧
      |fields.trainRatio + fields.validationRatio + fields.testRatio - 1| ≤ 1 / 10 ^ 9 then
    some ⟨scope, fields.maxCases, fields.seed, fields.trainRatio, fields.validationRatio, fields.testRatio,
      h.1.2.2, h.2.1, h.2.2.1, h.2.2.2.1, h.2.2.2.2.1, h.2.2.2.2.2⟩
  else none

/-- The fields of a case that a split reads. -/
structure GoldenTrainingCase where
  caseId : String
  sourceFingerprint : Option String
  featureScope : String
  userInput : String
  expectedOutput : List (String × Json)

namespace GoldenTrainingCase

/-- `source_fingerprint or case_id`. -/
def caseKey (case : GoldenTrainingCase) : String :=
  match case.sourceFingerprint with
  | some fingerprint => if fingerprint = "" then case.caseId else fingerprint
  | none => case.caseId

def prompt (case : GoldenTrainingCase) : Text := strip case.userInput.toList

def referenceAnswer (case : GoldenTrainingCase) : Text :=
  match Json.lookup case.expectedOutput "reference_answer" with
  | some (.str raw) => strip raw.toList
  | _ => []

end GoldenTrainingCase

structure DatasetSplits where
  train : List GoldenTrainingCase
  validation : List GoldenTrainingCase
  test : List GoldenTrainingCase

def DatasetSplits.allCases (splits : DatasetSplits) : List GoldenTrainingCase :=
  splits.train ++ splits.validation ++ splits.test

structure GoldenDatasetError where
  message : String

/-- `_sha256_json`, `repr` of a text, and what a generator with a seed draws for the places of a list. -/
structure Python where
  sha256Json : Json → String
  repr : String → String
  draw : ℤ → (length : ℕ) → (i : ℕ) → Fin (i + 1)

/-- `" ".join(text.split())`. -/
def joinWords (text : Text) : Text := " ".toList.intercalate (words text)

/-- What is hashed of a case. -/
def contentOf (case : GoldenTrainingCase) : Json :=
  .obj [("prompt", .str (String.ofList (joinWords case.prompt))),
    ("completion", .str (String.ofList (joinWords case.referenceAnswer)))]

structure Seen where
  validated : List GoldenTrainingCase
  seenKeys : List String
  seenContent : List (String × String)

section Split

variable (python : Python) (config : DatasetConfig)

def validateCase (seen : Seen) (case : GoldenTrainingCase) : Except GoldenDatasetError Seen :=
  if case.featureScope ≠ config.featureScope then
    .error ⟨"case " ++ case.caseKey ++ " belongs to " ++ python.repr case.featureScope ++ ", not " ++
      python.repr config.featureScope⟩
  else if case.prompt = [] then .error ⟨"case " ++ case.caseKey ++ " has an empty user_input"⟩
  else if case.referenceAnswer = [] then
    .error ⟨"case " ++ case.caseKey ++ " has no non-empty expected_output.reference_answer"⟩
  else if seen.seenKeys.contains case.caseKey then .error ⟨"duplicate golden case key " ++ case.caseKey⟩
  else
    let contentHash := python.sha256Json (contentOf case)
    match seen.seenContent.lookup contentHash with
    | some other => .error ⟨"cases " ++ other ++ " and " ++ case.caseKey ++ " have duplicate content"⟩
    | none => .ok ⟨seen.validated ++ [case], case.caseKey :: seen.seenKeys,
        (contentHash, case.caseKey) :: seen.seenContent⟩

/-- `random.Random(seed).shuffle`. -/
def shuffled (cases : List GoldenTrainingCase) : List GoldenTrainingCase :=
  Shuffle.shuffle (python.draw config.seed cases.length) cases

def limited (cases : List GoldenTrainingCase) : List GoldenTrainingCase :=
  match config.maxCases with
  | some limit => (shuffled python config cases).take limit
  | none => shuffled python config cases

def countOf (length : ℕ) (ratio : ℚ) : ℕ := (max 1 (halfEven (length * ratio))).toNat

/-- The numbers of cases for validation and for the test. -/
def splitCounts (length : ℕ) : ℕ × ℕ :=
  let validationCount := countOf length config.validationRatio
  let testCount := countOf length config.testRatio
  if length ≤ validationCount + testCount then (1, 1) else (validationCount, testCount)

def cut (cases : List GoldenTrainingCase) : DatasetSplits :=
  let (validationCount, testCount) := splitCounts config cases.length
  let trainCount := cases.length - validationCount - testCount
  { train := cases.take trainCount
    validation := (cases.drop trainCount).take validationCount
    test := cases.drop (trainCount + validationCount) }

def splitGoldenCases (cases : List GoldenTrainingCase) : Except GoldenDatasetError DatasetSplits := do
  let seen ← cases.foldlM (validateCase python config) ⟨[], [], []⟩
  if seen.validated.length < 3 then
    throw ⟨"feature scope " ++ python.repr config.featureScope ++ " needs at least 3 valid cases; found " ++
      toString seen.validated.length⟩
  let cases := limited python config seen.validated
  if cases.length < 3 then throw ⟨"the configured case limit leaves fewer than 3 cases"⟩
  return cut config cases

end Split

/-! ### Validation -/

section Validation

variable {python : Python} {config : DatasetConfig}

structure Valid (config : DatasetConfig) (case : GoldenTrainingCase) : Prop where
  scope : case.featureScope = config.featureScope
  prompt : case.prompt ≠ []
  referenceAnswer : case.referenceAnswer ≠ []

/-- No two cases have one key or, blanks apart, one content. -/
structure Distinct (cases : List GoldenTrainingCase) : Prop where
  keys : (cases.map GoldenTrainingCase.caseKey).Nodup
  contents : (cases.map contentOf).Nodup

/-- What has been seen after some cases. -/
structure SeenOf (python : Python) (done : List GoldenTrainingCase) (seen : Seen) : Prop where
  validated : seen.validated = done
  keys : ∀ key, key ∈ seen.seenKeys ↔ key ∈ done.map GoldenTrainingCase.caseKey
  contents : ∀ hash, hash ∈ seen.seenContent.map Prod.fst → ∃ case ∈ done, python.sha256Json (contentOf case) = hash

theorem fresh_of_nodup {α β : Type} {f : α → β} {done rest : List α} {a : α}
    (hnodup : ((done ++ a :: rest).map f).Nodup) : f a ∉ done.map f := by
  rw [List.map_append, List.map_cons] at hnodup
  exact fun hmem => (List.nodup_append.mp hnodup).2.2 _ hmem _ List.mem_cons_self rfl

theorem validateCase_eq_ok {done rest : List GoldenTrainingCase} {case : GoldenTrainingCase} {seen : Seen}
    (hvalid : Valid config case) (hdistinct : Distinct (done ++ case :: rest))
    (hsha : ∀ a ∈ done ++ case :: rest, ∀ b ∈ done ++ case :: rest,
      python.sha256Json (contentOf a) = python.sha256Json (contentOf b) → contentOf a = contentOf b)
    (hseen : SeenOf python done seen) :
    ∃ seen', validateCase python config seen case = .ok seen' ∧ SeenOf python (done ++ [case]) seen' := by
  have hkey : case.caseKey ∉ done.map GoldenTrainingCase.caseKey := fresh_of_nodup hdistinct.keys
  have hcontent : contentOf case ∉ done.map contentOf := fresh_of_nodup hdistinct.contents
  have hcase : case ∈ done ++ case :: rest := List.mem_append_right _ List.mem_cons_self
  have hfresh : seen.seenContent.lookup (python.sha256Json (contentOf case)) = none := by
    apply List.lookup_eq_none_iff.mpr
    intro entry hentry
    obtain ⟨other, hother, hsame⟩ := hseen.contents entry.1 (List.mem_map_of_mem hentry)
    apply bne_iff_ne.mpr
    intro heq
    have hequal := hsha other (List.mem_append_left _ hother) case hcase (hsame.trans heq.symm)
    rw [← hequal] at hcontent
    exact hcontent (List.mem_map_of_mem hother)
  have hnew : seen.seenKeys.contains case.caseKey = false := by
    rw [List.contains_eq_mem, decide_eq_false_iff_not, hseen.keys]
    exact hkey
  refine ⟨⟨seen.validated ++ [case], case.caseKey :: seen.seenKeys,
    (python.sha256Json (contentOf case), case.caseKey) :: seen.seenContent⟩, ?_, ?_⟩
  · rw [validateCase, if_neg (not_not.mpr hvalid.scope), if_neg hvalid.prompt, if_neg hvalid.referenceAnswer,
      hnew]
    dsimp only
    rw [hfresh]
    rfl
  · constructor
    · rw [hseen.validated]
    · intro key
      rw [List.mem_cons, hseen.keys, List.map_append, List.mem_append, List.map_singleton, List.mem_singleton,
        or_comm]
    · intro hash hhash
      obtain rfl | hold := List.mem_cons.mp hhash
      · exact ⟨case, List.mem_append_right _ (List.mem_singleton_self _), rfl⟩
      · obtain ⟨other, hother, hsame⟩ := hseen.contents hash hold
        exact ⟨other, List.mem_append_left _ hother, hsame⟩

/-- The validation of such cases comes to its end with all of them. -/
theorem validate_eq_ok {cases : List GoldenTrainingCase} (hvalid : ∀ case ∈ cases, Valid config case)
    (hdistinct : Distinct cases) (hsha : ∀ a ∈ cases, ∀ b ∈ cases,
      python.sha256Json (contentOf a) = python.sha256Json (contentOf b) → contentOf a = contentOf b) :
    ∃ seen, cases.foldlM (validateCase python config) ⟨[], [], []⟩ = .ok seen ∧ seen.validated = cases := by
  have hstart : SeenOf python [] ⟨[], [], []⟩ :=
    ⟨rfl, fun _ => Iff.rfl, fun _ hhash => absurd hhash List.not_mem_nil⟩
  have hstep : ∀ done case rest seen, cases = done ++ case :: rest → SeenOf python done seen →
      ∃ seen', validateCase python config seen case = .ok seen' ∧ SeenOf python (done ++ [case]) seen' := by
    intro done case rest seen hcases hseen
    subst hcases
    exact validateCase_eq_ok (hvalid case (List.mem_append_right _ List.mem_cons_self)) hdistinct hsha hseen
  obtain ⟨seen, hseen⟩ := Outcome.exists_foldlM_eq_ok (SeenOf python) hstart hstep
  refine ⟨seen, hseen, ?_⟩
  have hall : SeenOf python cases seen := by
    apply Outcome.foldlM_eq_ok (SeenOf python) hstart _ hseen
    intro done case rest s s' hcases hs hok
    obtain ⟨next, hnext, hafter⟩ := hstep done case rest s hcases hs
    obtain rfl := Except.ok.inj (hnext.symm.trans hok)
    exact hafter
  exact hall.validated

end Validation

/-! ### Counts -/

section Counts

variable (config : DatasetConfig)

theorem one_le_countOf (length : ℕ) (ratio : ℚ) : 1 ≤ countOf length ratio := by
  have hmax : (1 : ℤ) ≤ max 1 (halfEven (length * ratio)) := le_max_left _ _
  rw [countOf]
  omega

/-- Of three cases or more there is one at least for each split. -/
theorem splitCounts_spec {length : ℕ} (hlength : 3 ≤ length) :
    1 ≤ (splitCounts config length).1 ∧ 1 ≤ (splitCounts config length).2 ∧
      (splitCounts config length).1 + (splitCounts config length).2 < length := by
  have hvalidation := one_le_countOf length config.validationRatio
  have htest := one_le_countOf length config.testRatio
  rw [splitCounts]
  split
  · dsimp only
    omega
  · dsimp only
    omega

/-- Three sets that are not empty and have no case in common, which together are the cases. -/
structure IsPartition (splits : DatasetSplits) (cases : List GoldenTrainingCase) : Prop where
  train : splits.train ≠ []
  validation : splits.validation ≠ []
  test : splits.test ≠ []
  trainValidation : splits.train.Disjoint splits.validation
  trainTest : splits.train.Disjoint splits.test
  validationTest : splits.validation.Disjoint splits.test
  all : splits.allCases = cases
  once : splits.allCases.Nodup

theorem allCases_cut (cases : List GoldenTrainingCase) : (cut config cases).allCases = cases := by
  rw [cut, DatasetSplits.allCases]
  dsimp only
  rw [List.append_assoc, ← List.drop_drop, List.take_append_drop, List.take_append_drop]

theorem isPartition_cut {cases : List GoldenTrainingCase} (hlength : 3 ≤ cases.length)
    (hnodup : cases.Nodup) : IsPartition (cut config cases) cases := by
  obtain ⟨hvalidation, htest, hcounts⟩ := splitCounts_spec config hlength
  have hall := allCases_cut config cases
  have honce : (cut config cases).allCases.Nodup := by
    rw [hall]
    exact hnodup
  obtain ⟨hfront, _, hfrontTest⟩ := List.nodup_append'.mp honce
  obtain ⟨_, _, htrainValidation⟩ := List.nodup_append'.mp hfront
  refine ⟨?_, ?_, ?_, htrainValidation, ?_, ?_, hall, honce⟩
  · apply List.ne_nil_of_length_pos
    rw [cut]
    dsimp only
    rw [List.length_take]
    omega
  · apply List.ne_nil_of_length_pos
    rw [cut]
    dsimp only
    rw [List.length_take, List.length_drop]
    omega
  · apply List.ne_nil_of_length_pos
    rw [cut]
    dsimp only
    rw [List.length_drop]
    omega
  · exact fun _ htrain => hfrontTest (List.mem_append_left _ htrain)
  · exact fun _ hvalidation => hfrontTest (List.mem_append_right _ hvalidation)

end Counts

/-! ### The split -/

section Split

variable {python : Python} {config : DatasetConfig} {cases : List GoldenTrainingCase}

theorem shuffled_perm (python : Python) (config : DatasetConfig) (cases : List GoldenTrainingCase) :
    (shuffled python config cases).Perm cases := Shuffle.shuffle_perm _ _

theorem length_limited (hcases : 3 ≤ cases.length) : 3 ≤ (limited python config cases).length := by
  have hlength := (shuffled_perm python config cases).length_eq
  rw [limited]
  split
  · rename_i limit hlimit
    have hge := config.maxCases_ge limit hlimit
    rw [List.length_take]
    omega
  · omega

theorem nodup_limited (hnodup : cases.Nodup) : (limited python config cases).Nodup := by
  have hshuffled := (shuffled_perm python config cases).nodup_iff.mpr hnodup
  rw [limited]
  split
  · exact hshuffled.sublist (List.take_sublist _ _)
  · exact hshuffled

/-- Of three or more cases that are valid and distinct, the limited shuffled cases are split. -/
theorem splitGoldenCases_isPartition (python : Python) (config : DatasetConfig)
    {cases : List GoldenTrainingCase} (hthree : 3 ≤ cases.length) (hvalid : ∀ case ∈ cases, Valid config case)
    (hdistinct : Distinct cases) (hsha : ∀ a ∈ cases, ∀ b ∈ cases,
      python.sha256Json (contentOf a) = python.sha256Json (contentOf b) → contentOf a = contentOf b) :
    (shuffled python config cases).Perm cases ∧ ∃ splits, splitGoldenCases python config cases = .ok splits ∧
      IsPartition splits (limited python config cases) := by
  obtain ⟨seen, hseen, hvalidated⟩ := validate_eq_ok hvalid hdistinct hsha
  have hlimited := @length_limited python config cases hthree
  have hnodup : cases.Nodup := hdistinct.keys.of_map _
  refine ⟨shuffled_perm python config cases, cut config (limited python config cases), ?_,
    isPartition_cut config hlimited (nodup_limited hnodup)⟩
  rw [splitGoldenCases, hseen]
  show (if seen.validated.length < 3 then _ else _) = _
  rw [hvalidated, if_neg (not_lt.mpr hthree), if_neg (not_lt.mpr hlimited)]
  rfl

def thirds : DatasetConfig where
  featureScope := "support"
  maxCases := none
  seed := 42
  trainRatio := 1 / 3
  validationRatio := 1 / 3
  testRatio := 1 / 3
  featureScope_ne := by decide
  maxCases_ge := by simp
  trainRatio_range := by norm_num
  validationRatio_range := by norm_num
  testRatio_range := by norm_num
  total := by norm_num

/-- No more than four cases, of which nearly all are for the test. -/
def lopsided : DatasetConfig where
  featureScope := "support"
  maxCases := some 4
  seed := 42
  trainRatio := 2 / 100
  validationRatio := 1 / 100
  testRatio := 97 / 100
  featureScope_ne := by decide
  maxCases_ge := by simp
  trainRatio_range := by norm_num
  validationRatio_range := by norm_num
  testRatio_range := by norm_num
  total := by norm_num

/-- A generator that draws the first place, and a digest that is the prompt. -/
def plainPython : Python where
  sha256Json
    | .obj ((_, .str prompt) :: _) => prompt
    | _ => ""
  repr text := "'" ++ text ++ "'"
  draw _ _ _ := 0

def supportCase (prompt : String) : GoldenTrainingCase :=
  ⟨prompt, none, "support", prompt, [("reference_answer", .str "yes")]⟩

def supportPrompts : List String := ["a", "b", "c", "d", "e"]

/-- One of five cases is left out, and of the other four the counts that are rounded leave none to train on. -/
theorem splitGoldenCases_isPartition_lopsided :
    (shuffled plainPython lopsided (supportPrompts.map supportCase)).Perm (supportPrompts.map supportCase) ∧
      ∃ splits, splitGoldenCases plainPython lopsided (supportPrompts.map supportCase) = .ok splits ∧
        IsPartition splits (limited plainPython lopsided (supportPrompts.map supportCase)) := by
  have hdigest : ∀ prompt ∈ supportPrompts,
      plainPython.sha256Json (contentOf (supportCase prompt)) = prompt := by decide
  apply splitGoldenCases_isPartition plainPython lopsided
  · decide
  · intro case hcase
    obtain ⟨prompt, hprompt, rfl⟩ := List.mem_map.mp hcase
    have hprompts : ∀ prompt ∈ supportPrompts, (supportCase prompt).prompt ≠ [] := by decide
    exact ⟨rfl, hprompts prompt hprompt, by change strip "yes".toList ≠ []; decide⟩
  · constructor
    · decide
    · apply List.Nodup.of_map plainPython.sha256Json
      decide
  · intro a ha b hb hsame
    obtain ⟨first, hfirst, rfl⟩ := List.mem_map.mp ha
    obtain ⟨second, hsecond, rfl⟩ := List.mem_map.mp hb
    rw [hdigest first hfirst, hdigest second hsecond] at hsame
    rw [hsame]

end Split

end CoreMesh.FineTuner
