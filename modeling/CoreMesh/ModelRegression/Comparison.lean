import CoreMesh.Lib.KeyedList
import CoreMesh.Lib.OrderedDict
import CoreMesh.ModelRegression.Report

/-!
# The regression gate

`compare_reports`: drops of accuracy, the accuracy that is required, and the cases by their keys. What makes a
comparison worse is a higher rank of its status.
-/

namespace CoreMesh.ModelRegression

open OrderedDict (last?)
open Rounding (toDecimals)

def floatEpsilon : ℚ := 1 / 10 ^ 12

inductive Status where
  | pass
  | warn
  | fail
  deriving DecidableEq, Repr

def Status.rank : Status → ℕ
  | .pass => 0
  | .warn => 1
  | .fail => 2

structure Check where
  scope : String
  baselineAccuracy : Option ℚ
  candidateAccuracy : ℚ
  drop : Option ℚ
  maxDrop : Option ℚ
  minAccuracy : Option ℚ
  status : Status

structure Regression where
  caseKey : String
  featureScope : String
  baselineScore : ℚ
  candidateScore : ℚ
  candidateFailures : List String

structure Improvement where
  caseKey : String
  featureScope : String
  baselineScore : ℚ
  candidateScore : ℚ

structure Side where
  runLabel : String
  revision : String
  summary : MetricSummary

structure Comparison where
  status : Status
  maxDrop : ℚ
  minAccuracy : ℚ
  baseline : Side
  candidate : Side
  checks : List Check
  regressions : List Regression
  improvements : List Improvement
  missingCases : List String
  addedCases : List String

def dropCheck (scope : String) (baselineAccuracy candidateAccuracy maxDrop : ℚ) : Check :=
  let drop := toDecimals 6 (baselineAccuracy - candidateAccuracy)
  { scope := scope
    baselineAccuracy := some (toDecimals 6 baselineAccuracy)
    candidateAccuracy := toDecimals 6 candidateAccuracy
    drop := some drop
    maxDrop := some maxDrop
    minAccuracy := none
    status :=
      if maxDrop + floatEpsilon < drop then .fail
      else if floatEpsilon < drop then .warn
      else .pass }

def minAccuracyCheck (candidateAccuracy minAccuracy : ℚ) : Check where
  scope := "min_accuracy"
  baselineAccuracy := none
  candidateAccuracy := toDecimals 6 candidateAccuracy
  drop := none
  maxDrop := none
  minAccuracy := some minAccuracy
  status := if candidateAccuracy + floatEpsilon < minAccuracy then .fail else .pass

/-- `_case_map`: of several results with a key the last one. -/
def caseMap (report : Report) (key : String) : Option CaseResult := last? CaseResult.caseKey report.cases key

/-- Keys of cases, each once and in order. -/
def sortedKeys (cases : List CaseResult) : List String :=
  (cases.map CaseResult.caseKey).dedup.insertionSort (· ≤ ·)

/-- The accuracy that is compared for a scope, which is none where the candidate has no results in it. -/
def scopeAccuracy (report : Report) (scope : String) : ℚ :=
  ((report.byFeatureScope.lookup scope).map MetricSummary.accuracy).getD 0

def checksOf (baseline candidate : Report) (maxDrop minAccuracy : ℚ) : List Check :=
  dropCheck "overall" baseline.summary.accuracy candidate.summary.accuracy maxDrop ::
    minAccuracyCheck candidate.summary.accuracy minAccuracy ::
    baseline.byFeatureScope.map fun (scope, metrics) =>
      dropCheck scope metrics.accuracy (scopeAccuracy candidate scope) maxDrop

def regressionOf (baseline candidate : Report) (key : String) : Option Regression :=
  match caseMap baseline key, caseMap candidate key with
  | some before, some after =>
      if before.passed && !after.passed then
        some ⟨key, before.featureScope, before.score, after.score, after.failureReasons⟩
      else none
  | _, _ => none

def improvementOf (baseline candidate : Report) (key : String) : Option Improvement :=
  match caseMap baseline key, caseMap candidate key with
  | some before, some after =>
      if !before.passed && after.passed then some ⟨key, after.featureScope, before.score, after.score⟩ else none
  | _, _ => none

def statusOf (checks : List Check) (regressions : List Regression) (missing : List String) : Status :=
  if (checks.any fun check => check.status = .fail) || !missing.isEmpty then .fail
  else if (checks.any fun check => check.status = .warn) || !regressions.isEmpty then .warn
  else .pass

def sideOf (report : Report) : Side := ⟨report.info.runLabel, report.info.revision, report.summary⟩

def compareReports (baseline candidate : Report) (maxDrop minAccuracy : ℚ) : Comparison :=
  let checks := checksOf baseline candidate maxDrop minAccuracy
  let regressions := (sortedKeys baseline.cases).filterMap (regressionOf baseline candidate)
  let missing := (sortedKeys baseline.cases).filter fun key => (caseMap candidate key).isNone
  { status := statusOf checks regressions missing
    maxDrop := maxDrop
    minAccuracy := minAccuracy
    baseline := sideOf baseline
    candidate := sideOf candidate
    checks := checks
    regressions := regressions
    improvements := (sortedKeys baseline.cases).filterMap (improvementOf baseline candidate)
    missingCases := missing
    addedCases := (sortedKeys candidate.cases).filter fun key => (caseMap baseline key).isNone }

/-! ### What the status says -/

theorem rank_le_iff {a b : Status} : a.rank ≤ b.rank ↔ (a = .fail → b = .fail) ∧ (b = .pass → a = .pass) := by
  cases a <;> cases b <;> decide

theorem statusOf_eq_fail_iff {checks : List Check} {regressions : List Regression} {missing : List String} :
    statusOf checks regressions missing = .fail ↔
      (∃ check ∈ checks, check.status = .fail) ∨ missing ≠ [] := by
  have hfail : ((checks.any fun check => check.status = .fail) || !missing.isEmpty) = true ↔
      (∃ check ∈ checks, check.status = .fail) ∨ missing ≠ [] := by
    rw [Bool.or_eq_true, List.any_eq_true, Bool.not_eq_true', List.isEmpty_eq_false_iff]
    simp only [decide_eq_true_eq]
  rw [← hfail, statusOf]
  split
  · rename_i hyes
    exact iff_of_true rfl hyes
  · rename_i hno
    apply iff_of_false _ hno
    split
    · exact Status.noConfusion
    · exact Status.noConfusion

theorem statusOf_eq_pass_iff {checks : List Check} {regressions : List Regression} {missing : List String} :
    statusOf checks regressions missing = .pass ↔
      (∀ check ∈ checks, check.status = .pass) ∧ missing = [] ∧ regressions = [] := by
  have hnotpass : ∀ check : Check, check.status = .pass ↔ check.status ≠ .fail ∧ check.status ≠ .warn := by
    intro check
    cases check.status <;> decide
  rw [statusOf]
  split
  · rename_i hfail
    apply iff_of_false Status.noConfusion
    intro ⟨hchecks, hmissing, _⟩
    rw [Bool.or_eq_true, List.any_eq_true, hmissing] at hfail
    obtain ⟨check, hcheck, hstatus⟩ | hempty := hfail
    · rw [hchecks check hcheck] at hstatus
      cases hstatus
    · cases hempty
  · rename_i hnofail
    rw [Bool.not_eq_true, Bool.or_eq_false_iff, List.any_eq_false, Bool.not_eq_false',
      List.isEmpty_iff] at hnofail
    obtain ⟨hnofail, hmissing⟩ := hnofail
    split
    · rename_i hwarn
      apply iff_of_false Status.noConfusion
      intro ⟨hchecks, _, hregressions⟩
      rw [Bool.or_eq_true, List.any_eq_true, hregressions] at hwarn
      obtain ⟨check, hcheck, hstatus⟩ | hempty := hwarn
      · rw [hchecks check hcheck] at hstatus
        cases hstatus
      · cases hempty
    · rename_i hnowarn
      rw [Bool.not_eq_true, Bool.or_eq_false_iff, List.any_eq_false, Bool.not_eq_false',
        List.isEmpty_iff] at hnowarn
      apply iff_of_true rfl
      refine ⟨fun check hcheck => (hnotpass check).mpr ⟨?_, ?_⟩, hmissing, hnowarn.2⟩
      · exact fun hfail => hnofail check hcheck (decide_eq_true hfail)
      · exact fun hwarn => hnowarn.1 check hcheck (decide_eq_true hwarn)

/-- A status is no better than another if no part of it is. -/
theorem statusOf_rank_le {checks checks' : List Check} {regressions regressions' : List Regression}
    {missing missing' : List String}
    (hchecks : List.Forall₂ (fun check check' => check.status.rank ≤ check'.status.rank) checks checks')
    (hmissing : missing' = [] → missing = []) (hregressions : regressions' = [] → regressions = []) :
    (statusOf checks regressions missing).rank ≤ (statusOf checks' regressions' missing').rank := by
  have hfail : (∃ check ∈ checks, check.status = .fail) → ∃ check ∈ checks', check.status = .fail := by
    intro ⟨check, hcheck, hstatus⟩
    induction hchecks with
    | nil => cases hcheck
    | @cons first first' rest rest' hfirst _ ih =>
        obtain rfl | hrest := List.mem_cons.mp hcheck
        · exact ⟨first', List.mem_cons_self, (rank_le_iff.mp hfirst).1 hstatus⟩
        · obtain ⟨check', hcheck', hstatus'⟩ := ih hrest
          exact ⟨check', List.mem_cons_of_mem _ hcheck', hstatus'⟩
  have hpass : (∀ check ∈ checks', check.status = .pass) → ∀ check ∈ checks, check.status = .pass := by
    intro hall
    clear hfail
    induction hchecks with
    | nil =>
        intro check hcheck
        cases hcheck
    | cons hfirst _ ih =>
        obtain ⟨hhead, htail⟩ := List.forall_mem_cons.mp hall
        exact List.forall_mem_cons.mpr ⟨(rank_le_iff.mp hfirst).2 hhead, ih htail⟩
  rw [rank_le_iff, statusOf_eq_fail_iff, statusOf_eq_fail_iff, statusOf_eq_pass_iff, statusOf_eq_pass_iff]
  apply And.intro
  · intro hleft
    exact hleft.imp hfail fun hne hnil => hne (hmissing hnil)
  · intro ⟨hall, hnone, hregression⟩
    exact ⟨hpass hall, hmissing hnone, hregressions hregression⟩

/-! ### One report against another -/

section Reports

variable {infoB infoC : RunInfo} {before after : List CaseResult} {maxDrop minAccuracy : ℚ}

theorem dropCheck_status_eq_fail_iff {scope : String} {a b : ℚ} :
    (dropCheck scope a b maxDrop).status = .fail ↔ maxDrop + floatEpsilon < toDecimals 6 (a - b) := by
  rw [dropCheck]
  dsimp only
  split
  · rename_i hfail
    exact iff_of_true rfl hfail
  · rename_i hfail
    apply iff_of_false _ hfail
    split
    · exact Status.noConfusion
    · exact Status.noConfusion

theorem dropCheck_rank_mono {scope : String} {a b b' : ℚ} (hle : b' ≤ b) :
    (dropCheck scope a b maxDrop).status.rank ≤ (dropCheck scope a b' maxDrop).status.rank := by
  have hdrop : toDecimals 6 (a - b) ≤ toDecimals 6 (a - b') :=
    Rounding.toDecimals_mono 6 (sub_le_sub_left hle a)
  rw [rank_le_iff, dropCheck_status_eq_fail_iff, dropCheck_status_eq_fail_iff]
  refine ⟨fun hfail => hfail.trans_le hdrop, fun hpass => ?_⟩
  rw [dropCheck] at hpass ⊢
  dsimp only at hpass ⊢
  split at hpass
  · cases hpass
  · rename_i hnofail
    split at hpass
    · cases hpass
    · rename_i hnowarn
      rw [if_neg fun h => hnofail (h.trans_le hdrop), if_neg fun h => hnowarn (h.trans_le hdrop)]

theorem minAccuracyCheck_rank_mono {a a' : ℚ} (hle : a' ≤ a) :
    (minAccuracyCheck a minAccuracy).status.rank ≤ (minAccuracyCheck a' minAccuracy).status.rank := by
  rw [minAccuracyCheck, minAccuracyCheck]
  dsimp only
  by_cases hfail : a + floatEpsilon < minAccuracy
  · rw [if_pos hfail, if_pos ((add_le_add_left hle floatEpsilon).trans_lt hfail)]
  · rw [if_neg hfail]
    exact Nat.zero_le _

theorem scopeAccuracy_reportOf (scope : String) :
    scopeAccuracy (reportOf infoC after) scope = accuracy (scopeResults after scope) := by
  rw [scopeAccuracy, reportOf]
  dsimp only
  rw [KeyedList.lookup_map]
  by_cases hscope : scope ∈ scopes after
  · rw [if_pos hscope]
    rfl
  · rw [if_neg hscope, scopeResults_eq_nil hscope]
    rfl

theorem checksOf_reportOf : checksOf (reportOf infoB before) (reportOf infoC after) maxDrop minAccuracy =
    dropCheck "overall" (accuracy before) (accuracy after) maxDrop ::
      minAccuracyCheck (accuracy after) minAccuracy ::
      (scopes before).map fun scope => dropCheck scope (accuracy (scopeResults before scope))
        (accuracy (scopeResults after scope)) maxDrop := by
  have hscopes : (reportOf infoB before).byFeatureScope.map (fun entry =>
      dropCheck entry.1 entry.2.accuracy (scopeAccuracy (reportOf infoC after) entry.1) maxDrop) =
      (scopes before).map fun scope => dropCheck scope (accuracy (scopeResults before scope))
        (accuracy (scopeResults after scope)) maxDrop := by
    show ((scopes before).map fun scope => (scope, metricSummary (scopeResults before scope))).map _ = _
    rw [List.map_map]
    apply List.map_congr_left
    intro scope _
    show dropCheck scope _ (scopeAccuracy (reportOf infoC after) scope) maxDrop = _
    rw [scopeAccuracy_reportOf]
    rfl
  exact congrArg (fun rest => _ :: _ :: rest) hscopes

theorem mem_sortedKeys {results : List CaseResult} {key : String} :
    key ∈ sortedKeys results ↔ key ∈ results.map CaseResult.caseKey := by
  rw [sortedKeys, (List.perm_insertionSort _ _).mem_iff, List.mem_dedup]

theorem caseMap_eq_none_iff {report : Report} {key : String} :
    caseMap report key = none ↔ key ∉ report.cases.map CaseResult.caseKey := by
  rw [caseMap, OrderedDict.last?, OrderedDict.get?_eq_none_iff, List.map_reverse, List.mem_reverse]

/-- No case has failed that passed before. A case is known by its key, and the last result is that of it. -/
def NoRegression (before after : List CaseResult) : Prop :=
  ∀ key first second, last? CaseResult.caseKey before key = some first →
    last? CaseResult.caseKey after key = some second → first.passed = true → second.passed = true

theorem regressionOf_eq_none_iff {baseline candidate : Report} {key : String} :
    regressionOf baseline candidate key = none ↔ ∀ first second, caseMap baseline key = some first →
      caseMap candidate key = some second → first.passed = true → second.passed = true := by
  rw [regressionOf]
  split
  · rename_i first second hfirst hsecond
    have hregressed : (first.passed && !second.passed) = true ↔ first.passed = true ∧ ¬second.passed = true := by
      rw [Bool.and_eq_true, Bool.not_eq_true', Bool.not_eq_true]
    constructor
    · intro hnone first' second' hfirst' hsecond' hpassed
      obtain rfl := Option.some.inj (hfirst.symm.trans hfirst')
      obtain rfl := Option.some.inj (hsecond.symm.trans hsecond')
      by_contra hfailed
      rw [if_pos (hregressed.mpr ⟨hpassed, hfailed⟩)] at hnone
      cases hnone
    · intro hall
      apply if_neg
      intro hyes
      obtain ⟨hpassed, hfailed⟩ := hregressed.mp hyes
      exact hfailed (hall first second hfirst hsecond hpassed)
  · rename_i hnone
    exact iff_of_true rfl fun first second hfirst hsecond => absurd hsecond (hnone first second hfirst)

theorem regressions_eq_nil_iff :
    (sortedKeys before).filterMap (regressionOf (reportOf infoB before) (reportOf infoC after)) = [] ↔
      NoRegression before after := by
  rw [List.filterMap_eq_nil_iff]
  constructor
  · intro hnone key first second hfirst hsecond
    have hmem : key ∈ sortedKeys before := by
      obtain ⟨hkey, hin⟩ := OrderedDict.key_of_last? hfirst
      rw [mem_sortedKeys, ← hkey]
      exact List.mem_map_of_mem hin
    exact regressionOf_eq_none_iff.mp (hnone key hmem) first second hfirst hsecond
  · exact fun hall key _ => regressionOf_eq_none_iff.mpr (hall key)

theorem missing_eq_nil_iff :
    ((sortedKeys before).filter fun key => (caseMap (reportOf infoC after) key).isNone) = [] ↔
      ∀ key ∈ before.map CaseResult.caseKey, key ∈ after.map CaseResult.caseKey := by
  rw [List.filter_eq_nil_iff]
  apply forall_congr'
  intro key
  rw [mem_sortedKeys, Option.isNone_iff_eq_none, caseMap_eq_none_iff, not_not]
  rfl

/-- What a comparison that does not fail is to vouch for. -/
structure Acceptable (before after : List CaseResult) (maxDrop minAccuracy : ℚ) : Prop where
  present : ∀ key ∈ before.map CaseResult.caseKey, key ∈ after.map CaseResult.caseKey
  overall : accuracy before - accuracy after ≤ maxDrop + floatEpsilon
  scope : ∀ scope ∈ before.map CaseResult.featureScope,
    accuracy (scopeResults before scope) - accuracy (scopeResults after scope) ≤ maxDrop + floatEpsilon
  reached : minAccuracy ≤ accuracy after + floatEpsilon

/-- As accuracies have six decimals, so has their difference. -/
theorem dropCheck_ne_fail_iff {scope : String} {before after : List CaseResult} :
    (dropCheck scope (accuracy before) (accuracy after) maxDrop).status ≠ .fail ↔
      accuracy before - accuracy after ≤ maxDrop + floatEpsilon := by
  obtain ⟨a, ha⟩ := exists_accuracy_eq before
  obtain ⟨b, hb⟩ := exists_accuracy_eq after
  rw [ne_eq, dropCheck_status_eq_fail_iff, ha, hb, Rounding.toDecimals_sub, not_lt]

theorem minAccuracyCheck_ne_fail_iff {a : ℚ} :
    (minAccuracyCheck a minAccuracy).status ≠ .fail ↔ minAccuracy ≤ a + floatEpsilon := by
  rw [minAccuracyCheck]
  dsimp only
  by_cases hfail : a + floatEpsilon < minAccuracy
  · rw [if_pos hfail]
    exact iff_of_false (fun h => h rfl) (not_le.mpr hfail)
  · rw [if_neg hfail]
    exact iff_of_true Status.noConfusion (not_lt.mp hfail)

theorem status_ne_fail_iff :
    (compareReports (reportOf infoB before) (reportOf infoC after) maxDrop minAccuracy).status ≠ .fail ↔
      Acceptable before after maxDrop minAccuracy := by
  show statusOf (checksOf _ _ _ _) _ _ ≠ .fail ↔ _
  rw [ne_eq, statusOf_eq_fail_iff, not_or, not_not, checksOf_reportOf]
  constructor
  · intro ⟨hchecks, hpresent⟩
    obtain ⟨hoverall, hrest⟩ := List.forall_mem_cons.mp (fun check hcheck hfail => hchecks ⟨check, hcheck, hfail⟩)
    obtain ⟨hreached, hscopes⟩ := List.forall_mem_cons.mp hrest
    refine ⟨missing_eq_nil_iff.mp hpresent, dropCheck_ne_fail_iff.mp hoverall, ?_,
      minAccuracyCheck_ne_fail_iff.mp hreached⟩
    intro scope hscope
    exact dropCheck_ne_fail_iff.mp (hscopes _ (List.mem_map_of_mem (mem_scopes.mpr hscope)))
  · intro hacceptable
    refine ⟨?_, missing_eq_nil_iff.mpr hacceptable.present⟩
    intro ⟨check, hcheck, hfail⟩
    obtain rfl | hcheck := List.mem_cons.mp hcheck
    · exact dropCheck_ne_fail_iff.mpr hacceptable.overall hfail
    obtain rfl | hcheck := List.mem_cons.mp hcheck
    · exact minAccuracyCheck_ne_fail_iff.mpr hacceptable.reached hfail
    · obtain ⟨scope, hscope, rfl⟩ := List.mem_map.mp hcheck
      exact dropCheck_ne_fail_iff.mpr (hacceptable.scope scope (mem_scopes.mp hscope)) hfail

theorem acceptable_of_pass
    (hpass : (compareReports (reportOf infoB before) (reportOf infoC after) maxDrop minAccuracy).status = .pass) :
    Acceptable before after maxDrop minAccuracy := by
  apply (@status_ne_fail_iff infoB infoC _ _ _ _).mp
  rw [hpass]
  exact Status.noConfusion

theorem noRegression_of_pass
    (hpass : (compareReports (reportOf infoB before) (reportOf infoC after) maxDrop minAccuracy).status = .pass) :
    NoRegression before after :=
  regressions_eq_nil_iff.mp (statusOf_eq_pass_iff.mp hpass).2.2

/-! ### Worse candidates -/

theorem last?_of_allWorse {results' results : List CaseResult} (hworse : AllWorse results' results)
    (key : String) :
    (last? CaseResult.caseKey results' key = none ∧ last? CaseResult.caseKey results key = none) ∨
      ∃ result' result, last? CaseResult.caseKey results' key = some result' ∧
        last? CaseResult.caseKey results key = some result ∧ Worse result' result := by
  have hreverse : AllWorse results'.reverse results.reverse := List.rel_reverse hworse
  unfold last?
  generalize results'.reverse = back' at hreverse
  generalize results.reverse = back at hreverse
  induction hreverse with
  | nil => exact .inl ⟨rfl, rfl⟩
  | @cons result' result _ _ hfirst _ ih =>
      rw [OrderedDict.get?_cons, OrderedDict.get?_cons, hfirst.caseKey]
      by_cases hkey : result.caseKey = key
      · rw [if_pos hkey, if_pos hkey]
        exact .inr ⟨result', result, rfl, rfl, hfirst⟩
      · rw [if_neg hkey, if_neg hkey]
        exact ih

theorem map_caseKey_of_allWorse {results' results : List CaseResult} (hworse : AllWorse results' results) :
    results'.map CaseResult.caseKey = results.map CaseResult.caseKey := by
  induction hworse with
  | nil => rfl
  | cons hfirst _ ih => rw [List.map_cons, List.map_cons, hfirst.caseKey, ih]

theorem noRegression_of_allWorse {after' : List CaseResult} (hworse : AllWorse after' after)
    (hnone : NoRegression before after') : NoRegression before after := by
  intro key first second hfirst hsecond hpassed
  obtain ⟨-, hnokey⟩ | ⟨second', other, hsecond', hother, hworst⟩ := last?_of_allWorse hworse key
  · rw [hnokey] at hsecond
    cases hsecond
  · obtain rfl := Option.some.inj (hother.symm.trans hsecond)
    exact hworst.passed (hnone key first second' hfirst hsecond' hpassed)

theorem rank_le_of_allWorse {after' : List CaseResult} (hworse : AllWorse after' after) :
    (compareReports (reportOf infoB before) (reportOf infoC after) maxDrop minAccuracy).status.rank ≤
      (compareReports (reportOf infoB before) (reportOf infoC after') maxDrop minAccuracy).status.rank := by
  apply statusOf_rank_le
  · rw [checksOf_reportOf, checksOf_reportOf]
    have hoverall := accuracy_le_of_allWorse hworse
    refine .cons (dropCheck_rank_mono hoverall) (.cons (minAccuracyCheck_rank_mono hoverall) ?_)
    apply List.forall₂_map_left_iff.mpr
    apply List.forall₂_map_right_iff.mpr
    apply List.forall₂_same.mpr
    intro scope _
    exact dropCheck_rank_mono (accuracy_le_of_allWorse (allWorse_scopeResults hworse scope))
  · intro hnil
    apply missing_eq_nil_iff.mpr
    rw [← map_caseKey_of_allWorse hworse]
    exact missing_eq_nil_iff.mp hnil
  · intro hnil
    apply regressions_eq_nil_iff.mpr
    exact noRegression_of_allWorse hworse (regressions_eq_nil_iff.mp hnil)

theorem status_of_missing {key : String} (hbefore : key ∈ before.map CaseResult.caseKey)
    (hafter : key ∉ after.map CaseResult.caseKey) :
    (compareReports (reportOf infoB before) (reportOf infoC after) maxDrop minAccuracy).status = .fail := by
  by_contra hnofail
  exact hafter ((status_ne_fail_iff.mp hnofail).present key hbefore)

/-- A candidate that is worse: with worse results of the same cases, or without the only result of a case that
the baseline has. -/
inductive Worsened (before : List CaseResult) : List CaseResult → List CaseResult → Prop
  | worse {results' results : List CaseResult} (hworse : AllWorse results' results) :
      Worsened before results' results
  | removed {front back : List CaseResult} {result : CaseResult}
      (hbefore : result.caseKey ∈ before.map CaseResult.caseKey)
      (honly : result.caseKey ∉ (front ++ back).map CaseResult.caseKey) :
      Worsened before (front ++ back) (front ++ result :: back)

theorem rank_le_of_worsened {after' : List CaseResult} (hworsened : Worsened before after' after) :
    (compareReports (reportOf infoB before) (reportOf infoC after) maxDrop minAccuracy).status.rank ≤
      (compareReports (reportOf infoB before) (reportOf infoC after') maxDrop minAccuracy).status.rank := by
  cases hworsened with
  | worse hworse => exact rank_le_of_allWorse hworse
  | removed hbefore honly =>
      apply rank_le_iff.mpr
      rw [@status_of_missing infoB infoC _ _ maxDrop minAccuracy _ hbefore honly]
      exact ⟨fun _ => rfl, fun hpass => by cases hpass⟩

end Reports

/-- Reports of evaluated cases: what the status vouches for, and that it is no better for a worse candidate. -/
theorem compareReports_sound_monotone {evaluationB evaluationC : Evaluation} {infoB infoC : RunInfo}
    {casesB casesC : List GoldenCase} {baseline candidate : Report}
    (hbaseline : buildReport evaluationB infoB casesB = .ok baseline)
    (hcandidate : buildReport evaluationC infoC casesC = .ok candidate) (maxDrop minAccuracy : ℚ) :
    ((compareReports baseline candidate maxDrop minAccuracy).status ≠ .fail →
      Acceptable baseline.cases candidate.cases maxDrop minAccuracy) ∧
    ((compareReports baseline candidate maxDrop minAccuracy).status = .pass →
      Acceptable baseline.cases candidate.cases maxDrop minAccuracy ∧
        NoRegression baseline.cases candidate.cases) ∧
    ∀ results', Worsened baseline.cases results' candidate.cases →
      (compareReports baseline candidate maxDrop minAccuracy).status.rank ≤
        (compareReports baseline (reportOf candidate.info results') maxDrop minAccuracy).status.rank := by
  obtain ⟨before, rfl⟩ : ∃ before, baseline = reportOf infoB before := ⟨_, buildReport_eq_ok hbaseline⟩
  obtain ⟨after, rfl⟩ : ∃ after, candidate = reportOf infoC after := ⟨_, buildReport_eq_ok hcandidate⟩
  refine ⟨status_ne_fail_iff.mp, fun hpass => ?_, fun _ => rank_le_of_worsened⟩
  exact ⟨acceptable_of_pass hpass, noRegression_of_pass hpass⟩

/-! ### Three cases in two scopes, and one that has the key of another -/

section Cases

def refundCase : GoldenCase where
  caseId := "5b9a2f5e-0c57-4c9c-8a0c-0d7a1f3f7f10"
  sourceFingerprint := none
  featureScope := "rag"
  userInput := "What is the refund window?"
  expectedOutput := []
  difficultyRating := "simple"
  originSource := "human_curated"

def returnCase : GoldenCase :=
  { refundCase with
    caseId := "0d5c8a55-3f5e-4a53-9a3b-6f1f9ad0c1d2"
    userInput := "Who pays for a return?" }

def totalCase : GoldenCase :=
  { refundCase with
    caseId := "9a1c7e0e-6d0b-4f0e-8f6a-7f2b1c9e4d33"
    sourceFingerprint := some "total"
    featureScope := "invoice"
    userInput := "What is the total?" }

/-- A case whose fingerprint is the identifier of another. -/
def shadowCase : GoldenCase :=
  { refundCase with
    caseId := "e0f6a9a4-5a5f-4d3e-8f1d-3d9f5f0c2b11"
    sourceFingerprint := some "5b9a2f5e-0c57-4c9c-8a0c-0d7a1f3f7f10" }

def answered (passed : Bool) : EvaluationOutcome where
  passed := passed
  score := if passed then 1 else 0
  failureReasons := []
  mode := "exact_json"
  requestPath := "/v1/chat/completions"
  status := .code 200
  latencyMs := 12
  details := .null

def mainAnswers : Evaluation := fun _ => .ok (answered true)

/-- Cases with a fingerprint fail. -/
def headAnswers : Evaluation := fun case => .ok (answered case.sourceFingerprint.isNone)

def mainRun : RunInfo := ⟨"1", "2026-01-01T00:00:00Z", "main", "a1", "http://localhost:8080"⟩

def headRun : RunInfo := ⟨"2", "2026-01-02T00:00:00Z", "head", "b2", "http://localhost:8080"⟩

def built (evaluation : Evaluation) (info : RunInfo) (cases : List GoldenCase) : Report :=
  match buildReport evaluation info cases with
  | .ok report => report
  | .error _ => reportOf info []

def steadyBaseline : Report := built mainAnswers mainRun [refundCase, returnCase, totalCase]

def steadyCandidate : Report := built mainAnswers headRun [refundCase, returnCase, totalCase]

/-- A result that fails with half of the score. -/
def failed (result : CaseResult) : CaseResult :=
  { result with passed := false, score := min result.score (1 / 2) }

/-- The candidate with its last case failed. -/
def lastFailed : List CaseResult := steadyCandidate.cases.take 2 ++ (steadyCandidate.cases.drop 2).map failed

theorem worse_refl (result : CaseResult) : Worse result result := ⟨rfl, rfl, le_rfl, id⟩

theorem worse_failed (result : CaseResult) : Worse (failed result) result :=
  ⟨rfl, rfl, min_le_left _ _, Bool.noConfusion⟩

theorem allWorse_lastFailed : AllWorse lastFailed steadyCandidate.cases := by
  rw [← List.take_append_drop 2 steadyCandidate.cases]
  refine List.rel_append ?_ ?_
  · exact List.forall₂_same.mpr fun result _ => worse_refl result
  · exact List.forall₂_map_left_iff.mpr (List.forall₂_same.mpr fun result _ => worse_failed result)

/-- The candidate that keeps up passes. It does no better with its last case failed, or without the second. -/
theorem compareReports_sound_monotone_steady :
    ((compareReports steadyBaseline steadyCandidate (3 / 100) (9 / 10)).status ≠ .fail →
      Acceptable steadyBaseline.cases steadyCandidate.cases (3 / 100) (9 / 10)) ∧
    (Acceptable steadyBaseline.cases steadyCandidate.cases (3 / 100) (9 / 10) ∧
      NoRegression steadyBaseline.cases steadyCandidate.cases) ∧
    (compareReports steadyBaseline steadyCandidate (3 / 100) (9 / 10)).status.rank ≤
      (compareReports steadyBaseline (reportOf headRun lastFailed) (3 / 100) (9 / 10)).status.rank ∧
    (compareReports steadyBaseline steadyCandidate (3 / 100) (9 / 10)).status.rank ≤
      (compareReports steadyBaseline (reportOf headRun (steadyCandidate.cases.eraseIdx 1)) (3 / 100)
        (9 / 10)).status.rank := by
  obtain ⟨hnofail, hpass, hworse⟩ :=
    @compareReports_sound_monotone mainAnswers mainAnswers mainRun headRun [refundCase, returnCase, totalCase]
      [refundCase, returnCase, totalCase] steadyBaseline steadyCandidate rfl rfl (3 / 100) (9 / 10)
  refine ⟨hnofail, hpass (by decide +kernel), hworse _ (.worse allWorse_lastFailed), ?_⟩
  exact hworse _ (@Worsened.removed _ [_] [_] _ (by decide +kernel) (by decide +kernel))

/-- Without the failed result of a case that the baseline has, the comparison is better. -/
theorem better_without_shadow :
    (built mainAnswers mainRun [refundCase, shadowCase]).cases.map CaseResult.caseKey =
        ["5b9a2f5e-0c57-4c9c-8a0c-0d7a1f3f7f10", "5b9a2f5e-0c57-4c9c-8a0c-0d7a1f3f7f10"] ∧
      (built headAnswers headRun [refundCase, shadowCase]).cases.map CaseResult.caseKey =
        ["5b9a2f5e-0c57-4c9c-8a0c-0d7a1f3f7f10", "5b9a2f5e-0c57-4c9c-8a0c-0d7a1f3f7f10"] ∧
      (compareReports (built mainAnswers mainRun [refundCase, shadowCase])
        (built headAnswers headRun [refundCase, shadowCase]) (3 / 100) (9 / 10)).status = .fail ∧
      (compareReports (built mainAnswers mainRun [refundCase, shadowCase])
        (reportOf headRun ((built headAnswers headRun [refundCase, shadowCase]).cases.take 1)) (3 / 100)
        (9 / 10)).status = .pass := by
  decide +kernel

end Cases

end CoreMesh.ModelRegression
