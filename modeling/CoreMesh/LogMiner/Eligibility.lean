import Mathlib.Algebra.Order.Ring.Int
import Mathlib.Data.String.Basic
import CoreMesh.Lib.Except
import CoreMesh.Lib.Json
import CoreMesh.Lib.OrderedDict
import CoreMesh.Lib.PyText

/-!
# Eligible interactions

`fetch_eligible` over any rows the column types admit. The query leaves out the rows whose scope or
prompt is spaces only, and the record of each row it selects is built and validated in one go: a row
that the query lets through and the validation does not takes the whole window with it.
-/

namespace CoreMesh.LogMiner

open Outcome PyText

/-! ### Rows -/

/-- A value of a `VARCHAR(n)` column. -/
structure Varchar (n : ℕ) where
  text : String
  length_le : text.length ≤ n

/-- A value of a `CHAR(n)` column, padded with spaces. -/
structure Bpchar (n : ℕ) where
  text : String
  length_eq : text.length = n

/-- A row of `production_interaction_logs`, whose checks old rows may break. Times count
microseconds. -/
structure SourceRow where
  traceId : Varchar 64
  featureScope : Varchar 64
  redactedPrompt : String
  promptFingerprint : Bpchar 64
  arbitrationScores : Json
  minArbitrationScore : Option Int16
  arbitrationStatus : Option (Varchar 32)
  negativeFeedback : Bool
  createdAt : ℤ

structure InteractionRecord where
  traceId : String
  featureScope : String
  redactedPrompt : String
  promptFingerprint : Option String
  arbitrationScores : List (String × ℤ)
  minArbitrationScore : Option ℤ
  arbitrationStatus : Option String
  negativeFeedback : Bool
  createdAt : ℤ

/-- The constraints of the fields. -/
structure InteractionRecord.Valid (record : InteractionRecord) : Prop where
  traceId : 1 ≤ record.traceId.length ∧ record.traceId.length ≤ 64
  featureScope : 1 ≤ record.featureScope.length ∧ record.featureScope.length ≤ 64
  redactedPrompt : 1 ≤ record.redactedPrompt.length
  promptFingerprint : ∀ fingerprint ∈ record.promptFingerprint, fingerprint.length = 64
  minArbitrationScore : ∀ score ∈ record.minArbitrationScore, 1 ≤ score ∧ score ≤ 5
  arbitrationStatus : ∀ status ∈ record.arbitrationStatus, status.length ≤ 32

instance (record : InteractionRecord) : Decidable record.Valid :=
  decidable_of_iff
    ((1 ≤ record.traceId.length ∧ record.traceId.length ≤ 64) ∧
      (1 ≤ record.featureScope.length ∧ record.featureScope.length ≤ 64) ∧
      1 ≤ record.redactedPrompt.length ∧
      (∀ fingerprint ∈ record.promptFingerprint, fingerprint.length = 64) ∧
      (∀ score ∈ record.minArbitrationScore, 1 ≤ score ∧ score ≤ 5) ∧
      ∀ status ∈ record.arbitrationStatus, status.length ≤ 32)
    ⟨fun h => ⟨h.1, h.2.1, h.2.2.1, h.2.2.2.1, h.2.2.2.2.1, h.2.2.2.2.2⟩,
      fun h => ⟨h.traceId, h.featureScope, h.redactedPrompt, h.promptFingerprint,
        h.minArbitrationScore, h.arbitrationStatus⟩⟩

inductive Raised where
  | typeError
  | valueError
  | indexError
  | validationError
  deriving DecidableEq

/-! ### Scores -/

/-- What the language and the validation do with JSON. -/
structure Python where
  /-- The text of the value is loaded: no integer has too many digits. -/
  loads : Json → Bool
  /-- A number literal that is loaded as a zero. -/
  isZero : String → Bool
  /-- What an integer field makes of a number literal and of a text. -/
  integerOfNumber : String → Option ℤ
  integerOfText : String → Option ℤ

section Scores

variable (python : Python)

def truthy : Json → Bool
  | .null => false
  | .bool value => value
  | .num literal => !python.isZero literal
  | .str text => text != ""
  | .arr items => !items.isEmpty
  | .obj members => !members.isEmpty

def hashable : Json → Bool
  | .arr _ | .obj _ => false
  | _ => true

/-- The key and the value that an item of a sequence makes for a dictionary. -/
def pairOf : Json → Except Raised (Json × Json)
  | .arr [key, value] => if hashable key then .ok (key, value) else .error .typeError
  | .arr _ => .error .valueError
  | .str text =>
      match text.toList with
      | [first, second] => .ok (.str first.toString, .str second.toString)
      | _ => .error .valueError
  | .obj [(first, _), (second, _)] => .ok (.str first, .str second)
  | .obj _ => .error .valueError
  | _ => .error .typeError

/-- `dict`. The characters of a text are no pairs. -/
def dictOf : Json → Except Raised (List (Json × Json))
  | .obj members => .ok (members.map fun (name, value) => (.str name, value))
  | .arr items => items.mapM pairOf
  | .str _ => .error .valueError
  | _ => .error .typeError

def stringKey : Json × Json → Except Raised (String × Json)
  | (.str name, value) => .ok (name, value)
  | _ => .error .validationError

/-- An integer field, in the mode that coerces. -/
def integer : Json → Option ℤ
  | .num literal => python.integerOfNumber literal
  | .bool value => some (if value then 1 else 0)
  | .str text => python.integerOfText text
  | _ => none

def score (entry : String × Json) : Except Raised (String × ℤ) :=
  match integer python entry.2 with
  | some value => .ok (entry.1, value)
  | none => .error .validationError

/-- `dict(row["arbitration_scores"] or {})` as a field of integers by name. -/
def scoresOf (value : Json) : Except Raised (List (String × ℤ)) := do
  if !python.loads value then throw .valueError
  let pairs ← dictOf (if truthy python value then value else .obj [])
  let entries ← pairs.mapM stringKey
  (OrderedDict.insertAll Prod.fst [] entries).mapM (score python)

end Scores

/-! ### The query -/

/-- The order of texts in the database. -/
structure Collation where
  le : String → String → Bool
  trans : ∀ a b c, le a b → le b c → le a c
  total : ∀ a b, le a b || le b a

def stripped (text : String) : String := String.ofList (strip text.toList)

section Query

variable (python : Python) (collation : Collation) (windowStart windowEnd scoreThreshold : ℤ)

/-- The `WHERE` clause, where a missing score compares to nothing. -/
def selected (row : SourceRow) : Bool :=
  decide (windowStart ≤ row.createdAt) && decide (row.createdAt ≤ windowEnd) &&
    btrim row.featureScope.text.toList != [] && btrim row.redactedPrompt.toList != [] &&
    (row.negativeFeedback || match row.minArbitrationScore with
      | some score => decide (score.toInt < scoreThreshold)
      | none => false)

/-- The order by `created_at` and `trace_id`. -/
def ordersBefore (r s : SourceRow) : Bool :=
  decide (r.createdAt < s.createdAt) ||
    (r.createdAt == s.createdAt && collation.le r.traceId.text s.traceId.text)

/-- The fields of a row's record. -/
def recordOf (row : SourceRow) (scores : List (String × ℤ)) : InteractionRecord where
  traceId := row.traceId.text
  featureScope := stripped row.featureScope.text
  redactedPrompt := stripped row.redactedPrompt
  promptFingerprint :=
    if row.promptFingerprint.text ≠ "" then some (stripped row.promptFingerprint.text) else none
  arbitrationScores := scores
  minArbitrationScore := row.minArbitrationScore.map Int16.toInt
  arbitrationStatus := row.arbitrationStatus.map Varchar.text
  negativeFeedback := row.negativeFeedback
  createdAt := row.createdAt

def buildRecord (row : SourceRow) : Except Raised InteractionRecord := do
  let scores ← scoresOf python row.arbitrationScores
  if (recordOf row scores).Valid then return recordOf row scores
  else throw .validationError

def fetchEligible (rows : List SourceRow) : Except Raised (List InteractionRecord) :=
  ((rows.filter (selected windowStart windowEnd scoreThreshold)).mergeSort
    (ordersBefore collation)).mapM (buildRecord python)

end Query

/-! ### Malformed rows -/

section Rows

variable {python : Python} {row : SourceRow}

/-- A row whose record is valid. -/
structure WellFormed (python : Python) (row : SourceRow) : Prop where
  traceId : row.traceId.text ≠ ""
  featureScope : ¬Blank row.featureScope.text.toList
  redactedPrompt : ¬Blank row.redactedPrompt.toList
  /-- No white space at either end. -/
  promptFingerprint : strip row.promptFingerprint.text.toList = row.promptFingerprint.text.toList
  arbitrationScores : (scoresOf python row.arbitrationScores).isOk = true
  minArbitrationScore : ∀ score ∈ row.minArbitrationScore, 1 ≤ score.toInt ∧ score.toInt ≤ 5

instance (python : Python) (row : SourceRow) : Decidable (WellFormed python row) :=
  have : Decidable (∀ score ∈ row.minArbitrationScore, 1 ≤ score.toInt ∧ score.toInt ≤ 5) :=
    Option.decidableForallMem row.minArbitrationScore
  decidable_of_iff
    (row.traceId.text ≠ "" ∧ ¬Blank row.featureScope.text.toList ∧ ¬Blank row.redactedPrompt.toList ∧
      strip row.promptFingerprint.text.toList = row.promptFingerprint.text.toList ∧
      (scoresOf python row.arbitrationScores).isOk = true ∧
      ∀ score ∈ row.minArbitrationScore, 1 ≤ score.toInt ∧ score.toInt ≤ 5)
    ⟨fun h => ⟨h.1, h.2.1, h.2.2.1, h.2.2.2.1, h.2.2.2.2.1, h.2.2.2.2.2⟩,
      fun h => ⟨h.traceId, h.featureScope, h.redactedPrompt, h.promptFingerprint,
        h.arbitrationScores, h.minArbitrationScore⟩⟩

theorem length_pos_iff {text : String} : 1 ≤ text.length ↔ text ≠ "" := by
  rw [← String.length_toList, Nat.one_le_iff_ne_zero, ne_eq, List.length_eq_zero_iff,
    String.toList_eq_nil_iff]

theorem length_stripped_pos_iff {text : String} : 1 ≤ (stripped text).length ↔ ¬Blank text.toList := by
  rw [stripped, String.length_ofList, Nat.one_le_iff_ne_zero, ne_eq, List.length_eq_zero_iff,
    strip_eq_nil_iff]

theorem length_stripped_le (text : String) : (stripped text).length ≤ text.length := by
  rw [stripped, String.length_ofList, ← String.length_toList]
  exact length_strip_le

/-- Stripping keeps a fingerprint at its full length exactly if there is nothing to strip. -/
theorem length_stripped_fingerprint (fingerprint : Bpchar 64) :
    (∀ kept ∈ (if fingerprint.text ≠ "" then some (stripped fingerprint.text) else none),
        kept.length = 64) ↔
      strip fingerprint.text.toList = fingerprint.text.toList := by
  have hne : fingerprint.text ≠ "" := by
    apply length_pos_iff.mp
    rw [fingerprint.length_eq]
    decide
  rw [if_pos hne, ← length_strip_eq_iff, String.length_toList, fingerprint.length_eq]
  simp [stripped]

theorem valid_recordOf_iff {scores : List (String × ℤ)} :
    (recordOf row scores).Valid ↔
      row.traceId.text ≠ "" ∧ ¬Blank row.featureScope.text.toList ∧
        ¬Blank row.redactedPrompt.toList ∧
        strip row.promptFingerprint.text.toList = row.promptFingerprint.text.toList ∧
        ∀ score ∈ row.minArbitrationScore, 1 ≤ score.toInt ∧ score.toInt ≤ 5 := by
  constructor
  · intro hvalid
    refine ⟨length_pos_iff.mp hvalid.traceId.1, length_stripped_pos_iff.mp hvalid.featureScope.1,
      length_stripped_pos_iff.mp hvalid.redactedPrompt,
      (length_stripped_fingerprint _).mp hvalid.promptFingerprint, ?_⟩
    intro score hscore
    apply hvalid.minArbitrationScore
    exact Option.mem_map_of_mem _ hscore
  · intro hrow
    obtain ⟨hid, hscope, hprompt, hfingerprint, hmin⟩ := hrow
    exact {
      traceId := ⟨length_pos_iff.mpr hid, row.traceId.length_le⟩
      featureScope := ⟨length_stripped_pos_iff.mpr hscope,
        (length_stripped_le _).trans row.featureScope.length_le⟩
      redactedPrompt := length_stripped_pos_iff.mpr hprompt
      promptFingerprint := (length_stripped_fingerprint _).mpr hfingerprint
      minArbitrationScore := by
        intro score hscore
        obtain ⟨value, hvalue, rfl⟩ := Option.map_eq_some_iff.mp hscore
        exact hmin value hvalue
      arbitrationStatus := by
        intro status hstatus
        obtain ⟨value, -, rfl⟩ := Option.map_eq_some_iff.mp hstatus
        exact value.length_le }

/-- The record of a row that is well formed. -/
def servedRecord (python : Python) (row : SourceRow) : InteractionRecord :=
  recordOf row ((scoresOf python row.arbitrationScores).toOption.getD [])

theorem buildRecord_eq_ok_iff {record : InteractionRecord} :
    buildRecord python row = .ok record ↔ WellFormed python row ∧ record = servedRecord python row := by
  unfold buildRecord servedRecord
  cases hscores : scoresOf python row.arbitrationScores with
  | error raised =>
      constructor
      · intro hok
        cases hok
      · intro hformed
        have hok := hformed.1.arbitrationScores
        rw [hscores] at hok
        cases hok
  | ok scores =>
      have hformed : WellFormed python row ↔ (recordOf row scores).Valid := by
        rw [valid_recordOf_iff]
        constructor
        · intro h
          exact ⟨h.traceId, h.featureScope, h.redactedPrompt, h.promptFingerprint,
            h.minArbitrationScore⟩
        · intro h
          exact ⟨h.1, h.2.1, h.2.2.1, h.2.2.2.1, by rw [hscores]; rfl, h.2.2.2.2⟩
      rw [hformed]
      change (if (recordOf row scores).Valid then Except.ok (recordOf row scores)
        else .error Raised.validationError) = .ok record ↔
          (recordOf row scores).Valid ∧ record = recordOf row scores
      by_cases hvalid : (recordOf row scores).Valid
      · rw [if_pos hvalid, Except.ok.injEq]
        exact ⟨fun heq => ⟨hvalid, heq.symm⟩, fun h => h.2.symm⟩
      · rw [if_neg hvalid]
        exact ⟨fun hok => (by cases hok), fun h => absurd h.1 hvalid⟩

end Rows

/-! ### What the window serves -/

section Window

variable (python : Python) (collation : Collation) (windowStart windowEnd scoreThreshold : ℤ)

/-- The records of the eligible rows that are well formed, by time and trace. -/
structure Served (rows : List SourceRow) (records : List InteractionRecord) : Prop where
  ordered : records.Pairwise fun r s =>
    r.createdAt < s.createdAt ∨ r.createdAt = s.createdAt ∧ collation.le r.traceId s.traceId = true
  complete : records.Perm ((rows.filter fun row =>
    selected windowStart windowEnd scoreThreshold row && decide (WellFormed python row)).map
      (servedRecord python))

variable {collation}

theorem ordersBefore_iff {r s : SourceRow} : ordersBefore collation r s = true ↔
    r.createdAt < s.createdAt ∨
      r.createdAt = s.createdAt ∧ collation.le r.traceId.text s.traceId.text = true := by
  simp [ordersBefore]

theorem ordersBefore_trans (r s t : SourceRow) (hrs : ordersBefore collation r s)
    (hst : ordersBefore collation s t) : ordersBefore collation r t := by
  rw [ordersBefore_iff] at hrs hst ⊢
  obtain hrs | ⟨hrs, hle⟩ := hrs
  · obtain hst | ⟨hst, -⟩ := hst <;> exact .inl (by omega)
  · obtain hst | ⟨hst, hle'⟩ := hst
    · exact .inl (by omega)
    · exact .inr ⟨hrs.trans hst, collation.trans _ _ _ hle hle'⟩

theorem ordersBefore_total (r s : SourceRow) :
    (ordersBefore collation r s || ordersBefore collation s r) = true := by
  have htotal := collation.total r.traceId.text s.traceId.text
  rw [Bool.or_eq_true] at htotal ⊢
  rw [ordersBefore_iff, ordersBefore_iff]
  obtain hlt | heq | hgt := lt_trichotomy r.createdAt s.createdAt
  · exact .inl (.inl hlt)
  · obtain hle | hle := htotal
    · exact .inl (.inr ⟨heq, hle⟩)
    · exact .inr (.inr ⟨heq.symm, hle⟩)
  · exact .inr (.inl hgt)

variable {python windowStart windowEnd scoreThreshold} {rows : List SourceRow}

theorem fetchEligible_eq_ok_iff {records : List InteractionRecord} :
    fetchEligible python collation windowStart windowEnd scoreThreshold rows = .ok records ↔
      (∀ row ∈ rows, selected windowStart windowEnd scoreThreshold row = true →
        WellFormed python row) ∧
      records = ((rows.filter (selected windowStart windowEnd scoreThreshold)).mergeSort
        (ordersBefore collation)).map (servedRecord python) := by
  unfold fetchEligible
  rw [mapM_eq_ok_iff fun row record => buildRecord_eq_ok_iff]
  refine and_congr_left' ?_
  constructor
  · intro hall row hrow hselected
    exact hall row (List.mem_mergeSort.mpr (List.mem_filter.mpr ⟨hrow, hselected⟩))
  · intro hall row hrow
    obtain ⟨hrow, hselected⟩ := List.mem_filter.mp (List.mem_mergeSort.mp hrow)
    exact hall row hrow hselected

/-- The window is served exactly if no row that the query selects is malformed. -/
theorem fetchEligible_serves_iff (python : Python) (collation : Collation)
    (windowStart windowEnd scoreThreshold : ℤ) (rows : List SourceRow) :
    (∃ records,
      fetchEligible python collation windowStart windowEnd scoreThreshold rows = .ok records ∧
        Served python collation windowStart windowEnd scoreThreshold rows records) ↔
      ∀ row ∈ rows, selected windowStart windowEnd scoreThreshold row = true →
        WellFormed python row := by
  constructor
  · intro hserved
    obtain ⟨records, hfetch, -⟩ := hserved
    exact (fetchEligible_eq_ok_iff.mp hfetch).1
  · intro hformed
    refine ⟨_, fetchEligible_eq_ok_iff.mpr ⟨hformed, rfl⟩, ?_⟩
    exact {
      ordered := by
        rw [List.pairwise_map]
        have hsorted : ((rows.filter (selected windowStart windowEnd scoreThreshold)).mergeSort
            (ordersBefore collation)).Pairwise fun r s => ordersBefore collation r s = true :=
          List.pairwise_mergeSort ordersBefore_trans ordersBefore_total _
        exact hsorted.imp fun hle => ordersBefore_iff.mp hle
      complete := by
        have hsame : (rows.filter fun row =>
            selected windowStart windowEnd scoreThreshold row && decide (WellFormed python row)) =
            rows.filter (selected windowStart windowEnd scoreThreshold) := by
          apply List.filter_congr
          intro row hrow
          cases hselected : selected windowStart windowEnd scoreThreshold row with
          | false => rfl
          | true => rw [Bool.true_and, decide_eq_true (hformed row hrow hselected)]
        rw [hsame]
        exact (List.mergeSort_perm _ _).map _ }

end Window

/-! ### A prompt that is a tab -/

/-- Numbers by their exact value. -/
def exactNumbers : Python where
  loads _ := true
  isZero literal := (Json.decimal literal).mantissa == 0
  integerOfNumber literal :=
    let number := Json.decimal literal
    if 0 ≤ number.exponent ∨ number.mantissa % 10 ^ number.exponent.natAbs = 0 then
      some number.truncate
    else none
  integerOfText := String.toInt?

def codePoints : Collation where
  le a b := decide (a ≤ b)
  trans a b c hab hbc := decide_eq_true ((of_decide_eq_true hab).trans (of_decide_eq_true hbc))
  total a b := by
    rw [Bool.or_eq_true, decide_eq_true_iff, decide_eq_true_iff]
    exact le_total a b

def flaggedRow (traceId : Varchar 64) (redactedPrompt : String) : SourceRow where
  traceId
  featureScope := ⟨"rag", by decide⟩
  redactedPrompt
  promptFingerprint := ⟨String.ofList (List.replicate 64 'a'), by
    rw [String.length_ofList, List.length_replicate]⟩
  arbitrationScores := .obj [("factual", .num "2")]
  minArbitrationScore := some 2
  arbitrationStatus := none
  negativeFeedback := true
  createdAt := 0

/-- The prompt is not made of spaces, and is empty when it is stripped. -/
def tabRow : SourceRow := flaggedRow ⟨"t1", by decide⟩ "\t"

def questionRow : SourceRow := flaggedRow ⟨"t2", by decide⟩ "What is the total?"

theorem not_served_of_tab :
    WellFormed exactNumbers questionRow ∧ selected 0 100 4 questionRow = true ∧
      buildRecord exactNumbers tabRow = .error .validationError ∧
      ¬∃ records,
        fetchEligible exactNumbers codePoints 0 100 4 [tabRow, questionRow] = .ok records ∧
          Served exactNumbers codePoints 0 100 4 [tabRow, questionRow] records := by
  refine ⟨by decide +kernel, by decide +kernel, by rfl, ?_⟩
  intro hserved
  obtain ⟨records, hfetch, -⟩ := hserved
  have hformed := (fetchEligible_eq_ok_iff.mp hfetch).1 tabRow List.mem_cons_self (by decide +kernel)
  exact hformed.redactedPrompt (by decide +kernel)

end CoreMesh.LogMiner
