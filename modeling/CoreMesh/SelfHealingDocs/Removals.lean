import CoreMesh.SelfHealingDocs.PathSpelling
import CoreMesh.SelfHealingDocs.StructuralDiff

/-!
# Removed units

A renamed file is read in the language of its new path, at both ends, and left out if the new path is not
that of a source. The units that are gone with it are reported exactly if it stays a source of its
language, and nothing is reported if any file that is read cannot be.
-/

namespace CoreMesh.SelfHealingDocs

open CQuote (Bytes spelled render needsQuotes encode)
open OrderedDict (last?)

/-! ### The languages of units -/

section Languages

variable {frontend : Frontend} {path : Text} {units : List StructuralUnit}

theorem language_functionUnit {parents : List Text} {node : FunctionDef}
    (hunits : functionUnit frontend path parents node = .ok units) :
    ∀ unit ∈ units, unit.language = .python := by
  rw [functionUnit] at hunits
  obtain ⟨decorators, -, hunits⟩ := Outcome.bind_eq_ok hunits
  dsimp only at hunits
  split at hunits
  · obtain rfl := Except.ok.inj hunits
    exact fun unit hunit => absurd hunit List.not_mem_nil
  · obtain ⟨arguments, -, hunits⟩ := Outcome.bind_eq_ok hunits
    obtain ⟨returns, -, hunits⟩ := Outcome.bind_eq_ok hunits
    obtain ⟨context, -, hunits⟩ := Outcome.bind_eq_ok hunits
    obtain rfl := Except.ok.inj hunits
    intro unit hunit
    rw [List.mem_singleton.mp hunit]

theorem language_assignmentUnit {typeText : Text} {value : Option PyNode} {lineno endLineno : Nat}
    {target : PyNode} {unit : StructuralUnit}
    (hunit : assignmentUnit frontend path typeText value lineno endLineno target = .ok (some unit)) :
    unit.language = .python := by
  cases target with
  | name name =>
      rw [assignmentUnit] at hunit
      split at hunit
      · cases hunit
      · obtain ⟨text, -, hunit⟩ := Outcome.bind_eq_ok hunit
        obtain rfl := Option.some.inj (Except.ok.inj hunit)
        rfl
  | _ => cases hunit

theorem language_moduleAssignmentUnits {targets : List PyNode} {annotated value : Option PyNode}
    {lineno endLineno : Nat}
    (hunits : moduleAssignmentUnits frontend path targets annotated value lineno endLineno = .ok units) :
    ∀ unit ∈ units, unit.language = .python := by
  obtain ⟨typeText, -, hunits⟩ := Outcome.bind_eq_ok hunits
  obtain ⟨found, hfound, hunits⟩ := Outcome.bind_eq_ok hunits
  obtain rfl := Except.ok.inj hunits
  intro unit hunit
  obtain ⟨target, -, htarget⟩ :=
    Outcome.exists_of_mem_mapM hfound (List.reduceOption_mem_iff.mp hunit)
  exact language_assignmentUnit htarget

theorem language_fieldUnits {className : Text} {node : Assign}
    (hunits : fieldUnits frontend path className node = .ok units) :
    ∀ unit ∈ units, unit.language = .python := by
  obtain ⟨value, -, hunits⟩ := Outcome.bind_eq_ok hunits
  obtain rfl := Except.ok.inj hunits
  intro unit hunit
  obtain ⟨target, -, htarget⟩ := List.mem_filterMap.mp hunit
  split at htarget
  · split at htarget
    · rw [← Option.some.inj htarget]
      rfl
    · cases htarget
  · cases htarget

theorem language_annotatedFieldUnits {className : Text} {node : AnnAssign}
    (hunits : annotatedFieldUnits frontend path className node = .ok units) :
    ∀ unit ∈ units, unit.language = .python := by
  rw [annotatedFieldUnits] at hunits
  split at hunits
  · obtain ⟨typeText, -, hunits⟩ := Outcome.bind_eq_ok hunits
    obtain ⟨value, -, hunits⟩ := Outcome.bind_eq_ok hunits
    obtain rfl := Except.ok.inj hunits
    intro unit hunit
    rw [List.mem_singleton.mp hunit]
    rfl
  · obtain rfl := Except.ok.inj hunits
    exact fun unit hunit => absurd hunit List.not_mem_nil

theorem language_classUnit {parents : List Text} {node : ClassHeader} {unit : StructuralUnit}
    (hunit : classUnit frontend path parents node = .ok unit) : unit.language = .python := by
  obtain ⟨bases, -, hunit⟩ := Outcome.bind_eq_ok hunit
  obtain ⟨keywords, -, hunit⟩ := Outcome.bind_eq_ok hunit
  obtain ⟨context, -, hunit⟩ := Outcome.bind_eq_ok hunit
  rw [← Except.ok.inj hunit]

mutual

theorem language_extractPythonNode : ∀ (parents : List Text) (node : PyStmt) (units : List StructuralUnit),
    extractPythonNode frontend path parents node = .ok units → ∀ unit ∈ units, unit.language = .python
  | _, .functionDef _, _, hunits => language_functionUnit hunits
  | parents, .classDef node body, units, hunits => by
      obtain ⟨header, hheader, hunits⟩ := Outcome.bind_eq_ok hunits
      obtain ⟨inner, hinner, hunits⟩ := Outcome.bind_eq_ok hunits
      obtain rfl := Except.ok.inj hunits
      exact List.forall_mem_cons.mpr ⟨language_classUnit hheader,
        language_extractPythonScope (parents ++ [node.name]) body inner hinner⟩
  | [], .annAssign _, _, hunits => language_moduleAssignmentUnits hunits
  | _ :: _, .annAssign _, _, hunits => language_annotatedFieldUnits hunits
  | [], .assign _, _, hunits => language_moduleAssignmentUnits hunits
  | _ :: _, .assign _, _, hunits => language_fieldUnits hunits
  | _, .other, _, hunits => by
      obtain rfl := Except.ok.inj hunits
      exact fun unit hunit => absurd hunit List.not_mem_nil

theorem language_extractPythonScope : ∀ (parents : List Text) (body : List PyStmt)
    (units : List StructuralUnit), extractPythonScope frontend path parents body = .ok units →
    ∀ unit ∈ units, unit.language = .python
  | _, [], _, hunits => by
      obtain rfl := Except.ok.inj hunits
      exact fun unit hunit => absurd hunit List.not_mem_nil
  | parents, node :: body, _, hunits => by
      obtain ⟨first, hfirst, hunits⟩ := Outcome.bind_eq_ok hunits
      obtain ⟨rest, hrest, hunits⟩ := Outcome.bind_eq_ok hunits
      obtain rfl := Except.ok.inj hunits
      exact List.forall_mem_append.mpr ⟨language_extractPythonNode parents node first hfirst,
        language_extractPythonScope parents body rest hrest⟩

end

theorem mem_of_mem_listUnits {language : Language} {found : List StructuralUnit} {unit : StructuralUnit}
    (hunit : unit ∈ listUnits language found) : unit ∈ found := by
  cases language with
  | python => exact (List.perm_insertionSort _ _).mem_iff.mp hunit
  | compose => exact hunit
  | go =>
      have hdedupe : unit ∈ dedupeUnits found := (List.perm_insertionSort _ _).mem_iff.mp hunit
      exact (OrderedDict.mem_setDefaults hdedupe).resolve_left List.not_mem_nil

theorem extractUnits_eq_ok {language : Language} {source : Text}
    (hunits : extractUnits frontend language path source = .ok units) :
    ∃ found, foundUnits frontend language path source = .ok found ∧ units = listUnits language found := by
  rw [extractUnits] at hunits
  split at hunits
  · rename_i found hfound
    exact ⟨found, hfound, (Except.ok.inj hunits).symm⟩
  · cases hunits
  · cases hunits

/-- The units of a file have its language. -/
theorem language_extractUnits {language : Language} {source : Text}
    (hunits : extractUnits frontend language path source = .ok units) :
    ∀ unit ∈ units, unit.language = language := by
  obtain ⟨found, hfound, rfl⟩ := extractUnits_eq_ok hunits
  intro unit hunit
  have hmem := mem_of_mem_listUnits hunit
  cases language with
  | python =>
      rw [foundUnits] at hfound
      split at hfound
      · exact language_extractPythonScope _ _ _ hfound unit hmem
      · cases hfound
      · cases hfound
  | go => exact frontend.goUnits_language path source found hfound unit hmem
  | compose => exact frontend.composeUnits_language path source found hfound unit hmem

end Languages

/-! ### Removals in a diff -/

section Diff

variable {frontend : Frontend} {delta : SourceFileDelta} {oldUnits newUnits : List StructuralUnit}

/-- A removal shows a unit. -/
structure Shows (report : StructuralChange) (unit : StructuralUnit) : Prop where
  removed : report.changeType = .removed
  language : report.language = unit.language
  kind : report.kind = unit.kind
  name : report.name = unit.name
  before : report.before = some unit.representation

theorem exists_removal {identity : Text} (hold : identity ∈ oldUnits.map StructuralUnit.identity)
    (hnew : identity ∉ newUnits.map StructuralUnit.identity) :
    ∃ report ∈ diffUnits frontend delta oldUnits newUnits, ∃ unit ∈ oldUnits,
      unit.identity = identity ∧ Shows report unit := by
  cases hlast : last? StructuralUnit.identity oldUnits identity with
  | none =>
      obtain ⟨unit, hunit, hsame⟩ := List.mem_map.mp hold
      exact absurd hsame (OrderedDict.last?_eq_none_iff.mp hlast unit hunit)
  | some unit =>
      obtain ⟨hidentity, hunit⟩ := OrderedDict.key_of_last? hlast
      refine ⟨diffUnit frontend delta identity (some unit) none unit .removed, ?_, unit, hunit, hidentity,
        rfl, rfl, rfl, rfl, rfl⟩
      refine List.mem_filterMap.mpr ⟨identity, mem_identities.mpr (.inl hold), ?_⟩
      rw [hlast, last?_eq_none hnew]
      rfl

theorem language_diffUnits {language : Language} (hold : ∀ unit ∈ oldUnits, unit.language = language)
    (hnew : ∀ unit ∈ newUnits, unit.language = language) :
    ∀ report ∈ diffUnits frontend delta oldUnits newUnits, report.language = language := by
  intro report hreport
  obtain ⟨identity, -, hdiff⟩ := List.mem_filterMap.mp hreport
  cases hbefore : last? StructuralUnit.identity oldUnits identity with
  | none =>
      cases hafter : last? StructuralUnit.identity newUnits identity with
      | none => rw [hbefore, hafter] at hdiff; cases hdiff
      | some unit =>
          rw [hbefore, hafter] at hdiff
          rw [← Option.some.inj hdiff]
          exact hnew unit (OrderedDict.key_of_last? hafter).2
  | some old =>
      cases hafter : last? StructuralUnit.identity newUnits identity with
      | none =>
          rw [hbefore, hafter] at hdiff
          rw [← Option.some.inj hdiff]
          exact hold old (OrderedDict.key_of_last? hbefore).2
      | some unit =>
          rw [hbefore, hafter, diffIdentity] at hdiff
          split at hdiff
          · cases hdiff
          · rw [← Option.some.inj hdiff]
            exact hnew unit (OrderedDict.key_of_last? hafter).2

theorem extractSide_some {language : Language} {path displayPath text : Text} (hpath : path ≠ []) :
    extractSide frontend language (some path) displayPath (some text) =
      extractUnits frontend language path text := by
  have horPath : (orPath (some path) none).getD displayPath = path := by
    simp [orPath, Option.filter, hpath]
  rw [extractSide, horPath]

end Diff

/-! ### The files that are read -/

section Reading

variable {git : Git} {base head : Text} {record : NameStatus} {delta : SourceFileDelta}

theorem readDelta_none (hlanguage : record.language = none) :
    readDelta git base head record = .ok none := by
  rw [readDelta]
  rw [NameStatus.language] at hlanguage
  rw [hlanguage]

theorem readDelta_eq_some_iff :
    readDelta git base head record = .ok (some delta) ↔
      record.language = some delta.language ∧ delta.status = record.status ∧
        delta.oldPath = record.oldPath ∧ delta.newPath = record.newPath ∧
        record.oldPath.mapM (readTextAtRef git base) = .ok delta.oldText ∧
        record.newPath.mapM (readTextAtRef git head) = .ok delta.newText := by
  cases hlanguage : record.language with
  | none =>
      rw [readDelta_none hlanguage]
      exact iff_of_false (by simp) (by simp)
  | some language =>
      have hselected : (orPath record.newPath record.oldPath).bind selectedLanguage = some language :=
        hlanguage
      rw [readDelta, hselected]
      constructor
      · intro hread
        obtain ⟨oldText, hold, hread⟩ := Outcome.bind_eq_ok hread
        obtain ⟨newText, hnew, hread⟩ := Outcome.bind_eq_ok hread
        obtain rfl := Option.some.inj (Except.ok.inj hread)
        exact ⟨rfl, rfl, rfl, rfl, hold, hnew⟩
      · rintro ⟨hsame, hstatus, holdPath, hnewPath, hold, hnew⟩
        show (record.oldPath.mapM (readTextAtRef git base) >>= _) = _
        rw [hold]
        show (record.newPath.mapM (readTextAtRef git head) >>= _) = _
        rw [hnew]
        obtain rfl := Option.some.inj hsame
        rw [← hstatus, ← holdPath, ← hnewPath]
        rfl

theorem language_of_readDelta_none (hread : readDelta git base head record = .ok none) :
    record.language = none := by
  cases hlanguage : record.language with
  | none => rfl
  | some language =>
      rw [readDelta, show (orPath record.newPath record.oldPath).bind selectedLanguage = some language
        from hlanguage] at hread
      obtain ⟨oldText, -, hread⟩ := Outcome.bind_eq_ok hread
      obtain ⟨newText, -, hread⟩ := Outcome.bind_eq_ok hread
      cases hread

theorem changeLine_ne_nil (change : TreeChange) : change.line ≠ [] := by
  rw [TreeChange.line]
  cases change <;> exact List.cons_ne_nil _ _

theorem discoverLine_line (change : TreeChange) :
    discoverLine git base head change.line = readDelta git base head change.record := by
  rw [discoverLine, if_neg (changeLine_ne_nil change), parseNameStatus_line]
  rfl

theorem discoverSourceDeltas_eq (changes : List TreeChange) :
    discoverSourceDeltas git base head (nameStatusOutput changes) =
      (changes.mapM fun change => readDelta git base head change.record) >>= fun deltas =>
        .ok deltas.reduceOption := by
  rw [discoverSourceDeltas, nameStatusOutput, linesOf_flatMap fun change _ c hc => visible_line change hc,
    List.mapM_map]
  simp only [Function.comp_def, discoverLine_line]
  rfl

end Reading

/-! ### Trees -/

/-- The files of a revision, by their paths. -/
abbrev Tree := Bytes → Option (Option Text)

/-- Git shows the files of a tree under the name of a revision. -/
def ShowsTree (git : Git) (revision : Text) (tree : Tree) : Prop :=
  ∀ path content, tree (encode path) = some content → git.showFile revision path = .ok content

/-- What a list of changes says of the trees at its ends. -/
structure Describes (base head : Tree) (changes : List TreeChange) : Prop where
  old_mem : ∀ change ∈ changes, ∀ path ∈ change.oldPath, base path.bytes ≠ none
  new_mem : ∀ change ∈ changes, ∀ path ∈ change.newPath, head path.bytes ≠ none
  old_unique : ∀ change ∈ changes, ∀ change' ∈ changes, ∀ path, change.oldPath = some path →
    change'.oldPath = some path → change = change'
  old_changed : ∀ path : RepoPath, base path.bytes ≠ none → head path.bytes ≠ base path.bytes →
    ∃ change ∈ changes, change.oldPath = some path
  new_changed : ∀ path : RepoPath, head path.bytes ≠ none → head path.bytes ≠ base path.bytes →
    ∃ change ∈ changes, change.newPath = some path

/-- A file of a tree that is a source, and its units. -/
structure UnitsAt (frontend : Frontend) (tree : Tree) (path : RepoPath) (language : Language)
    (units : List StructuralUnit) : Prop where
  selected : selectedLanguage (spelled path.bytes) = some language
  parsed : ∃ text, tree path.bytes = some (some text) ∧
    extractUnits frontend language (spelled path.bytes) text = .ok units

def HasUnit (frontend : Frontend) (tree : Tree) (path : RepoPath) (identity : Text) : Prop :=
  ∃ language units, UnitsAt frontend tree path language units ∧
    identity ∈ units.map StructuralUnit.identity

/-- A unit of a source that no source has any more. -/
structure Removed (frontend : Frontend) (base head : Tree) (path : RepoPath) (identity : Text) : Prop where
  present : HasUnit frontend base path identity
  gone : ∀ path', ¬ HasUnit frontend head path' identity

section Analysis

variable (frontend : Frontend) (git : Git) (baseSha headSha : Text) (changes : List TreeChange)

/-- The report has a removal of a unit, which is from the change of the unit's own file. -/
def Reported (base : Tree) (reported : List StructuralChange) (path : RepoPath) (identity : Text) : Prop :=
  ∃ change ∈ changes, change.oldPath = some path ∧ ∃ delta found,
    readDelta git baseSha headSha change.record = .ok (some delta) ∧
      delta.oldPath = some (spelled path.bytes) ∧ deltaChanges frontend delta = .ok found ∧
      ∃ report ∈ found, report ∈ reported ∧ ∃ language units, UnitsAt frontend base path language units ∧
        ∃ unit ∈ units, unit.identity = identity ∧ Shows report unit

/-- The analysis comes to its end, and reports all removed units. -/
def RemovalsReported (base head : Tree) : Prop :=
  ∃ deltas reported,
    discoverSourceDeltas git baseSha headSha (nameStatusOutput changes) = .ok deltas ∧
      extractStructuralChanges frontend deltas = .ok reported ∧
      ∀ path identity, Removed frontend base head path identity →
        Reported frontend git baseSha headSha changes base reported path identity

/-- A file can be read at a revision, and is one of the language. -/
def Parses (revision : Text) (language : Language) (path : Text) : Prop :=
  ∃ text units, readTextAtRef git revision path = .ok text ∧
    extractUnits frontend language path text = .ok units

/-- The files of a change that is selected can be read, in the language of its new path. -/
def Analyzable (change : TreeChange) : Prop :=
  ∀ language, change.record.language = some language →
    (∀ path ∈ change.record.oldPath, Parses frontend git baseSha language path) ∧
      ∀ path ∈ change.record.newPath, Parses frontend git headSha language path

/-- A file stays a source of its language, if it stays at all, and Git does not quote its paths. -/
def Stays (change : TreeChange) (path : RepoPath) : Prop :=
  needsQuotes false path.bytes = false ∧ ∀ path' ∈ change.newPath,
    needsQuotes false path'.bytes = false ∧
      selectedLanguage (spelled path'.bytes) = selectedLanguage (spelled path.bytes)

variable {frontend git baseSha headSha changes}

theorem extractSide_read {revision : Text} {language : Language} {path displayPath : Text}
    (hpath : path ≠ []) {text : Option Text}
    (htext : (some path).mapM (readTextAtRef git revision) = .ok text) {units : List StructuralUnit} :
    extractSide frontend language (some path) displayPath text = .ok units ↔
      ∃ source, readTextAtRef git revision path = .ok source ∧
        extractUnits frontend language path source = .ok units := by
  rw [Option.mapM_some] at htext
  cases hread : readTextAtRef git revision path with
  | error error =>
      rw [hread] at htext
      cases htext
  | ok source =>
      rw [hread] at htext
      obtain rfl := Except.ok.inj htext
      rw [extractSide_some hpath]
      simp

theorem extractSide_record {revision : Text} {language : Language} {path : Option RepoPath}
    {displayPath : Text} {text : Option Text}
    (htext : (path.map fun path => render false path.bytes).mapM (readTextAtRef git revision) = .ok text) :
    (∃ units, extractSide frontend language (path.map fun path => render false path.bytes) displayPath
        text = .ok units) ↔
      ∀ spelling ∈ path.map fun path => render false path.bytes,
        Parses frontend git revision language spelling := by
  cases path with
  | none =>
      obtain rfl := Except.ok.inj htext
      exact iff_of_true ⟨[], rfl⟩ (by simp)
  | some path =>
      rw [Option.map_some] at htext
      simp only [Option.map_some, Option.mem_some_iff, forall_eq', Parses,
        extractSide_read (render_ne_nil path) htext]
      exact exists_comm.trans (by simp only [exists_and_left])

theorem deltaChanges_eq_ok {delta : SourceFileDelta} {found : List StructuralChange}
    (hfound : deltaChanges frontend delta = .ok found) : ∃ oldUnits newUnits,
      extractSide frontend delta.language delta.oldPath delta.displayPath delta.oldText = .ok oldUnits ∧
      extractSide frontend delta.language delta.newPath delta.displayPath delta.newText = .ok newUnits ∧
      found = diffUnits frontend delta oldUnits newUnits := by
  obtain ⟨oldUnits, hold, hfound⟩ := Outcome.bind_eq_ok hfound
  obtain ⟨newUnits, hnew, hfound⟩ := Outcome.bind_eq_ok hfound
  exact ⟨oldUnits, newUnits, hold, hnew, (Except.ok.inj hfound).symm⟩

theorem deltaChanges_of_extractSide {delta : SourceFileDelta} {oldUnits newUnits : List StructuralUnit}
    (hold : extractSide frontend delta.language delta.oldPath delta.displayPath delta.oldText =
      .ok oldUnits)
    (hnew : extractSide frontend delta.language delta.newPath delta.displayPath delta.newText =
      .ok newUnits) :
    deltaChanges frontend delta = .ok (diffUnits frontend delta oldUnits newUnits) := by
  rw [deltaChanges, hold]
  show (extractSide frontend delta.language delta.newPath delta.displayPath delta.newText >>= _) = _
  rw [hnew]
  rfl

theorem exists_read {revision : Text} {language : Language} {path : Option Text}
    (hparses : ∀ spelling ∈ path, Parses frontend git revision language spelling) :
    ∃ text, path.mapM (readTextAtRef git revision) = .ok text := by
  cases path with
  | none => exact ⟨none, rfl⟩
  | some path =>
      obtain ⟨text, -, htext, -⟩ := hparses path rfl
      exact ⟨some text, by rw [Option.mapM_some, htext]; rfl⟩

/-- A change can be analysed exactly if its delta can be made and compared. -/
theorem analyzable_iff (change : TreeChange) :
    Analyzable frontend git baseSha headSha change ↔
      ∃ found, readDelta git baseSha headSha change.record = .ok found ∧
        ∀ delta ∈ found, ∃ reports, deltaChanges frontend delta = .ok reports := by
  cases hlanguage : change.record.language with
  | none =>
      refine iff_of_true (fun language hsome => ?_) ⟨none, readDelta_none hlanguage, by simp⟩
      rw [hlanguage] at hsome
      cases hsome
  | some language =>
      constructor
      · intro hanalyzable
        obtain ⟨hold, hnew⟩ := hanalyzable language hlanguage
        obtain ⟨oldText, holdText⟩ := exists_read hold
        obtain ⟨newText, hnewText⟩ := exists_read hnew
        have hdelta : readDelta git baseSha headSha change.record =
            .ok (some ⟨change.record.status, change.record.oldPath, change.record.newPath, oldText,
              newText, language⟩) :=
          readDelta_eq_some_iff.mpr ⟨hlanguage, rfl, rfl, rfl, holdText, hnewText⟩
        refine ⟨_, hdelta, fun delta hmem => ?_⟩
        obtain rfl := Option.some.inj hmem
        obtain ⟨oldUnits, holdUnits⟩ := (extractSide_record holdText).mpr hold
        obtain ⟨newUnits, hnewUnits⟩ := (extractSide_record hnewText).mpr hnew
        exact ⟨_, deltaChanges_of_extractSide holdUnits hnewUnits⟩
      · rintro ⟨found, hfound, hchanges⟩ language' hlanguage'
        cases found with
        | none =>
            rw [language_of_readDelta_none hfound] at hlanguage
            cases hlanguage
        | some delta =>
            obtain ⟨hsame, -, holdPath, hnewPath, holdText, hnewText⟩ := readDelta_eq_some_iff.mp hfound
            rw [hsame] at hlanguage'
            obtain rfl := Option.some.inj hlanguage'
            obtain ⟨reports, hreports⟩ := hchanges delta rfl
            obtain ⟨oldUnits, newUnits, holdUnits, hnewUnits, -⟩ := deltaChanges_eq_ok hreports
            rw [holdPath] at holdUnits
            rw [hnewPath] at hnewUnits
            exact ⟨(extractSide_record holdText).mp ⟨oldUnits, holdUnits⟩,
              (extractSide_record hnewText).mp ⟨newUnits, hnewUnits⟩⟩

theorem exists_extract_iff {deltas : List SourceFileDelta} :
    (∃ reported, extractStructuralChanges frontend deltas = .ok reported) ↔
      ∀ delta ∈ deltas, ∃ reports, deltaChanges frontend delta = .ok reports := by
  have hsorted := List.perm_insertionSort
    (fun a b : SourceFileDelta => a.displayPath ≤ b.displayPath) deltas
  constructor
  · rintro ⟨reported, hreported⟩ delta hdelta
    obtain ⟨found, hfound, -⟩ := Outcome.bind_eq_ok hreported
    exact Outcome.exists_mapM_eq_ok_iff.mp ⟨found, hfound⟩ delta (hsorted.mem_iff.mpr hdelta)
  · intro hall
    obtain ⟨found, hfound⟩ := Outcome.exists_mapM_eq_ok_iff.mpr fun delta hdelta =>
      hall delta (hsorted.mem_iff.mp hdelta)
    exact ⟨found.flatten.insertionSort changePrecedes, by rw [extractStructuralChanges, hfound]; rfl⟩

theorem mem_extract {deltas : List SourceFileDelta} {reported found : List StructuralChange}
    (hreported : extractStructuralChanges frontend deltas = .ok reported) {delta : SourceFileDelta}
    (hdelta : delta ∈ deltas) (hfound : deltaChanges frontend delta = .ok found) :
    ∀ report ∈ found, report ∈ reported := by
  intro report hreport
  obtain ⟨all, hall, hreported⟩ := Outcome.bind_eq_ok hreported
  obtain rfl := Except.ok.inj hreported
  obtain ⟨found', hmem, hfound'⟩ := Outcome.mem_mapM hall
    ((List.perm_insertionSort (fun a b : SourceFileDelta => a.displayPath ≤ b.displayPath)
      deltas).mem_iff.mpr hdelta)
  rw [hfound] at hfound'
  obtain rfl := Except.ok.inj hfound'
  exact (List.perm_insertionSort _ _).mem_iff.mpr (List.mem_flatten.mpr ⟨found, hmem, hreport⟩)

theorem discover_eq_ok_iff {deltas : List SourceFileDelta} :
    discoverSourceDeltas git baseSha headSha (nameStatusOutput changes) = .ok deltas ↔
      ∃ found, (changes.mapM fun change => readDelta git baseSha headSha change.record) = .ok found ∧
        deltas = found.reduceOption := by
  rw [discoverSourceDeltas_eq]
  constructor
  · intro hok
    obtain ⟨found, hfound, hok⟩ := Outcome.bind_eq_ok hok
    exact ⟨found, hfound, (Except.ok.inj hok).symm⟩
  · rintro ⟨found, hfound, rfl⟩
    rw [hfound]
    rfl

/-- The analysis comes to its end exactly if all changes can be analysed. -/
theorem analysis_iff :
    (∃ deltas reported,
      discoverSourceDeltas git baseSha headSha (nameStatusOutput changes) = .ok deltas ∧
        extractStructuralChanges frontend deltas = .ok reported) ↔
      ∀ change ∈ changes, Analyzable frontend git baseSha headSha change := by
  constructor
  · rintro ⟨deltas, reported, hdeltas, hreported⟩ change hchange
    obtain ⟨found, hfound, rfl⟩ := discover_eq_ok_iff.mp hdeltas
    obtain ⟨result, hresult, hread⟩ := Outcome.mem_mapM hfound hchange
    refine (analyzable_iff change).mpr ⟨result, hread, fun delta hdelta => ?_⟩
    exact exists_extract_iff.mp ⟨reported, hreported⟩ delta
      (List.reduceOption_mem_iff.mpr (hdelta ▸ hresult))
  · intro hall
    obtain ⟨found, hfound⟩ := Outcome.exists_mapM_eq_ok_iff.mpr fun change hchange =>
      ((analyzable_iff change).mp (hall change hchange)).imp fun _ h => h.1
    have hextract : ∀ delta ∈ found.reduceOption, ∃ reports, deltaChanges frontend delta = .ok reports := by
      intro delta hdelta
      obtain ⟨change, hchange, hread⟩ :=
        Outcome.exists_of_mem_mapM hfound (List.reduceOption_mem_iff.mp hdelta)
      obtain ⟨result, hresult, hreports⟩ := (analyzable_iff change).mp (hall change hchange)
      rw [hread] at hresult
      exact hreports delta (Except.ok.inj hresult).symm
    obtain ⟨reported, hreported⟩ := exists_extract_iff.mpr hextract
    exact ⟨found.reduceOption, reported, discover_eq_ok_iff.mpr ⟨found, hfound, rfl⟩, hreported⟩

/-! ### Removed units -/

section Trees

variable {base head : Tree}

theorem readTextAtRef_of_plain {revision : Text} {tree : Tree} (hshows : ShowsTree git revision tree)
    {path : RepoPath} (hplain : needsQuotes false path.bytes = false) {content : Option Text}
    (hcontent : tree path.bytes = some content) {text : Text} :
    readTextAtRef git revision (spelled path.bytes) = .ok text ↔ content = some text := by
  have hfile : git.showFile revision (spelled path.bytes) = .ok content :=
    hshows _ _ (by rw [CQuote.encode_spelled hplain]; exact hcontent)
  rw [readTextAtRef, (normal_of_plain hplain).validate]
  simp only [bind, Except.bind, hfile]
  cases content <;> simp

/-- The units that are read of a file that stays are those that it has in its tree. -/
theorem unitsAt_of_parses {revision : Text} {tree : Tree} (hshows : ShowsTree git revision tree)
    {path : RepoPath} (hplain : needsQuotes false path.bytes = false) (hmem : tree path.bytes ≠ none)
    {language : Language} (hselected : selectedLanguage (spelled path.bytes) = some language)
    {text : Text} (hread : readTextAtRef git revision (spelled path.bytes) = .ok text)
    {units : List StructuralUnit}
    (hunits : extractUnits frontend language (spelled path.bytes) text = .ok units) :
    UnitsAt frontend tree path language units := by
  obtain ⟨content, hcontent⟩ := Option.ne_none_iff_exists'.mp hmem
  obtain rfl := (readTextAtRef_of_plain hshows hplain hcontent).mp hread
  exact ⟨hselected, text, hcontent, hunits⟩

theorem HasUnit.of_same_content {path : RepoPath} {identity : Text}
    (hunit : HasUnit frontend base path identity) (hsame : head path.bytes = base path.bytes) :
    HasUnit frontend head path identity := by
  obtain ⟨language, units, ⟨hselected, text, htext, hunits⟩, hidentity⟩ := hunit
  exact ⟨language, units, ⟨hselected, text, hsame.trans htext, hunits⟩, hidentity⟩

theorem HasUnit.mem {path : RepoPath} {identity : Text} (hunit : HasUnit frontend base path identity) :
    base path.bytes ≠ none := by
  obtain ⟨language, units, ⟨-, text, htext, -⟩, -⟩ := hunit
  rw [htext]
  exact Option.some_ne_none _

theorem UnitsAt.unique {path : RepoPath} {language language' : Language}
    {units units' : List StructuralUnit} (hunits : UnitsAt frontend base path language units)
    (hunits' : UnitsAt frontend base path language' units') : language = language' ∧ units = units' := by
  obtain ⟨hselected, text, htext, hextract⟩ := hunits
  obtain ⟨hselected', text', htext', hextract'⟩ := hunits'
  obtain rfl := Option.some.inj (hselected.symm.trans hselected')
  obtain rfl := Option.some.inj (Option.some.inj (htext.symm.trans htext'))
  exact ⟨rfl, Except.ok.inj (hextract.symm.trans hextract')⟩

theorem oldPath_record {change : TreeChange} {path : RepoPath} (hold : change.oldPath = some path) :
    change.record.oldPath = some (render false path.bytes) := by
  rw [TreeChange.record, hold]
  rfl

/-- A change whose file stays is selected, in the language of the file. -/
theorem language_of_stays {change : TreeChange} {path : RepoPath} (hold : change.oldPath = some path)
    (hstays : Stays change path) :
    change.record.language = selectedLanguage (spelled path.bytes) := by
  obtain ⟨hplain, hnew⟩ := hstays
  rw [language_record, TreeChange.selectedPath]
  cases hpath : change.newPath with
  | none => rw [Option.none_or, hold, Option.bind_some, CQuote.render_of_plain hplain]
  | some path' =>
      obtain ⟨hplain', hselected⟩ := hnew path' hpath
      rw [Option.some_or, Option.bind_some, CQuote.render_of_plain hplain', hselected]

theorem stays_of_reported {reported : List StructuralChange} {path : RepoPath} {identity : Text}
    (hdescribes : Describes base head changes)
    (hreported : Reported frontend git baseSha headSha changes base reported path identity)
    {change : TreeChange} (hchange : change ∈ changes) (hold : change.oldPath = some path) :
    Stays change path := by
  obtain ⟨change', hchange', hold', delta, found, hread, hown, hfound, report, hreport, -, language, units,
    hunits, unit, hunit, -, hshows⟩ := hreported
  obtain rfl := hdescribes.old_unique change hchange change' hchange' path hold hold'
  obtain ⟨hlanguage, -, holdPath, -, -, -⟩ := readDelta_eq_some_iff.mp hread
  have hplain : needsQuotes false path.bytes = false := by
    rw [holdPath, oldPath_record hold, Option.some.injEq] at hown
    exact CQuote.render_eq_spelled_iff.mp hown
  obtain ⟨oldUnits, newUnits, holdUnits, hnewUnits, rfl⟩ := deltaChanges_eq_ok hfound
  have hlanguages : ∀ {path : Option Text} {text : Option Text} {units : List StructuralUnit},
      extractSide frontend delta.language path delta.displayPath text = .ok units →
        ∀ unit ∈ units, unit.language = delta.language := by
    intro path text units hside
    cases text with
    | none =>
        obtain rfl := Except.ok.inj hside
        exact fun unit hunit => absurd hunit List.not_mem_nil
    | some source => exact language_extractUnits hside
  have hsame : delta.language = language := by
    obtain ⟨text, -, hextract⟩ := hunits.parsed
    rw [← language_diffUnits (hlanguages holdUnits) (hlanguages hnewUnits) report hreport,
      hshows.language, language_extractUnits hextract unit hunit]
  refine ⟨hplain, fun path' hpath' => ?_⟩
  have hselectedPath : change.selectedPath = some path' := by
    rw [TreeChange.selectedPath, show change.newPath = some path' from hpath']
    rfl
  rw [language_record, hselectedPath, Option.bind_some] at hlanguage
  have hplain' : needsQuotes false path'.bytes = false := by
    cases hquotes : needsQuotes false path'.bytes with
    | false => rfl
    | true =>
        rw [selectedLanguage_of_quoted hquotes] at hlanguage
        cases hlanguage
  rw [CQuote.render_of_plain hplain'] at hlanguage
  exact ⟨hplain', by rw [hlanguage, hunits.selected, hsame]⟩

theorem reported_of_stays (hbase : ShowsTree git baseSha base) (hhead : ShowsTree git headSha head)
    (hdescribes : Describes base head changes) {deltas : List SourceFileDelta}
    {reported : List StructuralChange}
    (hdeltas : discoverSourceDeltas git baseSha headSha (nameStatusOutput changes) = .ok deltas)
    (hreported : extractStructuralChanges frontend deltas = .ok reported) {path : RepoPath}
    {identity : Text} (hremoved : Removed frontend base head path identity)
    (hstays : ∀ change ∈ changes, change.oldPath = some path → Stays change path) :
    Reported frontend git baseSha headSha changes base reported path identity := by
  obtain ⟨language, units, hunits, hidentity⟩ := hremoved.present
  -- the file has changed, as its unit would still be there otherwise
  obtain ⟨change, hchange, hold⟩ := hdescribes.old_changed path hremoved.present.mem fun hsame =>
    hremoved.gone path (hremoved.present.of_same_content hsame)
  have hstay := hstays change hchange hold
  have hlanguage := (language_of_stays hold hstay).trans hunits.selected
  obtain ⟨all, hall, rfl⟩ := discover_eq_ok_iff.mp hdeltas
  obtain ⟨result, hresult, hread⟩ := Outcome.mem_mapM hall hchange
  cases result with
  | none =>
      rw [language_of_readDelta_none hread] at hlanguage
      cases hlanguage
  | some delta =>
      have hmem : delta ∈ all.reduceOption := List.reduceOption_mem_iff.mpr hresult
      obtain ⟨found, hfound⟩ := exists_extract_iff.mp ⟨reported, hreported⟩ delta hmem
      obtain ⟨hsame, -, holdPath, hnewPath, holdText, hnewText⟩ := readDelta_eq_some_iff.mp hread
      have hlang : delta.language = language := Option.some.inj (hsame.symm.trans hlanguage)
      obtain ⟨oldUnits, newUnits, holdUnits, hnewUnits, hdiff⟩ := deltaChanges_eq_ok hfound
      have hownPath : change.record.oldPath = some (spelled path.bytes) := by
        rw [oldPath_record hold, CQuote.render_of_plain hstay.1]
      rw [hownPath] at holdText
      rw [holdPath, hownPath, hlang] at holdUnits
      have hne : spelled path.bytes ≠ [] := (normal_of_plain hstay.1).ne_nil
      obtain ⟨source, hsource, hextract⟩ := (extractSide_read hne holdText).mp holdUnits
      obtain ⟨-, rfl⟩ := hunits.unique
        (unitsAt_of_parses hbase hstay.1 hremoved.present.mem hunits.selected hsource hextract)
      have hgone : identity ∉ newUnits.map StructuralUnit.identity := by
        intro hidentity'
        cases hpath : change.newPath with
        | none =>
            have hnone : change.record.newPath = none := by rw [TreeChange.record, hpath]; rfl
            rw [hnone] at hnewPath hnewText
            rw [hnewPath, ← Except.ok.inj hnewText] at hnewUnits
            rw [← Except.ok.inj hnewUnits] at hidentity'
            cases hidentity'
        | some path' =>
            obtain ⟨hplain', hselected'⟩ := hstay.2 path' hpath
            have hsome : change.record.newPath = some (spelled path'.bytes) := by
              rw [TreeChange.record, hpath, Option.map_some, CQuote.render_of_plain hplain']
            rw [hsome] at hnewText
            rw [hnewPath, hsome, hlang] at hnewUnits
            have hne' : spelled path'.bytes ≠ [] := (normal_of_plain hplain').ne_nil
            obtain ⟨source', hsource', hextract'⟩ := (extractSide_read hne' hnewText).mp hnewUnits
            exact hremoved.gone path' ⟨language, newUnits,
              unitsAt_of_parses hhead hplain' (hdescribes.new_mem change hchange path' hpath)
                (hselected'.trans hunits.selected) hsource' hextract', hidentity'⟩
      have hremoval : ∃ report ∈ diffUnits frontend delta units newUnits, ∃ unit ∈ units,
          unit.identity = identity ∧ Shows report unit := exists_removal hidentity hgone
      obtain ⟨report, hreport, unit, hunit, hunitIdentity, hshows⟩ := hremoval
      have hfoundReport : report ∈ found := hdiff ▸ hreport
      exact ⟨change, hchange, hold, delta, found, hread, holdPath.trans hownPath, hfound, report,
        hfoundReport, mem_extract hreported hmem hfound report hfoundReport, language, units, hunits,
        unit, hunit, hunitIdentity, hshows⟩

/-- All removed units are reported exactly if all files that are read can be, and each file with a
removed unit stays a source of its language, if it stays at all. -/
theorem removalsReported_iff (hbase : ShowsTree git baseSha base) (hhead : ShowsTree git headSha head)
    (hdescribes : Describes base head changes) :
    RemovalsReported frontend git baseSha headSha changes base head ↔
      (∀ change ∈ changes, Analyzable frontend git baseSha headSha change) ∧
        ∀ path identity, Removed frontend base head path identity →
          ∀ change ∈ changes, change.oldPath = some path → Stays change path := by
  constructor
  · rintro ⟨deltas, reported, hdeltas, hreported, hall⟩
    exact ⟨analysis_iff.mp ⟨deltas, reported, hdeltas, hreported⟩, fun path identity hremoved change
      hchange hold => stays_of_reported hdescribes (hall path identity hremoved) hchange hold⟩
  · rintro ⟨hanalyzable, hstays⟩
    obtain ⟨deltas, reported, hdeltas, hreported⟩ := analysis_iff.mpr hanalyzable
    exact ⟨deltas, reported, hdeltas, hreported, fun path identity hremoved =>
      reported_of_stays hbase hhead hdescribes hdeltas hreported hremoved (hstays path identity hremoved)⟩

end Trees

end Analysis

/-! ### Files that move -/

section Moves

def singleTree (path : RepoPath) (text : String) : Tree :=
  fun bytes => if bytes = path.bytes then some (some text.toList) else none

/-- Git over two trees, the first of which is that of the revision `base`. -/
def treeGit (base head : Tree) : Git where
  showFile revision path :=
    match (if revision = "base".toList then base else head) (encode path) with
    | some content => .ok content
    | none => .error "fatal: path does not exist".toList
  repr text := text

theorem showsTree_base (base head : Tree) : ShowsTree (treeGit base head) "base".toList base := by
  intro path content hcontent
  simp only [treeGit, if_pos, hcontent]

theorem showsTree_head (base head : Tree) : ShowsTree (treeGit base head) "head".toList head := by
  intro path content hcontent
  have hrevision : "head".toList ≠ "base".toList := by decide
  simp only [treeGit, if_neg hrevision, hcontent]

theorem RepoPath.eq_of_bytes {path path' : RepoPath} (hbytes : path.bytes = path'.bytes) :
    path = path' := by
  cases path
  cases path'
  obtain rfl : _ = _ := hbytes
  rfl

theorem singleTree_ne_none_iff {path path' : RepoPath} {text : String} :
    singleTree path text path'.bytes ≠ none ↔ path' = path := by
  rw [singleTree]
  split
  · rename_i hbytes
    exact iff_of_true (Option.some_ne_none _) (RepoPath.eq_of_bytes hbytes)
  · rename_i hbytes
    exact iff_of_false (by simp) fun heq => hbytes (heq ▸ rfl)

theorem describes_rename (score : Fin 101) (old new : RepoPath) (text text' : String) :
    Describes (singleTree old text) (singleTree new text') [.renamed score old new] where
  old_mem change hchange path hpath := by
    obtain rfl := List.mem_singleton.mp hchange
    exact singleTree_ne_none_iff.mpr (Option.some.inj hpath).symm
  new_mem change hchange path hpath := by
    obtain rfl := List.mem_singleton.mp hchange
    exact singleTree_ne_none_iff.mpr (Option.some.inj hpath).symm
  old_unique change hchange change' hchange' _ _ _ :=
    (List.mem_singleton.mp hchange).trans (List.mem_singleton.mp hchange').symm
  old_changed path hpath _ :=
    ⟨_, List.mem_singleton_self _, by rw [singleTree_ne_none_iff.mp hpath]; rfl⟩
  new_changed path hpath _ :=
    ⟨_, List.mem_singleton_self _, by rw [singleTree_ne_none_iff.mp hpath]; rfl⟩

def sizeSource : String := "def size(): ...\n"

def functionNamed (name : String) (lineno : Nat) : PyStmt :=
  .functionDef {
    isAsync := false
    name := name.toList
    args := .other [] []
    returns := none
    decoratorList := []
    docstring := none
    lineno := lineno
    endLineno := lineno }

def sizeModule : List PyStmt := [functionNamed "size" 1]

def sizeFrontend : Frontend where
  parse _ source :=
    if source = sizeSource.toList then .ok sizeModule
    else .error (.syntaxError 1 "invalid syntax".toList)
  unparse _ := .ok []
  lower text := text.map Char.toLower
  isUpper text := text.any Char.isUpper && !text.any Char.isLower
  sha256 text := text
  goUnits _ _ := .ok []
  composeUnits _ _ := .ok []
  goUnits_language := language_of_none .go
  composeUnits_language := language_of_none .compose

def cachePath : RepoPath := trackedPath "app/cache.py" (by decide) (by decide) (by decide)

def testPath : RepoPath := trackedPath "tests/cache.py" (by decide) (by decide) (by decide)

def notesPath : RepoPath := trackedPath "docs/notes.txt" (by decide) (by decide) (by decide)

def unitsOf (frontend : Frontend) (path : RepoPath) (source : String) : List StructuralUnit :=
  match extractUnits frontend .python (spelled path.bytes) source.toList with
  | .ok units => units
  | .error _ => []

def sizeUnits : List StructuralUnit := unitsOf sizeFrontend cachePath sizeSource

theorem unitsAt_cachePath :
    UnitsAt sizeFrontend (singleTree cachePath sizeSource) cachePath .python sizeUnits where
  selected := by decide +kernel
  parsed := ⟨sizeSource.toList, by decide +kernel, by decide +kernel⟩

theorem removed_size {head : Tree} (hgone : ∀ path', ¬ HasUnit sizeFrontend head path' "python_function:size".toList) :
    Removed sizeFrontend (singleTree cachePath sizeSource) head cachePath "python_function:size".toList where
  present := ⟨.python, sizeUnits, unitsAt_cachePath, by decide +kernel⟩
  gone := hgone

/-! A file is deleted, another moves on without one of its functions, and a text is new. -/

def pairTree (first second : RepoPath) (text text' : String) : Tree :=
  fun bytes => if bytes = first.bytes then some (some text.toList) else singleTree second text' bytes

theorem pairTree_ne_none_iff {first second path : RepoPath} {text text' : String} :
    pairTree first second text text' path.bytes ≠ none ↔ path = first ∨ path = second := by
  rw [pairTree]
  split
  · rename_i hbytes
    exact iff_of_true (Option.some_ne_none _) (.inl (RepoPath.eq_of_bytes hbytes))
  · rename_i hbytes
    rw [singleTree_ne_none_iff]
    have hne : path ≠ first := fun heq => hbytes (congrArg RepoPath.bytes heq)
    exact (or_iff_right hne).symm

def storeSource : String := "def load(): ...\ndef save(): ...\n"

def shelfSource : String := "def load(): ...\n"

def storeFrontend : Frontend :=
  { sizeFrontend with
    parse := fun path source =>
      if source = storeSource.toList then .ok [functionNamed "load" 1, functionNamed "save" 2]
      else if source = shelfSource.toList then .ok [functionNamed "load" 1]
      else sizeFrontend.parse path source }

def storePath : RepoPath := trackedPath "app/store.py" (by decide) (by decide) (by decide)

def shelfPath : RepoPath := trackedPath "app/shelf.py" (by decide) (by decide) (by decide)

def storeUnits : List StructuralUnit := unitsOf storeFrontend storePath storeSource

def shelfUnits : List StructuralUnit := unitsOf storeFrontend shelfPath shelfSource

def storeBase : Tree := pairTree cachePath storePath sizeSource storeSource

def storeHead : Tree := pairTree shelfPath notesPath shelfSource "Sizes of the cache."

def storeGit : Git := treeGit storeBase storeHead

def storeChanges : List TreeChange :=
  [.deleted cachePath, .renamed 60 storePath shelfPath, .added notesPath]

theorem mem_storeChanges {change : TreeChange} (hchange : change ∈ storeChanges) :
    change = .deleted cachePath ∨ change = .renamed 60 storePath shelfPath ∨ change = .added notesPath := by
  simpa [storeChanges] using hchange

theorem describes_storeChanges : Describes storeBase storeHead storeChanges where
  old_mem change hchange path hpath := by
    apply pairTree_ne_none_iff.mpr
    obtain rfl | rfl | rfl := mem_storeChanges hchange
    · exact .inl (Option.some.inj hpath).symm
    · exact .inr (Option.some.inj hpath).symm
    · cases hpath
  new_mem change hchange path hpath := by
    apply pairTree_ne_none_iff.mpr
    obtain rfl | rfl | rfl := mem_storeChanges hchange
    · cases hpath
    · exact .inl (Option.some.inj hpath).symm
    · exact .inr (Option.some.inj hpath).symm
  old_unique change hchange change' hchange' path hold hold' := by
    have hne : cachePath.bytes ≠ storePath.bytes := by decide
    obtain rfl | rfl | rfl := mem_storeChanges hchange
    · obtain rfl | rfl | rfl := mem_storeChanges hchange'
      · rfl
      · exact absurd (congrArg RepoPath.bytes (Option.some.inj (hold.trans hold'.symm))) hne
      · cases hold'
    · obtain rfl | rfl | rfl := mem_storeChanges hchange'
      · exact absurd (congrArg RepoPath.bytes (Option.some.inj (hold'.trans hold.symm))) hne
      · rfl
      · cases hold'
    · cases hold
  old_changed path hpath _ := by
    obtain rfl | rfl := pairTree_ne_none_iff.mp hpath
    · exact ⟨.deleted cachePath, by simp [storeChanges], rfl⟩
    · exact ⟨.renamed 60 storePath shelfPath, by simp [storeChanges], rfl⟩
  new_changed path hpath _ := by
    obtain rfl | rfl := pairTree_ne_none_iff.mp hpath
    · exact ⟨.renamed 60 storePath shelfPath, by simp [storeChanges], rfl⟩
    · exact ⟨.added notesPath, by simp [storeChanges], rfl⟩

theorem not_hasUnit_storeHead {identity : Text} (hlost : identity ∉ shelfUnits.map StructuralUnit.identity)
    (path : RepoPath) : ¬ HasUnit storeFrontend storeHead path identity := by
  intro hunit
  have hmem := hunit.mem
  obtain ⟨language, units, hunits, hidentity⟩ := hunit
  obtain rfl | rfl := pairTree_ne_none_iff.mp hmem
  · have hshelf : UnitsAt storeFrontend storeHead shelfPath .python shelfUnits :=
      ⟨by decide +kernel, shelfSource.toList, by decide +kernel, by decide +kernel⟩
    obtain ⟨-, rfl⟩ := hunits.unique hshelf
    exact hlost hidentity
  · have hselected : selectedLanguage (spelled notesPath.bytes) = none := by decide +kernel
    rw [hunits.selected] at hselected
    cases hselected

/-- The function of the file that is deleted is reported, and so is the one that got lost on the way. -/
theorem removalsReported_of_mixed :
    Removed storeFrontend storeBase storeHead cachePath "python_function:size".toList ∧
      Removed storeFrontend storeBase storeHead storePath "python_function:save".toList ∧
      RemovalsReported storeFrontend storeGit "base".toList "head".toList storeChanges storeBase
        storeHead := by
  have hcache : UnitsAt storeFrontend storeBase cachePath .python sizeUnits :=
    ⟨by decide +kernel, sizeSource.toList, by decide +kernel, by decide +kernel⟩
  have hstore : UnitsAt storeFrontend storeBase storePath .python storeUnits :=
    ⟨by decide +kernel, storeSource.toList, by decide +kernel, by decide +kernel⟩
  refine ⟨⟨⟨_, _, hcache, by decide +kernel⟩, not_hasUnit_storeHead (by decide +kernel)⟩,
    ⟨⟨_, _, hstore, by decide +kernel⟩, not_hasUnit_storeHead (by decide +kernel)⟩, ?_⟩
  refine (removalsReported_iff (showsTree_base _ _) (showsTree_head _ _) describes_storeChanges).mpr ⟨?_, ?_⟩
  · intro change hchange language hlanguage
    obtain rfl | rfl | rfl := mem_storeChanges hchange
    · have hpython : (TreeChange.deleted cachePath).record.language = some .python := by decide +kernel
      obtain rfl := Option.some.inj (hpython.symm.trans hlanguage)
      refine ⟨fun path hpath => ?_, fun path hpath => by cases hpath⟩
      obtain rfl := Option.some.inj hpath
      exact ⟨sizeSource.toList, sizeUnits, by decide +kernel, by decide +kernel⟩
    · have hpython : (TreeChange.renamed 60 storePath shelfPath).record.language = some .python := by
        decide +kernel
      obtain rfl := Option.some.inj (hpython.symm.trans hlanguage)
      refine ⟨fun path hpath => ?_, fun path hpath => ?_⟩
      · obtain rfl := Option.some.inj hpath
        exact ⟨storeSource.toList, storeUnits, by decide +kernel, by decide +kernel⟩
      · obtain rfl := Option.some.inj hpath
        exact ⟨shelfSource.toList, shelfUnits, by decide +kernel, by decide +kernel⟩
    · have hnone : (TreeChange.added notesPath).record.language = none := by decide +kernel
      rw [hnone] at hlanguage
      cases hlanguage
  · intro path identity hremoved change hchange hold
    obtain rfl | rfl | rfl := mem_storeChanges hchange
    · obtain rfl := Option.some.inj hold
      exact ⟨by decide +kernel, fun path' hpath' => by cases hpath'⟩
    · obtain rfl := Option.some.inj hold
      refine ⟨by decide +kernel, fun path' hpath' => ?_⟩
      obtain rfl := Option.some.inj hpath'
      exact ⟨by decide +kernel, by decide +kernel⟩
    · cases hold

theorem not_hasUnit_testPath {identity : Text} (path : RepoPath) :
    ¬ HasUnit sizeFrontend (singleTree testPath sizeSource) path identity := by
  intro hunit
  obtain rfl := singleTree_ne_none_iff.mp hunit.mem
  obtain ⟨language, units, ⟨hselected, -⟩, -⟩ := hunit
  have hexcluded : selectedLanguage (spelled testPath.bytes) = none := by decide +kernel
  rw [hexcluded] at hselected
  cases hselected

/-- A source that becomes a test takes its function with it without a word, and a text that becomes a
source ends the analysis, as the text is read as a source too. -/
theorem not_removalsReported_of_moves :
    (discoverSourceDeltas (treeGit (singleTree cachePath sizeSource) (singleTree testPath sizeSource))
        "base".toList "head".toList (nameStatusOutput [.renamed 100 cachePath testPath]) = .ok [] ∧
      Describes (singleTree cachePath sizeSource) (singleTree testPath sizeSource)
        [.renamed 100 cachePath testPath] ∧
      ¬ RemovalsReported sizeFrontend
        (treeGit (singleTree cachePath sizeSource) (singleTree testPath sizeSource)) "base".toList
        "head".toList [.renamed 100 cachePath testPath] (singleTree cachePath sizeSource)
        (singleTree testPath sizeSource)) ∧
    Describes (singleTree notesPath "Sizes of the cache.") (singleTree cachePath sizeSource)
      [.renamed 50 notesPath cachePath] ∧
    ¬ RemovalsReported sizeFrontend
      (treeGit (singleTree notesPath "Sizes of the cache.") (singleTree cachePath sizeSource)) "base".toList
      "head".toList [.renamed 50 notesPath cachePath] (singleTree notesPath "Sizes of the cache.")
      (singleTree cachePath sizeSource) := by
  refine ⟨⟨by decide +kernel, describes_rename 100 cachePath testPath _ _, ?_⟩,
    describes_rename 50 notesPath cachePath _ _, ?_⟩
  · rintro ⟨deltas, reported, -, -, hall⟩
    have hstays := stays_of_reported (describes_rename 100 cachePath testPath sizeSource sizeSource)
      (hall cachePath _ (removed_size not_hasUnit_testPath)) (List.mem_singleton_self _) rfl
    exact absurd (hstays.2 testPath rfl).2 (by decide +kernel)
  · rintro ⟨deltas, reported, hdeltas, hreported, -⟩
    have hanalyzable := analysis_iff.mp ⟨deltas, reported, hdeltas, hreported⟩ _
      (List.mem_singleton_self _) .python (by decide +kernel)
    obtain ⟨text, units, hread, hunits⟩ := hanalyzable.1 (render false notesPath.bytes) rfl
    have hnotes : readTextAtRef
        (treeGit (singleTree notesPath "Sizes of the cache.") (singleTree cachePath sizeSource))
        "base".toList (render false notesPath.bytes) = .ok "Sizes of the cache.".toList := by
      decide +kernel
    obtain rfl := Except.ok.inj (hnotes.symm.trans hread)
    have hfails : extractUnits sizeFrontend .python (render false notesPath.bytes)
        "Sizes of the cache.".toList ≠ .ok units := by
      rw [extractUnits, foundUnits]
      have hparse : sizeFrontend.parse (render false notesPath.bytes) "Sizes of the cache.".toList =
          .error (.syntaxError 1 "invalid syntax".toList) := rfl
      rw [hparse]
      simp
    exact hfails hunits

end Moves

end CoreMesh.SelfHealingDocs
