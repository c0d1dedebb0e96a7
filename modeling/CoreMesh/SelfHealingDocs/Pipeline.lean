import CoreMesh.SelfHealingDocs.Gitops
import CoreMesh.SelfHealingDocs.Retrieval

/-!
# The healing pipeline

`self_healing_docs/pipeline.py`: one run over the changes between two revisions, from their retrieval to
the writing of the repairs. A provider of judgments may answer as it likes: what it says is a function of
all that it has been asked before. A run that is interrupted by an exception keeps its report and the files
as they are.
-/

namespace CoreMesh.SelfHealingDocs

open CQuote (Bytes)

/-! ### Judgments -/

inductive Complexity where
  | bounded
  | complex
  deriving DecidableEq, Repr

structure StalenessAssessment (K : Type) where
  stale : Bool
  confidence : K
  complexity : Complexity
  diagnosis : Text
  affectedFacts : List Text

structure RepairProposal where
  replacementBody : Text
  rationale : Text

structure RepairValidation (K : Type) where
  accurate : Bool
  preservesUnaffectedContent : Bool
  styleConsistent : Bool
  noUnverifiedClaims : Bool
  confidence : K
  issues : List Text

def RepairValidation.approved {K : Type} (validation : RepairValidation K) : Bool :=
  validation.accurate && validation.preservesUnaffectedContent && validation.styleConsistent &&
    validation.noUnverifiedClaims && validation.issues = []

/-- A call of the provider, with its answer. -/
inductive Call (K : Type) where
  | assess (changes : List StructuralChange) (docSection : DocSection) (answer : StalenessAssessment K)
  | propose (changes : List StructuralChange) (docSection : DocSection)
      (assessment : StalenessAssessment K) (neighboringStyle : Text) (answer : RepairProposal)
  | validate (changes : List StructuralChange) (docSection : DocSection)
      (assessment : StalenessAssessment K) (proposal : RepairProposal) (neighboringStyle : Text)
      (answer : RepairValidation K)

/-- The answers to a call behind all earlier calls. -/
structure DocRepairProvider (K : Type) where
  assess : List (Call K) → List StructuralChange → DocSection → Except Raised (StalenessAssessment K)
  propose : List (Call K) → List StructuralChange → DocSection → StalenessAssessment K → Text →
    Except Raised RepairProposal
  validate : List (Call K) → List StructuralChange → DocSection → StalenessAssessment K →
    RepairProposal → Text → Except Raised (RepairValidation K)

abbrev EmbeddingProvider (K : Type) := List Text → Except Raised (List (List K))

/-! ### The report -/

inductive ReviewItem (K : Type) where
  | ofChange (changeId path symbol reason : Text)
  | ofSection (path : String) (heading : Text) (sectionId : String) (changeIds : List Text)
      (reason : Text) (assessmentConfidence validationConfidence : Option K)

def ReviewItem.changeIds {K : Type} : ReviewItem K → List Text
  | .ofChange changeId _ _ _ => [changeId]
  | .ofSection _ _ _ changeIds _ _ _ => changeIds

/-- The output of a stage. -/
inductive Output (K : Type) where
  | stalenessAssessment (assessment : StalenessAssessment K)
  | targetedRewrite (proposal : RepairProposal)
  | correctionValidation (validation : RepairValidation K)

structure DecisionRecord (K : Type) where
  path : String
  heading : Text
  sectionId : String
  changeIds : List Text
  output : Output K

structure VerifiedSection (K : Type) where
  path : String
  heading : Text
  changeIds : List Text
  confidence : K
  diagnosis : Text

inductive Disposition where
  | apply
  | wouldApply
  | review
  deriving DecidableEq, Repr

structure ProposedRepair (K : Type) where
  path : String
  heading : Text
  sectionId : String
  changeIds : List Text
  assessmentConfidence : K
  validationConfidence : K
  diagnosis : Text
  rationale : Text
  replacementBody : Text
  autoFixEligible : Bool
  validation : RepairValidation K
  disposition : Disposition

structure AppliedRepair (K : Type) where
  path : String
  heading : Text
  sectionId : String
  changeIds : List Text
  assessmentConfidence : K
  validationConfidence : K
  diagnosis : Text
  rationale : Text

inductive Status where
  | running
  | noStructuralChanges
  | repairedWithReview
  | repaired
  | reviewRequired
  | dryRun
  | accurate
  | noDocumentationImpact
  deriving DecidableEq, Repr

structure RunReport (K : Type) where
  structuralChanges : List StructuralChange := []
  candidateMappings : List (CandidateMatch K) := []
  llmDecisions : List (DecisionRecord K) := []
  verifiedSections : List (VerifiedSection K) := []
  proposedRepairs : List (ProposedRepair K) := []
  appliedRepairs : List (AppliedRepair K) := []
  reviewItems : List (ReviewItem K) := []
  changedMarkdownPaths : List Text := []
  status : Status := .running

/-- A replacement that waits, with what is reported of it. -/
structure PendingRepair (K : Type) extends PendingReplacement where
  changeIds : List Text
  assessmentConfidence : K
  validationConfidence : K
  diagnosis : Text

structure HealingConfig (K : Type) where
  apply : Bool
  similarityThreshold : K
  confidenceThreshold : K
  topK : Int
  maxCandidates : Int
  maxSectionChars : Nat

/-! ### Runs -/

/-- The report as it stands, what the provider has been asked, and the files. -/
structure Run (K : Type) where
  report : RunReport K
  history : List (Call K)
  files : String → Text

structure Interrupted (K : Type) where
  raised : Raised
  run : Run K

/-- An exception interrupts the run. -/
def Run.raises {K α : Type} (run : Run K) (outcome : Except Raised α) : Except (Interrupted K) α :=
  outcome.mapError fun raised => ⟨raised, run⟩

/-- The run in the middle of the loop over sections. -/
structure Loop (K : Type) where
  run : Run K
  pending : List (PendingRepair K)
  pendingReportRecords : List (ProposedRepair K)

section Reports

variable {K : Type}

def Run.addReviews (run : Run K) (items : List (ReviewItem K)) : Run K :=
  { run with report := { run.report with reviewItems := run.report.reviewItems ++ items } }

def Loop.addReview (loop : Loop K) (item : ReviewItem K) : Loop K :=
  { loop with run := loop.run.addReviews [item] }

def Loop.addVerified (loop : Loop K) (verified : VerifiedSection K) : Loop K :=
  let report := loop.run.report
  { loop with run :=
    { loop.run with report := { report with verifiedSections := report.verifiedSections ++ [verified] } } }

def Loop.addProposed (loop : Loop K) (repair : ProposedRepair K) : Loop K :=
  let report := loop.run.report
  { loop with run :=
    { loop.run with report := { report with proposedRepairs := report.proposedRepairs ++ [repair] } } }

def decisionRecord (s : DocSection) (changes : List StructuralChange) (output : Output K) :
    DecisionRecord K :=
  ⟨s.path, s.label, s.sectionId, changes.map StructuralChange.changeId, output⟩

/-- A call has been answered. -/
def Loop.record (loop : Loop K) (call : Call K) (decision : DecisionRecord K) : Loop K :=
  { loop with
    run :=
      { loop.run with
        report := { loop.run.report with llmDecisions := loop.run.report.llmDecisions ++ [decision] }
        history := loop.run.history ++ [call] } }

def reviewForChange (change : StructuralChange) (reason : String) : ReviewItem K :=
  .ofChange change.changeId change.path change.name reason.toList

def reviewForSection (s : DocSection) (changes : List StructuralChange) (reason : Text)
    (assessmentConfidence validationConfidence : Option K) : ReviewItem K :=
  .ofSection s.path s.label s.sectionId (changes.map StructuralChange.changeId) reason
    assessmentConfidence validationConfidence

def successStatus (report : RunReport K) (apply : Bool) : Status :=
  if report.appliedRepairs.length ≠ 0 ∧ report.reviewItems.length ≠ 0 then .repairedWithReview
  else if report.appliedRepairs.length ≠ 0 then .repaired
  else if report.reviewItems.length ≠ 0 then .reviewRequired
  else if report.proposedRepairs.length ≠ 0 ∧ !apply then .dryRun
  else if report.verifiedSections.length ≠ 0 then .accurate
  else .noDocumentationImpact

/-- `_ineligibility_reason`. -/
def ineligibilityReason (python : Python K) (changes : List StructuralChange)
    (assessment : StalenessAssessment K) (validation : RepairValidation K) (confidenceThreshold : K) :
    Text :=
  let below (what : String) (confidence : K) : List Text :=
    if python.lt confidence confidenceThreshold then
      [what.toList ++ " confidence ".toList ++ python.format2 confidence ++ " is below ".toList ++
        python.format2 confidenceThreshold]
    else []
  let reasons : List Text :=
    (if changes.all StructuralChange.autoFixEligible then []
      else ["one or more changes are added, removed, or structurally complex".toList]) ++
    (if assessment.complexity = .bounded then []
      else ["the staleness assessment classified the repair as complex".toList]) ++
    below "assessment" assessment.confidence ++
    (if validation.approved then []
      else ["the independent validation dimensions did not all pass".toList]) ++
    below "validation" validation.confidence ++
    if validation.issues = [] then [] else ["validation issues: ".toList ++ joinWith "; " validation.issues]
  if reasons = [] then "repair did not meet the auto-fix policy".toList else joinWith "; " reasons

end Reports

/-! ### The corpus -/

deriving instance DecidableEq for MarkdownDocument

/-- What a run finds in its repository: the output of Git, and how paths and bytes stand in the file
system. The status of the worktree depends on what the files are. -/
structure Repository where
  git : Git
  frontend : Frontend
  base : Text
  head : Text
  nameStatus : Except Error Text
  checkout : Checkout
  lsFiles : Except Error (List Bytes)
  safeMarkdownPath : String → Except Error String
  isUtf8 : String → Bool
  porcelain : (String → Text) → Except Error Text
  diff : (String → Text) → List Text → Except Error Text

def Error.raised : Error → Raised
  | .markdownSafety message => ⟨"MarkdownSafetyError", message.toList⟩
  | .git message => ⟨"GitError", message.toList⟩

def ExtractError.raised : ExtractError → Raised
  | .structuralParseError message => ⟨"StructuralParseError", message⟩
  | .exception message => ⟨"Exception", message⟩

/-- The changes between the two revisions. -/
def Repository.changes (repo : Repository) : Except Raised (List StructuralChange) := do
  let output ← repo.nameStatus.mapError Error.raised
  let deltas ← (discoverSourceDeltas repo.git repo.base repo.head output).mapError Error.raised
  (extractStructuralChanges repo.frontend deltas).mapError ExtractError.raised

/-- `re.IGNORECASE`, as far as the letters of the pattern go. -/
def ignoreCase (c : Char) : Char :=
  if c.toNat = 0x17f then 's' else if c.toNat = 0x212a then 'k' else c.toLower

/-- What `_GENERATED_MARKDOWN_RE` matches, but for a line feed at the end. -/
def generatedMarkdown : List Text :=
  ["analytics-workers/comparison.md", "analytics-workers/report.md", "analytics-workers/smoke-comparison.md",
    "analytics-workers/smoke-report.md"].map String.toList

def storageParts : List Text :=
  [".git", "__pycache__", "artifacts", "env", "node_modules", "vendor", "venv"].map String.toList

def isGeneratedMarkdown (path : Text) : Bool :=
  let normalized := replaceBackslashes path
  (PosixPath.parts normalized).any
      (fun part => storageParts.contains part || ".venv".toList.isPrefixOf part) ||
    generatedMarkdown.any fun name =>
      normalized.map ignoreCase == name || normalized.map ignoreCase == name ++ ['\n']

def newlineOf (text : Text) : Text :=
  if text.tails.any ("\r\n".toList.isPrefixOf ·) then ['\r', '\n'] else ['\n']

/-- A file of the corpus. -/
def Repository.readMarkdown (repo : Repository) (files : String → Text) (relativePath : Text) :
    Except Error MarkdownDocument := do
  let absolute ← repo.safeMarkdownPath (String.ofList relativePath)
  if repo.isUtf8 absolute then
    return ⟨String.ofList relativePath, files absolute, newlineOf (files absolute)⟩
  else .error (.markdownSafety ("tracked Markdown is not UTF-8: " ++ String.ofList relativePath))

/-- The documents of `load_markdown_corpus`. -/
def Repository.documents (repo : Repository) (files : String → Text) :
    Except Error (List MarkdownDocument) := do
  let tracked ← repo.lsFiles
  let paths ← trackedMarkdownPaths repo.git repo.checkout tracked
  (paths.filter fun path => !isGeneratedMarkdown path).mapM (repo.readMarkdown files)

def sectionsOfAll (documents : List MarkdownDocument) : List DocSection :=
  documents.flatMap splitMarkdownDocument

/-- The dictionary of the documents by their paths. -/
def documentAt (documents : List MarkdownDocument) (path : String) : Option MarkdownDocument :=
  OrderedDict.last? MarkdownDocument.path documents path

def neighboringContext (s : DocSection) (allSections : List DocSection) : Text :=
  let sameFile := allSections.filter fun item => item.path == s.path
  match sameFile.findIdx? fun item => item.sectionId == s.sectionId with
  | none => []
  | some index =>
      let piece (front : String) (neighbor : Option DocSection) : List Text :=
        neighbor.toList.map fun item => front.toList ++ item.label ++ '\n' :: item.body.take 1000
      let previous := if index = 0 then none else sameFile[index - 1]?
      (joinWith "\n\n" (piece "Previous — " previous ++ piece "Next — " sameFile[index + 1]?)).take 2000

/-! ### Sections -/

section Sections

variable {K : Type} (python : Python K) (config : HealingConfig K) (repairer : DocRepairProvider K)

/-- A subscript of a dictionary that is built by `changes_by_id`. -/
def changeById (repr : Text → Text) (changes : List StructuralChange) (changeId : Text) :
    Except Raised StructuralChange :=
  match OrderedDict.last? StructuralChange.changeId changes changeId with
  | some change => .ok change
  | none => .error ⟨"KeyError", repr changeId⟩

/-- `_unique_changes` of the candidates for a section. -/
def uniqueChanges (repr : Text → Text) (changes : List StructuralChange)
    (candidates : List (CandidateMatch K)) (sectionId : String) : Except Raised (List StructuralChange) :=
  (((candidates.filter fun m => m.sectionId == sectionId).map CandidateMatch.changeId).dedup.insertionSort
    (· ≤ ·)).mapM (changeById repr changes)

def isEligible (changes : List StructuralChange) (assessment : StalenessAssessment K)
    (validation : RepairValidation K) : Bool :=
  changes.all StructuralChange.autoFixEligible && assessment.complexity = .bounded &&
    python.le config.confidenceThreshold assessment.confidence && validation.approved &&
    python.le config.confidenceThreshold validation.confidence

/-- What is reported of a body that has been validated. -/
def proposedRepair (s : DocSection) (changes : List StructuralChange) (assessment : StalenessAssessment K)
    (proposal : RepairProposal) (normalizedBody : Text) (validation : RepairValidation K) :
    ProposedRepair K :=
  let eligible := isEligible python config changes assessment validation
  { path := s.path
    heading := s.label
    sectionId := s.sectionId
    changeIds := changes.map StructuralChange.changeId
    assessmentConfidence := assessment.confidence
    validationConfidence := validation.confidence
    diagnosis := assessment.diagnosis
    rationale := proposal.rationale
    replacementBody := normalizedBody
    autoFixEligible := eligible
    validation := validation
    disposition := if config.apply && eligible then .apply else if eligible then .wouldApply else .review }

/-- A body that has been validated waits, or is for review. -/
def decideRepair (s : DocSection) (changes : List StructuralChange) (assessment : StalenessAssessment K)
    (proposal : RepairProposal) (normalizedBody : Text) (validation : RepairValidation K) (loop : Loop K) :
    Loop K :=
  let record := proposedRepair python config s changes assessment proposal normalizedBody validation
  let loop := loop.addProposed record
  if isEligible python config changes assessment validation then
    { loop with
      pending := loop.pending ++ [{
        docSection := s
        replacementBody := normalizedBody
        changeIds := changes.map StructuralChange.changeId
        assessmentConfidence := assessment.confidence
        validationConfidence := validation.confidence
        diagnosis := assessment.diagnosis }]
      pendingReportRecords := loop.pendingReportRecords ++ [record] }
  else
    loop.addReview (reviewForSection s changes
      (ineligibilityReason python changes assessment validation config.confidenceThreshold)
      (some assessment.confidence) (some validation.confidence))

/-- The validation of a body that is not the section's own. -/
def validateRepair (allSections : List DocSection) (s : DocSection) (changes : List StructuralChange)
    (assessment : StalenessAssessment K) (proposal : RepairProposal) (normalizedBody : Text)
    (loop : Loop K) : Except (Interrupted K) (Loop K) := do
  let style := neighboringContext s allSections
  let normalized := { proposal with replacementBody := normalizedBody }
  let validation ← loop.run.raises
    (repairer.validate loop.run.history changes s assessment normalized style)
  let loop := loop.record (.validate changes s assessment normalized style validation)
    (decisionRecord s changes (.correctionValidation validation))
  return decideRepair python config s changes assessment proposal normalizedBody validation loop

/-- The rewriting of a section that is stale. -/
def repairSection (allSections : List DocSection) (s : DocSection) (changes : List StructuralChange)
    (assessment : StalenessAssessment K) (loop : Loop K) : Except (Interrupted K) (Loop K) := do
  let style := neighboringContext s allSections
  let proposal ← loop.run.raises (repairer.propose loop.run.history changes s assessment style)
  let loop := loop.record (.propose changes s assessment style proposal)
    (decisionRecord s changes (.targetedRewrite proposal))
  match normalizeReplacementBody s proposal.replacementBody config.maxSectionChars with
  | .error (.git message) => loop.run.raises (.error (Error.git message).raised)
  | .error (.markdownSafety message) =>
      return loop.addReview (reviewForSection s changes
        ("Generated repair failed mechanical validation: " ++ message).toList (some assessment.confidence)
        none)
  | .ok normalizedBody =>
      if normalizedBody = s.body then
        return loop.addReview (reviewForSection s changes
          "Staleness was reported but the generated body is unchanged".toList (some assessment.confidence)
          none)
      else validateRepair python config repairer allSections s changes assessment proposal normalizedBody loop

/-- The judgment of a section. -/
def judgeSection (allSections : List DocSection) (s : DocSection) (changes : List StructuralChange)
    (loop : Loop K) : Except (Interrupted K) (Loop K) := do
  let assessment ← loop.run.raises (repairer.assess loop.run.history changes s)
  let loop := loop.record (.assess changes s assessment)
    (decisionRecord s changes (.stalenessAssessment assessment))
  if assessment.stale then repairSection python config repairer allSections s changes assessment loop
  else
    return loop.addVerified
      ⟨s.path, s.label, changes.map StructuralChange.changeId, assessment.confidence, assessment.diagnosis⟩

/-- The body of the loop over the sections that have candidates. -/
def processSection (repr : Text → Text) (changes : List StructuralChange)
    (candidates : List (CandidateMatch K)) (allSections : List DocSection) (loop : Loop K)
    (sectionId : String) : Except (Interrupted K) (Loop K) :=
  match OrderedDict.last? DocSection.sectionId allSections sectionId with
  | none =>
      loop.run.raises (.error ⟨"RuntimeError", ("retrieval returned unknown section " ++ sectionId).toList⟩)
  | some s => do
      let sectionChanges ← loop.run.raises (uniqueChanges repr changes candidates sectionId)
      if config.maxSectionChars < s.body.length then
        return loop.addReview (reviewForSection s sectionChanges
          ("Section exceeds the " ++ toString config.maxSectionChars ++ "-character model limit").toList
          none none)
      else judgeSection python config repairer allSections s sectionChanges loop

end Sections

/-! ### The run -/

section Execution

variable {K : Type} (python : Python K) (config : HealingConfig K) (repo : Repository)

/-- A review item for a change that the retrieval has nothing for. -/
def reviewUnmatched (change : StructuralChange) : ReviewItem K :=
  reviewForChange change "No Markdown section passed exact-reference or similarity retrieval"

def reportUnmatched (changes : List StructuralChange) (retrieval : RetrievalResult K) (run : Run K) :
    Run K :=
  run.addReviews ((changes.filter fun change =>
    !((retrieval.candidates.map CandidateMatch.changeId).contains change.changeId ||
      retrieval.truncatedChangeIds.contains change.changeId)).map reviewUnmatched)

/-- A review item for a change that the retrieval has left out. -/
def reviewTruncated (change : StructuralChange) : ReviewItem K :=
  reviewForChange change "Candidate processing was truncated by DOC_HEALING_MAX_CANDIDATES"

def reportTruncated (changes : List StructuralChange) (run : Run K) (changeId : Text) :
    Except (Interrupted K) (Run K) := do
  let change ← run.raises (changeById repo.git.repr changes changeId)
  return run.addReviews [reviewTruncated change]

/-- What is reported of a repair in a file that has changed. -/
def appliedRepair (records : List (ProposedRepair K)) (changedPaths : List Text)
    (replacement : PendingRepair K) : Except Raised (Option (AppliedRepair K)) :=
  let s := replacement.docSection
  if !changedPaths.contains s.path.toList then .ok none
  else
    match OrderedDict.last? ProposedRepair.sectionId records s.sectionId with
    | none => .error ⟨"KeyError", repo.git.repr s.sectionId.toList⟩
    | some record =>
        .ok (some ⟨s.path, s.label, s.sectionId, replacement.changeIds, replacement.assessmentConfidence,
          replacement.validationConfidence, replacement.diagnosis, record.rationale⟩)

/-- `markdown_patch`. -/
def Repository.markdownPatch (files : String → Text) (paths : List Text) : Except Error Text :=
  if paths = [] then .ok [] else repo.diff files paths

/-- The end of a run: the repairs are applied, if there are any to apply, and the patch is returned. -/
def finish (documents : List MarkdownDocument) (loop : Loop K) : Except (Interrupted K) (Run K × Text) :=
  if config.apply && loop.pending.length ≠ 0 then
    let applied := applyMarkdownReplacements repo.safeMarkdownPath (documentAt documents) loop.run.files
      (loop.pending.map PendingRepair.toPendingReplacement)
    let run := { loop.run with files := applied.2 }
    do
      let paths ← run.raises (applied.1.mapError Error.raised)
      let output ← run.raises ((repo.porcelain run.files).mapError Error.raised)
      let changed ← run.raises
        ((validateMarkdownWorktreeChanges repo.git output (paths.map String.toList)).mapError Error.raised)
      let run := { run with report := { run.report with changedMarkdownPaths := changed } }
      let patch ← run.raises ((repo.markdownPatch run.files changed).mapError Error.raised)
      let repairs ← run.raises (loop.pending.mapM (appliedRepair repo loop.pendingReportRecords changed))
      let report := { run.report with appliedRepairs := repairs.reduceOption }
      return ({ run with report := { report with status := successStatus report config.apply } }, patch)
  else
    let report := loop.run.report
    .ok ({ loop.run with report := { report with status := successStatus report config.apply } }, [])

/-- The run behind the retrieval. -/
def processRetrieval (repairer : DocRepairProvider K) (changes : List StructuralChange)
    (documents : List MarkdownDocument) (retrieval : RetrievalResult K) (run : Run K) :
    Except (Interrupted K) (Run K × Text) := do
  let run := { run with report := { run.report with candidateMappings := retrieval.candidates } }
  let run ← retrieval.truncatedChangeIds.foldlM (reportTruncated repo changes)
    (reportUnmatched changes retrieval run)
  let sectionIds := (retrieval.candidates.map CandidateMatch.sectionId).dedup.insertionSort (· ≤ ·)
  let loop ← sectionIds.foldlM (processSection python config repairer repo.git.repr changes
    retrieval.candidates (sectionsOfAll documents)) ⟨run, [], []⟩
  finish config repo documents loop

/-- `_execute`. The providers are the ones given, or are made from the configuration. -/
def execute (providers : Except Raised (EmbeddingProvider K × DocRepairProvider K))
    (files : String → Text) : Except (Interrupted K) (Run K × Text) := do
  let run : Run K := ⟨{}, [], files⟩
  let changes ← run.raises repo.changes
  let run := { run with report := { run.report with structuralChanges := changes } }
  if changes = [] then
    return ({ run with report := { run.report with status := .noStructuralChanges } }, [])
  let documents ← run.raises ((repo.documents files).mapError Error.raised)
  if sectionsOfAll documents = [] then
    let run := run.addReviews (changes.map fun change =>
      reviewForChange change "No tracked Markdown sections are available")
    return ({ run with report := { run.report with status := .reviewRequired } }, [])
  let (embed, repairer) ← run.raises providers
  let retrieval ← run.raises (retrieveCandidates python embed config.similarityThreshold config.topK
    config.maxCandidates changes (sectionsOfAll documents))
  processRetrieval python config repo repairer changes documents retrieval run

end Execution

end CoreMesh.SelfHealingDocs
