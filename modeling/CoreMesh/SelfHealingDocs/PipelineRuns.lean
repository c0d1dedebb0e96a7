import CoreMesh.SelfHealingDocs.Pipeline

/-!
# Runs of the pipeline

What each part of a run adds to its report, and what stands behind a replacement that waits. An exception
may come at any place, so that each part is described by what holds of the run it ends with either way.
-/

namespace CoreMesh.SelfHealingDocs

open Outcome (Ensures ensures_ok ensures_foldlM)

variable {K : Type}

/-! ### Reports that grow -/

/-- A later state of a run: nothing is taken back. -/
structure Run.Grows (run run' : Run K) : Prop where
  structuralChanges : run'.report.structuralChanges = run.report.structuralChanges
  candidateMappings : run'.report.candidateMappings = run.report.candidateMappings
  verifiedSections : run.report.verifiedSections ⊆ run'.report.verifiedSections
  proposedRepairs : run.report.proposedRepairs ⊆ run'.report.proposedRepairs
  reviewItems : run.report.reviewItems ⊆ run'.report.reviewItems
  history : run.history ⊆ run'.history

/-- A later state in which no file has been written. -/
structure Run.Continues (run run' : Run K) : Prop extends Run.Grows run run' where
  files : run'.files = run.files

/-- A change is in a bucket of the report. -/
def RunReport.Names (report : RunReport K) (changeId : Text) : Prop :=
  (∃ item ∈ report.reviewItems, changeId ∈ item.changeIds) ∨
    (∃ verified ∈ report.verifiedSections, changeId ∈ verified.changeIds) ∨
    ∃ repair ∈ report.proposedRepairs, changeId ∈ repair.changeIds

variable {run run' run'' : Run K}

theorem Run.Grows.refl (run : Run K) : run.Grows run :=
  ⟨rfl, rfl, List.Subset.refl _, List.Subset.refl _, List.Subset.refl _, List.Subset.refl _⟩

theorem Run.Grows.trans (hgrows : run.Grows run') (hgrows' : run'.Grows run'') : run.Grows run'' where
  structuralChanges := hgrows'.structuralChanges.trans hgrows.structuralChanges
  candidateMappings := hgrows'.candidateMappings.trans hgrows.candidateMappings
  verifiedSections := List.Subset.trans hgrows.verifiedSections hgrows'.verifiedSections
  proposedRepairs := List.Subset.trans hgrows.proposedRepairs hgrows'.proposedRepairs
  reviewItems := List.Subset.trans hgrows.reviewItems hgrows'.reviewItems
  history := List.Subset.trans hgrows.history hgrows'.history

theorem Run.Continues.refl (run : Run K) : run.Continues run := ⟨Run.Grows.refl run, rfl⟩

theorem Run.Continues.trans (hcontinues : run.Continues run') (hcontinues' : run'.Continues run'') :
    run.Continues run'' :=
  ⟨hcontinues.toGrows.trans hcontinues'.toGrows, hcontinues'.files.trans hcontinues.files⟩

theorem Run.Grows.names (hgrows : run.Grows run') {changeId : Text} (hnames : run.report.Names changeId) :
    run'.report.Names changeId := by
  obtain ⟨item, hitem, hin⟩ | ⟨verified, hverified, hin⟩ | ⟨repair, hrepair, hin⟩ := hnames
  · exact .inl ⟨item, hgrows.reviewItems hitem, hin⟩
  · exact .inr (.inl ⟨verified, hgrows.verifiedSections hverified, hin⟩)
  · exact .inr (.inr ⟨repair, hgrows.proposedRepairs hrepair, hin⟩)

theorem continues_addReviews (run : Run K) (items : List (ReviewItem K)) :
    run.Continues (run.addReviews items) where
  toGrows := { Run.Grows.refl run with reviewItems := List.subset_append_left _ _ }
  files := rfl

theorem continues_record (loop : Loop K) (call : Call K) (decision : DecisionRecord K) :
    loop.run.Continues (loop.record call decision).run where
  toGrows := { Run.Grows.refl loop.run with history := List.subset_append_left _ _ }
  files := rfl

theorem continues_addVerified (loop : Loop K) (verified : VerifiedSection K) :
    loop.run.Continues (loop.addVerified verified).run where
  toGrows := { Run.Grows.refl loop.run with verifiedSections := List.subset_append_left _ _ }
  files := rfl

theorem continues_addProposed (loop : Loop K) (repair : ProposedRepair K) :
    loop.run.Continues (loop.addProposed repair).run where
  toGrows := { Run.Grows.refl loop.run with proposedRepairs := List.subset_append_left _ _ }
  files := rfl

theorem names_addReview (loop : Loop K) {item : ReviewItem K} {changeId : Text}
    (hitem : changeId ∈ item.changeIds) : (loop.addReview item).run.report.Names changeId :=
  .inl ⟨item, List.mem_append_right _ (List.mem_singleton_self item), hitem⟩

theorem mem_history_record (loop : Loop K) (call : Call K) (decision : DecisionRecord K) :
    call ∈ (loop.record call decision).run.history :=
  List.mem_append_right _ (List.mem_singleton_self call)

/-- An exception leaves the run as it is. -/
theorem ensures_raises {α β : Type} {outcome : Except Raised α} {rest : α → Except (Interrupted K) β}
    {P : Run K → Prop} {Q : β → Prop} (hrun : P run)
    (hrest : ∀ value, outcome = .ok value → Ensures (fun interrupted => P interrupted.run) Q (rest value)) :
    Ensures (fun interrupted => P interrupted.run) Q (run.raises outcome >>= rest) := by
  cases outcome with
  | error raised => exact hrun
  | ok value => exact hrest value rfl

/-! ### Judgments -/

/-- What the provider has said of a section. -/
structure Judgment (K : Type) where
  assessment : StalenessAssessment K
  proposal : RepairProposal
  neighboringStyle : Text
  validation : RepairValidation K

section Sections

variable (python : Python K) (config : HealingConfig K)

/-- The provider has been asked about the section with these changes, and has approved of the body. -/
structure Judgment.Approves (judgment : Judgment K) (history : List (Call K))
    (changes : List StructuralChange) (s : DocSection) (body : Text) : Prop where
  assessed : Call.assess changes s judgment.assessment ∈ history
  stale : judgment.assessment.stale = true
  bounded : judgment.assessment.complexity = .bounded
  assessmentConfidence : python.le config.confidenceThreshold judgment.assessment.confidence = true
  proposed : Call.propose changes s judgment.assessment judgment.neighboringStyle judgment.proposal ∈ history
  normalized : normalizeReplacementBody s judgment.proposal.replacementBody config.maxSectionChars = .ok body
  validated : Call.validate changes s judgment.assessment { judgment.proposal with replacementBody := body }
    judgment.neighboringStyle judgment.validation ∈ history
  approved : judgment.validation.approved = true
  validationConfidence : python.le config.confidenceThreshold judgment.validation.confidence = true

/-- All changes may be repaired automatically, and the provider has approved of the body. -/
def Cleared (history : List (Call K)) (changes : List StructuralChange) (s : DocSection) (body : Text) :
    Prop :=
  (∀ change ∈ changes, change.autoFixEligible = true) ∧
    ∃ judgment : Judgment K, judgment.Approves python config history changes s body

variable {python config}

theorem Judgment.Approves.mono {judgment : Judgment K} {history history' : List (Call K)}
    {changes : List StructuralChange} {s : DocSection} {body : Text}
    (happroves : judgment.Approves python config history changes s body) (hhistory : history ⊆ history') :
    judgment.Approves python config history' changes s body :=
  { happroves with
    assessed := hhistory happroves.assessed
    proposed := hhistory happroves.proposed
    validated := hhistory happroves.validated }

theorem Cleared.mono {history history' : List (Call K)} {changes : List StructuralChange} {s : DocSection}
    {body : Text} (hcleared : Cleared python config history changes s body) (hhistory : history ⊆ history') :
    Cleared python config history' changes s body := by
  obtain ⟨heligible, judgment, happroves⟩ := hcleared
  exact ⟨heligible, judgment, happroves.mono hhistory⟩

variable (python config)

/-- A section has been gone through: its changes are in the report, and what waits newly is cleared. -/
structure Loop.Advances (s : DocSection) (changes : List StructuralChange) (loop loop' : Loop K) : Prop where
  continues : loop.run.Continues loop'.run
  names : ∀ change ∈ changes, loop'.run.report.Names change.changeId
  pending : ∀ replacement ∈ loop'.pending, replacement ∈ loop.pending ∨
    (replacement.docSection = s ∧
      Cleared python config loop'.run.history changes s replacement.replacementBody)

variable {python config} {s : DocSection} {changes : List StructuralChange} {loop loop' : Loop K}

theorem Loop.Advances.of_continues {loop'' : Loop K} (hcontinues : loop.run.Continues loop'.run)
    (hpending : loop'.pending = loop.pending) (hadvances : loop'.Advances python config s changes loop'') :
    loop.Advances python config s changes loop'' where
  continues := hcontinues.trans hadvances.continues
  names := hadvances.names
  pending := hpending ▸ hadvances.pending

theorem advances_addReview (loop : Loop K) (s : DocSection) (changes : List StructuralChange)
    (reason : Text) (assessmentConfidence validationConfidence : Option K) :
    loop.Advances python config s changes
      (loop.addReview (reviewForSection s changes reason assessmentConfidence validationConfidence)) where
  continues := continues_addReviews loop.run _
  names := fun _ hchange => names_addReview loop (List.mem_map_of_mem hchange)
  pending := fun _ hreplacement => .inl hreplacement

theorem isEligible_iff {assessment : StalenessAssessment K} {validation : RepairValidation K} :
    isEligible python config changes assessment validation = true ↔
      (∀ change ∈ changes, change.autoFixEligible = true) ∧ assessment.complexity = .bounded ∧
        python.le config.confidenceThreshold assessment.confidence = true ∧ validation.approved = true ∧
        python.le config.confidenceThreshold validation.confidence = true := by
  simp [isEligible, and_assoc]

variable {repairer : DocRepairProvider K} {allSections : List DocSection}

/-- Either way the run goes on from a loop, and a loop that gets on has the section behind it. -/
def LoopSpec (python : Python K) (config : HealingConfig K) (s : DocSection)
    (changes : List StructuralChange) (loop : Loop K) : Except (Interrupted K) (Loop K) → Prop :=
  Ensures (fun interrupted => loop.run.Continues interrupted.run)
    fun loop' => loop.Advances python config s changes loop'

/-- A call is answered, or an exception interrupts the run. -/
theorem loopSpec_call {α : Type} {answer : Except Raised α} (call : α → Call K)
    (decision : α → DecisionRecord K) {rest : α → Except (Interrupted K) (Loop K)}
    (hrest : ∀ value, LoopSpec python config s changes (loop.record (call value) (decision value))
      (rest value)) :
    LoopSpec python config s changes loop (loop.run.raises answer >>= rest) := by
  refine ensures_raises (P := loop.run.Continues) (Run.Continues.refl _) fun value _ => ?_
  have hrecord := continues_record loop (call value) (decision value)
  exact (hrest value).mono (fun interrupted hcontinues => hrecord.trans hcontinues)
    fun loop' hadvances => hadvances.of_continues hrecord rfl

theorem advances_decideRepair (judgment : Judgment K) {normalizedBody : Text}
    (hassessed : Call.assess changes s judgment.assessment ∈ loop.run.history)
    (hstale : judgment.assessment.stale = true)
    (hproposed : Call.propose changes s judgment.assessment judgment.neighboringStyle judgment.proposal ∈
      loop.run.history)
    (hnormalized : normalizeReplacementBody s judgment.proposal.replacementBody config.maxSectionChars =
      .ok normalizedBody)
    (hvalidated : Call.validate changes s judgment.assessment
      { judgment.proposal with replacementBody := normalizedBody } judgment.neighboringStyle
      judgment.validation ∈ loop.run.history) :
    loop.Advances python config s changes (decideRepair python config s changes judgment.assessment
      judgment.proposal normalizedBody judgment.validation loop) := by
  have hadded := continues_addProposed loop (proposedRepair python config s changes judgment.assessment
    judgment.proposal normalizedBody judgment.validation)
  rw [decideRepair]
  by_cases heligible : isEligible python config changes judgment.assessment judgment.validation = true
  · rw [if_pos heligible]
    obtain ⟨hall, hbounded, hassessment, happroved, hvalidation⟩ := isEligible_iff.mp heligible
    refine ⟨hadded, fun change hchange => ?_, fun replacement hreplacement => ?_⟩
    · exact .inr (.inr ⟨_, List.mem_append_right _ (List.mem_singleton_self _), List.mem_map_of_mem hchange⟩)
    · obtain hbefore | hnew := List.mem_append.mp hreplacement
      · exact .inl hbefore
      · obtain rfl := List.mem_singleton.mp hnew
        exact .inr ⟨rfl, hall, judgment, hassessed, hstale, hbounded, hassessment, hproposed, hnormalized,
          hvalidated, happroved, hvalidation⟩
  · rw [if_neg heligible]
    exact (advances_addReview _ s changes _ _ _).of_continues hadded rfl

theorem validateRepair_spec {assessment : StalenessAssessment K} {proposal : RepairProposal}
    {normalizedBody : Text}
    (hassessed : Call.assess changes s assessment ∈ loop.run.history) (hstale : assessment.stale = true)
    (hproposed : Call.propose changes s assessment (neighboringContext s allSections) proposal ∈
      loop.run.history)
    (hnormalized : normalizeReplacementBody s proposal.replacementBody config.maxSectionChars =
      .ok normalizedBody) :
    LoopSpec python config s changes loop (validateRepair python config repairer allSections s changes
      assessment proposal normalizedBody loop) := by
  refine loopSpec_call (fun validation => .validate changes s assessment
    { proposal with replacementBody := normalizedBody } (neighboringContext s allSections) validation)
    (fun validation => decisionRecord s changes (.correctionValidation validation)) fun validation => ?_
  have hcontinues := continues_record loop (.validate changes s assessment
    { proposal with replacementBody := normalizedBody } (neighboringContext s allSections) validation)
    (decisionRecord s changes (.correctionValidation validation))
  exact advances_decideRepair ⟨assessment, proposal, _, validation⟩
    (hcontinues.history hassessed) hstale (hcontinues.history hproposed) hnormalized
    (mem_history_record loop _ _)

theorem repairSection_spec {assessment : StalenessAssessment K}
    (hassessed : Call.assess changes s assessment ∈ loop.run.history) (hstale : assessment.stale = true) :
    LoopSpec python config s changes loop
      (repairSection python config repairer allSections s changes assessment loop) := by
  refine loopSpec_call (fun proposal => .propose changes s assessment (neighboringContext s allSections)
    proposal) (fun proposal => decisionRecord s changes (.targetedRewrite proposal)) fun proposal => ?_
  have hcontinues := continues_record loop (.propose changes s assessment (neighboringContext s allSections)
    proposal) (decisionRecord s changes (.targetedRewrite proposal))
  have hproposed := mem_history_record loop (.propose changes s assessment
    (neighboringContext s allSections) proposal) (decisionRecord s changes (.targetedRewrite proposal))
  cases hnormalized : normalizeReplacementBody s proposal.replacementBody config.maxSectionChars with
  | error error =>
      cases error with
      | git message => exact Run.Continues.refl _
      | markdownSafety message => exact advances_addReview _ s changes _ _ _
  | ok normalizedBody =>
      by_cases hsame : normalizedBody = s.body
      · simp only [if_pos hsame]
        exact advances_addReview _ s changes _ _ _
      · simp only [if_neg hsame]
        exact validateRepair_spec (hcontinues.history hassessed) hstale hproposed hnormalized

theorem judgeSection_spec : LoopSpec python config s changes loop
    (judgeSection python config repairer allSections s changes loop) := by
  refine loopSpec_call (fun assessment => .assess changes s assessment)
    (fun assessment => decisionRecord s changes (.stalenessAssessment assessment)) fun assessment => ?_
  have hassessed := mem_history_record loop (.assess changes s assessment)
    (decisionRecord s changes (.stalenessAssessment assessment))
  cases hstale : assessment.stale with
  | true => exact repairSection_spec hassessed hstale
  | false =>
      refine ⟨continues_addVerified _ _, fun change hchange => ?_, fun _ hreplacement => .inl hreplacement⟩
      exact .inr (.inl ⟨_, List.mem_append_right _ (List.mem_singleton_self _),
        List.mem_map_of_mem hchange⟩)

/-! ### The loop over sections -/

/-- A change that a section has a candidate for. -/
def MappedTo (report : RunReport K) (s : DocSection) (change : StructuralChange) : Prop :=
  ∃ m ∈ report.candidateMappings, m.sectionId = s.sectionId ∧
    OrderedDict.last? StructuralChange.changeId report.structuralChanges m.changeId = some change

theorem changeById_eq_ok_iff {repr : Text → Text} {structuralChanges : List StructuralChange}
    {changeId : Text} {change : StructuralChange} :
    changeById repr structuralChanges changeId = .ok change ↔
      OrderedDict.last? StructuralChange.changeId structuralChanges changeId = some change := by
  rw [changeById]
  cases OrderedDict.last? StructuralChange.changeId structuralChanges changeId with
  | none => simp
  | some found => simp

theorem mem_candidateIds {candidates : List (CandidateMatch K)} {sectionId : String} {changeId : Text} :
    changeId ∈ ((candidates.filter fun m => m.sectionId == sectionId).map
        CandidateMatch.changeId).dedup.insertionSort (· ≤ ·) ↔
      ∃ m ∈ candidates, m.sectionId = sectionId ∧ m.changeId = changeId := by
  rw [(List.perm_insertionSort _ _).mem_iff, List.mem_dedup, List.mem_map]
  simp only [List.mem_filter, beq_iff_eq, and_assoc]

section UniqueChanges

variable {repr : Text → Text} {structuralChanges sectionChanges : List StructuralChange}
  {candidates : List (CandidateMatch K)} {sectionId : String}
  (hunique : uniqueChanges repr structuralChanges candidates sectionId = .ok sectionChanges)

include hunique

theorem exists_uniqueChange {m : CandidateMatch K} (hm : m ∈ candidates) (hsection : m.sectionId = sectionId) :
    ∃ change ∈ sectionChanges,
      OrderedDict.last? StructuralChange.changeId structuralChanges m.changeId = some change := by
  obtain ⟨change, hchange, hok⟩ := Outcome.mem_mapM hunique (mem_candidateIds.mpr ⟨m, hm, hsection, rfl⟩)
  exact ⟨change, hchange, changeById_eq_ok_iff.mp hok⟩

theorem mem_uniqueChanges (change : StructuralChange) :
    change ∈ sectionChanges ↔ ∃ m ∈ candidates, m.sectionId = sectionId ∧
      OrderedDict.last? StructuralChange.changeId structuralChanges m.changeId = some change := by
  constructor
  · intro hchange
    obtain ⟨changeId, hin, hfound⟩ := Outcome.exists_of_mem_mapM hunique hchange
    obtain ⟨m, hm, hsection, rfl⟩ := mem_candidateIds.mp hin
    exact ⟨m, hm, hsection, changeById_eq_ok_iff.mp hfound⟩
  · rintro ⟨m, hm, hsection, hlast⟩
    obtain ⟨found, hfound, hlast'⟩ := exists_uniqueChange hunique hm hsection
    obtain rfl := Option.some.inj (hlast.symm.trans hlast')
    exact hfound

end UniqueChanges

/-- A body that may be written over a section's: all that is mapped to the section may be repaired
automatically, and the provider has approved of the body with exactly these changes. -/
def Gated (python : Python K) (config : HealingConfig K) (run : Run K) (s : DocSection) (body : Text) :
    Prop :=
  ∃ changes, (∀ change, change ∈ changes ↔ MappedTo run.report s change) ∧
    Cleared python config run.history changes s body

theorem Gated.mono {body : Text} (hgated : Gated python config run s body) (hgrows : run.Grows run') :
    Gated python config run' s body := by
  obtain ⟨changes, hmapped, hcleared⟩ := hgated
  refine ⟨changes, fun change => ?_, hcleared.mono hgrows.history⟩
  rw [hmapped, MappedTo, MappedTo, hgrows.structuralChanges, hgrows.candidateMappings]

/-- The loop, once it has been through some of the sections. -/
structure Through (python : Python K) (config : HealingConfig K) (allSections : List DocSection)
    (run : Run K) (sectionIds : List String) (loop : Loop K) : Prop where
  continues : run.Continues loop.run
  names : ∀ m ∈ loop.run.report.candidateMappings, m.sectionId ∈ sectionIds →
    loop.run.report.Names m.changeId
  pending : ∀ replacement ∈ loop.pending, replacement.docSection ∈ allSections ∧
    Gated python config loop.run replacement.docSection replacement.replacementBody

theorem processSection_spec (repairer : DocRepairProvider K) (repr : Text → Text) {sectionIds : List String}
    (sectionId : String)
    (hthrough : Through python config allSections run sectionIds loop) :
    Ensures (fun interrupted => run.Continues interrupted.run)
      (Through python config allSections run (sectionIds ++ [sectionId]))
      (processSection python config repairer repr loop.run.report.structuralChanges
        loop.run.report.candidateMappings allSections loop sectionId) := by
  rw [processSection]
  cases hlast : OrderedDict.last? DocSection.sectionId allSections sectionId with
  | none => exact hthrough.continues
  | some s =>
      obtain ⟨rfl, hs⟩ := OrderedDict.key_of_last? hlast
      refine ensures_raises (P := run.Continues) hthrough.continues fun sectionChanges hunique => ?_
      have hadvances : LoopSpec python config s sectionChanges loop
          (if config.maxSectionChars < s.body.length then
            pure (loop.addReview (reviewForSection s sectionChanges ("Section exceeds the " ++
              toString config.maxSectionChars ++ "-character model limit").toList none none))
          else judgeSection python config repairer allSections s sectionChanges loop) := by
        split
        · exact advances_addReview loop s sectionChanges _ _ _
        · exact judgeSection_spec
      refine hadvances.mono (fun interrupted h => hthrough.continues.trans h) fun loop' hloop' => ?_
      have hmapped := mem_uniqueChanges hunique
      have hgrows := hloop'.continues.toGrows
      refine ⟨hthrough.continues.trans hloop'.continues, fun m hm hsection => ?_,
        fun replacement hreplacement => ?_⟩
      · rw [hgrows.candidateMappings] at hm
        obtain hdone | hnew := List.mem_append.mp hsection
        · exact hgrows.names (hthrough.names m hm hdone)
        · obtain ⟨change, hchange, hlast⟩ :=
            exists_uniqueChange hunique hm (List.mem_singleton.mp hnew)
          rw [← (OrderedDict.key_of_last? hlast).1]
          exact hloop'.names change hchange
      · obtain hbefore | ⟨hsame, hcleared⟩ := hloop'.pending replacement hreplacement
        · obtain ⟨hin, hgated⟩ := hthrough.pending replacement hbefore
          exact ⟨hin, hgated.mono hgrows⟩
        · refine ⟨hsame ▸ hs, sectionChanges, fun change => ?_, hsame ▸ hcleared⟩
          rw [hmapped, MappedTo, hgrows.structuralChanges, hgrows.candidateMappings, hsame]

end Sections

/-! ### The run -/

section Execution

variable {python : Python K} {config : HealingConfig K} {repo : Repository}
  {documents : List MarkdownDocument}

/-- The run as it stands at its end, or where an exception has interrupted it. -/
def runAfter (outcome : Except (Interrupted K) (Run K × Text)) : Run K :=
  match outcome with
  | .ok (run, _) => run
  | .error interrupted => interrupted.run

theorem holds_runAfter {P : Run K → Prop} {outcome : Except (Interrupted K) (Run K × Text)}
    (houtcome : Ensures (fun interrupted => P interrupted.run) (fun outcome => P outcome.1) outcome) :
    P (runAfter outcome) := by
  cases outcome with
  | error interrupted => exact houtcome
  | ok outcome => exact houtcome

/-- The changes that the retrieval has nothing for are for review. -/
theorem names_reportUnmatched (changes : List StructuralChange) (retrieval : RetrievalResult K)
    (run : Run K) {change : StructuralChange} (hchange : change ∈ changes)
    (hmatched : change.changeId ∉ retrieval.candidates.map CandidateMatch.changeId)
    (htruncated : change.changeId ∉ retrieval.truncatedChangeIds) :
    (reportUnmatched changes retrieval run).report.Names change.changeId := by
  refine .inl ⟨reviewUnmatched change, List.mem_append_right _ (List.mem_map_of_mem ?_),
    List.mem_singleton_self _⟩
  simpa [hchange, htruncated] using hmatched

/-- The changes that the retrieval has left out are for review. There is none that is not a change. -/
theorem reportTruncated_spec (repo : Repository) {changes : List StructuralChange} {truncatedIds : List Text}
    (hids : ∀ changeId ∈ truncatedIds, ∃ change ∈ changes, change.changeId = changeId) (run : Run K) :
    ∃ run', truncatedIds.foldlM (reportTruncated repo changes) run = .ok run' ∧ run.Continues run' ∧
      ∀ changeId ∈ truncatedIds, ∃ change ∈ changes, change.changeId = changeId ∧
        reviewTruncated change ∈ run'.report.reviewItems := by
  have hloop := ensures_foldlM (E := fun _ => False) (reportTruncated repo changes) truncatedIds run
    (fun done run' => run.Continues run' ∧ ∀ changeId ∈ done, ∃ change ∈ changes,
      change.changeId = changeId ∧ reviewTruncated change ∈ run'.report.reviewItems)
    ⟨Run.Continues.refl _, fun _ h => absurd h List.not_mem_nil⟩ ?_
  · cases hrun : truncatedIds.foldlM (reportTruncated repo changes) run with
    | error interrupted =>
        rw [hrun] at hloop
        exact hloop.elim
    | ok run' =>
        rw [hrun] at hloop
        exact ⟨run', rfl, hloop⟩
  · rintro done changeId rest run' rfl ⟨hcontinues, hdone⟩
    obtain ⟨change, hchange, hlast⟩ : ∃ change ∈ changes,
        OrderedDict.last? StructuralChange.changeId changes changeId = some change := by
      cases hlast : OrderedDict.last? StructuralChange.changeId changes changeId with
      | none =>
          obtain ⟨change, hchange, hid⟩ := hids changeId (by simp)
          exact absurd hid (OrderedDict.last?_eq_none_iff.mp hlast change hchange)
      | some change => exact ⟨change, (OrderedDict.key_of_last? hlast).2, rfl⟩
    have hstep := continues_addReviews run' [reviewTruncated change]
    rw [reportTruncated, changeById_eq_ok_iff.mpr hlast]
    refine ⟨hcontinues.trans hstep, fun changeId' hin => ?_⟩
    obtain hbefore | hnew := List.mem_append.mp hin
    · obtain ⟨change', hchange', hid, hitem⟩ := hdone changeId' hbefore
      exact ⟨change', hchange', hid, hstep.reviewItems hitem⟩
    · obtain rfl := List.mem_singleton.mp hnew
      exact ⟨change, hchange, (OrderedDict.key_of_last? hlast).1,
        List.mem_append_right _ (List.mem_singleton_self _)⟩

/-- The files are as they were, or have replacements applied that are all gated. -/
def WritesGated (python : Python K) (config : HealingConfig K) (repo : Repository)
    (documents : List MarkdownDocument) (files : String → Text) (run : Run K) : Prop :=
  run.files = files ∨ config.apply = true ∧ ∃ replacements : List PendingReplacement,
    (∀ replacement ∈ replacements, replacement.docSection ∈ sectionsOfAll documents ∧
      Gated python config run replacement.docSection replacement.replacementBody) ∧
    run.files =
      (applyMarkdownReplacements repo.safeMarkdownPath (documentAt documents) files replacements).2

/-- A run behind the loop over the sections. -/
def Finishes (python : Python K) (config : HealingConfig K) (repo : Repository)
    (documents : List MarkdownDocument) (files : String → Text) (run run' : Run K) : Prop :=
  run.Grows run' ∧ WritesGated python config repo documents files run'

theorem finish_spec (repo : Repository) {sectionIds : List String} {loop : Loop K}
    (hthrough : Through python config (sectionsOfAll documents) run sectionIds loop) :
    Ensures (fun interrupted => Finishes python config repo documents run.files loop.run interrupted.run)
      (fun outcome => Finishes python config repo documents run.files loop.run outcome.1)
      (finish config repo documents loop) := by
  have hwritten : ∀ run' : Run K, loop.run.Grows run' → config.apply = true →
      run'.files = (applyMarkdownReplacements repo.safeMarkdownPath (documentAt documents) loop.run.files
        (loop.pending.map PendingRepair.toPendingReplacement)).2 →
      Finishes python config repo documents run.files loop.run run' := by
    intro run' hgrows happly hfiles
    refine ⟨hgrows, .inr ⟨happly, loop.pending.map PendingRepair.toPendingReplacement,
      fun replacement hreplacement => ?_, ?_⟩⟩
    · obtain ⟨pending, hpending, rfl⟩ := List.mem_map.mp hreplacement
      obtain ⟨hin, hgated⟩ := hthrough.pending pending hpending
      exact ⟨hin, hgated.mono hgrows⟩
    · rw [← hthrough.continues.files, hfiles]
  have hgrows := Run.Grows.refl loop.run
  rw [finish]
  split
  · rename_i happlies
    have happly : config.apply = true := (Bool.and_eq_true_iff.mp happlies).1
    -- an exception from here on leaves the files as they have been written
    refine ensures_raises (P := Finishes python config repo documents run.files loop.run)
      (hwritten _ { hgrows with } happly rfl) fun paths _ => ?_
    refine ensures_raises (P := Finishes python config repo documents run.files loop.run)
      (hwritten _ { hgrows with } happly rfl) fun output _ => ?_
    refine ensures_raises (P := Finishes python config repo documents run.files loop.run)
      (hwritten _ { hgrows with } happly rfl) fun changed _ => ?_
    refine ensures_raises (P := Finishes python config repo documents run.files loop.run)
      (hwritten _ { hgrows with } happly rfl) fun patch _ => ?_
    refine ensures_raises (P := Finishes python config repo documents run.files loop.run)
      (hwritten _ { hgrows with } happly rfl) fun repairs _ => ?_
    exact hwritten _ { hgrows with } happly rfl
  · exact ⟨{ hgrows with }, .inl hthrough.continues.files⟩

/-- A run behind the retrieval: what has been left out is for review, as is what nothing was found for. -/
structure Processed (python : Python K) (config : HealingConfig K) (repo : Repository)
    (changes : List StructuralChange) (documents : List MarkdownDocument) (retrieval : RetrievalResult K)
    (run run' : Run K) : Prop where
  structuralChanges : run'.report.structuralChanges = run.report.structuralChanges
  candidateMappings : run'.report.candidateMappings = retrieval.candidates
  truncated : ∀ changeId ∈ retrieval.truncatedChangeIds, ∃ change ∈ changes, change.changeId = changeId ∧
    reviewTruncated change ∈ run'.report.reviewItems
  unmatched : ∀ change ∈ changes, change.changeId ∉ retrieval.candidates.map CandidateMatch.changeId →
    run'.report.Names change.changeId
  written : WritesGated python config repo documents run.files run'

theorem Processed.grows {changes : List StructuralChange} {retrieval : RetrievalResult K}
    (hprocessed : Processed python config repo changes documents retrieval run run')
    (hgrows : run'.Grows run'') (hwritten : WritesGated python config repo documents run.files run'') :
    Processed python config repo changes documents retrieval run run'' where
  structuralChanges := hgrows.structuralChanges.trans hprocessed.structuralChanges
  candidateMappings := hgrows.candidateMappings.trans hprocessed.candidateMappings
  truncated := fun changeId hin => by
    obtain ⟨change, hchange, hid, hitem⟩ := hprocessed.truncated changeId hin
    exact ⟨change, hchange, hid, hgrows.reviewItems hitem⟩
  unmatched := fun change hchange hmatched => hgrows.names (hprocessed.unmatched change hchange hmatched)
  written := hwritten

theorem processRetrieval_spec (python : Python K) (config : HealingConfig K) (repo : Repository)
    (repairer : DocRepairProvider K) (documents : List MarkdownDocument) {retrieval : RetrievalResult K}
    (run : Run K)
    (hids : ∀ changeId ∈ retrieval.truncatedChangeIds, ∃ change ∈ run.report.structuralChanges,
      change.changeId = changeId) :
    Ensures
      (fun interrupted => Processed python config repo run.report.structuralChanges documents retrieval run
        interrupted.run)
      (fun outcome => Processed python config repo run.report.structuralChanges documents retrieval run
          outcome.1 ∧ ∀ m ∈ retrieval.candidates, outcome.1.report.Names m.changeId)
      (processRetrieval python config repo repairer run.report.structuralChanges documents retrieval run) := by
  set changes := run.report.structuralChanges
  obtain ⟨run', hrun', hcontinues, htruncated⟩ := reportTruncated_spec repo hids
    (reportUnmatched changes retrieval
      { run with report := { run.report with candidateMappings := retrieval.candidates } })
  have hstart : Processed python config repo changes documents retrieval run run' := by
    refine ⟨hcontinues.structuralChanges, hcontinues.candidateMappings, htruncated,
      fun change hchange hmatched => ?_, .inl hcontinues.files⟩
    by_cases hleft : change.changeId ∈ retrieval.truncatedChangeIds
    · obtain ⟨change', -, hid, hitem⟩ := htruncated change.changeId hleft
      exact .inl ⟨_, hitem, List.mem_singleton.mpr hid.symm⟩
    · exact hcontinues.names (names_reportUnmatched changes retrieval _ hchange hmatched hleft)
  have hloop := ensures_foldlM (E := fun interrupted : Interrupted K => run'.Continues interrupted.run)
    (processSection python config repairer repo.git.repr changes retrieval.candidates
      (sectionsOfAll documents))
    ((retrieval.candidates.map CandidateMatch.sectionId).dedup.insertionSort (· ≤ ·)) ⟨run', [], []⟩
    (Through python config (sectionsOfAll documents) run')
    ⟨Run.Continues.refl run', fun _ _ h => absurd h List.not_mem_nil, fun _ h => absurd h List.not_mem_nil⟩
    fun done sectionId rest loop _ hthrough => by
      have hspec := processSection_spec repairer repo.git.repr sectionId hthrough
      rwa [hthrough.continues.structuralChanges, hthrough.continues.candidateMappings,
        hstart.structuralChanges, hstart.candidateMappings] at hspec
  rw [processRetrieval]
  simp only [hrun']
  refine (hloop.mono (fun interrupted hinterrupted => ?_) fun loop hthrough => hthrough).bind
    fun loop hthrough => ?_
  · exact hstart.grows hinterrupted.toGrows (.inl (hinterrupted.files.trans hcontinues.files))
  · have hfinish := finish_spec repo hthrough
    have hfiles : run'.files = run.files := hcontinues.files
    have hends : ∀ run'' : Run K, Finishes python config repo documents run'.files loop.run run'' →
        Processed python config repo changes documents retrieval run run'' := by
      rintro run'' ⟨hgrows, hwritten⟩
      exact hstart.grows (hthrough.continues.toGrows.trans hgrows) (hfiles ▸ hwritten)
    refine hfinish.mono (fun interrupted h => hends _ h) fun outcome h => ⟨hends _ h, fun m hm => ?_⟩
    refine h.1.names (hthrough.names m ?_ ?_)
    · rw [hthrough.continues.candidateMappings, hstart.candidateMappings]
      exact hm
    · rw [(List.perm_insertionSort _ _).mem_iff, List.mem_dedup]
      exact List.mem_map_of_mem hm

/-- The run up to the retrieval. -/
def Run.start (changes : List StructuralChange) (files : String → Text) : Run K :=
  ⟨{ structuralChanges := changes }, [], files⟩

theorem execute_eq_processRetrieval {embed : EmbeddingProvider K} {repairer : DocRepairProvider K}
    {changes : List StructuralChange} {files : String → Text} {retrieval : RetrievalResult K}
    (hchanges : repo.changes = .ok changes) (hsome : changes ≠ [])
    (hdocuments : repo.documents files = .ok documents) (hsections : sectionsOfAll documents ≠ [])
    (hretrieves : retrieveCandidates python embed config.similarityThreshold config.topK
      config.maxCandidates changes (sectionsOfAll documents) = .ok retrieval) :
    execute python config repo (.ok (embed, repairer)) files =
      processRetrieval python config repo repairer changes documents retrieval (.start changes files) := by
  simp only [execute, hchanges, hdocuments, Except.mapError, Run.raises]
  simp [hsome, hsections, hretrieves, bind, Except.bind, Run.start]

end Execution

end CoreMesh.SelfHealingDocs
