import CoreMesh.SelfHealingDocs.StructurePreservation
import CoreMesh.SelfHealingDocs.Truncation

/-!
# What a run may write

Whatever the providers answer, a file changes only in the bodies of sections that have passed all gates, and
a run that comes to its end has a place in its report for every change.
-/

namespace CoreMesh.SelfHealingDocs

open Outcome (Ensures ensures_ok)

variable {K : Type} {python : Python K} {config : HealingConfig K} {repo : Repository}
  {documents : List MarkdownDocument} {files : String → Text}

/-! ### The corpus -/

theorem readMarkdown_spec {relativePath : Text} {document : MarkdownDocument}
    (hread : repo.readMarkdown files relativePath = .ok document) :
    ∃ absolute, repo.safeMarkdownPath document.path = .ok absolute ∧
      document = ⟨document.path, files absolute, newlineOf (files absolute)⟩ := by
  obtain ⟨absolute, hsafe, hrest⟩ := Outcome.bind_eq_ok hread
  split at hrest
  · obtain rfl := Except.ok.inj hrest
    exact ⟨absolute, hsafe, rfl⟩
  · cases hrest

/-- A document is what the file at its path says. -/
theorem exists_file_of_mem (hdocuments : repo.documents files = .ok documents) {document : MarkdownDocument}
    (hdocument : document ∈ documents) : ∃ absolute, repo.safeMarkdownPath document.path = .ok absolute ∧
      document = ⟨document.path, files absolute, newlineOf (files absolute)⟩ := by
  obtain ⟨tracked, -, hrest⟩ := Outcome.bind_eq_ok hdocuments
  obtain ⟨paths, -, hrest⟩ := Outcome.bind_eq_ok hrest
  obtain ⟨relativePath, -, hread⟩ := Outcome.exists_of_mem_mapM hrest hdocument
  exact readMarkdown_spec hread

theorem eq_of_path (hdocuments : repo.documents files = .ok documents) {document document' : MarkdownDocument}
    (hdocument : document ∈ documents) (hdocument' : document' ∈ documents)
    (hpath : document.path = document'.path) : document = document' := by
  obtain ⟨absolute, hsafe, hread⟩ := exists_file_of_mem hdocuments hdocument
  obtain ⟨absolute', hsafe', hread'⟩ := exists_file_of_mem hdocuments hdocument'
  rw [hpath, hsafe'] at hsafe
  obtain rfl := Except.ok.inj hsafe
  rw [hread, hread', hpath]

/-! ### Files -/

/-- A document in which the bodies of some sections have been replaced, each by one that is gated. -/
def Rewritten (python : Python K) (config : HealingConfig K) (run : Run K) (document : MarkdownDocument)
    (text : Text) : Prop :=
  ∃ bodies : DocSection → Text, text = withBodies document bodies ∧
    ∀ s ∈ splitMarkdownDocument document, bodies s = s.body ∨ Gated python config run s (bodies s)

theorem bodyAfter_cases (replacements : List PendingReplacement) (s : DocSection) :
    bodyAfter replacements s = s.body ∨ ∃ replacement ∈ replacements, replacement.docSection = s ∧
      bodyAfter replacements s = replacement.replacementBody := by
  rw [bodyAfter]
  cases hfound : replacements.find? fun replacement => replacement.docSection == s with
  | none => exact .inl rfl
  | some replacement =>
      have hsame := List.find?_some hfound
      exact .inr ⟨replacement, List.mem_of_find?_eq_some hfound, beq_iff_eq.mp hsame, rfl⟩

theorem rewritten_of_writesGated {run : Run K} (hdocuments : repo.documents files = .ok documents)
    (hwrites : WritesGated python config repo documents files run) {file : String}
    (hchanged : run.files file ≠ files file) :
    config.apply = true ∧ ∃ document ∈ documents, repo.safeMarkdownPath document.path = .ok file ∧
      files file = document.text ∧ Rewritten python config run document (run.files file) := by
  obtain hsame | ⟨happly, replacements, hgated, hfiles⟩ := hwrites
  · exact absurd (congrFun hsame file) hchanged
  refine ⟨happly, ?_⟩
  rw [hfiles] at hchanged ⊢
  obtain ⟨write, ⟨document, hlast, hrepair, -⟩, hsafe, htext⟩ := repaired_of_ne hchanged
  obtain ⟨hpath, hdocument⟩ := OrderedDict.key_of_last? hlast
  rw [← hpath] at hsafe hrepair
  have hread : files file = document.text := by
    obtain ⟨absolute, hsafe', hread⟩ := exists_file_of_mem hdocuments hdocument
    rw [hsafe] at hsafe'
    rw [hread, Except.ok.inj hsafe']
  have hsections : ∀ replacement ∈ inFile replacements document.path,
      replacement.docSection ∈ splitMarkdownDocument document := by
    intro replacement hreplacement
    obtain ⟨hin, hsame⟩ := List.mem_filter.mp hreplacement
    obtain ⟨document', hdocument', hs⟩ := List.mem_flatMap.mp (hgated replacement hin).1
    rwa [← eq_of_path hdocuments hdocument' hdocument ((path_of_mem hs).symm.trans (beq_iff_eq.mp hsame))]
  refine ⟨document, hdocument, hsafe, hread, bodyAfter (inFile replacements document.path), ?_,
    fun s hs => ?_⟩
  · rw [htext, (repair_spec hsections hrepair).2.1]
  · obtain hkept | ⟨replacement, hreplacement, rfl, hbody⟩ :=
      bodyAfter_cases (inFile replacements document.path) s
    · exact .inl hkept
    · rw [hbody]
      exact .inr (hgated replacement (List.mem_of_mem_filter hreplacement)).2

/-! ### Runs -/

/-- The changes and the candidates of a report are those that the run has found. -/
structure Grounded (python : Python K) (config : HealingConfig K) (repo : Repository)
    (providers : Except Raised (EmbeddingProvider K × DocRepairProvider K)) (files : String → Text)
    (run : Run K) (documents : List MarkdownDocument) : Prop where
  changes_eq : repo.changes = .ok run.report.structuralChanges
  documents_eq : repo.documents files = .ok documents
  candidates_eq : ∃ embed repairer truncatedIds, providers = .ok (embed, repairer) ∧
    retrieveCandidates python embed config.similarityThreshold config.topK config.maxCandidates
      run.report.structuralChanges (sectionsOfAll documents) =
        .ok ⟨run.report.candidateMappings, truncatedIds⟩

/-- A run, interrupted or not, writes what is gated. -/
def Behaves (python : Python K) (config : HealingConfig K) (repo : Repository)
    (providers : Except Raised (EmbeddingProvider K × DocRepairProvider K)) (files : String → Text)
    (run : Run K) : Prop :=
  run.files = files ∨ ∃ documents, Grounded python config repo providers files run documents ∧
    WritesGated python config repo documents files run

/-- Every change is in a bucket of the report. -/
def Covers (repo : Repository) (run : Run K) : Prop :=
  ∃ changes, repo.changes = .ok changes ∧ ∀ change ∈ changes, run.report.Names change.changeId

theorem execute_spec (python : Python K) (config : HealingConfig K) (repo : Repository)
    (files : String → Text) (providers : Except Raised (EmbeddingProvider K × DocRepairProvider K)) :
    Ensures (fun interrupted => Behaves python config repo providers files interrupted.run)
      (fun outcome => Behaves python config repo providers files outcome.1 ∧ Covers repo outcome.1)
      (execute python config repo providers files) := by
  rw [execute]
  refine ensures_raises (P := Behaves python config repo providers files) (.inl rfl)
    fun changes hchanges => ?_
  by_cases hnone : changes = []
  · simp only [if_pos hnone]
    exact ⟨.inl rfl, changes, hchanges, by simp [hnone]⟩
  simp only [if_neg hnone]
  refine ensures_raises (P := Behaves python config repo providers files) (.inl rfl)
    fun documents hmapped => ?_
  have hdocuments := Outcome.mapError_eq_ok hmapped
  by_cases hempty : sectionsOfAll documents = []
  · simp only [if_pos hempty]
    refine ⟨.inl rfl, changes, hchanges, fun change hchange => ?_⟩
    exact .inl ⟨_, List.mem_append_right _ (List.mem_map_of_mem hchange), List.mem_singleton_self _⟩
  simp only [if_neg hempty]
  refine ensures_raises (P := Behaves python config repo providers files) (.inl rfl)
    fun provider hproviders => ?_
  obtain ⟨embed, repairer⟩ := provider
  refine ensures_raises (P := Behaves python config repo providers files) (.inl rfl)
    fun retrieval hretrieves => ?_
  have hprocessed := processRetrieval_spec python config repo repairer documents (.start changes files)
    (exists_change_of_truncated hretrieves)
  have hbehaves : ∀ run' : Run K, Processed python config repo changes documents retrieval
      (.start changes files) run' → Behaves python config repo providers files run' := by
    intro run' h
    refine .inr ⟨documents, ⟨?_, hdocuments, embed, repairer, retrieval.truncatedChangeIds, hproviders, ?_⟩,
      h.written⟩
    · rw [h.structuralChanges]
      exact hchanges
    · rw [h.structuralChanges, h.candidateMappings]
      exact hretrieves
  refine hprocessed.mono (fun interrupted h => hbehaves _ h) ?_
  rintro outcome ⟨h, hmatched⟩
  refine ⟨hbehaves _ h, changes, hchanges, fun change hchange => ?_⟩
  by_cases hcandidate : change.changeId ∈ retrieval.candidates.map CandidateMatch.changeId
  · obtain ⟨m, hm, hid⟩ := List.mem_map.mp hcandidate
    exact hid ▸ hmatched m hm
  · exact h.unmatched change hchange hcandidate

/-- Whatever the providers answer, no file is written but in apply mode, what is written over a section's
body has passed all gates, and a run that comes to its end names every change in its report. -/
theorem execute_gates (python : Python K) (config : HealingConfig K) (repo : Repository)
    (providers : Except Raised (EmbeddingProvider K × DocRepairProvider K)) (files : String → Text) :
    (config.apply = false → (runAfter (execute python config repo providers files)).files = files) ∧
    (∀ file, (runAfter (execute python config repo providers files)).files file ≠ files file →
      config.apply = true ∧ ∃ documents,
        Grounded python config repo providers files (runAfter (execute python config repo providers files))
          documents ∧
        ∃ document ∈ documents, repo.safeMarkdownPath document.path = .ok file ∧
          files file = document.text ∧
          Rewritten python config (runAfter (execute python config repo providers files)) document
            ((runAfter (execute python config repo providers files)).files file)) ∧
    ∀ run patch, execute python config repo providers files = .ok (run, patch) →
      ∃ changes, repo.changes = .ok changes ∧ ∀ change ∈ changes, run.report.Names change.changeId := by
  have hspec := execute_spec python config repo files providers
  have hbehaves := holds_runAfter (hspec.mono (fun _ h => h) fun _ h => h.1)
  refine ⟨fun hdry => ?_, fun file hchanged => ?_, fun run patch hok => ?_⟩
  · obtain hsame | ⟨documents, -, hsame | ⟨happly, -⟩⟩ := hbehaves
    · exact hsame
    · exact hsame
    · rw [hdry] at happly
      cases happly
  · obtain hsame | ⟨documents, hgrounded, hwrites⟩ := hbehaves
    · exact absurd (congrFun hsame file) hchanged
    · obtain ⟨happly, hrewritten⟩ := rewritten_of_writesGated hgrounded.documents_eq hwrites hchanged
      exact ⟨happly, documents, hgrounded, hrewritten⟩
  · rw [hok] at hspec
    exact hspec.2

/-- Everything is stale, and every proposal is approved of. -/
def eagerRepairer : DocRepairProvider Int where
  assess _ _ _ := .ok ⟨true, 1, .bounded, "stale".toList, []⟩
  propose _ _ _ _ _ := .ok ⟨"BATCH_SIZE is 8.".toList, "the default has changed".toList⟩
  validate _ _ _ _ _ _ := .ok ⟨true, true, true, true, 1, []⟩

example : (runAfter (execute wholeNumbers (cappedConfig 2) constantRepository
    (.ok (embedAlike, eagerRepairer)) manualOnly)).files "/repo/README.md" =
      "# Sizes\nBATCH_SIZE is 4.\n# Pages\nBATCH_SIZE is 8.\n".toList := by
  decide +kernel

end CoreMesh.SelfHealingDocs
