import CoreMesh.SelfHealingDocs.PipelineRuns

/-!
# What the cap leaves out

The candidates of all changes are ordered together, and only the first ones are kept. A change of which no
candidate is kept is reported and comes up for review. A candidate that is dropped while another one of its
change is kept is mentioned nowhere.
-/

namespace CoreMesh.SelfHealingDocs

variable {K : Type} {python : Python K} {config : HealingConfig K}

/-- A section is to be looked at for a change: the change is referred to, or the section is among the
first by similarity, and similar enough. -/
def Qualifies (python : Python K) (config : HealingConfig K) (change : StructuralChange)
    (row : List (DocSection × K)) (pair : DocSection × K) : Prop :=
  hasExactReference python change pair.1 = true ∨
    pair ∈ upTo config.topK (bySimilarity python row) ∧
      python.le config.similarityThreshold pair.2 = true

instance [DecidableEq K] (change : StructuralChange) (row : List (DocSection × K))
    (pair : DocSection × K) : Decidable (Qualifies python config change row pair) :=
  inferInstanceAs (Decidable (_ ∨ _ ∧ _))

/-- A candidate for the change and the section is among those returned. -/
def Returned (result : RetrievalResult K) (change : StructuralChange) (s : DocSection) : Prop :=
  ∃ m ∈ result.candidates, m.changeId = change.changeId ∧ m.sectionId = s.sectionId

instance [DecidableEq K] (result : RetrievalResult K) (change : StructuralChange) (s : DocSection) :
    Decidable (Returned result change s) :=
  inferInstanceAs (Decidable (∃ m ∈ result.candidates, _ ∧ _))

/-- Every section that qualifies is returned, or its change is among those left out. -/
def NothingLost (python : Python K) (config : HealingConfig K)
    (scored : List (StructuralChange × List (DocSection × K))) (result : RetrievalResult K) : Prop :=
  ∀ entry ∈ scored, ∀ pair ∈ entry.2, Qualifies python config entry.1 entry.2 pair →
    Returned result entry.1 pair.1 ∨ entry.1.changeId ∈ result.truncatedChangeIds

instance [DecidableEq K] (scored : List (StructuralChange × List (DocSection × K)))
    (result : RetrievalResult K) : Decidable (NothingLost python config scored result) :=
  inferInstanceAs (Decidable (∀ entry ∈ scored, ∀ pair ∈ entry.2, _ → _ ∨ _))

/-! ### Scores -/

section Scores

variable {changes : List StructuralChange} {sections : List DocSection} {embed : EmbeddingProvider K}
  {scored : List (StructuralChange × List (DocSection × K))}

theorem length_normalizeVectors {width : Option Nat} {index : Nat} {vectors normalized : List (List K)}
    (hok : normalizeVectors python width index vectors = .ok normalized) :
    normalized.length = vectors.length := by
  induction vectors generalizing width index normalized with
  | nil =>
      obtain rfl := Except.ok.inj hok
      rfl
  | cons values vectors ih =>
      rw [normalizeVectors] at hok
      split at hok
      · cases hok
      split at hok
      · cases hok
      split at hok
      · cases hok
      dsimp only at hok
      split at hok
      · cases hok
      obtain ⟨rest, hrest, hok⟩ := Outcome.bind_eq_ok hok
      obtain rfl := Except.ok.inj hok
      rw [List.length_cons, List.length_cons, ih hrest]

/-- Every change has its row, and every section its place in each. -/
theorem scoreChanges_spec (hscored : scoreChanges python embed changes sections = .ok scored) :
    scored.map Prod.fst = changes ∧ ∀ entry ∈ scored, entry.2.map Prod.fst = sections := by
  obtain ⟨vectors, -, hrest⟩ := Outcome.bind_eq_ok hscored
  obtain ⟨normalized, hvalid, hrest⟩ := Outcome.bind_eq_ok hrest
  obtain ⟨rows, hrows, hrest⟩ := Outcome.bind_eq_ok hrest
  obtain rfl := Except.ok.inj hrest
  have hlength : normalized.length = changes.length + sections.length := by
    rw [validateVectors] at hvalid
    split at hvalid
    · cases hvalid
    · rename_i hcount
      rw [length_normalizeVectors hvalid, not_not.mp hcount, List.length_append, List.length_map,
        List.length_map]
  have hcount := Outcome.length_mapM hrows
  rw [List.length_take] at hcount
  refine ⟨List.map_fst_zip (by omega), fun entry hentry => ?_⟩
  obtain ⟨vector, -, hrow⟩ := Outcome.exists_of_mem_mapM hrows (List.of_mem_zip hentry).2
  obtain ⟨scores, hscores, hrow⟩ := Outcome.bind_eq_ok hrow
  have hwidth := Outcome.length_mapM hscores
  rw [List.length_drop] at hwidth
  rw [← Except.ok.inj hrow]
  exact List.map_fst_zip (by omega)

end Scores

/-! ### Candidates -/

section Candidates

variable {change : StructuralChange} {row : List (DocSection × K)} {sectionId : String}

theorem mem_of_mem_bySimilarity {pair : DocSection × K}
    (hpair : pair ∈ upTo config.topK (bySimilarity python row)) : pair ∈ row :=
  (List.perm_insertionSort _ _).mem_iff.mp (List.mem_of_mem_take hpair)

theorem mem_lexicalIds : sectionId ∈ lexicalIds python change row ↔
    ∃ pair ∈ row, pair.1.sectionId = sectionId ∧ hasExactReference python change pair.1 = true := by
  simp only [lexicalIds, List.mem_map, List.mem_filter]
  constructor
  · rintro ⟨s, ⟨⟨pair, hpair, rfl⟩, hexact⟩, rfl⟩
    exact ⟨pair, hpair, rfl, hexact⟩
  · rintro ⟨pair, hpair, rfl, hexact⟩
    exact ⟨pair.1, ⟨⟨pair, hpair, rfl⟩, hexact⟩, rfl⟩

theorem mem_semanticIds :
    sectionId ∈ semanticIds python config.similarityThreshold config.topK row ↔
      ∃ pair ∈ row, pair.1.sectionId = sectionId ∧ pair ∈ upTo config.topK (bySimilarity python row) ∧
        python.le config.similarityThreshold pair.2 = true := by
  simp only [semanticIds, List.mem_map, List.mem_filter]
  constructor
  · rintro ⟨pair, ⟨hfirst, hsimilar⟩, rfl⟩
    exact ⟨pair, mem_of_mem_bySimilarity hfirst, rfl, hfirst, hsimilar⟩
  · rintro ⟨pair, -, rfl, hfirst, hsimilar⟩
    exact ⟨pair, ⟨hfirst, hsimilar⟩, rfl⟩

theorem mem_proposedFor {similarityThreshold : K} {topK : Int} {m : CandidateMatch K} :
    m ∈ proposedFor python similarityThreshold topK change row ↔ ∃ pair ∈ row,
      matchReasons python similarityThreshold topK change row pair.1.sectionId ≠ [] ∧
        m = ⟨change.changeId, pair.1.sectionId, python.round6 pair.2,
          matchReasons python similarityThreshold topK change row pair.1.sectionId⟩ := by
  rw [proposedFor, List.mem_filterMap]
  refine exists_congr fun pair => and_congr_right fun _ => ?_
  dsimp only
  split
  · rename_i hnone
    simp [hnone]
  · rename_i hsome
    simp [hsome, eq_comm]

/-- The candidates for a change are those of sections that qualify. -/
theorem exists_proposedFor_iff :
    (∃ m ∈ proposedFor python config.similarityThreshold config.topK change row, m.sectionId = sectionId) ↔
      ∃ pair ∈ row, pair.1.sectionId = sectionId ∧ Qualifies python config change row pair := by
  have hreasons : matchReasons python config.similarityThreshold config.topK change row sectionId ≠ [] ↔
      ∃ pair ∈ row, pair.1.sectionId = sectionId ∧ Qualifies python config change row pair := by
    have hids : matchReasons python config.similarityThreshold config.topK change row sectionId ≠ [] ↔
        sectionId ∈ lexicalIds python change row ∨
          sectionId ∈ semanticIds python config.similarityThreshold config.topK row := by
      rw [matchReasons]
      split <;> split <;> simp [*]
    rw [hids, mem_lexicalIds, mem_semanticIds, ← exists_or]
    refine exists_congr fun pair => ?_
    rw [Qualifies, ← and_or_left, ← and_or_left]
  rw [← hreasons]
  constructor
  · rintro ⟨m, hm, rfl⟩
    obtain ⟨pair, -, hsome, rfl⟩ := mem_proposedFor.mp hm
    exact hsome
  · intro hsome
    obtain ⟨pair, hpair, rfl, -⟩ := hreasons.mp hsome
    exact ⟨_, mem_proposedFor.mpr ⟨pair, hpair, hsome, rfl⟩, rfl⟩

end Candidates

/-! ### The cap -/

section Selection

variable {maxCandidates : Int} {proposed : List (CandidateMatch K)}

/-- A candidate is dropped only when as many as the cap have been kept. -/
theorem mem_candidates_or_le (python : Python K) (maxCandidates : Int) {m : CandidateMatch K} (hm : m ∈ proposed) :
    m ∈ (selectCandidates python maxCandidates proposed).candidates ∨
      maxCandidates ≤ (selectCandidates python maxCandidates proposed).candidates.length := by
  have hordered : m ∈ proposed.insertionSort fun a b => matchPrecedes python a b :=
    (List.perm_insertionSort _ _).mem_iff.mpr hm
  generalize hl : (proposed.insertionSort fun a b => matchPrecedes python a b) = ordered at hordered
  simp only [selectCandidates, hl, upTo]
  by_cases hnegative : maxCandidates < 0
  · exact .inr (by omega)
  · rw [if_neg hnegative]
    by_cases hall : ordered.length ≤ maxCandidates.toNat
    · rw [List.take_of_length_le hall]
      exact .inl hordered
    · rw [List.length_take]
      exact .inr (by omega)

theorem mem_truncatedChangeIds {changeId : Text} :
    changeId ∈ (selectCandidates python maxCandidates proposed).truncatedChangeIds ↔
      (∃ m ∈ proposed, m.changeId = changeId) ∧
        ∀ m ∈ (selectCandidates python maxCandidates proposed).candidates, m.changeId ≠ changeId := by
  simp only [selectCandidates]
  rw [(List.perm_insertionSort _ _).mem_iff, List.mem_filter, List.mem_dedup, List.mem_map]
  simp only [(List.perm_insertionSort _ proposed).mem_iff, Bool.not_eq_true', List.contains_eq_mem,
    decide_eq_false_iff_not, List.mem_map, not_exists, not_and]

theorem nodup_truncatedChangeIds : (selectCandidates python maxCandidates proposed).truncatedChangeIds.Nodup :=
  (List.perm_insertionSort _ _).nodup_iff.mpr ((List.nodup_dedup _).filter _)

end Selection

section Retrieval

variable {changes : List StructuralChange} {sections : List DocSection} {embed : EmbeddingProvider K}
  {scored : List (StructuralChange × List (DocSection × K))}

/-- What is retrieved, once the sections are scored. -/
def retrieved (python : Python K) (config : HealingConfig K)
    (scored : List (StructuralChange × List (DocSection × K))) : RetrievalResult K :=
  selectCandidates python config.maxCandidates
    (proposedCandidates python config.similarityThreshold config.topK scored)

theorem retrieveCandidates_eq_ok (config : HealingConfig K)
    (hscored : scoreChanges python embed changes sections = .ok scored) :
    retrieveCandidates python embed config.similarityThreshold config.topK config.maxCandidates changes
        sections = .ok (retrieved python config scored) := by
  rw [retrieveCandidates]
  split
  · rename_i hempty
    have hnone : proposedCandidates python config.similarityThreshold config.topK scored = [] := by
      obtain ⟨hchanges, hrows⟩ := scoreChanges_spec hscored
      refine List.flatMap_eq_nil_iff.mpr fun entry hentry => ?_
      obtain rfl | rfl := hempty
      · rw [List.map_eq_nil_iff.mp hchanges] at hentry
        cases hentry
      · rw [List.map_eq_nil_iff.mp (hrows entry hentry)]
        rfl
    rw [retrieved, hnone]
    simp [selectCandidates, upTo]
  · rw [hscored]
    rfl

theorem exists_proposed_iff {changeId : Text} {sectionId : String} :
    (∃ m ∈ proposedCandidates python config.similarityThreshold config.topK scored,
      m.changeId = changeId ∧ m.sectionId = sectionId) ↔
      ∃ entry ∈ scored, entry.1.changeId = changeId ∧ ∃ pair ∈ entry.2, pair.1.sectionId = sectionId ∧
        Qualifies python config entry.1 entry.2 pair := by
  constructor
  · rintro ⟨m, hm, rfl, rfl⟩
    obtain ⟨entry, hentry, hm⟩ := List.mem_flatMap.mp hm
    obtain ⟨pair, hpair, -, hm'⟩ := mem_proposedFor.mp hm
    exact ⟨entry, hentry, by rw [hm'], exists_proposedFor_iff.mp ⟨m, hm, rfl⟩⟩
  · rintro ⟨entry, hentry, rfl, hqualifies⟩
    obtain ⟨m, hm, hsection⟩ := exists_proposedFor_iff.mpr hqualifies
    obtain ⟨pair, -, -, hm'⟩ := mem_proposedFor.mp hm
    exact ⟨m, List.mem_flatMap.mpr ⟨entry, hentry, hm⟩, by rw [hm'], hsection⟩

theorem exists_proposed_of_changeId_iff {changeId : Text} :
    (∃ m ∈ proposedCandidates python config.similarityThreshold config.topK scored,
      m.changeId = changeId) ↔
      ∃ entry ∈ scored, entry.1.changeId = changeId ∧
        ∃ pair ∈ entry.2, Qualifies python config entry.1 entry.2 pair := by
  constructor
  · rintro ⟨m, hm, hchange⟩
    obtain ⟨entry, hentry, hid, pair, hpair, -, hqualifies⟩ :=
      exists_proposed_iff.mp ⟨m, hm, hchange, rfl⟩
    exact ⟨entry, hentry, hid, pair, hpair, hqualifies⟩
  · rintro ⟨entry, hentry, hid, pair, hpair, hqualifies⟩
    obtain ⟨m, hm, hchange, -⟩ := exists_proposed_iff.mpr ⟨entry, hentry, hid, pair, hpair, rfl, hqualifies⟩
    exact ⟨m, hm, hchange⟩

theorem mem_truncated_iff {changeId : Text} :
    changeId ∈ (retrieved python config scored).truncatedChangeIds ↔
      (∃ entry ∈ scored, entry.1.changeId = changeId ∧
        ∃ pair ∈ entry.2, Qualifies python config entry.1 entry.2 pair) ∧
      ∀ m ∈ (retrieved python config scored).candidates, m.changeId ≠ changeId := by
  rw [retrieved, mem_truncatedChangeIds, exists_proposed_of_changeId_iff]

section Entry

variable {entry : StructuralChange × List (DocSection × K)} {pair : DocSection × K}
  (hentry : entry ∈ scored) (hpair : pair ∈ entry.2)
  (hqualifies : Qualifies python config entry.1 entry.2 pair)

include hentry hpair hqualifies

theorem returned_or_le : Returned (retrieved python config scored) entry.1 pair.1 ∨
    config.maxCandidates ≤ (retrieved python config scored).candidates.length := by
  obtain ⟨m, hm, hchange, hsection⟩ :=
    exists_proposed_iff.mpr ⟨entry, hentry, rfl, pair, hpair, rfl, hqualifies⟩
  obtain hkept | hfull := mem_candidates_or_le python config.maxCandidates hm
  · exact .inl ⟨m, hkept, hchange, hsection⟩
  · exact .inr hfull

theorem truncated_or_exists :
    entry.1.changeId ∈ (retrieved python config scored).truncatedChangeIds ∨
      ∃ m ∈ (retrieved python config scored).candidates, m.changeId = entry.1.changeId := by
  by_contra hnone
  obtain ⟨hmissing, hother⟩ := not_or.mp hnone
  push Not at hother
  exact hmissing (mem_truncated_iff.mpr ⟨⟨entry, hentry, rfl, pair, hpair, hqualifies⟩, hother⟩)

end Entry

/-- Nothing is lost exactly if the cap splits no change. -/
theorem nothingLost_iff : NothingLost python config scored (retrieved python config scored) ↔
    ∀ entry ∈ scored, (∃ m ∈ (retrieved python config scored).candidates, m.changeId = entry.1.changeId) →
      ∀ pair ∈ entry.2, Qualifies python config entry.1 entry.2 pair →
        Returned (retrieved python config scored) entry.1 pair.1 := by
  constructor
  · rintro hnothing entry hentry ⟨m, hm, hid⟩ pair hpair hqualifies
    obtain hkept | hleft := hnothing entry hentry pair hpair hqualifies
    · exact hkept
    · exact absurd hid ((mem_truncated_iff.mp hleft).2 m hm)
  · intro hwhole entry hentry pair hpair hqualifies
    obtain hleft | hother := truncated_or_exists hentry hpair hqualifies
    · exact .inr hleft
    · exact .inl (hwhole entry hentry hother pair hpair hqualifies)

/-- What is left out are changes. -/
theorem exists_change_of_truncated {result : RetrievalResult K}
    (hretrieves : retrieveCandidates python embed config.similarityThreshold config.topK
      config.maxCandidates changes sections = .ok result) :
    ∀ changeId ∈ result.truncatedChangeIds, ∃ change ∈ changes, change.changeId = changeId := by
  intro changeId htruncated
  rw [retrieveCandidates] at hretrieves
  split at hretrieves
  · obtain rfl := Except.ok.inj hretrieves
    cases htruncated
  · obtain ⟨scored, hscored, hresult⟩ := Outcome.bind_eq_ok hretrieves
    obtain rfl := Except.ok.inj hresult
    obtain ⟨entry, hentry, hid, -⟩ := (mem_truncated_iff.mp htruncated).1
    refine ⟨entry.1, ?_, hid⟩
    rw [← (scoreChanges_spec hscored).1]
    exact List.mem_map_of_mem hentry

end Retrieval

/-- What is dropped by the cap is reported, unless another candidate of its change is kept. -/
theorem truncation_reported (config : HealingConfig K) (embed : EmbeddingProvider K) (changes : List StructuralChange)
    (sections : List DocSection) {scored : List (StructuralChange × List (DocSection × K))}
    {result : RetrievalResult K} (hscored : scoreChanges python embed changes sections = .ok scored)
    (hretrieves : retrieveCandidates python embed config.similarityThreshold config.topK
      config.maxCandidates changes sections = .ok result) :
    (scored.map Prod.fst = changes ∧ ∀ entry ∈ scored, entry.2.map Prod.fst = sections) ∧
    (∀ entry ∈ scored, ∀ pair ∈ entry.2, Qualifies python config entry.1 entry.2 pair →
      Returned result entry.1 pair.1 ∨ config.maxCandidates ≤ result.candidates.length ∧
        (entry.1.changeId ∈ result.truncatedChangeIds ∨
          ∃ m ∈ result.candidates, m.changeId = entry.1.changeId)) ∧
    (∀ changeId, changeId ∈ result.truncatedChangeIds ↔
      (∃ entry ∈ scored, entry.1.changeId = changeId ∧
        ∃ pair ∈ entry.2, Qualifies python config entry.1 entry.2 pair) ∧
      ∀ m ∈ result.candidates, m.changeId ≠ changeId) ∧
    result.truncatedChangeIds.Nodup ∧
    (NothingLost python config scored result ↔ ∀ entry ∈ scored,
      (∃ m ∈ result.candidates, m.changeId = entry.1.changeId) →
        ∀ pair ∈ entry.2, Qualifies python config entry.1 entry.2 pair → Returned result entry.1 pair.1) ∧
    ∀ (repo : Repository) (repairer : DocRepairProvider K) (documents : List MarkdownDocument)
      (files : String → Text), repo.changes = .ok changes → repo.documents files = .ok documents →
      sectionsOfAll documents = sections → ∀ changeId ∈ result.truncatedChangeIds,
        ∃ change ∈ changes, change.changeId = changeId ∧ reviewTruncated change ∈
          (runAfter (execute python config repo (.ok (embed, repairer)) files)).report.reviewItems := by
  obtain rfl := Except.ok.inj ((retrieveCandidates_eq_ok config hscored).symm.trans hretrieves)
  refine ⟨scoreChanges_spec hscored, fun entry hentry pair hpair hqualifies => ?_,
    fun changeId => mem_truncated_iff, nodup_truncatedChangeIds, nothingLost_iff, ?_⟩
  · obtain hkept | hfull := returned_or_le hentry hpair hqualifies
    · exact .inl hkept
    · exact .inr ⟨hfull, truncated_or_exists hentry hpair hqualifies⟩
  · rintro repo repairer documents files hchanges hdocuments rfl changeId htruncated
    obtain ⟨entry, hentry, -, pair, hpair, -⟩ := (mem_truncated_iff.mp htruncated).1
    obtain ⟨hfirst, hrows⟩ := scoreChanges_spec hscored
    have hchange : entry.1 ∈ changes := hfirst ▸ List.mem_map_of_mem hentry
    have hsection : pair.1 ∈ sectionsOfAll documents := hrows entry hentry ▸ List.mem_map_of_mem hpair
    rw [execute_eq_processRetrieval hchanges (List.ne_nil_of_mem hchange) hdocuments
      (List.ne_nil_of_mem hsection) hretrieves]
    have hprocessed := processRetrieval_spec python config repo repairer documents (.start changes files)
      (exists_change_of_truncated hretrieves)
    exact (holds_runAfter (hprocessed.mono (fun _ h => h) fun _ h => h.1)).truncated changeId htruncated

/-! ### Two constants -/

section Constants

/-- Whole numbers, which do for vectors of ones. -/
def wholeNumbers : Python Int where
  zero := 0
  one := 1
  minusOne := -1
  mul := (· * ·)
  div := (· / ·)
  neg a := -a
  sqrt a := a
  sum values := values.foldl (· + ·) 0
  round6 a := a
  isFinite _ := true
  eq a b := a == b
  lt a b := decide (a < b)
  le a b := decide (a ≤ b)
  format2 a := (toString a).toList ++ ".00".toList
  casefold text := text.map Char.toLower

def constantSource (value : String) : Text :=
  ("BATCH_SIZE = " ++ value ++ "\nPAGE_SIZE = " ++ value ++ "\n").toList

def constantAssign (name value : String) (lineno : Nat) : PyStmt :=
  .assign ⟨[.name name.toList], .other value.toList [], lineno, lineno⟩

def constantModule (value : String) : List PyStmt :=
  [constantAssign "BATCH_SIZE" value 1, constantAssign "PAGE_SIZE" value 2]

def constantFrontend : Frontend where
  parse _ source :=
    if source = constantSource "4" then .ok (constantModule "4")
    else if source = constantSource "8" then .ok (constantModule "8")
    else .error (.syntaxError 1 "invalid syntax".toList)
  unparse node :=
    match node with
    | .name id => .ok id
    | .other tag [] => .ok tag
    | _ => .error "unsupported".toList
  lower text := text.map Char.toLower
  isUpper text := text.any Char.isUpper && !text.any Char.isLower
  sha256 := List.reverse
  goUnits _ _ := .ok []
  composeUnits _ _ := .ok []
  goUnits_language := language_of_none .go
  composeUnits_language := language_of_none .compose

def manual : Text :=
  "# Sizes\nBATCH_SIZE is 4.\n# Pages\nPAGE_SIZE, BATCH_SIZE\n".toList

/-- Both constants go from 4 to 8, and the manual is the only document. -/
def constantRepository : Repository where
  git :=
    { showFile := fun revision _ => .ok (some (constantSource (if revision = ['b'] then "4" else "8")))
      repr := fun text => '\'' :: text ++ ['\''] }
  frontend := constantFrontend
  base := ['b']
  head := ['h']
  nameStatus := .ok "M\tsettings.py\n".toList
  checkout := ⟨fun _ => true, fun _ => false, fun _ => true⟩
  lsFiles := .ok [CQuote.encode "README.md".toList]
  safeMarkdownPath path := .ok ("/repo/" ++ path)
  isUtf8 _ := true
  porcelain files := .ok (if files "/repo/README.md" = manual then [] else " M README.md\n".toList)
  diff _ _ := .ok []

def manualOnly : String → Text := fun _ => manual

def constantChanges : List StructuralChange :=
  match constantRepository.changes with
  | .ok changes => changes
  | .error _ => []

def manuals : List MarkdownDocument := [⟨"README.md", manual, ['\n']⟩]

/-- All texts are alike. -/
def embedAlike : EmbeddingProvider Int := fun texts => .ok (texts.map fun _ => [1])

def cappedConfig (maxCandidates : Int) : HealingConfig Int where
  apply := true
  similarityThreshold := 1
  confidenceThreshold := 1
  topK := 1
  maxCandidates := maxCandidates
  maxSectionChars := 1000

/-- Nothing is stale. -/
def contentRepairer : DocRepairProvider Int where
  assess _ _ _ := .ok ⟨false, 1, .bounded, "accurate".toList, []⟩
  propose _ _ _ _ _ := .error ⟨"ProviderError", []⟩
  validate _ _ _ _ _ _ := .error ⟨"ProviderError", []⟩

def constantScores : List (StructuralChange × List (DocSection × Int)) :=
  constantChanges.map fun change => (change, (sectionsOfAll manuals).map fun s => (s, 1))

theorem constantRepository_spec :
    constantRepository.changes = .ok constantChanges ∧ constantRepository.documents manualOnly = .ok manuals ∧
      scoreChanges wholeNumbers embedAlike constantChanges (sectionsOfAll manuals) = .ok constantScores := by
  decide +kernel

def cappedResult (maxCandidates : Int) : RetrievalResult Int :=
  retrieved wholeNumbers (cappedConfig maxCandidates) constantScores

/-- The change that goes without a candidate, if one is kept. -/
def batchSizeId : Text := (cappedResult 1).truncatedChangeIds.flatten

theorem truncation_reported_constants : ∃ change ∈ constantChanges, change.changeId = batchSizeId ∧
    reviewTruncated change ∈ (runAfter (execute wholeNumbers (cappedConfig 1) constantRepository
      (.ok (embedAlike, contentRepairer)) manualOnly)).report.reviewItems := by
  obtain ⟨hchanges, hdocuments, hscored⟩ := constantRepository_spec
  have hretrieves := retrieveCandidates_eq_ok (cappedConfig 1) hscored
  have hleft : batchSizeId ∈ (retrieved wholeNumbers (cappedConfig 1) constantScores).truncatedChangeIds := by
    decide +kernel
  obtain ⟨-, -, -, -, -, hreported⟩ := truncation_reported (cappedConfig 1) embedAlike constantChanges
    (sectionsOfAll manuals) hscored hretrieves
  exact hreported constantRepository contentRepairer manuals manualOnly hchanges hdocuments rfl batchSizeId
    hleft

/-- Two candidates are kept, both for the section on pages. The section on sizes refers to `BATCH_SIZE` too,
and nothing of the run says that it has not been looked at. -/
theorem lost_of_split_change :
    scoreChanges wholeNumbers embedAlike constantChanges (sectionsOfAll manuals) = .ok constantScores ∧
      retrieveCandidates wholeNumbers embedAlike (cappedConfig 2).similarityThreshold
          (cappedConfig 2).topK (cappedConfig 2).maxCandidates constantChanges (sectionsOfAll manuals) =
        .ok (cappedResult 2) ∧
      ¬ NothingLost wholeNumbers (cappedConfig 2) constantScores (cappedResult 2) ∧
      (runAfter (execute wholeNumbers (cappedConfig 2) constantRepository
        (.ok (embedAlike, contentRepairer)) manualOnly)).report.reviewItems.length = 0 := by
  have hscored := constantRepository_spec.2.2
  exact ⟨hscored, retrieveCandidates_eq_ok (cappedConfig 2) hscored, by decide +kernel,
    by decide +kernel⟩

end Constants

end CoreMesh.SelfHealingDocs
