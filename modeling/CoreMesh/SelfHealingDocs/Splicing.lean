import CoreMesh.Lib.Except
import CoreMesh.SelfHealingDocs.Outline

/-!
# Splicing replacements into a document

Replacing bodies from the end of a document to its beginning replaces them all at once: each one is
where its section says as long as only later ones have been replaced.
-/

namespace CoreMesh.SelfHealingDocs

/-- The text of blocks with these bodies. -/
def weave : List Block → List Text → Text
  | block :: blocks, body :: bodies => block.line ++ body ++ weave blocks bodies
  | _, _ => []

theorem flatten_outline (fence : Fence) (lines : List Text) :
    (outline fence lines).1.flatten ++
      weave (outline fence lines).2 ((outline fence lines).2.map Block.bodyText) = lines.flatten := by
  induction lines generalizing fence with
  | nil => rfl
  | cons line lines ih =>
      cases hline : headingAt fence line with
      | some heading =>
          rw [outline_of_heading lines hline, List.flatten_cons, ← ih none]
          simp only [List.map_cons, weave, Block.bodyText, List.flatten_nil, List.nil_append,
            List.append_assoc]
      | none =>
          rw [outline_of_text lines hline, List.flatten_cons, List.flatten_cons, List.append_assoc, ih]

theorem heading_of_mem_outline {fence : Fence} {lines : List Text} {block : Block}
    (hblock : block ∈ (outline fence lines).2) :
    ∃ text, headingMatch block.line = some (block.level, text) := by
  induction lines generalizing fence with
  | nil => cases hblock
  | cons line lines ih =>
      cases hline : headingAt fence line with
      | some heading =>
          rw [outline_of_heading lines hline] at hblock
          obtain rfl | hrest := List.mem_cons.mp hblock
          · exact ⟨_, (headingAt_eq_some_iff.mp hline).2.2⟩
          · exact ih hrest
      | none =>
          rw [outline_of_text lines hline] at hblock
          exact ih hblock

/-- A heading begins with a blank or a number sign. -/
theorem head_of_heading {line : Text} {heading : Nat × Text}
    (hheading : headingMatch line = some heading) : line.head? = some ' ' ∨ line.head? = some '#' := by
  cases line with
  | nil => cases hheading
  | cons c rest =>
      by_cases hblank : c = ' '
      · exact .inl (congrArg some hblank)
      · refine .inr (congrArg some ?_)
        by_contra hsign
        simp [headingMatch, indented, hblank, hsign] at hheading

theorem ne_nil_of_heading {line : Text} {heading : Nat × Text}
    (hheading : headingMatch line = some heading) : line ≠ [] := by
  rintro rfl
  cases head_of_heading hheading with
  | inl h => cases h
  | inr h => cases h

/-! ### Where the sections are -/

section Sections

variable {document : MarkdownDocument}

theorem le_bodyStart {stack : List Text} {offset ordinal : Nat} {blocks : List Block}
    (hlines : ∀ block ∈ blocks, block.line ≠ []) {s : DocSection}
    (hs : s ∈ sectionsOf document stack offset ordinal blocks) : offset < s.bodyStart := by
  induction blocks generalizing stack offset ordinal with
  | nil => cases hs
  | cons block blocks ih =>
      have hpos := List.length_pos_iff.mpr (hlines block List.mem_cons_self)
      obtain rfl | hrest := List.mem_cons.mp hs
      · show offset < offset + block.line.length
        omega
      · have hlater := ih (fun b hb => hlines b (List.mem_cons_of_mem _ hb)) hrest
        omega

theorem pairwise_bodyStart {stack : List Text} {offset ordinal : Nat} {blocks : List Block}
    (hlines : ∀ block ∈ blocks, block.line ≠ []) :
    (sectionsOf document stack offset ordinal blocks).Pairwise
      fun s s' => s.bodyStart < s'.bodyStart := by
  induction blocks generalizing stack offset ordinal with
  | nil => exact .nil
  | cons block blocks ih =>
      have hrest : ∀ b ∈ blocks, b.line ≠ [] := fun b hb => hlines b (List.mem_cons_of_mem _ hb)
      refine List.pairwise_cons.mpr ⟨fun s hs => ?_, ih hrest⟩
      have hlater := le_bodyStart hrest hs
      show offset + block.line.length < s.bodyStart
      omega

/-- The blocks make up the document from an offset on. -/
def Located (document : MarkdownDocument) (front : Text) (blocks : List Block) : Prop :=
  document.text = front ++ weave blocks (blocks.map Block.bodyText)

theorem Located.tail {front : Text} {block : Block} {blocks : List Block}
    (hlocated : Located document front (block :: blocks)) :
    Located document (front ++ block.line ++ block.bodyText) blocks := by
  rw [Located] at hlocated ⊢
  rw [hlocated, List.map_cons, weave]
  simp only [List.append_assoc]

theorem Located.body {front : Text} {block : Block} {blocks : List Block}
    (hlocated : Located document front (block :: blocks)) (stack : List Text) (ordinal : Nat) :
    (makeSection document (block.pending stack front.length ordinal)
      (front.length + block.line.length + block.bodyText.length)).body = block.bodyText := by
  have hlength : (front ++ block.line ++ block.bodyText).length =
      front.length + block.line.length + block.bodyText.length := by
    rw [List.length_append, List.length_append]
  show (document.text.take _).drop (front.length + block.line.length) = block.bodyText
  rw [hlocated.tail, List.take_left' hlength, List.drop_left' List.length_append]

theorem map_body_sectionsOf {front : Text} {stack : List Text} {ordinal : Nat} {blocks : List Block}
    (hlocated : Located document front blocks) :
    (sectionsOf document stack front.length ordinal blocks).map DocSection.body =
      blocks.map Block.bodyText := by
  induction blocks generalizing front stack ordinal with
  | nil => rfl
  | cons block blocks ih =>
      have hrest := @ih _ (enter stack block.level block.heading) (ordinal + 1) hlocated.tail
      rw [List.length_append, List.length_append] at hrest
      rw [sectionsOf, List.map_cons, List.map_cons, hlocated.body, hrest]

/-- One body is replaced where all bodies up to it are in place. -/
theorem splice_weave {front : Text} {stack : List Text} {ordinal : Nat} {blocks : List Block}
    (hlocated : Located document front blocks) (hlines : ∀ block ∈ blocks, block.line ≠ [])
    {f g : DocSection → Text} {s : DocSection}
    (hs : s ∈ sectionsOf document stack front.length ordinal blocks)
    (hf : ∀ s' ∈ sectionsOf document stack front.length ordinal blocks,
      s'.bodyStart ≤ s.bodyStart → f s' = s'.body)
    (hg : ∀ s' ∈ sectionsOf document stack front.length ordinal blocks, s' ≠ s → g s' = f s') :
    (front ++ weave blocks ((sectionsOf document stack front.length ordinal blocks).map f)).take
        s.bodyStart ++ g s ++
      (front ++ weave blocks ((sectionsOf document stack front.length ordinal blocks).map f)).drop
        s.bodyEnd =
      front ++ weave blocks ((sectionsOf document stack front.length ordinal blocks).map g) := by
  induction blocks generalizing front stack ordinal with
  | nil => cases hs
  | cons block blocks ih =>
      have hlater : ∀ b ∈ blocks, b.line ≠ [] := fun b hb => hlines b (List.mem_cons_of_mem _ hb)
      have hlength : (front ++ block.line ++ block.bodyText).length =
          front.length + block.line.length + block.bodyText.length := by
        rw [List.length_append, List.length_append]
      have hstarts : ∀ s' ∈ sectionsOf document (enter stack block.level block.heading)
          (front.length + block.line.length + block.bodyText.length) (ordinal + 1) blocks,
          front.length + block.line.length < s'.bodyStart := by
        intro s' hs'
        have hstart := le_bodyStart hlater hs'
        omega
      have hown := hlocated.body stack ordinal
      rw [sectionsOf] at hs hf hg ⊢
      rw [List.map_cons, List.map_cons, weave, weave]
      obtain rfl | hrest := List.mem_cons.mp hs
      · have hsame : ∀ s' ∈ sectionsOf document (enter stack block.level block.heading)
            (front.length + block.line.length + block.bodyText.length) (ordinal + 1) blocks,
            f s' = g s' := by
          intro s' hs'
          refine (hg s' (List.mem_cons_of_mem _ hs') ?_).symm
          rintro rfl
          exact lt_irrefl _ (hstarts _ hs')
        rw [hf _ List.mem_cons_self (le_refl _), hown, List.map_congr_left hsame]
        have hbefore : (front ++ block.line).length = front.length + block.line.length :=
          List.length_append
        show List.take (front.length + block.line.length) _ ++ _ ++
          List.drop (front.length + block.line.length + block.bodyText.length) _ = _
        rw [← List.append_assoc front, ← List.append_assoc front, List.drop_left' hlength,
          List.append_assoc (front ++ block.line), List.take_left' hbefore]
        simp only [List.append_assoc]
      · have hbefore := hstarts s hrest
        have hfirst : f (makeSection document (block.pending stack front.length ordinal)
            (front.length + block.line.length + block.bodyText.length)) = block.bodyText :=
          (hf _ List.mem_cons_self (le_of_lt hbefore)).trans hown
        have hkept : g (makeSection document (block.pending stack front.length ordinal)
            (front.length + block.line.length + block.bodyText.length)) = block.bodyText := by
          refine (hg _ List.mem_cons_self ?_).trans hfirst
          rintro rfl
          exact lt_irrefl _ hbefore
        have hspliced := @ih _ (enter stack block.level block.heading) (ordinal + 1) hlocated.tail hlater
          (by rw [hlength]; exact hrest)
          (by rw [hlength]; exact fun s' hs' => hf s' (List.mem_cons_of_mem _ hs'))
          (by rw [hlength]; exact fun s' hs' => hg s' (List.mem_cons_of_mem _ hs'))
        rw [hlength] at hspliced
        rw [hfirst, hkept, ← List.append_assoc front, ← List.append_assoc front, hspliced]
        simp only [List.append_assoc]

end Sections

/-! ### Documents with other bodies -/

section Document

variable (document : MarkdownDocument)

def preamble : Text := (outline none (splitlines document.text)).1.flatten

def blocksOf : List Block := (outline none (splitlines document.text)).2

/-- The document with another body for each section. -/
def withBodies (f : DocSection → Text) : Text :=
  preamble document ++ weave (blocksOf document) ((splitMarkdownDocument document).map f)

theorem sectionsOf_blocksOf :
    splitMarkdownDocument document =
      sectionsOf document [] (preamble document).length 0 (blocksOf document) :=
  splitMarkdownDocument_eq document

theorem located_blocksOf : Located document (preamble document) (blocksOf document) := by
  rw [Located, preamble, blocksOf, flatten_outline, splitlines, Lines.flatten_split]

theorem line_ne_nil : ∀ block ∈ blocksOf document, block.line ≠ [] := by
  intro block hblock
  obtain ⟨text, hheading⟩ := heading_of_mem_outline hblock
  exact ne_nil_of_heading hheading

theorem map_body : (splitMarkdownDocument document).map DocSection.body =
    (blocksOf document).map Block.bodyText := by
  rw [sectionsOf_blocksOf, map_body_sectionsOf (located_blocksOf document)]

theorem withBodies_body : withBodies document DocSection.body = document.text := by
  rw [withBodies, map_body]
  exact (located_blocksOf document).symm

variable {document}

theorem pairwise_split : (splitMarkdownDocument document).Pairwise
    fun s s' => s.bodyStart < s'.bodyStart := by
  rw [sectionsOf_blocksOf]
  exact pairwise_bodyStart (line_ne_nil document)

/-- A section is known by where its body starts. -/
theorem eq_of_bodyStart {s s' : DocSection} (hs : s ∈ splitMarkdownDocument document)
    (hs' : s' ∈ splitMarkdownDocument document) (hstart : s.bodyStart = s'.bodyStart) : s = s' := by
  have hnodup : ((splitMarkdownDocument document).map DocSection.bodyStart).Nodup :=
    List.pairwise_map.mpr (pairwise_split.imp ne_of_lt)
  exact List.inj_on_of_nodup_map hnodup hs hs' hstart

theorem splice_withBodies {f g : DocSection → Text} {s : DocSection}
    (hs : s ∈ splitMarkdownDocument document)
    (hf : ∀ s' ∈ splitMarkdownDocument document, s'.bodyStart ≤ s.bodyStart → f s' = s'.body)
    (hg : ∀ s' ∈ splitMarkdownDocument document, s' ≠ s → g s' = f s') :
    (withBodies document f).take s.bodyStart ++ g s ++ (withBodies document f).drop s.bodyEnd =
      withBodies document g := by
  rw [sectionsOf_blocksOf] at hs hf hg
  rw [withBodies, withBodies, sectionsOf_blocksOf]
  exact splice_weave (located_blocksOf document) (line_ne_nil document) hs hf hg

end Document

/-- The body of a section once the replacements are in place. -/
def bodyAfter (replacements : List PendingReplacement) (s : DocSection) : Text :=
  match replacements.find? fun replacement => replacement.docSection == s with
  | some replacement => replacement.replacementBody
  | none => s.body

theorem bodyAfter_cons (replacement : PendingReplacement) (replacements : List PendingReplacement)
    (s : DocSection) :
    bodyAfter (replacement :: replacements) s =
      if replacement.docSection = s then replacement.replacementBody else bodyAfter replacements s := by
  rw [bodyAfter, List.find?_cons]
  by_cases hs : replacement.docSection = s
  · simp [hs]
  · have hskip : (replacement.docSection == s) = false := beq_eq_false_iff_ne.mpr hs
    rw [hskip, if_neg hs]
    rfl

theorem bodyAfter_of_forall_ne {replacements : List PendingReplacement} {s : DocSection}
    (hne : ∀ replacement ∈ replacements, replacement.docSection ≠ s) :
    bodyAfter replacements s = s.body := by
  rw [bodyAfter, List.find?_eq_none.mpr fun replacement hmem => by simpa using hne replacement hmem]

theorem bodyAfter_of_mem {replacements : List PendingReplacement} {replacement : PendingReplacement}
    (hnodup : (replacements.map PendingReplacement.docSection).Nodup)
    (hmem : replacement ∈ replacements) :
    bodyAfter replacements replacement.docSection = replacement.replacementBody := by
  induction replacements with
  | nil => cases hmem
  | cons first rest ih =>
      rw [List.map_cons, List.nodup_cons] at hnodup
      rw [bodyAfter_cons]
      obtain rfl | hrest := List.mem_cons.mp hmem
      · exact if_pos rfl
      · rw [if_neg, ih hnodup.2 hrest]
        intro heq
        exact hnodup.1 (heq ▸ List.mem_map_of_mem hrest)

theorem bodyAfter_concat_self {replacements : List PendingReplacement} {next : PendingReplacement}
    (hfresh : ∀ replacement ∈ replacements, replacement.docSection ≠ next.docSection) :
    bodyAfter (replacements ++ [next]) next.docSection = next.replacementBody := by
  have hnone : replacements.find? (fun replacement => replacement.docSection == next.docSection) =
      none := List.find?_eq_none.mpr fun replacement hmem => by simpa using hfresh replacement hmem
  simp [bodyAfter, List.find?_append, hnone]

theorem bodyAfter_concat_of_ne {replacements : List PendingReplacement} {next : PendingReplacement}
    {s : DocSection} (hne : next.docSection ≠ s) :
    bodyAfter (replacements ++ [next]) s = bodyAfter replacements s := by
  simp [bodyAfter, List.find?_append, hne]

theorem bodyAfter_congr {replacements replacements' : List PendingReplacement} {s : DocSection}
    (hnodup : (replacements.map PendingReplacement.docSection).Nodup)
    (hnodup' : (replacements'.map PendingReplacement.docSection).Nodup)
    (hmem : ∀ replacement, replacement.docSection = s →
      (replacement ∈ replacements ↔ replacement ∈ replacements')) :
    bodyAfter replacements s = bodyAfter replacements' s := by
  by_cases hreplaced : ∃ replacement ∈ replacements, replacement.docSection = s
  · obtain ⟨replacement, hin, rfl⟩ := hreplaced
    rw [bodyAfter_of_mem hnodup hin, bodyAfter_of_mem hnodup' ((hmem replacement rfl).mp hin)]
  · push Not at hreplaced
    rw [bodyAfter_of_forall_ne hreplaced, bodyAfter_of_forall_ne]
    intro replacement hin heq
    exact hreplaced replacement ((hmem replacement heq).mpr hin) heq

/-! ### What the code makes of it -/

theorem validateNonOverlapping_spec {seen : List String} {previousEnd : Int}
    {replacements : List PendingReplacement}
    (hvalid : validateNonOverlapping seen previousEnd replacements = .ok ()) :
    (replacements.map PendingReplacement.docSection).Nodup ∧
      ∀ replacement ∈ replacements, replacement.docSection.sectionId ∉ seen := by
  induction replacements generalizing seen previousEnd with
  | nil => exact ⟨.nil, fun replacement hmem => by cases hmem⟩
  | cons first rest ih =>
      rw [validateNonOverlapping] at hvalid
      split at hvalid
      · cases hvalid
      · split at hvalid
        · cases hvalid
        · rename_i hfresh _
          obtain ⟨hnodup, hseen⟩ := ih hvalid
          rw [List.contains_iff_mem] at hfresh
          refine ⟨List.nodup_cons.mpr ⟨fun hagain => ?_, hnodup⟩, ?_⟩
          · obtain ⟨replacement, hmem, heq⟩ := List.mem_map.mp hagain
            exact hseen replacement hmem (by rw [heq]; exact List.mem_cons_self)
          · intro replacement hmem
            obtain rfl | hrest := List.mem_cons.mp hmem
            · exact hfresh
            · exact fun hin => hseen replacement hrest (List.mem_cons_of_mem _ hin)

theorem splice_eq_ok {text text' : Text} {replacement : PendingReplacement}
    (hsplice : splice text replacement = .ok text') :
    text' = text.take replacement.docSection.bodyStart ++ replacement.replacementBody ++
      text.drop replacement.docSection.bodyEnd := by
  rw [splice] at hsplice
  split at hsplice
  · cases hsplice
  · exact (Except.ok.inj hsplice).symm

variable {document : MarkdownDocument}

/-- What has been replaced behind a section leaves the sections up to it alone. -/
theorem bodyAfter_of_later {done : List PendingReplacement} {s s' : DocSection}
    (hlater : ∀ earlier ∈ done, s.bodyStart < earlier.docSection.bodyStart)
    (hstart : s'.bodyStart ≤ s.bodyStart) : bodyAfter done s' = s'.body := by
  refine bodyAfter_of_forall_ne fun earlier hearlier heq => ?_
  have hbehind := hlater earlier hearlier
  rw [heq] at hbehind
  omega

theorem splice_bodyAfter {done : List PendingReplacement} {next : PendingReplacement}
    (hnext : next.docSection ∈ splitMarkdownDocument document)
    (hlater : ∀ earlier ∈ done, next.docSection.bodyStart < earlier.docSection.bodyStart) :
    (withBodies document (bodyAfter done)).take next.docSection.bodyStart ++ next.replacementBody ++
        (withBodies document (bodyAfter done)).drop next.docSection.bodyEnd =
      withBodies document (bodyAfter (done ++ [next])) := by
  have hfresh : ∀ earlier ∈ done, earlier.docSection ≠ next.docSection := by
    intro earlier hearlier heq
    have hstart := hlater earlier hearlier
    rw [heq] at hstart
    exact lt_irrefl _ hstart
  rw [← bodyAfter_concat_self hfresh]
  exact splice_withBodies hnext (fun s _ hs => bodyAfter_of_later hlater hs)
    fun s _ hne => bodyAfter_concat_of_ne hne.symm

/-- From the end to the beginning, what has been replaced is behind what will be. -/
theorem foldlM_splice {replacements : List PendingReplacement} {text : Text}
    (hsections : ∀ replacement ∈ replacements,
      replacement.docSection ∈ splitMarkdownDocument document)
    (hsorted : replacements.Pairwise fun a b => b.docSection.bodyStart < a.docSection.bodyStart)
    (hsplices : replacements.foldlM splice document.text = .ok text) :
    text = withBodies document (bodyAfter replacements) := by
  refine Outcome.foldlM_eq_ok (fun done text => text = withBodies document (bodyAfter done))
    (withBodies_body document).symm ?_ hsplices
  rintro done next rest text text' rfl rfl hsplice
  have hlater : ∀ earlier ∈ done, next.docSection.bodyStart < earlier.docSection.bodyStart :=
    fun earlier hearlier =>
      (List.pairwise_append.mp hsorted).2.2 earlier hearlier next List.mem_cons_self
  rw [splice_eq_ok hsplice]
  exact splice_bodyAfter (hsections next (List.mem_append_right _ List.mem_cons_self)) hlater

/-- The order in which bodies are replaced. -/
def fromEnd (a b : PendingReplacement) : Prop := b.docSection.bodyStart ≤ a.docSection.bodyStart

instance : DecidableRel fromEnd := fun _ _ => inferInstanceAs (Decidable (_ ≤ _))

instance : Std.Total fromEnd := ⟨fun _ _ => le_total _ _⟩

instance : IsTrans PendingReplacement fromEnd := ⟨fun _ _ _ hab hbc => le_trans hbc hab⟩

theorem pairwise_fromEnd {replacements : List PendingReplacement}
    (hsections : ∀ replacement ∈ replacements,
      replacement.docSection ∈ splitMarkdownDocument document)
    (hnodup : (replacements.map PendingReplacement.docSection).Nodup) :
    (replacements.insertionSort fromEnd).Pairwise
      fun a b => b.docSection.bodyStart < a.docSection.bodyStart := by
  have hperm := List.perm_insertionSort fromEnd replacements
  have hdistinct : (replacements.insertionSort fromEnd).Pairwise
      fun a b => a.docSection ≠ b.docSection :=
    List.pairwise_map.mp ((hperm.map PendingReplacement.docSection).nodup_iff.mpr hnodup)
  refine List.Pairwise.imp_of_mem ?_ ((List.pairwise_insertionSort fromEnd replacements).and hdistinct)
  rintro a b ha hb ⟨hle, hne⟩
  refine lt_of_le_of_ne hle fun heq => hne ?_
  exact (eq_of_bodyStart (hsections b (hperm.mem_iff.mp hb)) (hsections a (hperm.mem_iff.mp ha)) heq).symm

/-- Replaced one after another, the bodies of different sections are all in place. -/
theorem eq_withBodies_of_splices {replacements : List PendingReplacement} {text : Text}
    (hsections : ∀ replacement ∈ replacements,
      replacement.docSection ∈ splitMarkdownDocument document)
    (hnodup : (replacements.map PendingReplacement.docSection).Nodup)
    (hsplices : (replacements.insertionSort fromEnd).foldlM splice document.text = .ok text) :
    text = withBodies document (bodyAfter replacements) := by
  have hperm := List.perm_insertionSort fromEnd replacements
  have hsections' : ∀ replacement ∈ replacements.insertionSort fromEnd,
      replacement.docSection ∈ splitMarkdownDocument document :=
    fun replacement hmem => hsections replacement (hperm.mem_iff.mp hmem)
  rw [foldlM_splice hsections' (pairwise_fromEnd hsections hnodup) hsplices, withBodies, withBodies]
  congr 2
  exact List.map_congr_left fun s _ =>
    bodyAfter_congr ((hperm.map _).nodup_iff.mpr hnodup) hnodup fun replacement _ => hperm.mem_iff

theorem repair_eq_ok {relativePath : String} {replacements : List PendingReplacement} {text : Text}
    (hrepair : repair relativePath document replacements = .ok text) :
    validateNonOverlapping [] (-1) (replacements.insertionSort
        fun a b => a.docSection.bodyStart ≤ b.docSection.bodyStart) = .ok () ∧
      (replacements.insertionSort fromEnd).foldlM splice document.text = .ok text ∧
      headingSignature (splitMarkdownDocument { document with text := text }) =
        headingSignature (splitMarkdownDocument document) := by
  obtain ⟨_, hvalid, hrest⟩ := Outcome.bind_eq_ok hrepair
  obtain ⟨spliced, hsplices, hsame⟩ := Outcome.bind_eq_ok hrest
  by_cases hsignature : headingSignature (splitMarkdownDocument { document with text := spliced }) =
      headingSignature (splitMarkdownDocument document)
  · rw [if_neg (not_not.mpr hsignature)] at hsame
    obtain rfl := Except.ok.inj hsame
    exact ⟨hvalid, hsplices, hsignature⟩
  · rw [if_pos hsignature] at hsame
    cases hsame

/-- A file's new text has the replacements in it, each section at most once, and the same headings. -/
theorem repair_spec {relativePath : String} {replacements : List PendingReplacement} {text : Text}
    (hsections : ∀ replacement ∈ replacements,
      replacement.docSection ∈ splitMarkdownDocument document)
    (hrepair : repair relativePath document replacements = .ok text) :
    (replacements.map PendingReplacement.docSection).Nodup ∧
      text = withBodies document (bodyAfter replacements) ∧
      headingSignature (splitMarkdownDocument { document with text := text }) =
        headingSignature (splitMarkdownDocument document) := by
  obtain ⟨hvalid, hsplices, hsignature⟩ := repair_eq_ok hrepair
  have hnodup : (replacements.map PendingReplacement.docSection).Nodup :=
    ((List.perm_insertionSort _ replacements).map _).nodup_iff.mp (validateNonOverlapping_spec hvalid).1
  exact ⟨hnodup, eq_withBodies_of_splices hsections hnodup hsplices, hsignature⟩

/-! ### The files -/

section Files

variable {safeMarkdownPath : String → Except Error String}
  {documents : String → Option MarkdownDocument}

theorem prepareFile_spec {prepared prepared' : List PreparedWrite} {path : String}
    {replacements : List PendingReplacement}
    (hprepare : prepareFile safeMarkdownPath documents prepared path replacements = .ok prepared') :
    ∃ document text, documents path = some document ∧ repair path document replacements = .ok text ∧
      ((text = document.text ∧ prepared' = prepared) ∨
        (text ≠ document.text ∧ ∃ absolute, safeMarkdownPath path = .ok absolute ∧
          prepared' = prepared ++ [⟨path, absolute, text⟩])) := by
  rw [prepareFile] at hprepare
  cases hdocument : documents path with
  | none =>
      rw [hdocument] at hprepare
      cases hprepare
  | some document =>
      rw [hdocument] at hprepare
      obtain ⟨text, hrepair, hrest⟩ := Outcome.bind_eq_ok hprepare
      refine ⟨document, text, rfl, hrepair, ?_⟩
      by_cases hsame : text = document.text
      · rw [if_pos hsame] at hrest
        exact .inl ⟨hsame, (Except.ok.inj hrest).symm⟩
      · rw [if_neg hsame] at hrest
        obtain ⟨absolute, hsafe, hprepared⟩ := Outcome.bind_eq_ok hrest
        exact .inr ⟨hsame, absolute, hsafe, (Except.ok.inj hprepared).symm⟩

/-- The replacements of a file. -/
def inFile (replacements : List PendingReplacement) (path : String) : List PendingReplacement :=
  replacements.filter fun replacement => replacement.docSection.path == path

/-- A file that is written is as it has been repaired. -/
def Repaired (documents : String → Option MarkdownDocument) (replacements : List PendingReplacement)
    (write : PreparedWrite) : Prop :=
  ∃ document, documents write.relativePath = some document ∧
    repair write.relativePath document (inFile replacements write.relativePath) = .ok write.text ∧
    write.text ≠ document.text

/-- The writes once the files at these paths have been gone through. -/
structure Progress (documents : String → Option MarkdownDocument)
    (replacements : List PendingReplacement) (paths : List String)
    (prepared : List PreparedWrite) : Prop where
  files : ∀ path ∈ paths, ∃ document text, documents path = some document ∧
    repair path document (inFile replacements path) = .ok text ∧
    (text ≠ document.text → ∃ absolute, ⟨path, absolute, text⟩ ∈ prepared)
  writes : ∀ write ∈ prepared, Repaired documents replacements write ∧ write.relativePath ∈ paths

theorem Progress.step {replacements : List PendingReplacement} {paths : List String} {path : String}
    {prepared prepared' : List PreparedWrite}
    (hprogress : Progress documents replacements paths prepared)
    (hprepare : prepareFile safeMarkdownPath documents prepared path (inFile replacements path) =
      .ok prepared') : Progress documents replacements (paths ++ [path]) prepared' := by
  obtain ⟨document, text, hdocument, hrepair, ⟨hsame, rfl⟩ | ⟨hchanged, absolute, -, rfl⟩⟩ :=
    prepareFile_spec hprepare
  · refine ⟨fun path' hpath' => ?_, fun write hwrite => ?_⟩
    · obtain hdone | hpath := List.mem_append.mp hpath'
      · exact hprogress.files path' hdone
      · obtain rfl := List.mem_singleton.mp hpath
        exact ⟨document, text, hdocument, hrepair, fun hchanged => absurd hsame hchanged⟩
    · obtain ⟨hrepaired, hdone⟩ := hprogress.writes write hwrite
      exact ⟨hrepaired, List.mem_append_left _ hdone⟩
  · refine ⟨fun path' hpath' => ?_, fun write hwrite => ?_⟩
    · obtain hdone | hpath := List.mem_append.mp hpath'
      · obtain ⟨document', text', hdocument', hrepair', hwritten⟩ := hprogress.files path' hdone
        refine ⟨document', text', hdocument', hrepair', fun hchanged' => ?_⟩
        obtain ⟨absolute', hin⟩ := hwritten hchanged'
        exact ⟨absolute', List.mem_append_left _ hin⟩
      · obtain rfl := List.mem_singleton.mp hpath
        exact ⟨document, text, hdocument, hrepair, fun _ =>
          ⟨absolute, List.mem_append_right _ List.mem_cons_self⟩⟩
    · obtain hearlier | hnew := List.mem_append.mp hwrite
      · obtain ⟨hrepaired, hdone⟩ := hprogress.writes write hearlier
        exact ⟨hrepaired, List.mem_append_left _ hdone⟩
      · obtain rfl := List.mem_singleton.mp hnew
        exact ⟨⟨document, hdocument, hrepair, hchanged⟩, List.mem_append_right _ List.mem_cons_self⟩

theorem prepare_spec {replacements : List PendingReplacement} {prepared : List PreparedWrite}
    (hprepare : prepare safeMarkdownPath documents replacements = .ok prepared) :
    Progress documents replacements ((replacements.map fun replacement =>
      replacement.docSection.path).dedup.insertionSort (· ≤ ·)) prepared := by
  have hstart : Progress documents replacements [] [] :=
    ⟨fun path hpath => (List.not_mem_nil hpath).elim, fun write hwrite => (List.not_mem_nil hwrite).elim⟩
  exact Outcome.foldlM_eq_ok (Progress documents replacements) hstart
    (fun done path rest prepared prepared' _ hprogress hstep => hprogress.step hstep) hprepare

/-- A file is written where its path leads. -/
theorem absolute_of_prepare {replacements : List PendingReplacement} {prepared : List PreparedWrite}
    (hprepare : prepare safeMarkdownPath documents replacements = .ok prepared) :
    ∀ write ∈ prepared, safeMarkdownPath write.relativePath = .ok write.absolute := by
  refine Outcome.foldlM_eq_ok (fun _ prepared => ∀ write ∈ prepared,
    safeMarkdownPath write.relativePath = .ok write.absolute)
    (fun write hwrite => (List.not_mem_nil hwrite).elim) ?_ hprepare
  intro done path rest prepared prepared' _ hbefore hstep
  obtain ⟨document, text, -, -, ⟨-, rfl⟩ | ⟨-, absolute, hsafe, rfl⟩⟩ := prepareFile_spec hstep
  · exact hbefore
  · intro write hwrite
    obtain hearlier | hnew := List.mem_append.mp hwrite
    · exact hbefore write hearlier
    · obtain rfl := List.mem_singleton.mp hnew
      exact hsafe

/-- A file is as it was, or as it has been written. -/
theorem foldl_write_cases (prepared : List PreparedWrite) (files : String → Text) (file : String) :
    prepared.foldl (fun files write path => if path = write.absolute then write.text else files path)
        files file = files file ∨
      ∃ write ∈ prepared, write.absolute = file ∧
        prepared.foldl (fun files write path => if path = write.absolute then write.text else files path)
          files file = write.text := by
  induction prepared generalizing files with
  | nil => exact .inl rfl
  | cons first prepared ih =>
      rw [List.foldl_cons]
      obtain hsame | ⟨write, hwrite, hfile, htext⟩ := ih fun path =>
        if path = first.absolute then first.text else files path
      · rw [hsame]
        by_cases hfirst : file = first.absolute
        · exact .inr ⟨first, List.mem_cons_self, hfirst.symm, if_pos hfirst⟩
        · exact .inl (if_neg hfirst)
      · exact .inr ⟨write, List.mem_cons_of_mem _ hwrite, hfile, htext⟩

theorem foldl_write_of_forall_ne (prepared : List PreparedWrite) (files : String → Text) {file : String}
    (hfile : ∀ write ∈ prepared, write.absolute ≠ file) :
    prepared.foldl (fun files write path => if path = write.absolute then write.text else files path)
      files file = files file := by
  induction prepared generalizing files with
  | nil => rfl
  | cons write prepared ih =>
      obtain ⟨hwrite, hrest⟩ := List.forall_mem_cons.mp hfile
      rw [List.foldl_cons, ih _ hrest, if_neg hwrite.symm]

/-- A file that is not as it was has been repaired. -/
theorem repaired_of_ne {files : String → Text} {replacements : List PendingReplacement} {file : String}
    (hchanged : (applyMarkdownReplacements safeMarkdownPath documents files replacements).2 file ≠
      files file) :
    ∃ write : PreparedWrite, Repaired documents replacements write ∧
      safeMarkdownPath write.relativePath = .ok file ∧
      (applyMarkdownReplacements safeMarkdownPath documents files replacements).2 file = write.text := by
  rw [applyMarkdownReplacements] at hchanged ⊢
  cases hprepare : prepare safeMarkdownPath documents replacements with
  | error error =>
      rw [hprepare] at hchanged
      exact absurd rfl hchanged
  | ok prepared =>
      rw [hprepare] at hchanged
      obtain hsame | ⟨write, hwrite, rfl, htext⟩ := foldl_write_cases prepared files file
      · exact absurd hsame hchanged
      · exact ⟨write, ((prepare_spec hprepare).writes write hwrite).1,
          absolute_of_prepare hprepare write hwrite, htext⟩

end Files

end CoreMesh.SelfHealingDocs
