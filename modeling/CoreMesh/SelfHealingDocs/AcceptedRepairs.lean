import CoreMesh.Lib.Separators
import CoreMesh.SelfHealingDocs.StructurePreservation

/-!
# Whether accepted repairs apply

A proposal is accepted by itself, and applied among other sections. What is left to fail there is the
comparison of the headings: bodies apply together exactly if, read one after another with the heading
lines behind them and with the fences they leave open, they show the headings of the document.
-/

namespace CoreMesh.SelfHealingDocs

open SqlEngine (strip)

/-! ### Headings -/

/-- The level and the title of each heading among lines. -/
def headings : Fence → List Text → List (Nat × Text)
  | _, [] => []
  | fence, line :: lines =>
      ((headingAt fence line).map fun (level, text) => (level, strip text)).toList ++
        headings (fenceAfter fence line) lines

/-- The headings of texts that are split each on its own, with the open fence carried on. -/
def headingsAlong : Fence → List Text → List (Nat × Text)
  | _, [] => []
  | fence, text :: texts =>
      headings fence (splitlines text) ++ headingsAlong ((splitlines text).foldl fenceAfter fence) texts

theorem headings_append (fence : Fence) (lines lines' : List Text) :
    headings fence (lines ++ lines') =
      headings fence lines ++ headings (lines.foldl fenceAfter fence) lines' := by
  induction lines generalizing fence with
  | nil => rfl
  | cons line lines ih => rw [List.cons_append, headings, headings, ih, List.append_assoc, List.foldl_cons]

theorem map_outline_eq_headings (fence : Fence) (lines : List Text) :
    (outline fence lines).2.map (fun block => (block.level, block.heading)) = headings fence lines := by
  induction lines generalizing fence with
  | nil => rfl
  | cons line lines ih =>
      cases hline : headingAt fence line with
      | some heading =>
          obtain ⟨level, text⟩ := heading
          obtain ⟨rfl, hmarker, -⟩ := headingAt_eq_some_iff.mp hline
          have hfence : fenceAfter none line = none := hmarker
          rw [outline_of_heading lines hline, List.map_cons, ih, headings, hline, hfence]
          rfl
      | none =>
          rw [outline_of_text lines hline, ih, headings, hline]
          rfl

/-! ### Pieces -/

/-- A text that is open, then heading lines and bodies: each body with the heading line behind it. -/
def pieces : Text → List (Text × Text) → List Text
  | front, [] => [front]
  | front, [(line, body)] => [front ++ line ++ body]
  | front, (line, body) :: next :: rest => (front ++ line) :: pieces body (next :: rest)

/-- The new bodies, in the order of the sections, each with the heading line behind it. -/
def piecesAfter (document : MarkdownDocument) (replacements : List PendingReplacement) : List Text :=
  pieces (preamble document) (((blocksOf document).map Block.line).zip
    ((splitMarkdownDocument document).map (bodyAfter replacements)))

/-- No heading of the document is lost among the new bodies, and none is added. -/
def KeepsHeadings (document : MarkdownDocument) (replacements : List PendingReplacement) : Prop :=
  headingsAlong none (piecesAfter document replacements) =
    (blocksOf document).map fun block => (block.level, block.heading)

instance (document : MarkdownDocument) (replacements : List PendingReplacement) :
    Decidable (KeepsHeadings document replacements) :=
  inferInstanceAs (Decidable (_ = _))

theorem headings_weave {blocks : List Block} {bodies : List Text} {text : Text}
    (horigin : outline none (splitlines text) = ([], blocks))
    (hframed : List.Forall₂ Framed blocks bodies) (fence : Fence) (front : Text) :
    headings fence (splitlines (front ++ weave blocks bodies)) =
      headingsAlong fence (pieces front ((blocks.map Block.line).zip bodies)) := by
  induction hframed generalizing text fence front with
  | nil => simp [weave, pieces, headingsAlong]
  | @cons block body blocks bodies hframed hrest ih =>
      obtain ⟨behind, heading, -, hheading, -, hseam, hbehind⟩ := outline_block horigin
      have hline := ne_nil_of_heading (headingAt_eq_some_iff.mp hheading).2.2
      cases hrest with
      | nil => simp [weave, pieces, headingsAlong]
      | @cons next nextBody blocks bodies hframed' hrest =>
          have hnext : weave (next :: blocks) (nextBody :: bodies) ≠ [] := by
            obtain ⟨-, _, -, hheading', -⟩ := outline_block hbehind
            have hline' := ne_nil_of_heading (headingAt_eq_some_iff.mp hheading').2.2
            simp [weave, hline']
          have hended := ended_line hseam hbehind hnext
          have hbelow := seam_line hseam hframed hended (head_weave (nextBody :: bodies) hbehind)
          have hcut : Lines.Seam isLineBreak (front ++ block.line)
              (body ++ weave (next :: blocks) (nextBody :: bodies)) := by
            rw [Lines.Seam, List.getLast?_append_of_ne_nil _ hline]
            exact hbelow
          have hwhole : front ++ weave (block :: next :: blocks) (body :: nextBody :: bodies) =
              front ++ block.line ++ (body ++ weave (next :: blocks) (nextBody :: bodies)) := by
            rw [weave]
            simp only [List.append_assoc]
          rw [hwhole, splitlines, Lines.split_append hcut, headings_append]
          exact congrArg (_ ++ ·) (ih hbehind _ body)

/-! ### The heading signature -/

theorem getLast?_enter (stack : List Text) (level : Nat) (heading : Text) :
    (enter stack level heading).getLast? = some heading := by
  simp [enter]

/-- Levels and breadcrumbs tell the levels and the texts of the headings. -/
theorem map_key_of_sectionsOf {document document' : MarkdownDocument} {stack stack' : List Text}
    {offset offset' ordinal ordinal' : Nat} {blocks blocks' : List Block}
    (hsame : headingSignature (sectionsOf document stack offset ordinal blocks) =
      headingSignature (sectionsOf document' stack' offset' ordinal' blocks')) :
    blocks.map (fun block => (block.level, block.heading)) =
      blocks'.map fun block => (block.level, block.heading) := by
  induction blocks generalizing stack stack' offset offset' ordinal ordinal' blocks' with
  | nil =>
      cases blocks' with
      | nil => rfl
      | cons block' blocks' => cases hsame
  | cons block blocks ih =>
      cases blocks' with
      | nil => cases hsame
      | cons block' blocks' =>
          obtain ⟨hblock, hrest⟩ := List.cons.inj hsame
          obtain ⟨hlevel, hpath⟩ := Prod.mk.inj hblock
          have hlast := congrArg List.getLast? hpath
          simp only [makeSection, Block.pending, getLast?_enter, Option.some_inj] at hlevel hlast
          rw [List.map_cons, List.map_cons, hlevel, hlast, ih hrest]

variable {document : MarkdownDocument} {replacements : List PendingReplacement}

/-- The headings stay exactly if no heading is lost among the new bodies and none is added. -/
theorem headingSignature_withBodies_iff (hframed : ∀ s ∈ splitMarkdownDocument document,
      (bodyAfter replacements s).head? = some '\n' → s.body.head? = some '\n') :
    headingSignature (splitMarkdownDocument
        { document with text := withBodies document (bodyAfter replacements) }) =
      headingSignature (splitMarkdownDocument document) ↔ KeepsHeadings document replacements := by
  obtain ⟨behind, horigin, -⟩ := outline_preamble document
  let repaired : MarkdownDocument :=
    { document with text := withBodies document (bodyAfter replacements) }
  have hkeys : (blocksOf repaired).map (fun block => (block.level, block.heading)) =
      headingsAlong none (piecesAfter document replacements) :=
    (map_outline_eq_headings none _).trans
      (headings_weave horigin (forall₂_framed hframed) none (preamble document))
  rw [KeepsHeadings, ← hkeys]
  show headingSignature (splitMarkdownDocument repaired) = _ ↔ _
  rw [sectionsOf_blocksOf repaired, sectionsOf_blocksOf document]
  exact ⟨map_key_of_sectionsOf, map_key_sectionsOf⟩

/-! ### The checks before it -/

theorem length_body {s : DocSection} (hs : s ∈ splitMarkdownDocument document) :
    s.bodyStart + s.body.length = s.bodyEnd := by
  suffices hall : ∀ {front : Text} {stack : List Text} {ordinal : Nat} {blocks : List Block},
      Located document front blocks → s ∈ sectionsOf document stack front.length ordinal blocks →
        s.bodyStart + s.body.length = s.bodyEnd by
    rw [sectionsOf_blocksOf] at hs
    exact hall (located_blocksOf document) hs
  intro front stack ordinal blocks hlocated hs
  induction blocks generalizing front stack ordinal with
  | nil => cases hs
  | cons block blocks ih =>
      obtain rfl | hrest := List.mem_cons.mp hs
      · show front.length + block.line.length + _ = front.length + block.line.length + _
        rw [hlocated.body]
      · have htail := @ih _ (enter stack block.level block.heading) (ordinal + 1) hlocated.tail
        rw [List.length_append, List.length_append] at htail
        exact htail hrest

theorem pairwise_bodyEnd : (splitMarkdownDocument document).Pairwise
    fun s s' => s.bodyEnd ≤ s'.bodyStart := by
  suffices hall : ∀ {stack : List Text} {offset ordinal : Nat} {blocks : List Block},
      (∀ block ∈ blocks, block.line ≠ []) →
        (sectionsOf document stack offset ordinal blocks).Pairwise
          fun s s' => s.bodyEnd ≤ s'.bodyStart by
    rw [sectionsOf_blocksOf]
    exact hall (line_ne_nil document)
  intro stack offset ordinal blocks hlines
  induction blocks generalizing stack offset ordinal with
  | nil => exact .nil
  | cons block blocks ih =>
      have hrest : ∀ b ∈ blocks, b.line ≠ [] := fun b hb => hlines b (List.mem_cons_of_mem _ hb)
      exact List.pairwise_cons.mpr ⟨fun s hs => (le_bodyStart hrest hs).le, ih hrest⟩

/-- A section's identifier ends in its number. -/
theorem sectionId_spec {s : DocSection} (hs : s ∈ splitMarkdownDocument document) :
    ∃ front, s.sectionId.toList = front ++ '-' :: (toString s.ordinal).toList := by
  suffices hall : ∀ {stack : List Text} {offset ordinal : Nat} {blocks : List Block},
      s ∈ sectionsOf document stack offset ordinal blocks →
        ∃ front, s.sectionId.toList = front ++ '-' :: (toString s.ordinal).toList by
    rw [sectionsOf_blocksOf] at hs
    exact hall hs
  intro stack offset ordinal blocks hs
  induction blocks generalizing stack offset ordinal with
  | nil => cases hs
  | cons block blocks ih =>
      obtain rfl | hrest := List.mem_cons.mp hs
      · refine ⟨(document.path ++ "::" ++ " > ".intercalate
          ((enter stack block.level block.heading).map String.ofList) ++ "::section").toList, ?_⟩
        simp [makeSection, Block.pending, String.toList_append]
      · exact ih hrest

theorem pairwise_ordinal : (splitMarkdownDocument document).Pairwise
    fun s s' => s.ordinal < s'.ordinal := by
  suffices hall : ∀ {stack : List Text} {offset ordinal : Nat} {blocks : List Block},
      (∀ s ∈ sectionsOf document stack offset ordinal blocks, ordinal < s.ordinal) ∧
        (sectionsOf document stack offset ordinal blocks).Pairwise
          fun s s' => s.ordinal < s'.ordinal by
    rw [sectionsOf_blocksOf]
    exact hall.2
  intro stack offset ordinal blocks
  induction blocks generalizing stack offset ordinal with
  | nil => exact ⟨fun s hs => absurd hs List.not_mem_nil, List.Pairwise.nil⟩
  | cons block blocks ih =>
      obtain ⟨hlater, hpairwise⟩ := @ih (enter stack block.level block.heading)
        (offset + block.line.length + block.bodyText.length) (ordinal + 1)
      refine ⟨fun s hs => ?_, List.pairwise_cons.mpr ⟨fun s hs => hlater s hs, hpairwise⟩⟩
      obtain rfl | hrest := List.mem_cons.mp hs
      · exact Nat.lt_succ_self ordinal
      · exact lt_trans (Nat.lt_succ_self ordinal) (hlater s hrest)

/-- Sections of a document have identifiers of their own. -/
theorem eq_of_sectionId {s s' : DocSection} (hs : s ∈ splitMarkdownDocument document)
    (hs' : s' ∈ splitMarkdownDocument document) (hid : s.sectionId = s'.sectionId) : s = s' := by
  obtain ⟨front, hfront⟩ := sectionId_spec hs
  obtain ⟨front', hfront'⟩ := sectionId_spec hs'
  have hplain : ∀ n : Nat, '-' ∉ (toString n).toList := by
    intro n hmem
    exact absurd ((Separators.digits_toString n).2.1 _ hmem) (by decide)
  rw [hid, hfront'] at hfront
  obtain ⟨-, hdigits⟩ := Separators.last_separator (hplain _) (hplain _) hfront
  have hordinal : s.ordinal = s'.ordinal := by
    rw [← (Separators.digits_toString s.ordinal).2.2, ← hdigits,
      (Separators.digits_toString s'.ordinal).2.2]
  have hnodup : ((splitMarkdownDocument document).map DocSection.ordinal).Nodup :=
    List.pairwise_map.mpr (pairwise_ordinal.imp ne_of_lt)
  exact List.inj_on_of_nodup_map hnodup hs hs' hordinal

theorem validateNonOverlapping_eq_ok {seen : List String} {previousEnd : Int}
    {replacements : List PendingReplacement}
    (hsorted : replacements.Pairwise fun a b => a.docSection.bodyEnd ≤ b.docSection.bodyStart ∧
      a.docSection.sectionId ≠ b.docSection.sectionId)
    (hfresh : ∀ r ∈ replacements, r.docSection.sectionId ∉ seen ∧ previousEnd ≤ r.docSection.bodyStart) :
    validateNonOverlapping seen previousEnd replacements = .ok () := by
  induction replacements generalizing seen previousEnd with
  | nil => rfl
  | cons first rest ih =>
      obtain ⟨hfirst, hrest⟩ := List.pairwise_cons.mp hsorted
      obtain ⟨hunseen, hbehind⟩ := hfresh first List.mem_cons_self
      rw [validateNonOverlapping, if_neg (by simpa using hunseen), if_neg (not_lt.mpr hbehind)]
      refine ih hrest fun r hr => ⟨?_, by exact_mod_cast (hfirst r hr).1⟩
      intro hseen
      obtain hsame | hearlier := List.mem_cons.mp hseen
      · exact (hfirst r hr).2 hsame.symm
      · exact (hfresh r (List.mem_cons_of_mem _ hr)).1 hearlier

theorem bodyEnd_le {s s' : DocSection} (hs : s ∈ splitMarkdownDocument document)
    (hs' : s' ∈ splitMarkdownDocument document) (hstart : s.bodyStart < s'.bodyStart) :
    s.bodyEnd ≤ s'.bodyStart := by
  obtain ⟨i, hi, rfl⟩ := List.mem_iff_getElem.mp hs
  obtain ⟨j, hj, rfl⟩ := List.mem_iff_getElem.mp hs'
  obtain hbefore | rfl | hbehind := lt_trichotomy i j
  · exact List.pairwise_iff_getElem.mp pairwise_bodyEnd i j hi hj hbefore
  · exact absurd hstart (lt_irrefl _)
  · exact absurd hstart (List.pairwise_iff_getElem.mp pairwise_split j i hj hi hbehind).asymm

/-- The body of a section is where the section says as long as only later ones have been replaced. -/
theorem body_of_withBodies {f : DocSection → Text} {s : DocSection}
    (hs : s ∈ splitMarkdownDocument document)
    (hf : ∀ s' ∈ splitMarkdownDocument document, s'.bodyStart ≤ s.bodyStart → f s' = s'.body) :
    ((withBodies document f).take s.bodyEnd).drop s.bodyStart = s.body := by
  have hlength := length_body hs
  have hwhole := splice_withBodies (g := f) hs hf fun _ _ _ => rfl
  rw [hf s hs (le_refl _)] at hwhole
  generalize withBodies document f = text at hwhole ⊢
  have hcount := congrArg List.length hwhole
  simp only [List.length_append, List.length_take, List.length_drop] at hcount
  by_cases hstart : s.bodyStart ≤ text.length
  · have hfront : (text.take s.bodyStart).length = s.bodyStart := List.length_take_of_le hstart
    have hboth : (text.take s.bodyStart ++ s.body).length = s.bodyEnd := by
      rw [List.length_append, hfront, hlength]
    rw [← hwhole, List.take_left' hboth, List.drop_left' hfront]
  · have hempty : s.body = [] := List.length_eq_zero_iff.mp (by omega)
    rw [hempty, List.drop_eq_nil_iff, List.length_take]
    omega

/-- Bodies that are replaced from the end to the beginning are all found. -/
theorem exists_foldlM_splice {replacements : List PendingReplacement}
    (hsections : ∀ r ∈ replacements, r.docSection ∈ splitMarkdownDocument document)
    (hsorted : replacements.Pairwise fun a b => b.docSection.bodyStart < a.docSection.bodyStart) :
    ∃ text, replacements.foldlM splice document.text = .ok text := by
  refine Outcome.exists_foldlM_eq_ok (fun done text => text = withBodies document (bodyAfter done))
    (withBodies_body document).symm ?_
  rintro done next rest text rfl rfl
  have hlater : ∀ earlier ∈ done, next.docSection.bodyStart < earlier.docSection.bodyStart :=
    fun earlier hearlier =>
      (List.pairwise_append.mp hsorted).2.2 earlier hearlier next List.mem_cons_self
  have hnext := hsections next (List.mem_append_right _ List.mem_cons_self)
  have hfound := body_of_withBodies hnext fun s' _ hstart => bodyAfter_of_later hlater hstart
  refine ⟨_, ?_, splice_bodyAfter hnext hlater⟩
  rw [splice, if_neg (not_not.mpr hfound)]

/-- Replacements of different sections do not overlap. -/
theorem validateNonOverlapping_of_nodup {replacements : List PendingReplacement}
    (hsections : ∀ r ∈ replacements, r.docSection ∈ splitMarkdownDocument document)
    (hnodup : (replacements.map PendingReplacement.docSection).Nodup) :
    validateNonOverlapping [] (-1) (replacements.insertionSort
      fun a b => a.docSection.bodyStart ≤ b.docSection.bodyStart) = .ok () := by
  have hperm := List.perm_insertionSort
    (fun a b : PendingReplacement => a.docSection.bodyStart ≤ b.docSection.bodyStart) replacements
  have hin : ∀ r ∈ replacements.insertionSort fun a b => a.docSection.bodyStart ≤ b.docSection.bodyStart,
      r.docSection ∈ splitMarkdownDocument document :=
    fun r hr => hsections r (hperm.mem_iff.mp hr)
  have hdistinct : (replacements.insertionSort
      fun a b => a.docSection.bodyStart ≤ b.docSection.bodyStart).Pairwise
        fun a b => a.docSection ≠ b.docSection :=
    List.pairwise_map.mp ((hperm.map PendingReplacement.docSection).nodup_iff.mpr hnodup)
  have hsorted := List.pairwise_insertionSort
    (fun a b : PendingReplacement => a.docSection.bodyStart ≤ b.docSection.bodyStart) replacements
  refine validateNonOverlapping_eq_ok ?_ fun r _ => ⟨List.not_mem_nil, by omega⟩
  refine List.Pairwise.imp_of_mem ?_ (hsorted.and hdistinct)
  rintro a b ha hb ⟨hle, hne⟩
  have hstart : a.docSection.bodyStart ≠ b.docSection.bodyStart :=
    fun heq => hne (eq_of_bodyStart (hin a ha) (hin b hb) heq)
  exact ⟨bodyEnd_le (hin a ha) (hin b hb) (lt_of_le_of_ne hle hstart),
    fun hid => hne (eq_of_sectionId (hin a ha) (hin b hb) hid)⟩

/-- Replacements of different sections apply to a file exactly if its headings stay. -/
theorem exists_repair_eq_ok_iff (relativePath : String) {replacements : List PendingReplacement}
    (hsections : ∀ r ∈ replacements, r.docSection ∈ splitMarkdownDocument document)
    (hnodup : (replacements.map PendingReplacement.docSection).Nodup) :
    (∃ text, repair relativePath document replacements = .ok text) ↔
      headingSignature (splitMarkdownDocument
          { document with text := withBodies document (bodyAfter replacements) }) =
        headingSignature (splitMarkdownDocument document) := by
  constructor
  · rintro ⟨text, hrepair⟩
    obtain ⟨-, rfl, hsignature⟩ := repair_spec hsections hrepair
    exact hsignature
  · intro hsignature
    have hperm := List.perm_insertionSort fromEnd replacements
    have hsections' : ∀ r ∈ replacements.insertionSort fromEnd,
        r.docSection ∈ splitMarkdownDocument document :=
      fun r hr => hsections r (hperm.mem_iff.mp hr)
    have hsorted := pairwise_fromEnd hsections hnodup
    obtain ⟨text, hsplices⟩ := exists_foldlM_splice hsections' hsorted
    have htext := eq_withBodies_of_splices hsections hnodup hsplices
    refine ⟨text, ?_⟩
    show (validateNonOverlapping [] (-1) _ >>= fun _ => List.foldlM splice document.text
      (replacements.insertionSort fromEnd) >>= fun _ => _) = _
    rw [validateNonOverlapping_of_nodup hsections hnodup, hsplices, htext]
    show (if _ then _ else _) = _
    rw [if_neg (not_not.mpr hsignature)]
    rfl

/-! ### All files -/

section Files

variable {safeMarkdownPath : String → Except Error String}
  {documents : String → Option MarkdownDocument}

theorem exists_prepareFile_eq_ok_iff
    (hsafe : ∀ path document, documents path = some document →
      ∃ absolute, safeMarkdownPath path = .ok absolute)
    (prepared : List PreparedWrite) (path : String) (replacements : List PendingReplacement) :
    (∃ next, prepareFile safeMarkdownPath documents prepared path replacements = .ok next) ↔
      ∃ document text, documents path = some document ∧
        repair path document replacements = .ok text := by
  constructor
  · rintro ⟨next, hprepare⟩
    obtain ⟨document, text, hdocument, hrepair, -⟩ := prepareFile_spec hprepare
    exact ⟨document, text, hdocument, hrepair⟩
  · rintro ⟨document, text, hdocument, hrepair⟩
    obtain ⟨absolute, habsolute⟩ := hsafe path document hdocument
    by_cases hsame : text = document.text
    · exact ⟨prepared, by simp [prepareFile, hdocument, hrepair, hsame, bind, Except.bind, pure,
        Except.pure]⟩
    · exact ⟨prepared ++ [⟨path, absolute, text⟩], by simp [prepareFile, hdocument, hrepair, hsame,
        habsolute, bind, Except.bind, pure, Except.pure]⟩

/-- Accepted bodies begin with a line feed only where the bodies they replace do. -/
theorem head_bodyAfter {replacements : List PendingReplacement}
    (haccepted : ∀ r ∈ replacements, Accepted documents r) (s : DocSection)
    (hhead : (bodyAfter replacements s).head? = some '\n') : s.body.head? = some '\n' := by
  induction replacements with
  | nil => exact hhead
  | cons first rest ih =>
      rw [bodyAfter_cons] at hhead
      split at hhead
      · rename_i hfirst
        rw [← hfirst]
        exact (haccepted first List.mem_cons_self).body_spec.2 hhead
      · exact ih (fun r hr => haccepted r (List.mem_cons_of_mem _ hr)) hhead

/-- Accepted replacements of a file apply exactly if its headings stay. -/
theorem Accepted.repairs_iff {replacements : List PendingReplacement}
    (haccepted : ∀ r ∈ replacements, Accepted documents r)
    (hnodup : (replacements.map PendingReplacement.docSection).Nodup) {r : PendingReplacement}
    (hr : r ∈ replacements) {document : MarkdownDocument}
    (hdocument : documents r.docSection.path = some document) :
    (∃ text, repair r.docSection.path document (inFile replacements r.docSection.path) = .ok text) ↔
      KeepsHeadings document replacements := by
  have hpath := path_of_mem ((haccepted r hr).section_mem hdocument)
  have hsections : ∀ r' ∈ inFile replacements r.docSection.path,
      r'.docSection ∈ splitMarkdownDocument document := by
    intro r' hr'
    obtain ⟨hin, hsame⟩ := List.mem_filter.mp hr'
    exact (haccepted r' hin).section_mem ((beq_iff_eq.mp hsame) ▸ hdocument)
  have hbodies : (splitMarkdownDocument document).map
      (bodyAfter (inFile replacements r.docSection.path)) =
        (splitMarkdownDocument document).map (bodyAfter replacements) :=
    List.map_congr_left fun s hs => by rw [hpath, ← path_of_mem hs, bodyAfter_inFile]
  have hdistinct : ((inFile replacements r.docSection.path).map PendingReplacement.docSection).Nodup :=
    hnodup.sublist (List.filter_sublist.map _)
  rw [exists_repair_eq_ok_iff _ hsections hdistinct,
    ← headingSignature_withBodies_iff fun s _ => head_bodyAfter haccepted s, withBodies, withBodies,
    hbodies]

end Files

/-- Accepted replacements of different sections apply exactly if no heading is lost among the new bodies,
and none is added. -/
theorem acceptedRepairs_apply_iff {safeMarkdownPath : String → Except Error String}
    {documents : String → Option MarkdownDocument} (files : String → Text)
    {replacements : List PendingReplacement}
    (hsafe : ∀ path document, documents path = some document →
      ∃ absolute, safeMarkdownPath path = .ok absolute)
    (haccepted : ∀ r ∈ replacements, Accepted documents r)
    (hnodup : (replacements.map PendingReplacement.docSection).Nodup) :
    (∃ paths, (applyMarkdownReplacements safeMarkdownPath documents files replacements).1 =
        .ok paths) ↔
      ∀ r ∈ replacements, ∀ document, documents r.docSection.path = some document →
        KeepsHeadings document replacements := by
  have hprepares : (∃ paths, (applyMarkdownReplacements safeMarkdownPath documents files
      replacements).1 = .ok paths) ↔
        ∃ prepared, prepare safeMarkdownPath documents replacements = .ok prepared := by
    rw [applyMarkdownReplacements]
    cases prepare safeMarkdownPath documents replacements with
    | error error => simp
    | ok prepared => simp
  refine hprepares.trans ((Outcome.exists_foldlM_eq_ok_iff (fun prepared path =>
    exists_prepareFile_eq_ok_iff hsafe prepared path (inFile replacements path)) _ _).trans ?_)
  constructor
  · intro hfiles r hr document hdocument
    have hpath : r.docSection.path ∈ ((replacements.map fun r => r.docSection.path).dedup.insertionSort
        (· ≤ ·)) := by
      rw [(List.perm_insertionSort _ _).mem_iff, List.mem_dedup]
      exact List.mem_map_of_mem hr
    obtain ⟨document', text, hdocument', hrepair⟩ := hfiles _ hpath
    obtain rfl := Option.some.inj (hdocument.symm.trans hdocument')
    exact (Accepted.repairs_iff haccepted hnodup hr hdocument).mp ⟨text, hrepair⟩
  · intro hkeeps path hpath
    rw [(List.perm_insertionSort _ _).mem_iff, List.mem_dedup] at hpath
    obtain ⟨r, hr, rfl⟩ := List.mem_map.mp hpath
    obtain ⟨document, -, -, hdocument, -⟩ := haccepted r hr
    obtain ⟨text, hrepair⟩ := (Accepted.repairs_iff haccepted hnodup hr hdocument).mpr
      (hkeeps r hr document hdocument)
    exact ⟨document, text, hdocument, hrepair⟩

theorem acceptedRepairs_apply_readme : ∃ paths,
    (applyMarkdownReplacements onDisk tracked (fun _ => readme.text)
      [rewrittenSecond "newer\n", rewritten "new\n"]).1 = .ok paths := by
  have haccepted : ∀ r ∈ [rewrittenSecond "newer\n", rewritten "new\n"], Accepted tracked r := by
    simp only [List.forall_mem_cons, List.not_mem_nil, false_implies, implies_true, and_true]
    exact ⟨⟨readme, "newer".toList, 6000, rfl, (mem_readme "newer\n").2, by decide +kernel⟩,
      accepted_of_normalize "new" "new\n" (by decide +kernel) _ (List.mem_singleton_self _)⟩
  refine (acceptedRepairs_apply_iff (fun _ => readme.text) (fun path _ _ => ⟨"/repo/" ++ path, rfl⟩)
    haccepted (by decide)).mpr ?_
  intro r hr document hdocument
  obtain ⟨document', -, -, hreadme, -⟩ := haccepted r hr
  have hpath : r.docSection.path = "README.md" := by
    simp only [List.mem_cons, List.not_mem_nil, or_false] at hr
    obtain rfl | rfl := hr <;> rfl
  rw [hpath] at hdocument
  obtain rfl : readme = document := Option.some.inj hdocument
  decide +kernel

/-! ### An empty body -/

def notes : MarkdownDocument := ⟨"README.md", "# A\n# B\nmore\n".toList, ['\n']⟩

def trackedNotes (path : String) : Option MarkdownDocument :=
  if path == "README.md" then some notes else none

/-- New bodies for the document's two sections, the first of which is empty. -/
def filledIn : PendingReplacement where
  docSection :=
    { sectionId := "README.md::A::section-1", path := "README.md", heading := ['A'],
      headingPath := [['A']], level := 1, body := [], bodyStart := 4, bodyEnd := 4,
      newline := ['\n'], ordinal := 1 }
  replacementBody := "text".toList

def renewed : PendingReplacement where
  docSection :=
    { sectionId := "README.md::B::section-2", path := "README.md", heading := ['B'],
      headingPath := [['B']], level := 1, body := "more\n".toList, bodyStart := 8, bodyEnd := 13,
      newline := ['\n'], ordinal := 2 }
  replacementBody := "new\n".toList

/-- An accepted body without a line break draws the next heading into its own last line, and the repair of
that heading's section, which applies alone, is lost with it. -/
theorem acceptedRepairs_abort :
    Accepted trackedNotes filledIn ∧ Accepted trackedNotes renewed ∧
      (applyMarkdownReplacements onDisk trackedNotes (fun _ => notes.text) [renewed]).1 =
        .ok ["README.md"] ∧
      (applyMarkdownReplacements onDisk trackedNotes (fun _ => notes.text) [filledIn, renewed]).1 =
        .error (.markdownSafety "heading hierarchy changed while repairing README.md") :=
  ⟨⟨notes, "text".toList, 6000, rfl, by decide +kernel, by decide +kernel⟩,
    ⟨notes, "new".toList, 6000, rfl, by decide +kernel, by decide +kernel⟩,
    by decide +kernel, by decide +kernel⟩

end CoreMesh.SelfHealingDocs
