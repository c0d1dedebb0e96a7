import CoreMesh.SelfHealingDocs.Splicing

/-!
# Structure-preserving repair

A repaired document has the sections it had, each with its new body, exactly if every new body stays in
its section: alone it has no heading outside its fences, the heading above it has its line break, and
above another section it closes its fences and ends its last line.
-/

namespace CoreMesh.SelfHealingDocs

open SqlEngine (strip)

/-- The open fence behind a text. -/
def fenceBehind (text : Text) : Fence := (splitlines text).foldl fenceAfter none

/-- A body that can stand below a section's heading and above what is behind the section. -/
def Fits (document : MarkdownDocument) (s : DocSection) (body : Text) : Prop :=
  containsAtxHeadingOutsideFence body = false ∧
    (s.bodyEnd = document.text.length ∨
      fenceBehind body = none ∧ Lines.Ended isLineBreak body) ∧
    (body = [] ∨ Lines.Ended isLineBreak (document.text.take s.bodyStart))

/-- Split again, the text has the document's sections with the new bodies. -/
def Preserves (replacements : List PendingReplacement) (document : MarkdownDocument) (text : Text) :
    Prop :=
  (splitMarkdownDocument { document with text := text }).map
      (fun s => ((s.level, s.headingPath), s.body)) =
    (splitMarkdownDocument document).map fun s =>
      ((s.level, s.headingPath), bodyAfter replacements s)

instance (replacements : List PendingReplacement) (document : MarkdownDocument) (text : Text) :
    Decidable (Preserves replacements document text) :=
  inferInstanceAs (Decidable (_ = _))

/-- The body is an accepted proposal for a section of the document. -/
def Accepted (documents : String → Option MarkdownDocument) (replacement : PendingReplacement) : Prop :=
  ∃ document proposedBody maxChars, documents replacement.docSection.path = some document ∧
    replacement.docSection ∈ splitMarkdownDocument document ∧
    normalizeReplacementBody replacement.docSection proposedBody maxChars =
      .ok replacement.replacementBody

/-! ### Bodies among blocks -/

def BlockFits (block : Block) (last : Prop) (body : Text) : Prop :=
  containsAtxHeadingOutsideFence body = false ∧
    (last ∨ fenceBehind body = none ∧ Lines.Ended isLineBreak body) ∧
    (body = [] ∨ Lines.Ended isLineBreak block.line)

def AllFit : List Block → List Text → Prop
  | block :: blocks, body :: bodies => BlockFits block (blocks = []) body ∧ AllFit blocks bodies
  | _, _ => True

/-- A body that begins with a line feed only where the block's own does. -/
def Framed (block : Block) (body : Text) : Prop :=
  body.head? = some '\n' → block.bodyText.head? = some '\n'

theorem containsAtxHeadingOutsideFence_eq_false_iff (text : Text) :
    containsAtxHeadingOutsideFence text = false ↔ (outline none (splitlines text)).2 = [] :=
  headingOutsideFence_eq_false_iff none (splitlines text)

/-- A body without headings that closes its fences leaves the outline behind it as it is. -/
theorem outline_body_append {body : Text} {lines : List Text}
    (hquiet : containsAtxHeadingOutsideFence body = false)
    (hclosed : lines ≠ [] → fenceBehind body = none) :
    outline none (splitlines body ++ lines) =
      (splitlines body ++ (outline none lines).1, (outline none lines).2) := by
  rw [outline_append lines ((containsAtxHeadingOutsideFence_eq_false_iff body).mp hquiet)]
  by_cases hlines : lines = []
  · subst hlines
    rfl
  · rw [show (splitlines body).foldl fenceAfter none = none from hclosed hlines]

/-- A text is what stands before its first heading and a text that begins with it. -/
theorem outline_text (text : Text) :
    ∃ behind, text = (outline none (splitlines text)).1.flatten ++ behind ∧
      containsAtxHeadingOutsideFence (outline none (splitlines text)).1.flatten = false ∧
      Lines.Seam isLineBreak (outline none (splitlines text)).1.flatten behind ∧
      outline none (splitlines behind) = ([], (outline none (splitlines text)).2) ∧
      ((outline none (splitlines text)).2 ≠ [] →
        fenceBehind (outline none (splitlines text)).1.flatten = none) := by
  obtain ⟨behind, hcut, hquiet, hbehind, hfence⟩ := outline_spec none (splitlines text)
  obtain ⟨hsplit, hsplitBehind, hseam⟩ := Lines.split_eq_append hcut
  have hfront : splitlines (outline none (splitlines text)).1.flatten =
      (outline none (splitlines text)).1 := hsplit
  refine ⟨behind.flatten, ?_, ?_, hseam, ?_, ?_⟩
  · have hflat := congrArg List.flatten hcut
    rwa [splitlines, Lines.flatten_split, List.flatten_append, ← splitlines] at hflat
  · rw [containsAtxHeadingOutsideFence_eq_false_iff, hfront]
    exact hquiet
  · rw [splitlines, hsplitBehind]
    by_cases hnone : (outline none (splitlines text)).2 = []
    · rw [hnone] at hbehind ⊢
      rw [eq_nil_of_outline hbehind]
      rfl
    · rw [hfence hnone] at hbehind
      exact hbehind
  · rw [fenceBehind, hfront]
    exact hfence

/-- A text that begins with a heading is the heading, its body and what is behind it. -/
theorem outline_block {text : Text} {block : Block} {blocks : List Block}
    (horigin : outline none (splitlines text) = ([], block :: blocks)) :
    ∃ behind heading, splitlines block.line = [block.line] ∧
      headingAt none block.line = some (block.level, heading) ∧ block.heading = strip heading ∧
      Lines.Seam isLineBreak block.line (block.bodyText ++ behind) ∧
      outline none (splitlines behind) = ([], blocks) := by
  obtain ⟨heading, rest, hlines, hheading, hstrip, hrest⟩ := outline_eq_cons horigin
  obtain ⟨hline, hsplit, hseam⟩ :=
    Lines.split_eq_append (show Lines.split isLineBreak text = [block.line] ++ rest from hlines)
  rw [List.flatten_cons, List.flatten_nil, List.append_nil] at hline hseam
  obtain ⟨behind, htext, -, -, hbehind, -⟩ := outline_text rest.flatten
  rw [show splitlines rest.flatten = rest from hsplit, hrest] at htext hbehind
  exact ⟨behind, heading, hline, hheading, hstrip, htext ▸ hseam, hbehind⟩

theorem head_weave {text : Text} {blocks : List Block} (bodies : List Text)
    (horigin : outline none (splitlines text) = ([], blocks)) :
    (weave blocks bodies).head? ≠ some '\n' := by
  cases blocks with
  | nil => simp [weave]
  | cons block blocks =>
      cases bodies with
      | nil => simp [weave]
      | cons body bodies =>
          obtain ⟨behind, heading, -, hheading, -⟩ := outline_block horigin
          have hhead := head_of_heading (headingAt_eq_some_iff.mp hheading).2.2
          obtain ⟨c, rest, hline⟩ := List.exists_cons_of_ne_nil
            (ne_nil_of_heading (headingAt_eq_some_iff.mp hheading).2.2)
          rw [hline] at hhead
          rw [weave, hline]
          rintro heq
          cases heq
          cases hhead with
          | inl h => exact absurd (Option.some.inj h) (by decide)
          | inr h => exact absurd (Option.some.inj h) (by decide)

theorem seam_line {block : Block} {behind body next : Text}
    (hseam : Lines.Seam isLineBreak block.line (block.bodyText ++ behind)) (hframed : Framed block body)
    (hended : Lines.Ended isLineBreak block.line) (hnext : next.head? ≠ some '\n') :
    Lines.Seam isLineBreak block.line (body ++ next) := by
  by_cases hfeed : (body ++ next).head? = some '\n'
  · -- The line feed is the body's own, which did not tear the heading's line either.
    intro _ c hc
    cases body with
    | nil => exact absurd hfeed hnext
    | cons d body =>
        obtain ⟨rest, hown⟩ := List.head?_eq_some_iff.mp (hframed hfeed)
        rw [hown] at hseam
        rw [hfeed]
        exact hseam (List.cons_ne_nil _ _) c hc
  · exact Lines.seam_of_ended hended hfeed

/-- A heading with something behind it has its line break. -/
theorem ended_line {block : Block} {blocks : List Block} {bodies : List Text} {behind : Text}
    (hseam : Lines.Seam isLineBreak block.line (block.bodyText ++ behind))
    (hbehind : outline none (splitlines behind) = ([], blocks)) (hnext : weave blocks bodies ≠ []) :
    Lines.Ended isLineBreak block.line := by
  refine Lines.ended_of_seam hseam fun hnothing => hnext ?_
  rw [(List.append_eq_nil_iff.mp hnothing).2] at hbehind
  cases hbehind
  rfl

/-- The blocks with other bodies. -/
def exchanged (blocks : List Block) (bodies : List Text) : List Block :=
  List.zipWith (fun block body => { block with body := splitlines body }) blocks bodies

/-- Bodies that fit are the bodies of the text that is made of them. -/
theorem outline_weave {blocks : List Block} {bodies : List Text} {text : Text}
    (horigin : outline none (splitlines text) = ([], blocks))
    (hframed : List.Forall₂ Framed blocks bodies) (hfit : AllFit blocks bodies) :
    outline none (splitlines (weave blocks bodies)) = ([], exchanged blocks bodies) := by
  induction hframed generalizing text with
  | nil => rfl
  | @cons block body blocks bodies hframed hrest ih =>
      obtain ⟨⟨hquiet, hlast, hline⟩, hfit⟩ := hfit
      obtain ⟨behind, heading, hsingle, hheading, hstrip, hseam, hbehind⟩ := outline_block horigin
      have hhead := head_weave bodies hbehind
      have hbelow : Lines.Seam isLineBreak block.line (body ++ weave blocks bodies) := by
        intro hnext
        refine seam_line hseam hframed ?_ hhead hnext
        obtain hempty | hended := hline
        · exact ended_line hseam hbehind (show weave blocks bodies ≠ [] by rwa [hempty] at hnext)
        · exact hended
      have hnext : Lines.Seam isLineBreak body (weave blocks bodies) := by
        intro hne
        obtain rfl | ⟨-, hended⟩ := hlast
        · exact absurd rfl hne
        · exact Lines.seam_of_ended hended hhead hne
      have hclosed : splitlines (weave blocks bodies) ≠ [] → fenceBehind body = none := by
        intro hne
        obtain rfl | ⟨hclosed, -⟩ := hlast
        · exact absurd rfl hne
        · exact hclosed
      have hlines : splitlines (weave (block :: blocks) (body :: bodies)) =
          block.line :: (splitlines body ++ splitlines (weave blocks bodies)) := by
        rw [weave, List.append_assoc, splitlines, Lines.split_append hbelow, Lines.split_append hnext]
        exact congrArg (· ++ _) hsingle
      rw [hlines, outline_of_heading _ hheading, outline_body_append hquiet hclosed, ih hbehind hfit,
        List.append_nil, ← hstrip]
      rfl

/-- What is the body behind a line is behind a line break. -/
theorem ended_of_outline {line body : Text}
    (hbodies : (outline none (splitlines (line ++ body))).2.map Block.bodyText = [body])
    (hbody : body ≠ []) : Lines.Ended isLineBreak line := by
  obtain ⟨next, hcut, -, hnext, -⟩ := outline_spec none (splitlines (line ++ body))
  obtain ⟨block, hblock, hown⟩ := List.map_eq_singleton_iff.mp hbodies
  rw [hblock] at hnext
  obtain ⟨heading, rest, rfl, -, -, hrest⟩ := outline_eq_cons hnext
  have hflat : rest.flatten = body := by
    rw [← flatten_outline none rest, hrest, ← hown]
    exact List.append_nil _
  rw [List.append_cons] at hcut
  obtain ⟨-, -, hseam⟩ := Lines.split_eq_append hcut
  have hline : ((outline none (splitlines (line ++ body))).1 ++ [block.line]).flatten = line := by
    have hwhole := congrArg List.flatten hcut
    rw [splitlines, Lines.flatten_split, List.flatten_append, ← splitlines, hflat] at hwhole
    exact (List.append_cancel_right hwhole).symm
  rw [hline, hflat] at hseam
  exact Lines.ended_of_seam hseam hbody

/-- A body that is all that stands before the first heading is without headings, and above one it closes
its fences and ends its last line. -/
theorem body_of_outline {body next : Text}
    (hbody : (outline none (splitlines (body ++ next))).1.flatten = body) :
    containsAtxHeadingOutsideFence body = false ∧
      ((outline none (splitlines (body ++ next))).2 ≠ [] →
        (fenceBehind body = none ∧ Lines.Ended isLineBreak body) ∧
          outline none (splitlines next) = ([], (outline none (splitlines (body ++ next))).2)) := by
  obtain ⟨behind, htext, hquiet, hseam, hbehind, hfence⟩ := outline_text (body ++ next)
  rw [hbody] at htext hquiet hseam hfence
  obtain rfl : next = behind := List.append_cancel_left htext
  refine ⟨hquiet, fun hsome => ⟨⟨hfence hsome, Lines.ended_of_seam hseam fun hnothing => ?_⟩, hbehind⟩⟩
  subst hnothing
  exact hsome (Prod.mk.inj hbehind).2.symm

/-- If the bodies of the text are those it is made of, they fit. -/
theorem allFit_of_outline {blocks : List Block} {bodies : List Text} {text : Text}
    (horigin : outline none (splitlines text) = ([], blocks))
    (hframed : List.Forall₂ Framed blocks bodies)
    (hbodies : (outline none (splitlines (weave blocks bodies))).2.map Block.bodyText = bodies) :
    AllFit blocks bodies := by
  induction hframed generalizing text with
  | nil => trivial
  | @cons block body blocks bodies hframed hrest ih =>
      obtain ⟨behind, heading, hsingle, hheading, hstrip, hseam, hbehind⟩ := outline_block horigin
      have hhead := head_weave bodies hbehind
      by_cases hended : Lines.Ended isLineBreak block.line
      · have hbelow := seam_line hseam hframed hended hhead
        have hlines : splitlines (weave (block :: blocks) (body :: bodies)) =
            block.line :: splitlines (body ++ weave blocks bodies) := by
          rw [weave, List.append_assoc, splitlines, Lines.split_append hbelow]
          exact congrArg (· ++ _) hsingle
        rw [hlines, outline_of_heading _ hheading, List.map_cons] at hbodies
        obtain ⟨hbody, hbodies⟩ := List.cons.inj hbodies
        obtain ⟨hquiet, habove⟩ := body_of_outline hbody
        have hblocks : blocks ≠ [] → (outline none (splitlines (body ++ weave blocks bodies))).2 ≠ [] := by
          intro hne hnone
          rw [hnone] at hbodies
          rw [← hbodies] at hrest
          exact hne (List.forall₂_nil_right_iff.mp hrest)
        by_cases hlast : blocks = []
        · rw [hlast]
          exact ⟨⟨hquiet, .inl rfl, .inr hended⟩, trivial⟩
        · obtain ⟨hfits, hnext⟩ := habove (hblocks hlast)
          refine ⟨⟨hquiet, .inr hfits, .inr hended⟩, ih hbehind ?_⟩
          rw [hnext]
          exact hbodies
      · -- An open heading line is the last one, and a body behind it would lengthen it.
        have hnothing : block.bodyText ++ behind = [] := by
          by_contra hne
          exact hended (Lines.ended_of_seam hseam hne)
        rw [(List.append_eq_nil_iff.mp hnothing).2] at hbehind
        cases hbehind
        cases hrest
        have hbody : body = [] := by
          by_contra hne
          rw [weave, weave, List.append_nil] at hbodies
          · exact hended (ended_of_outline hbodies hne)
          · simp
        exact ⟨⟨by rw [hbody]; rfl, .inl rfl, .inl hbody⟩, trivial⟩

/-! ### Bodies in a document -/

section Document

variable {document : MarkdownDocument}

/-- The text from the first heading on, whose bodies can be exchanged on their own. -/
theorem outline_preamble (document : MarkdownDocument) :
    ∃ behind, outline none (splitlines behind) = ([], blocksOf document) ∧
      ∀ bodies, (outline none (splitlines (preamble document ++ weave (blocksOf document) bodies))).2 =
        (outline none (splitlines (weave (blocksOf document) bodies))).2 := by
  obtain ⟨behind, -, hquiet, hseam, horigin, hfence⟩ := outline_text document.text
  refine ⟨behind, horigin, fun bodies => ?_⟩
  have hquiet' : containsAtxHeadingOutsideFence (preamble document) = false := hquiet
  have hblocks : weave (blocksOf document) bodies ≠ [] → blocksOf document ≠ [] := by
    intro hne hnone
    rw [hnone, weave] at hne
    · exact hne rfl
    · simp
  have hseam' : Lines.Seam isLineBreak (preamble document) (weave (blocksOf document) bodies) := by
    intro hne
    refine Lines.seam_of_ended (Lines.ended_of_seam hseam fun hnothing => ?_) (head_weave bodies horigin) hne
    rw [hnothing] at horigin
    exact hblocks hne (Prod.mk.inj horigin).2.symm
  have hclosed : splitlines (weave (blocksOf document) bodies) ≠ [] →
      fenceBehind (preamble document) = none := by
    intro hne
    exact hfence (hblocks fun hnothing => hne (by rw [hnothing]; rfl))
  rw [splitlines, Lines.split_append hseam', ← splitlines, ← splitlines,
    outline_body_append hquiet' hclosed]

theorem weave_body_eq_nil_iff {blocks : List Block} (hlines : ∀ block ∈ blocks, block.line ≠ []) :
    weave blocks (blocks.map Block.bodyText) = [] ↔ blocks = [] := by
  cases blocks with
  | nil => simp [weave]
  | cons block blocks => simp [weave, hlines block List.mem_cons_self]

/-- What fits among the blocks fits among the sections. -/
theorem allFit_iff {front : Text} {stack : List Text} {ordinal : Nat} {blocks : List Block}
    (hlocated : Located document front blocks) (hlines : ∀ block ∈ blocks, block.line ≠ [])
    (f : DocSection → Text) :
    AllFit blocks ((sectionsOf document stack front.length ordinal blocks).map f) ↔
      ∀ s ∈ sectionsOf document stack front.length ordinal blocks, Fits document s (f s) := by
  induction blocks generalizing front stack ordinal with
  | nil => simp [AllFit, sectionsOf]
  | cons block blocks ih =>
      have hlater : ∀ b ∈ blocks, b.line ≠ [] := fun b hb => hlines b (List.mem_cons_of_mem _ hb)
      have hrest := @ih _ (enter stack block.level block.heading) (ordinal + 1) hlocated.tail hlater
      rw [List.length_append, List.length_append] at hrest
      rw [sectionsOf, List.map_cons, AllFit, hrest, List.forall_mem_cons]
      refine and_congr (and_congr_right' (and_congr (or_congr_left ?_) (or_congr_right ?_))) Iff.rfl
      · have hlength := congrArg List.length hlocated.tail
        rw [List.length_append, List.length_append, List.length_append] at hlength
        show _ ↔ front.length + block.line.length + block.bodyText.length = document.text.length
        rw [← weave_body_eq_nil_iff hlater, ← List.length_eq_zero_iff]
        omega
      · have htake : document.text.take (front.length + block.line.length) = front ++ block.line := by
          rw [hlocated, List.map_cons, weave, List.append_assoc, ← List.append_assoc front]
          exact List.take_left' List.length_append
        show _ ↔ Lines.Ended isLineBreak (document.text.take (front.length + block.line.length))
        rw [htake, Lines.Ended, Lines.Ended,
          List.getLast?_append_of_ne_nil _ (hlines block List.mem_cons_self)]

/-- Levels and breadcrumbs are from the levels and the texts of the headings. -/
theorem map_key_sectionsOf {document' : MarkdownDocument} {stack : List Text}
    {offset offset' ordinal ordinal' : Nat} {blocks blocks' : List Block}
    (hsame : blocks.map (fun block => (block.level, block.heading)) =
      blocks'.map fun block => (block.level, block.heading)) :
    (sectionsOf document stack offset ordinal blocks).map (fun s => (s.level, s.headingPath)) =
      (sectionsOf document' stack offset' ordinal' blocks').map fun s => (s.level, s.headingPath) := by
  induction blocks generalizing stack offset offset' ordinal ordinal' blocks' with
  | nil =>
      obtain rfl := List.map_eq_nil_iff.mp hsame.symm
      rfl
  | cons block blocks ih =>
      cases blocks' with
      | nil => cases hsame
      | cons block' blocks' =>
          obtain ⟨hblock, hrest⟩ := List.cons.inj hsame
          obtain ⟨hlevel, hheading⟩ := Prod.mk.inj hblock
          rw [sectionsOf, sectionsOf, List.map_cons, List.map_cons]
          refine congrArg₂ List.cons ?_ ?_
          · simp only [makeSection, Block.pending, hlevel, hheading]
          · rw [hlevel, hheading]
            exact ih hrest

theorem exchanged_spec {blocks : List Block} {bodies : List Text}
    (hframed : List.Forall₂ Framed blocks bodies) :
    (exchanged blocks bodies).map Block.bodyText = bodies ∧
      (exchanged blocks bodies).map (fun block => (block.level, block.heading)) =
        blocks.map fun block => (block.level, block.heading) := by
  induction hframed with
  | nil => exact ⟨rfl, rfl⟩
  | cons _ _ ih =>
      refine ⟨congrArg₂ List.cons ?_ ih.1, congrArg₂ List.cons rfl ih.2⟩
      exact Lines.flatten_split _ _

/-- The bodies of the sections fit as they are. -/
theorem fits_body (document : MarkdownDocument) :
    ∀ s ∈ splitMarkdownDocument document, Fits document s s.body := by
  obtain ⟨behind, horigin, -⟩ := outline_preamble document
  have hlocated := located_blocksOf document
  have hown : weave (blocksOf document) ((blocksOf document).map Block.bodyText) = behind := by
    have hflat := flatten_outline none (splitlines behind)
    rw [horigin, splitlines, Lines.flatten_split] at hflat
    exact hflat
  rw [sectionsOf_blocksOf, ← allFit_iff hlocated (line_ne_nil document),
    map_body_sectionsOf hlocated]
  refine allFit_of_outline horigin ?_ ?_
  · rw [List.forall₂_map_right_iff]
    exact List.forall₂_same.mpr fun block _ hhead => hhead
  · rw [hown, horigin]

theorem forall₂_framed {replacements : List PendingReplacement}
    (hframed : ∀ s ∈ splitMarkdownDocument document,
      (bodyAfter replacements s).head? = some '\n' → s.body.head? = some '\n') :
    List.Forall₂ Framed (blocksOf document)
      ((splitMarkdownDocument document).map (bodyAfter replacements)) := by
  have hown : List.Forall₂ (fun own body : Text => body.head? = some '\n' → own.head? = some '\n')
      ((blocksOf document).map Block.bodyText)
      ((splitMarkdownDocument document).map (bodyAfter replacements)) := by
    rw [← map_body, List.forall₂_map_left_iff, List.forall₂_map_right_iff]
    exact List.forall₂_same.mpr hframed
  have hblocks := List.forall₂_map_left_iff.mp hown
  exact hblocks

theorem preserves_withBodies_iff {replacements : List PendingReplacement}
    (hframed : ∀ s ∈ splitMarkdownDocument document,
      (bodyAfter replacements s).head? = some '\n' → s.body.head? = some '\n') :
    Preserves replacements document (withBodies document (bodyAfter replacements)) ↔
      ∀ s ∈ splitMarkdownDocument document, Fits document s (bodyAfter replacements s) := by
  obtain ⟨behind, horigin, hpreamble⟩ := outline_preamble document
  have hblocks := forall₂_framed hframed
  let repaired : MarkdownDocument :=
    { document with text := withBodies document (bodyAfter replacements) }
  have hrepaired : blocksOf repaired = (outline none (splitlines (weave (blocksOf document)
      ((splitMarkdownDocument document).map (bodyAfter replacements))))).2 := hpreamble _
  have hfits : AllFit (blocksOf document)
      ((splitMarkdownDocument document).map (bodyAfter replacements)) ↔
        ∀ s ∈ splitMarkdownDocument document, Fits document s (bodyAfter replacements s) := by
    rw [sectionsOf_blocksOf]
    exact allFit_iff (located_blocksOf document) (line_ne_nil document) _
  rw [← hfits]
  constructor
  · intro hpreserves
    have hbodies : (splitMarkdownDocument repaired).map DocSection.body =
        (splitMarkdownDocument document).map (bodyAfter replacements) := by
      have hsnd := congrArg (List.map Prod.snd) hpreserves
      rw [List.map_map, List.map_map] at hsnd
      exact hsnd
    refine allFit_of_outline horigin hblocks ?_
    rw [← hrepaired, ← map_body, hbodies]
  · intro hfit
    obtain ⟨hbodies, hkeys⟩ := exchanged_spec hblocks
    have hblocks' : blocksOf repaired = exchanged (blocksOf document)
        ((splitMarkdownDocument document).map (bodyAfter replacements)) := by
      rw [hrepaired, outline_weave horigin hblocks hfit]
    have hkey : (splitMarkdownDocument repaired).map (fun s => (s.level, s.headingPath)) =
        (splitMarkdownDocument document).map fun s => (s.level, s.headingPath) := by
      rw [sectionsOf_blocksOf repaired, sectionsOf_blocksOf document, hblocks']
      exact map_key_sectionsOf hkeys
    have hbody : (splitMarkdownDocument repaired).map DocSection.body =
        (splitMarkdownDocument document).map (bodyAfter replacements) := by
      rw [map_body, hblocks', hbodies]
    have hzip := congrArg₂ List.zip hkey hbody
    rw [List.zip_map', List.zip_map'] at hzip
    exact hzip

end Document

/-! ### Accepted bodies -/

theorem takeBlankLines_prefix (blanks text : Text) : takeBlankLines blanks text <+: blanks ++ text := by
  induction text generalizing blanks with
  | nil => exact List.nil_prefix
  | cons c rest ih =>
      rw [takeBlankLines]
      split
      · have hprefix := ih (blanks ++ [c])
        rwa [List.append_assoc] at hprefix
      · split
        · rw [List.prefix_append_right_inj, List.prefix_cons_inj]
          exact ih []
        · exact List.nil_prefix

theorem head_stripFraming {text : Text} (hcore : stripFraming text ≠ []) :
    (stripFraming text).head? ≠ some '\n' := by
  obtain ⟨c, rest, hcons⟩ := List.exists_cons_of_ne_nil hcore
  have hprefix : stripFraming text <+: text.dropWhile isFraming := List.rdropWhile_prefix _ _
  rw [hcons] at hprefix ⊢
  obtain ⟨behind, hbehind⟩ := hprefix
  have hfirst := List.head?_dropWhile_not isFraming text
  rw [← hbehind, List.cons_append, List.head?_cons] at hfirst
  rintro heq
  cases heq
  exact absurd hfirst (by decide)

/-- An accepted body is not empty, and begins with a line feed only if the section's own body does. -/
theorem normalizeReplacementBody_spec {s : DocSection} {proposedBody : Text} {maxChars : Nat}
    {body : Text} (haccepted : normalizeReplacementBody s proposedBody maxChars = .ok body) :
    body ≠ [] ∧ (body.head? = some '\n' → s.body.head? = some '\n') := by
  rw [normalizeReplacementBody] at haccepted
  iterate 4
    split at haccepted
    · cases haccepted
  by_cases hcore : stripFraming (withNewlines s.newline proposedBody) = []
  · rw [if_pos (beq_iff_eq.mpr hcore)] at haccepted
    cases haccepted
  · rw [if_neg (by simpa using hcore)] at haccepted
    obtain rfl := Except.ok.inj haccepted
    refine ⟨by simp [hcore], fun hhead => ?_⟩
    cases hleading : leadingBlankLines s.body with
    | nil =>
        obtain ⟨c, rest, hcons⟩ := List.exists_cons_of_ne_nil hcore
        have hfirst := head_stripFraming hcore
        rw [hleading, List.nil_append, hcons] at hhead
        rw [hcons] at hfirst
        exact absurd hhead hfirst
    | cons c leading =>
        obtain ⟨behind, hbehind⟩ : leadingBlankLines s.body <+: s.body :=
          takeBlankLines_prefix [] s.body
        rw [hleading] at hhead hbehind
        rw [← hbehind]
        exact hhead

/-! ### Repaired files -/

theorem path_of_mem {document : MarkdownDocument} {s : DocSection}
    (hs : s ∈ splitMarkdownDocument document) : s.path = document.path := by
  suffices hall : ∀ blocks stack offset ordinal,
      s ∈ sectionsOf document stack offset ordinal blocks → s.path = document.path by
    rw [sectionsOf_blocksOf] at hs
    exact hall _ _ _ _ hs
  intro blocks
  induction blocks with
  | nil => exact fun stack offset ordinal hs => by cases hs
  | cons block blocks ih =>
      intro stack offset ordinal hs
      obtain rfl | hrest := List.mem_cons.mp hs
      · rfl
      · exact ih _ _ _ hrest

theorem bodyAfter_inFile (replacements : List PendingReplacement) (s : DocSection) :
    bodyAfter (inFile replacements s.path) s = bodyAfter replacements s := by
  rw [bodyAfter, bodyAfter, inFile, List.find?_filter]
  congr 2
  funext r
  by_cases hs : r.docSection = s
  · simp [hs]
  · simp [hs]

section Files

variable {documents : String → Option MarkdownDocument} {replacements : List PendingReplacement}

theorem Accepted.section_mem {r : PendingReplacement} {document : MarkdownDocument}
    (haccepted : Accepted documents r) (hdocument : documents r.docSection.path = some document) :
    r.docSection ∈ splitMarkdownDocument document := by
  obtain ⟨document', proposedBody, maxChars, hdocument', hs, -⟩ := haccepted
  obtain rfl := Option.some.inj (hdocument.symm.trans hdocument')
  exact hs

theorem Accepted.body_spec {r : PendingReplacement} (haccepted : Accepted documents r) :
    r.replacementBody ≠ [] ∧
      (r.replacementBody.head? = some '\n' → r.docSection.body.head? = some '\n') := by
  obtain ⟨document, proposedBody, maxChars, -, -, hnormalized⟩ := haccepted
  exact normalizeReplacementBody_spec hnormalized

/-- A repaired file has its bodies replaced, and its structure if what replaces them fits. -/
theorem repaired_spec (haccepted : ∀ r ∈ replacements, Accepted documents r) {r : PendingReplacement}
    (hr : r ∈ replacements) {document : MarkdownDocument} {text : Text}
    (hdocument : documents r.docSection.path = some document)
    (hrepair : repair r.docSection.path document (inFile replacements r.docSection.path) = .ok text) :
    text = withBodies document (bodyAfter replacements) ∧
      (Preserves replacements document text ↔
        ∀ r' ∈ replacements, r'.docSection.path = r.docSection.path →
          Fits document r'.docSection r'.replacementBody) := by
  have hpath := path_of_mem ((haccepted r hr).section_mem hdocument)
  have hsections : ∀ r' ∈ inFile replacements r.docSection.path,
      r'.docSection ∈ splitMarkdownDocument document := by
    intro r' hr'
    obtain ⟨hin, hsame⟩ := List.mem_filter.mp hr'
    exact (haccepted r' hin).section_mem ((beq_iff_eq.mp hsame) ▸ hdocument)
  obtain ⟨hnodup, hspliced, -⟩ := repair_spec hsections hrepair
  have hbodies : ∀ s ∈ splitMarkdownDocument document,
      bodyAfter (inFile replacements r.docSection.path) s = bodyAfter replacements s := by
    intro s hs
    rw [hpath, ← path_of_mem hs, bodyAfter_inFile]
  have hreplaced : ∀ r' ∈ replacements, r'.docSection.path = r.docSection.path →
      bodyAfter replacements r'.docSection = r'.replacementBody := by
    intro r' hr' hsame
    have hin : r' ∈ inFile replacements r.docSection.path :=
      List.mem_filter.mpr ⟨hr', beq_iff_eq.mpr hsame⟩
    rw [← hbodies _ (hsections r' hin), bodyAfter_of_mem hnodup hin]
  have hkept : ∀ s ∈ splitMarkdownDocument document,
      (∃ r' ∈ replacements, r'.docSection.path = r.docSection.path ∧ r'.docSection = s) ∨
        bodyAfter replacements s = s.body := by
    intro s hs
    by_cases hnone : ∀ r' ∈ replacements, r'.docSection ≠ s
    · exact .inr (bodyAfter_of_forall_ne hnone)
    · push Not at hnone
      obtain ⟨r', hr', rfl⟩ := hnone
      exact .inl ⟨r', hr', by rw [hpath, path_of_mem hs], rfl⟩
  have htext : text = withBodies document (bodyAfter replacements) := by
    rw [hspliced, withBodies, withBodies, List.map_congr_left hbodies]
  refine ⟨htext, ?_⟩
  rw [htext, preserves_withBodies_iff]
  · constructor
    · intro hfits r' hr' hsame
      rw [← hreplaced r' hr' hsame]
      exact hfits _ ((haccepted r' hr').section_mem (hsame ▸ hdocument))
    · intro hfits s hs
      obtain ⟨r', hr', hsame, rfl⟩ | hown := hkept s hs
      · rw [hreplaced r' hr' hsame]
        exact hfits r' hr' hsame
      · rw [hown]
        exact fits_body document s hs
  · intro s hs hhead
    obtain ⟨r', hr', hsame, rfl⟩ | hown := hkept s hs
    · rw [hreplaced r' hr' hsame] at hhead
      exact (haccepted r' hr').body_spec.2 hhead
    · rwa [hown] at hhead

end Files

/-- Where the replacements succeed, the changed files have the sections they had, each with its new body,
exactly if every replacement in them fits. -/
theorem preserves_iff {safeMarkdownPath : String → Except Error String}
    {documents : String → Option MarkdownDocument} {replacements : List PendingReplacement}
    {prepared : List PreparedWrite} (haccepted : ∀ r ∈ replacements, Accepted documents r)
    (hprepare : prepare safeMarkdownPath documents replacements = .ok prepared) :
    (∀ write ∈ prepared, ∀ document, documents write.relativePath = some document →
        Preserves replacements document write.text) ↔
      ∀ r ∈ replacements, ∀ document, documents r.docSection.path = some document →
        withBodies document (bodyAfter replacements) ≠ document.text →
          Fits document r.docSection r.replacementBody := by
  have hprogress := prepare_spec hprepare
  have hpaths : ∀ path, path ∈ ((replacements.map fun r => r.docSection.path).dedup.insertionSort
      (· ≤ ·)) ↔ ∃ r ∈ replacements, r.docSection.path = path := by
    intro path
    rw [(List.perm_insertionSort _ _).mem_iff, List.mem_dedup, List.mem_map]
  constructor
  · intro hpreserves r hr document hdocument hchanged
    obtain ⟨document', text, hdocument', hrepair, hwritten⟩ :=
      hprogress.files _ ((hpaths _).mpr ⟨r, hr, rfl⟩)
    obtain rfl := Option.some.inj (hdocument.symm.trans hdocument')
    obtain ⟨htext, hiff⟩ := repaired_spec haccepted hr hdocument hrepair
    obtain ⟨absolute, hwrite⟩ := hwritten (htext ▸ hchanged)
    exact hiff.mp (hpreserves _ hwrite document hdocument) r hr rfl
  · intro hfits write hwrite document hdocument
    obtain ⟨⟨document', hdocument', hrepair, hchanged⟩, hpath⟩ := hprogress.writes write hwrite
    obtain rfl := Option.some.inj (hdocument.symm.trans hdocument')
    obtain ⟨r, hr, hsame⟩ := (hpaths _).mp hpath
    rw [← hsame] at hdocument hrepair
    obtain ⟨htext, hiff⟩ := repaired_spec haccepted hr hdocument hrepair
    refine hiff.mpr fun r' hr' hsame' => hfits r' hr' document (hsame' ▸ hdocument) ?_
    rw [← htext]
    exact hchanged

/-! ### Two short runs -/

def readme : MarkdownDocument := ⟨"README.md", "# A\ntext\n# B\nmore\n".toList, ['\n']⟩

def tracked (path : String) : Option MarkdownDocument :=
  if path == "README.md" then some readme else none

def onDisk (path : String) : Except Error String := .ok ("/repo/" ++ path)

/-- A new body for the document's first section. -/
def rewritten (body : String) : PendingReplacement where
  docSection :=
    { sectionId := "README.md::A::section-1", path := "README.md", heading := ['A'],
      headingPath := [['A']], level := 1, body := "text\n".toList, bodyStart := 4, bodyEnd := 9,
      newline := ['\n'], ordinal := 1 }
  replacementBody := body.toList

/-- A new body for its second section. -/
def rewrittenSecond (body : String) : PendingReplacement where
  docSection :=
    { sectionId := "README.md::B::section-2", path := "README.md", heading := ['B'],
      headingPath := [['B']], level := 1, body := "more\n".toList, bodyStart := 13, bodyEnd := 18,
      newline := ['\n'], ordinal := 2 }
  replacementBody := body.toList

theorem mem_readme (body : String) : (rewritten body).docSection ∈ splitMarkdownDocument readme ∧
    (rewrittenSecond body).docSection ∈ splitMarkdownDocument readme := by
  show (rewritten "").docSection ∈ _ ∧ (rewrittenSecond "").docSection ∈ _
  decide +kernel

theorem accepted_of_normalize (proposedBody body : String)
    (hnormalized : normalizeReplacementBody (rewritten body).docSection proposedBody.toList 6000 =
      .ok body.toList) : ∀ r ∈ [rewritten body], Accepted tracked r := by
  intro r hr
  obtain rfl := List.mem_singleton.mp hr
  exact ⟨readme, proposedBody.toList, 6000, rfl, (mem_readme body).1, hnormalized⟩

theorem preserves_iff_plain :
    Preserves [rewritten "new\n"] readme "# A\nnew\n# B\nmore\n".toList ∧
      ∀ r ∈ [rewritten "new\n"], ∀ document, tracked r.docSection.path = some document →
        withBodies document (bodyAfter [rewritten "new\n"]) ≠ document.text →
          Fits document r.docSection r.replacementBody := by
  have hprepare : prepare onDisk tracked [rewritten "new\n"] =
      .ok [⟨"README.md", "/repo/README.md", "# A\nnew\n# B\nmore\n".toList⟩] := by decide +kernel
  have hpreserves : Preserves [rewritten "new\n"] readme "# A\nnew\n# B\nmore\n".toList := by
    decide +kernel
  refine ⟨hpreserves, (preserves_iff
    (accepted_of_normalize "new" "new\n" (by decide +kernel)) hprepare).mp ?_⟩
  intro write hwrite document hdocument
  obtain rfl := List.mem_singleton.mp hwrite
  obtain rfl : readme = document := Option.some.inj hdocument
  exact hpreserves

/-- An accepted body loses its indentation, and its first line takes the place of the next heading, which
is in the fence that the body leaves open. -/
theorem not_preserves_of_lookAlike :
    (∀ r ∈ [rewritten "# B\n```\n"], Accepted tracked r) ∧
      ∃ text, prepare onDisk tracked [rewritten "# B\n```\n"] =
          .ok [⟨"README.md", "/repo/README.md", text⟩] ∧
        ¬ Preserves [rewritten "# B\n```\n"] readme text :=
  ⟨accepted_of_normalize "    # B\n```" "# B\n```\n" (by decide +kernel),
    "# A\n# B\n```\n# B\nmore\n".toList, by decide +kernel, by decide +kernel⟩

end CoreMesh.SelfHealingDocs
