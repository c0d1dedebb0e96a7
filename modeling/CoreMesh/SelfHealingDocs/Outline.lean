import CoreMesh.SelfHealingDocs.Markdown

/-!
# The outline of a document

What the splitter makes of a document, without its offsets: the lines before the first heading, then the
headings, each with the lines of its body. Both loops over lines, the splitter's and the one that looks
for headings in a proposal, go by it.
-/

namespace CoreMesh.SelfHealingDocs

open SqlEngine (strip)

/-- The level and the text of a line that is a heading. -/
def headingAt (fence : Fence) (line : Text) : Option (Nat × Text) :=
  if fence.isNone && (fenceMatch line).isNone then headingMatch line else none

def fenceAfter (fence : Fence) (line : Text) : Fence :=
  match fence with
  | some (char, length) => closeFence char length line
  | none => fenceMatch line

structure Block where
  level : Nat
  heading : Text
  line : Text
  body : List Text

def outline (fence : Fence) : List Text → List Text × List Block
  | [] => ([], [])
  | line :: lines =>
      let (body, blocks) := outline (fenceAfter fence line) lines
      match headingAt fence line with
      | some (level, text) => ([], ⟨level, strip text, line, body⟩ :: blocks)
      | none => (line :: body, blocks)

theorem outline_of_text {fence : Fence} {line : Text} (lines : List Text)
    (hline : headingAt fence line = none) :
    outline fence (line :: lines) =
      (line :: (outline (fenceAfter fence line) lines).1, (outline (fenceAfter fence line) lines).2) := by
  rw [outline, hline]

theorem headingAt_eq_some_iff {fence : Fence} {line : Text} {level : Nat} {text : Text} :
    headingAt fence line = some (level, text) ↔
      fence = none ∧ fenceMatch line = none ∧ headingMatch line = some (level, text) := by
  rw [headingAt]
  cases fence with
  | some fence => simp
  | none => cases hmarker : fenceMatch line <;> simp

theorem outline_of_heading {fence : Fence} {line : Text} {level : Nat} {text : Text}
    (lines : List Text) (hline : headingAt fence line = some (level, text)) :
    outline fence (line :: lines) =
      ([], ⟨level, strip text, line, (outline none lines).1⟩ :: (outline none lines).2) := by
  obtain ⟨rfl, hmarker, -⟩ := headingAt_eq_some_iff.mp hline
  rw [outline, hline, fenceAfter, hmarker]

/-- Behind lines without a heading the outline goes on. -/
theorem outline_append {fence : Fence} {body : List Text} (lines : List Text)
    (hbody : (outline fence body).2 = []) :
    outline fence (body ++ lines) =
      (body ++ (outline (body.foldl fenceAfter fence) lines).1,
        (outline (body.foldl fenceAfter fence) lines).2) := by
  induction body generalizing fence with
  | nil => rfl
  | cons line body ih =>
      cases hline : headingAt fence line with
      | some heading =>
          rw [outline_of_heading body hline] at hbody
          cases hbody
      | none =>
          rw [outline_of_text body hline] at hbody
          rw [List.cons_append, outline_of_text _ hline, ih hbody]
          rfl

/-- The lines of a body have no heading, and no fence is open where the next heading is. -/
theorem outline_spec (fence : Fence) (lines : List Text) :
    ∃ behind, lines = (outline fence lines).1 ++ behind ∧
      (outline fence (outline fence lines).1).2 = [] ∧
      outline ((outline fence lines).1.foldl fenceAfter fence) behind =
        ([], (outline fence lines).2) ∧
      ((outline fence lines).2 ≠ [] → (outline fence lines).1.foldl fenceAfter fence = none) := by
  induction lines generalizing fence with
  | nil => exact ⟨[], rfl, rfl, rfl, fun hne => absurd rfl hne⟩
  | cons line lines ih =>
      cases hline : headingAt fence line with
      | some heading =>
          obtain ⟨level, text⟩ := heading
          have hfence := (headingAt_eq_some_iff.mp hline).1
          rw [outline_of_heading lines hline]
          refine ⟨line :: lines, rfl, rfl, ?_, fun _ => hfence⟩
          rw [List.foldl_nil, outline_of_heading lines hline]
      | none =>
          obtain ⟨behind, hlines, hbody, hbehind, hfence⟩ := ih (fenceAfter fence line)
          rw [outline_of_text lines hline]
          refine ⟨behind, ?_, ?_, hbehind, hfence⟩
          · rw [List.cons_append, ← hlines]
          · rw [outline_of_text _ hline]
            exact hbody

theorem eq_nil_of_outline {fence : Fence} {lines : List Text} (houtline : outline fence lines = ([], [])) :
    lines = [] := by
  cases lines with
  | nil => rfl
  | cons line lines =>
      cases hline : headingAt fence line with
      | some heading =>
          rw [outline_of_heading lines hline] at houtline
          cases houtline
      | none =>
          rw [outline_of_text lines hline] at houtline
          cases houtline

/-- An outline that begins with a heading. -/
theorem outline_eq_cons {fence : Fence} {lines : List Text} {block : Block} {blocks : List Block}
    (houtline : outline fence lines = ([], block :: blocks)) :
    ∃ text rest, lines = block.line :: rest ∧ headingAt fence block.line = some (block.level, text) ∧
      block.heading = strip text ∧ outline none rest = (block.body, blocks) := by
  cases lines with
  | nil => cases houtline
  | cons line lines =>
      cases hline : headingAt fence line with
      | some heading =>
          obtain ⟨level, text⟩ := heading
          rw [outline_of_heading lines hline] at houtline
          cases houtline
          exact ⟨text, lines, rfl, hline, rfl, rfl⟩
      | none =>
          rw [outline_of_text lines hline] at houtline
          cases houtline

/-! ### The loops -/

theorem headingOutsideFence_eq_false_iff (fence : Fence) (lines : List Text) :
    headingOutsideFence fence lines = false ↔ (outline fence lines).2 = [] := by
  induction lines generalizing fence with
  | nil => exact ⟨fun _ => rfl, fun _ => by cases fence <;> rfl⟩
  | cons line lines ih =>
      cases fence with
      | some fence =>
          have hline : headingAt (some fence) line = none := rfl
          rw [headingOutsideFence, outline_of_text lines hline]
          exact ih _
      | none =>
          rw [headingOutsideFence]
          cases hmarker : fenceMatch line with
          | some marker =>
              have hline : headingAt none line = none := by rw [headingAt, hmarker]; rfl
              rw [outline_of_text lines hline, fenceAfter, hmarker]
              exact ih _
          | none =>
              have hheading : headingAt none line = headingMatch line := by rw [headingAt, hmarker]; rfl
              cases hline : headingMatch line with
              | some heading =>
                  obtain ⟨level, text⟩ := heading
                  rw [outline_of_heading lines (hheading.trans hline)]
                  simp
              | none =>
                  rw [outline_of_text lines (hheading.trans hline), fenceAfter, hmarker,
                    Option.isSome_none, Bool.false_or]
                  exact ih _

theorem line_of_text (document : MarkdownDocument) {s : Splitter} {line : Text}
    (hline : headingAt s.fence line = none) :
    s.line document line =
      { s with fence := fenceAfter s.fence line, offset := s.offset + line.length } := by
  obtain ⟨stack, sections, pending, offset, fence, ordinal⟩ := s
  cases fence with
  | some fence => rfl
  | none =>
      rw [Splitter.line]
      cases hmarker : fenceMatch line with
      | some marker => simp only [fenceAfter, hmarker]
      | none =>
          have hheading : headingMatch line = none := by
            rw [← hline, headingAt, hmarker]
            rfl
          simp only [hheading, fenceAfter, hmarker]

def Block.pending (block : Block) (stack : List Text) (offset ordinal : Nat) : Pending where
  heading := block.heading
  headingPath := enter stack block.level block.heading
  level := block.level
  bodyStart := offset + block.line.length
  ordinal := ordinal + 1

def Block.bodyText (block : Block) : Text := block.body.flatten

theorem line_of_heading (document : MarkdownDocument) {s : Splitter} {block : Block} {text : Text}
    (hline : headingAt s.fence block.line = some (block.level, text))
    (hheading : block.heading = strip text) :
    s.line document block.line =
      { stack := enter s.stack block.level block.heading
        sections := closePending document s s.offset
        pending := some (block.pending s.stack s.offset s.ordinal)
        offset := s.offset + block.line.length
        fence := none
        ordinal := s.ordinal + 1 } := by
  obtain ⟨stack, sections, pending, offset, fence, ordinal⟩ := s
  obtain ⟨rfl, hmarker, hmatch⟩ := headingAt_eq_some_iff.mp hline
  simp only [Splitter.line, hmarker, hmatch, Block.pending, hheading]

/-- The sections of blocks that begin at an offset, below the headings on the stack. -/
def sectionsOf (document : MarkdownDocument) : List Text → Nat → Nat → List Block → List DocSection
  | _, _, _, [] => []
  | stack, offset, ordinal, block :: blocks =>
      let bodyEnd := offset + block.line.length + block.bodyText.length
      makeSection document (block.pending stack offset ordinal) bodyEnd ::
        sectionsOf document (enter stack block.level block.heading) bodyEnd (ordinal + 1) blocks

theorem closePending_foldl (document : MarkdownDocument) (s : Splitter) (lines : List Text)
    (hlength : document.text.length = s.offset + lines.flatten.length) :
    closePending document (lines.foldl (Splitter.line document) s) document.text.length =
      closePending document s (s.offset + (outline s.fence lines).1.flatten.length) ++
        sectionsOf document s.stack (s.offset + (outline s.fence lines).1.flatten.length) s.ordinal
          (outline s.fence lines).2 := by
  induction lines generalizing s with
  | nil => rw [hlength]; exact (List.append_nil _).symm
  | cons line lines ih =>
      rw [List.flatten_cons, List.length_append, ← Nat.add_assoc] at hlength
      rw [List.foldl_cons]
      cases hline : headingAt s.fence line with
      | some heading =>
          obtain ⟨level, text⟩ := heading
          let block : Block := ⟨level, strip text, line, (outline none lines).1⟩
          have hstep := line_of_heading document
            (show headingAt s.fence block.line = some (block.level, text) from hline) rfl
          rw [show line = block.line from rfl, hstep, ih _ hlength, outline_of_heading lines hline]
          simp only [closePending, sectionsOf, Block.bodyText, List.flatten_nil, List.length_nil,
            Nat.add_zero, List.append_assoc, List.singleton_append]
          rfl
      | none =>
          rw [line_of_text document hline, ih _ hlength, outline_of_text lines hline, List.flatten_cons,
            List.length_append, ← Nat.add_assoc]
          rfl

theorem splitMarkdownDocument_eq (document : MarkdownDocument) :
    splitMarkdownDocument document =
      sectionsOf document [] (outline none (splitlines document.text)).1.flatten.length 0
        (outline none (splitlines document.text)).2 := by
  have hlength : document.text.length =
      Splitter.start.offset + (splitlines document.text).flatten.length := by
    rw [splitlines, Lines.flatten_split]
    exact (Nat.zero_add _).symm
  rw [splitMarkdownDocument, closePending_foldl document .start _ hlength]
  show [] ++ sectionsOf document [] (0 + _) 0 _ = _
  rw [List.nil_append, Nat.zero_add]
  rfl

end CoreMesh.SelfHealingDocs
