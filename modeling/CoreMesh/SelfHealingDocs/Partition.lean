import CoreMesh.SelfHealingDocs.AcceptedRepairs

/-!
# The sections partition the document

The splitter counts offsets line by line and keeps a stack of headings. Read off the outline, its sections
are slices one behind the other, and the stack is determined by the headings above: at each level it has
the nearest heading of that level that no higher heading has come after.
-/

namespace CoreMesh.SelfHealingDocs

open SqlEngine (strip)

abbrev untitled : Text := "<untitled>".toList

/-- What encloses the next heading at a level: the nearest heading above of this level or a higher one, if
it is of this level. -/
def enclosing (above : List DocSection) (level : Nat) : Text :=
  match above.reverse.find? fun s => s.level ≤ level with
  | some s => if s.level = level then s.heading else untitled
  | none => untitled

/-- The heading line of a section: it stands right before the body. -/
structure IsHeadingLine (document : MarkdownDocument) (line : Text) (s : DocSection) : Prop where
  mem : line ∈ splitlines document.text
  before : line <:+ document.text.take s.bodyStart
  heading : ∃ text, headingMatch line = some (s.level, text) ∧ s.heading = strip text

structure Partition (document : MarkdownDocument) (sections : List DocSection) : Prop where
  ordered : sections.Pairwise fun s s' => s.bodyEnd ≤ s'.bodyStart
  slices : ∀ s ∈ sections, s.bodyStart ≤ s.bodyEnd ∧ s.bodyEnd ≤ document.text.length ∧
    s.body = (document.text.take s.bodyEnd).drop s.bodyStart
  whole : ∃ front lines, List.Forall₂ (IsHeadingLine document) lines sections ∧
    document.text = front ++ (List.zipWith (fun line s => line ++ s.body) lines sections).flatten
  ids : (sections.map DocSection.sectionId).Nodup
  breadcrumbs : ∀ above s below, sections = above ++ s :: below → s.headingPath.length = s.level ∧
    s.headingPath = (List.range (s.level - 1)).map (fun n => enclosing above (n + 1)) ++ [s.heading]

/-! ### Breadcrumbs -/

theorem enclosing_concat (above : List DocSection) (s : DocSection) (level : Nat) :
    enclosing (above ++ [s]) level =
      if s.level ≤ level then if s.level = level then s.heading else untitled
      else enclosing above level := by
  rw [enclosing, List.reverse_concat, List.find?_cons]
  by_cases hlevel : s.level ≤ level
  · simp only [hlevel, decide_true, if_true]
  · simp only [hlevel, decide_false, if_false]
    rfl

theorem enter_eq (stack : List Text) (level : Nat) (heading : Text) :
    enter stack level heading =
      (List.range (level - 1)).map (fun n => stack.getD n untitled) ++ [heading] := by
  rw [enter]
  congr 1
  apply List.ext_getElem
  · simp
  · intro n hn hn'
    have hlevel : n < level - 1 := by simpa using hn'
    rw [List.getElem_map, List.getElem_range, List.getD_eq_getElem?_getD]
    by_cases hstack : n < stack.length
    · have houter : n < (stack.take (level - 1)).length := by
        rw [List.length_take]
        omega
      rw [List.getElem_append_left houter, List.getElem_take, List.getElem?_eq_getElem hstack,
        Option.getD_some]
    · have houter : (stack.take (level - 1)).length ≤ n := by
        rw [List.length_take]
        omega
      rw [List.getElem_append_right houter, List.getElem_replicate,
        List.getElem?_eq_none (by omega), Option.getD_none]

theorem getD_enter (stack : List Text) {level : Nat} (hlevel : 1 ≤ level) (heading : Text) (n : Nat) :
    (enter stack level heading).getD n untitled =
      if level ≤ n + 1 then if level = n + 1 then heading else untitled
      else stack.getD n untitled := by
  have hlength : ((List.range (level - 1)).map fun n => stack.getD n untitled).length = level - 1 := by
    simp
  rw [enter_eq, List.getD_eq_getElem?_getD]
  obtain hbelow | hbehind := Nat.lt_or_ge n (level - 1)
  · rw [List.getElem?_append_left (by omega), if_neg (by omega),
      List.getElem?_eq_getElem (by omega), List.getElem_map, List.getElem_range, Option.getD_some]
  · rw [List.getElem?_append_right (by omega), if_pos (by omega), hlength]
    by_cases hlast : level = n + 1
    · rw [if_pos hlast, hlast]
      simp
    · rw [if_neg hlast, List.getElem?_eq_none (by simp; omega), Option.getD_none]

/-- The stack has what the headings above leave open. -/
def Stacked (above : List DocSection) (stack : List Text) : Prop :=
  ∀ n, stack.getD n untitled = enclosing above (n + 1)

theorem stacked_nil : Stacked [] [] := by
  intro n
  rfl

theorem Stacked.enter {above : List DocSection} {stack : List Text} (hstacked : Stacked above stack)
    {s : DocSection} (hlevel : 1 ≤ s.level) :
    Stacked (above ++ [s]) (enter stack s.level s.heading) := by
  intro n
  rw [getD_enter stack hlevel, enclosing_concat, hstacked n]

theorem one_le_of_headingMatch {line text : Text} {level : Nat}
    (hmatch : headingMatch line = some (level, text)) : 1 ≤ level := by
  rw [headingMatch] at hmatch
  split at hmatch
  · cases hmatch
  · rename_i rest _
    by_cases hlevel : (1 ≤ (rest.takeWhile (· == '#')).length &&
        (rest.takeWhile (· == '#')).length ≤ 6) = true
    · simp only [hlevel, if_true] at hmatch
      obtain ⟨found, -, heq⟩ := Option.map_eq_some_iff.mp hmatch
      obtain ⟨rfl, -⟩ := Prod.mk.inj heq
      simp only [Bool.and_eq_true, decide_eq_true_eq] at hlevel
      exact hlevel.1
    · simp only [hlevel] at hmatch
      cases hmatch

variable {document : MarkdownDocument}

theorem headingPath_sectionsOf {seen : List DocSection} {stack : List Text} {offset ordinal : Nat}
    {blocks : List Block} (hlevels : ∀ block ∈ blocks, 1 ≤ block.level) (hstacked : Stacked seen stack)
    {above : List DocSection} {s : DocSection} {below : List DocSection}
    (hsplit : sectionsOf document stack offset ordinal blocks = above ++ s :: below) :
    1 ≤ s.level ∧ s.headingPath =
      (List.range (s.level - 1)).map (fun n => enclosing (seen ++ above) (n + 1)) ++ [s.heading] := by
  induction blocks generalizing seen stack offset ordinal above with
  | nil => cases above <;> cases hsplit
  | cons block blocks ih =>
      obtain ⟨hlevel, hlater⟩ := List.forall_mem_cons.mp hlevels
      rw [sectionsOf] at hsplit
      cases above with
      | nil =>
          obtain ⟨rfl, -⟩ := List.cons.inj hsplit
          refine ⟨hlevel, ?_⟩
          show enter stack block.level block.heading = _
          rw [enter_eq, List.append_nil]
          congr 1
          exact List.map_congr_left fun n _ => hstacked n
      | cons first above =>
          obtain ⟨rfl, hrest⟩ := List.cons.inj hsplit
          have hnext := ih hlater (hstacked.enter (s := makeSection document
            (block.pending stack offset ordinal) (offset + block.line.length + block.bodyText.length))
            hlevel) hrest
          rw [List.append_assoc] at hnext
          exact hnext

/-! ### Heading lines and bodies -/

theorem line_of_mem_outline {fence : Fence} {lines : List Text} {block : Block}
    (hblock : block ∈ (outline fence lines).2) : block.line ∈ lines ∧
      ∃ text, headingMatch block.line = some (block.level, text) ∧ block.heading = strip text := by
  induction lines generalizing fence with
  | nil => cases hblock
  | cons line lines ih =>
      cases hline : headingAt fence line with
      | some heading =>
          rw [outline_of_heading lines hline] at hblock
          obtain rfl | hrest := List.mem_cons.mp hblock
          · exact ⟨List.mem_cons_self, _, (headingAt_eq_some_iff.mp hline).2.2, rfl⟩
          · exact ⟨List.mem_cons_of_mem _ (ih hrest).1, (ih hrest).2⟩
      | none =>
          rw [outline_of_text lines hline] at hblock
          exact ⟨List.mem_cons_of_mem _ (ih hblock).1, (ih hblock).2⟩

theorem forall₂_isHeadingLine {front : Text} {stack : List Text} {ordinal : Nat} {blocks : List Block}
    (hlocated : Located document front blocks)
    (hblocks : ∀ block ∈ blocks, block ∈ blocksOf document) :
    List.Forall₂ (IsHeadingLine document) (blocks.map Block.line)
      (sectionsOf document stack front.length ordinal blocks) := by
  induction blocks generalizing front stack ordinal with
  | nil => exact .nil
  | cons block blocks ih =>
      obtain ⟨hblock, hlater⟩ := List.forall_mem_cons.mp hblocks
      have hrest := @ih _ (enter stack block.level block.heading) (ordinal + 1) hlocated.tail hlater
      rw [List.length_append, List.length_append] at hrest
      obtain ⟨hline, hheading⟩ := line_of_mem_outline hblock
      refine .cons ⟨hline, ?_, hheading⟩ hrest
      have htake : document.text.take (front.length + block.line.length) = front ++ block.line := by
        rw [hlocated, List.map_cons, weave, List.append_assoc, ← List.append_assoc front]
        exact List.take_left' List.length_append
      show block.line <:+ document.text.take (front.length + block.line.length)
      rw [htake]
      exact List.suffix_append _ _

theorem weave_eq_flatten (blocks : List Block) (sections : List DocSection) :
    weave blocks (sections.map DocSection.body) =
      (List.zipWith (fun line s => line ++ s.body) (blocks.map Block.line) sections).flatten := by
  induction blocks generalizing sections with
  | nil => rfl
  | cons block blocks ih =>
      cases sections with
      | nil => rfl
      | cons s sections => rw [List.map_cons, weave, ih]; rfl

theorem slice_of_mem {s : DocSection} (hs : s ∈ splitMarkdownDocument document) :
    s.body = (document.text.take s.bodyEnd).drop s.bodyStart := by
  suffices hall : ∀ {stack : List Text} {offset ordinal : Nat} {blocks : List Block},
      s ∈ sectionsOf document stack offset ordinal blocks →
        s.body = (document.text.take s.bodyEnd).drop s.bodyStart by
    rw [sectionsOf_blocksOf] at hs
    exact hall hs
  intro stack offset ordinal blocks hs
  induction blocks generalizing stack offset ordinal with
  | nil => cases hs
  | cons block blocks ih =>
      obtain rfl | hrest := List.mem_cons.mp hs
      · rfl
      · exact ih hrest

theorem bodyEnd_le_length {s : DocSection} (hs : s ∈ splitMarkdownDocument document) :
    s.bodyEnd ≤ document.text.length := by
  suffices hall : ∀ {front : Text} {stack : List Text} {ordinal : Nat} {blocks : List Block},
      Located document front blocks → s ∈ sectionsOf document stack front.length ordinal blocks →
        s.bodyEnd ≤ document.text.length by
    rw [sectionsOf_blocksOf] at hs
    exact hall (located_blocksOf document) hs
  intro front stack ordinal blocks hlocated hs
  induction blocks generalizing front stack ordinal with
  | nil => cases hs
  | cons block blocks ih =>
      obtain rfl | hrest := List.mem_cons.mp hs
      · have hlength := congrArg List.length hlocated.tail
        rw [List.length_append, List.length_append, List.length_append] at hlength
        show front.length + block.line.length + block.bodyText.length ≤ document.text.length
        omega
      · have htail := @ih _ (enter stack block.level block.heading) (ordinal + 1) hlocated.tail
        rw [List.length_append, List.length_append] at htail
        exact htail hrest

end CoreMesh.SelfHealingDocs
