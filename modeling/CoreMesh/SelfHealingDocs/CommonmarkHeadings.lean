import CoreMesh.Lib.Commonmark
import CoreMesh.SelfHealingDocs.Partition

/-!
# Where the splitter agrees with CommonMark

The splitter and CommonMark go over a document with an open fence each. A line of the form of a heading is
read alike exactly if both fences are open, or none. They part where a fence is closed with a text behind
it, where there is a backtick behind the backticks that open one, and where `str.splitlines` ends a line
that CommonMark goes on with.
-/

namespace CoreMesh.SelfHealingDocs

open SqlEngine (strip)

/-- The heading lines of the splitter, each between one body and the next, with where they begin. -/
def splitHeadings (document : MarkdownDocument) : List (Nat × Text) :=
  let sections := splitMarkdownDocument document
  (((preamble document).length :: sections.map DocSection.bodyEnd).zip sections).map
    fun (start, s) => (start, (document.text.take s.bodyStart).drop start)

/-- The splitter makes of a line what CommonMark does, behind lines that left these fences open. -/
def LineReadAlike (expected fence : Fence) (line : Text) : Prop :=
  if splitlines line = [line] then (headingMatch line).isSome = true → expected.isNone = fence.isNone
  else headingOutsideFence fence (splitlines line) = false ∧
    ¬(expected = none ∧ Commonmark.isAtxHeading line = true)

/-- The splitter makes of every line what CommonMark does. -/
def ReadAlike : Fence → Fence → List Text → Prop
  | _, _, [] => True
  | expected, fence, line :: lines =>
      LineReadAlike expected fence line ∧
        ReadAlike (Commonmark.fenceAfter expected line) ((splitlines line).foldl fenceAfter fence) lines

/-- A line that the splitter takes to open or to close a fence, and CommonMark does not. -/
def Misread (expected : Fence) (line : Text) : Prop :=
  ∃ c n behind, Commonmark.run line = some (c, n, behind) ∧
    match expected with
    | none => c = '`' ∧ 3 ≤ n ∧ '`' ∈ behind
    | some (char, length) => c = char ∧ length ≤ n ∧ ∃ d ∈ behind, Commonmark.isBlank d = false

/-- No line is misread behind the fence that CommonMark has open. -/
def WellRead : Fence → List Text → Prop
  | _, [] => True
  | expected, line :: lines => ¬Misread expected line ∧ WellRead (Commonmark.fenceAfter expected line) lines

/-! ### What the splitter marks -/

def marksHeading (fence : Fence) (line : Text) : Bool := (headingAt fence line).isSome

/-- The heading lines of blocks that begin at an offset. -/
def blockHeadings : Nat → List Block → List (Nat × Text)
  | _, [] => []
  | offset, block :: blocks =>
      (offset, block.line) :: blockHeadings (offset + block.line.length + block.bodyText.length) blocks

theorem marked_eq_blocks (fence : Fence) (offset : Nat) (lines : List Text) :
    Lines.marked marksHeading fenceAfter fence offset lines =
      blockHeadings (offset + (outline fence lines).1.flatten.length) (outline fence lines).2 := by
  induction lines generalizing fence offset with
  | nil => rfl
  | cons line lines ih =>
      rw [Lines.marked, ih]
      cases hline : headingAt fence line with
      | some heading =>
          obtain ⟨level, text⟩ := heading
          obtain ⟨rfl, hmarker, -⟩ := headingAt_eq_some_iff.mp hline
          have hfence : fenceAfter none line = none := hmarker
          rw [outline_of_heading lines hline, hfence, marksHeading, hline]
          rfl
      | none =>
          rw [outline_of_text lines hline, marksHeading, hline, List.flatten_cons, List.length_append,
            Nat.add_assoc]
          rfl

theorem zip_sectionsOf {document : MarkdownDocument} {front : Text} {stack : List Text} {ordinal : Nat}
    {blocks : List Block} (hlocated : Located document front blocks) :
    ((front.length :: (sectionsOf document stack front.length ordinal blocks).map DocSection.bodyEnd).zip
        (sectionsOf document stack front.length ordinal blocks)).map
        (fun (start, s) => (start, (document.text.take s.bodyStart).drop start)) =
      blockHeadings front.length blocks := by
  induction blocks generalizing front stack ordinal with
  | nil => rfl
  | cons block blocks ih =>
      have hrest := @ih _ (enter stack block.level block.heading) (ordinal + 1) hlocated.tail
      rw [List.length_append, List.length_append] at hrest
      have hline : (document.text.take (front.length + block.line.length)).drop front.length =
          block.line := by
        rw [hlocated, List.map_cons, weave, List.append_assoc, ← List.append_assoc front,
          List.take_left' List.length_append, List.drop_left]
      rw [sectionsOf, List.map_cons, List.zip_cons_cons, List.map_cons, blockHeadings]
      exact congrArg₂ List.cons (Prod.ext rfl hline) hrest

theorem splitHeadings_eq (document : MarkdownDocument) :
    splitHeadings document =
      Lines.marked marksHeading fenceAfter none 0 (splitlines document.text) := by
  rw [marked_eq_blocks, Nat.zero_add]
  show _ = blockHeadings (preamble document).length (blocksOf document)
  rw [← zip_sectionsOf (located_blocksOf document), splitHeadings, sectionsOf_blocksOf]

/-! ### The form of a heading -/

section Form

variable {front ending : Text}

theorem takeWhile_ending {p : Char → Bool} (hp : ∀ c, Commonmark.isLineEnding c = true → p c = false)
    (hending : ending.head?.all Commonmark.isLineEnding = true) (front : Text) :
    (front ++ ending).takeWhile p = front.takeWhile p ∧
      (front ++ ending).dropWhile p = front.dropWhile p ++ ending := by
  induction front with
  | nil =>
      cases ending with
      | nil => exact ⟨rfl, rfl⟩
      | cons c ending =>
          have hc : p c = false := hp c hending
          exact ⟨List.takeWhile_cons_of_neg (by simp [hc]), List.dropWhile_cons_of_neg (by simp [hc])⟩
  | cons c front ih =>
      rw [List.cons_append]
      by_cases hc : p c = true
      · rw [List.takeWhile_cons_of_pos hc, List.takeWhile_cons_of_pos hc, List.dropWhile_cons_of_pos hc,
          List.dropWhile_cons_of_pos hc, ih.1, ih.2]
        exact ⟨rfl, rfl⟩
      · rw [List.takeWhile_cons_of_neg hc, List.takeWhile_cons_of_neg hc, List.dropWhile_cons_of_neg hc,
          List.dropWhile_cons_of_neg hc]
        exact ⟨rfl, rfl⟩

theorem ne_of_isLineEnding {d : Char} (hd : Commonmark.isLineEnding d = false) :
    ∀ c, Commonmark.isLineEnding c = true → (c == d) = false := by
  intro c hc
  refine beq_eq_false_iff_ne.mpr ?_
  rintro rfl
  rw [hc] at hd
  cases hd

/-- A line in parts: its content, and what it ends in. -/
structure InParts (front ending : Text) : Prop where
  plain : ∀ c ∈ front, Commonmark.isLineEnding c = false
  ends : ending ∈ [[], ['\n'], ['\r'], ['\r', '\n']]

theorem InParts.head (hparts : InParts front ending) :
    ending.head?.all Commonmark.isLineEnding = true := by
  obtain ⟨-, hends⟩ := hparts
  simp only [List.mem_cons, List.not_mem_nil, or_false] at hends
  rcases hends with rfl | rfl | rfl | rfl <;> rfl

theorem InParts.indented (hparts : InParts front ending) :
    indented (front ++ ending) = (Commonmark.unindented (front ++ ending)).map (· ++ ending) := by
  obtain ⟨htake, hdrop⟩ := takeWhile_ending (ne_of_isLineEnding (d := ' ') (by decide)) hparts.head front
  rw [SelfHealingDocs.indented, Commonmark.unindented, Commonmark.content_append hparts.plain hparts.head,
    htake, hdrop]
  split <;> rfl

/-- A text is found that goes on to where the line is over. -/
theorem isSome_shortestText {text : Text} (htext : text ≠ []) (hfeed : '\n' ∉ text)
    (hending : closes ending = true) : (shortestText (text ++ ending)).isSome = true := by
  induction text with
  | nil => exact absurd rfl htext
  | cons c rest ih =>
      have hc : (c == '\n') = false := beq_eq_false_iff_ne.mpr fun heq => hfeed (heq ▸ List.mem_cons_self)
      rw [List.cons_append, shortestText, hc]
      by_cases hcloses : closes (rest ++ ending) = true
      · simp [hcloses]
      · have hrest : rest ≠ [] := by
          rintro rfl
          exact hcloses hending
        have hsome := ih hrest fun hin => hfeed (List.mem_cons_of_mem c hin)
        simp [hcloses, hsome]

theorem isBlank_of_isLineEnding (c : Char) (hc : Commonmark.isLineEnding c = true) : isBlank c = false := by
  rw [Commonmark.isLineEnding, Bool.or_eq_true, beq_iff_eq, beq_iff_eq] at hc
  obtain rfl | rfl := hc <;> decide

theorem InParts.unindented_eq (hparts : InParts front ending) {rest : Text}
    (hrest : Commonmark.unindented (front ++ ending) = some rest) : rest = front.dropWhile (· == ' ') := by
  rw [Commonmark.unindented, Commonmark.content_append hparts.plain hparts.head] at hrest
  split at hrest
  · exact (Option.some.inj hrest).symm
  · cases hrest

/-- Number signs and a text behind blanks make a heading of CommonMark. -/
theorem InParts.isAtxHeading_of_match (hparts : InParts front ending)
    (hmatch : (headingMatch (front ++ ending)).isSome = true) :
    Commonmark.isAtxHeading (front ++ ending) = true := by
  rw [headingMatch, hparts.indented] at hmatch
  rw [Commonmark.isAtxHeading]
  cases hrest : Commonmark.unindented (front ++ ending) with
  | none =>
      rw [hrest] at hmatch
      cases hmatch
  | some rest =>
      obtain ⟨htake, hdrop⟩ := takeWhile_ending (ne_of_isLineEnding (d := '#') (by decide)) hparts.head rest
      obtain ⟨hblanks, -⟩ := takeWhile_ending isBlank_of_isLineEnding hparts.head (rest.dropWhile (· == '#'))
      simp only [hrest, Option.map_some, htake, hdrop, hblanks] at hmatch
      by_cases hlevel : (1 ≤ (rest.takeWhile (· == '#')).length &&
          (rest.takeWhile (· == '#')).length ≤ 6) = true
      · rw [if_pos hlevel, Option.isSome_map, List.findSome?_isSome_iff] at hmatch
        obtain ⟨blanks, hblank, -⟩ := hmatch
        have hpos : blanks < ((rest.dropWhile (· == '#')).takeWhile isBlank).length := by
          simpa using hblank
        show (_ && _ && _) = true
        rw [hlevel, Bool.true_and]
        cases hbehind : rest.dropWhile (· == '#') with
        | nil => rfl
        | cons c behind =>
            by_contra hc
            have hnone : isBlank c = false := Bool.eq_false_of_not_eq_true hc
            rw [hbehind, List.takeWhile_cons_of_neg (by simp [hnone])] at hpos
            exact absurd hpos (Nat.not_lt_zero _)
      · rw [if_neg hlevel] at hmatch
        cases hmatch

/-- A heading of CommonMark with something behind the number signs is found. -/
theorem InParts.match_of_isAtxHeading (hparts : InParts front ending)
    (hheading : Commonmark.isAtxHeading (front ++ ending) = true)
    (hnonempty : Commonmark.isEmptyHeading (front ++ ending) = false) :
    (headingMatch (front ++ ending)).isSome = true := by
  rw [Commonmark.isEmptyHeading, hheading, Bool.true_and] at hnonempty
  rw [Commonmark.isAtxHeading] at hheading
  rw [headingMatch, hparts.indented]
  cases hrest : Commonmark.unindented (front ++ ending) with
  | none =>
      rw [hrest] at hheading
      cases hheading
  | some rest =>
      obtain ⟨htake, hdrop⟩ := takeWhile_ending (ne_of_isLineEnding (d := '#') (by decide)) hparts.head rest
      obtain ⟨hblanks, -⟩ := takeWhile_ending isBlank_of_isLineEnding hparts.head (rest.dropWhile (· == '#'))
      simp only [hrest, Bool.and_eq_true] at hheading
      have hlevel : (1 ≤ (rest.takeWhile (· == '#')).length &&
          (rest.takeWhile (· == '#')).length ≤ 6) = true := by
        simpa using hheading.1
      rw [hrest] at hnonempty
      simp only [Option.map_some, htake, hdrop, hblanks, hlevel, if_true, Option.isSome_map,
        List.findSome?_isSome_iff]
      obtain ⟨c, behind, hbehind⟩ : ∃ c behind, rest.dropWhile (· == '#') = c :: behind := by
        cases hbehind : rest.dropWhile (· == '#') with
        | nil =>
            rw [Option.all_some, hbehind] at hnonempty
            cases hnonempty
        | cons c behind => exact ⟨c, behind, rfl⟩
      have hblank : isBlank c = true := by
        have hhead := hheading.2
        rw [hbehind] at hhead
        exact hhead
      have htext : (rest.dropWhile (· == '#')).dropWhile isBlank ≠ [] := by
        intro hnone
        rw [List.dropWhile_eq_nil_iff] at hnone
        have hall : (rest.dropWhile (· == '#')).all Commonmark.isBlank = true :=
          List.all_eq_true.mpr hnone
        rw [Option.all_some, hall] at hnonempty
        cases hnonempty
      have hpos : 0 < ((rest.dropWhile (· == '#')).takeWhile isBlank).length := by
        rw [hbehind, List.takeWhile_cons_of_pos hblank]
        exact Nat.succ_pos _
      refine ⟨((rest.dropWhile (· == '#')).takeWhile isBlank).length - 1, ?_, ?_⟩
      · rw [List.mem_reverse, List.mem_range]
        omega
      · have hcut : (rest.dropWhile (· == '#') ++ ending).drop
            ((rest.dropWhile (· == '#')).takeWhile isBlank).length =
              (rest.dropWhile (· == '#')).dropWhile isBlank ++ ending := by
          conv_lhs =>
            rw [← @List.takeWhile_append_dropWhile _ isBlank (rest.dropWhile (· == '#')),
              List.append_assoc]
          exact List.drop_left' (by rw [List.takeWhile_append_dropWhile])
        have hplain : '\n' ∉ (rest.dropWhile (· == '#')).dropWhile isBlank := by
          intro hin
          have hfront : '\n' ∈ front := by
            have hsub := ((List.dropWhile_sublist isBlank).trans
              (List.dropWhile_sublist (l := rest) (· == '#'))).subset hin
            rw [hparts.unindented_eq hrest] at hsub
            exact (List.dropWhile_sublist _).subset hsub
          exact absurd (hparts.plain _ hfront) (by decide)
        rw [Nat.sub_add_cancel hpos, hcut]
        refine isSome_shortestText htext hplain ?_
        obtain ⟨-, hends⟩ := hparts
        simp only [List.mem_cons, List.not_mem_nil, or_false] at hends
        rcases hends with rfl | rfl | rfl | rfl <;> decide

end Form

/-! ### One line -/

/-- What CommonMark marks. -/
def expectsHeading (expected : Fence) (line : Text) : Bool :=
  expected.isNone && Commonmark.isAtxHeading line

theorem fenceMatch_of_headingMatch {line : Text} (hmatch : (headingMatch line).isSome = true) :
    fenceMatch line = none := by
  rw [headingMatch] at hmatch
  rw [fenceMatch]
  cases hrest : indented line with
  | none => rfl
  | some rest =>
      cases rest with
      | nil => rfl
      | cons c rest =>
          have hc : c = '#' := by
            by_contra hne
            simp [hrest, hne] at hmatch
          subst hc
          simp

theorem marksHeading_iff {fence : Fence} {line : Text} :
    marksHeading fence line = true ↔ fence = none ∧ (headingMatch line).isSome = true := by
  rw [marksHeading, headingAt]
  cases fence with
  | some marker => simp
  | none =>
      constructor
      · intro hheading
        split at hheading
        · exact ⟨rfl, hheading⟩
        · cases hheading
      · rintro ⟨-, hmatch⟩
        rw [fenceMatch_of_headingMatch hmatch]
        exact hmatch

theorem marked_eq_nil_iff (fence : Fence) (offset : Nat) (lines : List Text) :
    Lines.marked marksHeading fenceAfter fence offset lines = [] ↔
      headingOutsideFence fence lines = false := by
  rw [headingOutsideFence_eq_false_iff, marked_eq_blocks]
  cases (outline fence lines).2 with
  | nil => exact ⟨fun _ => rfl, fun _ => rfl⟩
  | cons block blocks => simp [blockHeadings]

/-- A line is marked alike exactly if it is read alike. -/
theorem marked_line_iff {front ending : Text} (hparts : InParts front ending) {expected fence : Fence}
    {offset : Nat} (hnonempty : expected = none → Commonmark.isEmptyHeading (front ++ ending) = false) :
    Lines.marked marksHeading fenceAfter fence offset (splitlines (front ++ ending)) =
        (if expectsHeading expected (front ++ ending) then [(offset, front ++ ending)] else []) ↔
      LineReadAlike expected fence (front ++ ending) := by
  rw [LineReadAlike]
  by_cases hwhole : splitlines (front ++ ending) = [front ++ ending]
  · have hone : Lines.marked marksHeading fenceAfter fence offset [front ++ ending] =
        if marksHeading fence (front ++ ending) then [(offset, front ++ ending)] else [] := by
      rw [Lines.marked]
      exact List.append_nil _
    have hsame : (if marksHeading fence (front ++ ending) then [(offset, front ++ ending)] else []) =
        (if expectsHeading expected (front ++ ending) then [(offset, front ++ ending)] else []) ↔
          (marksHeading fence (front ++ ending) = true ↔
            expectsHeading expected (front ++ ending) = true) := by
      cases marksHeading fence (front ++ ending) <;> cases expectsHeading expected (front ++ ending) <;> simp
    rw [if_pos hwhole, hwhole, hone, hsame, marksHeading_iff, expectsHeading, Bool.and_eq_true,
      Option.isNone_iff_eq_none]
    have hform : expected = none → (Commonmark.isAtxHeading (front ++ ending) = true ↔
        (headingMatch (front ++ ending)).isSome = true) := fun hnone =>
      ⟨fun hheading => hparts.match_of_isAtxHeading hheading (hnonempty hnone),
        hparts.isAtxHeading_of_match⟩
    constructor
    · intro hiff hmatch
      rw [Bool.eq_iff_iff, Option.isNone_iff_eq_none, Option.isNone_iff_eq_none]
      exact ⟨fun hnone => (hiff.mpr ⟨hnone, (hform hnone).mpr hmatch⟩).1, fun hnone => (hiff.mp ⟨hnone, hmatch⟩).1⟩
    · intro halike
      constructor
      · rintro ⟨hfence, hmatch⟩
        have hexpected : expected = none := by
          rw [← Option.isNone_iff_eq_none, halike hmatch, hfence]
          rfl
        exact ⟨hexpected, (hform hexpected).mpr hmatch⟩
      · rintro ⟨hexpected, hheading⟩
        have hmatch := (hform hexpected).mp hheading
        refine ⟨?_, hmatch⟩
        rw [← Option.isNone_iff_eq_none, ← halike hmatch, hexpected]
        rfl
  · rw [if_neg hwhole, ← marked_eq_nil_iff fence offset]
    have hnot : Lines.marked marksHeading fenceAfter fence offset (splitlines (front ++ ending)) ≠
        [(offset, front ++ ending)] := by
      intro hmarked
      have hin : (offset, front ++ ending) ∈
          Lines.marked marksHeading fenceAfter fence offset (splitlines (front ++ ending)) := by
        rw [hmarked]
        exact List.mem_cons_self
      exact hwhole (Lines.split_eq_singleton_of_mem (Lines.mem_marked hin).1)
    rw [expectsHeading]
    by_cases hheading : expected = none ∧ Commonmark.isAtxHeading (front ++ ending) = true
    · rw [if_pos (by simpa using hheading)]
      exact ⟨fun hmarked => absurd hmarked hnot, fun h => absurd hheading h.2⟩
    · rw [if_neg (by simpa using hheading)]
      exact ⟨fun hmarked => ⟨hmarked, hheading⟩, fun h => h.1⟩

/-! ### All lines -/

theorem marked_iff {expected fence : Fence} {offset : Nat} {lines : List Text}
    (hparts : ∀ line ∈ lines, line ≠ [] ∧ ∃ front ending, line = front ++ ending ∧ InParts front ending)
    (hnonempty : ∀ heading ∈ Lines.marked expectsHeading Commonmark.fenceAfter expected offset lines,
      Commonmark.isEmptyHeading heading.2 = false) :
    Lines.marked marksHeading fenceAfter fence offset (lines.flatMap splitlines) =
        Lines.marked expectsHeading Commonmark.fenceAfter expected offset lines ↔
      ReadAlike expected fence lines := by
  induction lines generalizing expected fence offset with
  | nil => exact ⟨fun _ => trivial, fun _ => rfl⟩
  | cons line lines ih =>
      obtain ⟨⟨hline, front, ending, rfl, hfirst⟩, hrest⟩ := List.forall_mem_cons.mp hparts
      have hflatten : (splitlines (front ++ ending)).flatten = front ++ ending :=
        Lines.flatten_split isLineBreak _
      have hown : expected = none → Commonmark.isEmptyHeading (front ++ ending) = false := by
        intro hnone
        cases hheading : Commonmark.isAtxHeading (front ++ ending) with
        | false => rw [Commonmark.isEmptyHeading, hheading, Bool.false_and]
        | true =>
            refine hnonempty (offset, front ++ ending) (List.mem_append_left _ ?_)
            simp [expectsHeading, hheading, hnone]
      have hlater := @ih (Commonmark.fenceAfter expected (front ++ ending))
        ((splitlines (front ++ ending)).foldl fenceAfter fence) (offset + (front ++ ending).length) hrest
        fun heading hin => hnonempty heading (List.mem_append_right _ hin)
      rw [List.flatMap_cons, Lines.marked_append, hflatten, Lines.marked, ReadAlike,
        ← marked_line_iff hfirst hown, ← hlater]
      have hlength := List.length_pos_iff.mpr hline
      refine @Lines.append_eq_append_iff_of_place _ _ _ _ (offset + (front ++ ending).length) ?_ ?_ ?_ ?_
      · intro mark hmark
        obtain ⟨hmem, -, hend⟩ := Lines.mem_marked hmark
        have hpos := List.length_pos_iff.mpr (Lines.ne_nil_of_mem_split hmem)
        rw [hflatten] at hend
        omega
      · intro mark hmark
        split at hmark
        · rw [List.mem_singleton.mp hmark]
          omega
        · cases hmark
      · exact fun mark hmark => (Lines.mem_marked hmark).2.1
      · exact fun mark hmark => (Lines.mem_marked hmark).2.1

/-! ### Lines that are misread -/

/-- A fence has backticks or tildes, at least three. -/
def IsFence (fence : Fence) : Prop := ∀ char length, fence = some (char, length) →
  (char = '`' ∨ char = '~') ∧ 3 ≤ length

theorem InParts.fenceMatch_eq {front ending : Text} (hparts : InParts front ending) :
    fenceMatch (front ++ ending) = match Commonmark.run (front ++ ending) with
      | some (c, n, _) => if (c == '`' || c == '~') && 3 ≤ n then some (c, n) else none
      | none => none := by
  rw [fenceMatch, Commonmark.run, hparts.indented]
  cases hrest : Commonmark.unindented (front ++ ending) with
  | none => rfl
  | some rest =>
      cases rest with
      | nil =>
          obtain ⟨-, hends⟩ := hparts
          simp only [List.mem_cons, List.not_mem_nil, or_false] at hends
          rcases hends with rfl | rfl | rfl | rfl <;> rfl
      | cons c rest =>
          have hc : Commonmark.isLineEnding c = false := by
            refine hparts.plain c ((List.dropWhile_sublist (· == ' ')).subset ?_)
            rw [← hparts.unindented_eq hrest]
            exact List.mem_cons_self
          obtain ⟨htake, -⟩ := takeWhile_ending (ne_of_isLineEnding hc) hparts.head (c :: rest)
          rw [List.cons_append] at htake
          have hmarker : "`~".toList.contains c = (c == '`' || c == '~') := by
            rw [Bool.eq_iff_iff]
            simp
          simp only [Option.map_some, List.cons_append, htake, hmarker]

theorem isFence_fenceAfter {expected : Fence} (hfence : IsFence expected) (line : Text) :
    IsFence (Commonmark.fenceAfter expected line) := by
  cases expected with
  | some marker =>
      obtain ⟨char, length⟩ := marker
      show IsFence (if Commonmark.closes char length line then none else some (char, length))
      split
      · exact fun _ _ hnone => by cases hnone
      · exact hfence
  | none =>
      intro char length hopening
      show (char = '`' ∨ char = '~') ∧ 3 ≤ length
      rw [show Commonmark.fenceAfter none line = Commonmark.opening line from rfl,
        Commonmark.opening] at hopening
      split at hopening
      · split at hopening
        · rename_i hopens
          obtain ⟨rfl, rfl⟩ := Prod.mk.inj (Option.some.inj hopening)
          simp only [Bool.and_eq_true, Bool.or_eq_true, beq_iff_eq, decide_eq_true_eq] at hopens
          exact ⟨hopens.1.imp (fun h => h.1) id, hopens.2⟩
        · cases hopening
      · cases hopening

/-- A line that is not misread leaves the same fence open. -/
theorem fenceAfter_eq_of_not_misread {front ending : Text} (hparts : InParts front ending)
    {expected : Fence} (hfence : IsFence expected) (hread : ¬Misread expected (front ++ ending)) :
    fenceAfter expected (front ++ ending) = Commonmark.fenceAfter expected (front ++ ending) := by
  cases expected with
  | none =>
      rw [fenceAfter, Commonmark.fenceAfter, hparts.fenceMatch_eq, Commonmark.opening]
      cases hrun : Commonmark.run (front ++ ending) with
      | none => rfl
      | some found =>
          obtain ⟨c, n, behind⟩ := found
          have hticks : c = '`' → 3 ≤ n → '`' ∉ behind := by
            intro hc hn hin
            exact hread ⟨c, n, behind, hrun, hc, hn, hin⟩
          simp only
          by_cases hn : 3 ≤ n
          · by_cases hc : c = '`'
            · simp [hn, hc, hticks hc hn]
            · simp [hn, hc]
          · simp [hn]
  | some marker =>
      obtain ⟨char, length⟩ := marker
      obtain ⟨hchar, hlength⟩ := hfence char length rfl
      rw [fenceAfter, closeFence, Commonmark.fenceAfter, hparts.fenceMatch_eq, Commonmark.closes]
      cases hrun : Commonmark.run (front ++ ending) with
      | none => rfl
      | some found =>
          obtain ⟨c, n, behind⟩ := found
          have hblank : c = char → length ≤ n → behind.all Commonmark.isBlank = true := by
            intro hc hn
            by_contra hall
            rw [List.all_eq_true] at hall
            push Not at hall
            obtain ⟨d, hd, hnot⟩ := hall
            exact hread ⟨c, n, behind, hrun, hc, hn, d, hd, Bool.eq_false_of_not_eq_true hnot⟩
          simp only
          by_cases hc : c = char
          · by_cases hn : length ≤ n
            · have hthree : 3 ≤ n := by omega
              have hbehind := hblank hc hn
              subst hc
              simp [hchar, hthree, hn, hbehind]
            · simp only [hc, hn, decide_false, Bool.and_false, Bool.false_and]
              split <;> rename_i hfound <;> split at hfound <;> cases hfound <;> simp [hn]
          · simp only [beq_eq_false_iff_ne.mpr hc, Bool.false_and]
            split <;> rename_i hfound <;> split at hfound <;> cases hfound <;> simp [hc]

theorem splitlines_eq_self {front ending : Text} (hparts : InParts front ending)
    (hplain : ∀ c ∈ front ++ ending, isLineBreak c = true → Commonmark.isLineEnding c = true)
    (hne : front ++ ending ≠ []) : splitlines (front ++ ending) = [front ++ ending] := by
  obtain ⟨hfront, hends⟩ := hparts
  induction front with
  | nil =>
      simp only [List.mem_cons, List.not_mem_nil, or_false] at hends
      rcases hends with rfl | rfl | rfl | rfl
      · exact absurd rfl hne
      · decide
      · decide
      · decide
  | cons c front ih =>
      obtain ⟨hc, hrest⟩ := List.forall_mem_cons.mp hfront
      have hbreak : isLineBreak c = false := by
        by_contra hbreak
        rw [hplain c List.mem_cons_self (Bool.eq_true_of_not_eq_false hbreak)] at hc
        cases hc
      have hends : Lines.endsBefore isLineBreak c (front ++ ending).head? = false := by
        rw [Lines.endsBefore, hbreak, Bool.false_and]
      rw [List.cons_append, splitlines, Lines.split_cons_of_not_ends hends]
      by_cases hnil : front ++ ending = []
      · rw [hnil]
        rfl
      · have hrest := ih (fun d hd => hplain d (List.mem_cons_of_mem c hd)) hnil hrest
        rw [splitlines] at hrest
        rw [hrest]
        rfl

/-- Where no line is misread, and lines end alike, both readings have one fence open. -/
theorem readAlike_of_wellRead {fence : Fence} (hfence : IsFence fence) {lines : List Text}
    (hparts : ∀ line ∈ lines, line ≠ [] ∧ ∃ front ending, line = front ++ ending ∧ InParts front ending)
    (hplain : ∀ line ∈ lines, ∀ c ∈ line, isLineBreak c = true → Commonmark.isLineEnding c = true)
    (hread : WellRead fence lines) : ReadAlike fence fence lines := by
  induction lines generalizing fence with
  | nil => trivial
  | cons line lines ih =>
      obtain ⟨⟨hline, front, ending, rfl, hfirst⟩, hrest⟩ := List.forall_mem_cons.mp hparts
      obtain ⟨hown, hlater⟩ := List.forall_mem_cons.mp hplain
      have hwhole := splitlines_eq_self hfirst hown hline
      have hnext := ih (isFence_fenceAfter hfence (front ++ ending)) hrest hlater hread.2
      refine ⟨?_, ?_⟩
      · rw [LineReadAlike, if_pos hwhole]
        exact fun _ => rfl
      · rw [hwhole, List.foldl_cons, List.foldl_nil, fenceAfter_eq_of_not_misread hfirst hfence hread.1]
        exact hnext

/-! ### Documents -/

theorem isLineBreak_of_isLineEnding (c : Char) (hc : Commonmark.isLineEnding c = true) :
    isLineBreak c = true := by
  rw [Commonmark.isLineEnding, Bool.or_eq_true, beq_iff_eq, beq_iff_eq] at hc
  obtain rfl | rfl := hc <;> decide

theorem inParts_of_mem {text line : Text} (hline : line ∈ Commonmark.lines text) :
    line ≠ [] ∧ ∃ front ending, line = front ++ ending ∧ InParts front ending := by
  obtain ⟨ending, hline', hplain, hends⟩ := Commonmark.exists_ending_of_mem_lines hline
  exact ⟨Lines.ne_nil_of_mem_split hline, _, ending, hline', hplain, hends⟩

/-- The splitter has the headings of CommonMark exactly if it reads every line of the form of a heading with
a fence open when CommonMark has one open, and no line that other line breaks cut is a heading for either.
That is so where there are no other line breaks and no fence is misread. -/
theorem splitHeadings_eq_iff (document : MarkdownDocument)
    (hnonempty : ∀ heading ∈ Commonmark.headings document.text,
      Commonmark.isEmptyHeading heading.2 = false) :
    (splitHeadings document = Commonmark.headings document.text ↔
      ReadAlike none none (Commonmark.lines document.text)) ∧
    ((∀ c ∈ document.text, isLineBreak c = true → Commonmark.isLineEnding c = true) →
      WellRead none (Commonmark.lines document.text) →
        splitHeadings document = Commonmark.headings document.text) := by
  have hiff : splitHeadings document = Commonmark.headings document.text ↔
      ReadAlike none none (Commonmark.lines document.text) := by
    rw [splitHeadings_eq, splitlines, Lines.split_eq_flatMap isLineBreak_of_isLineEnding]
    exact marked_iff (fun line hline => inParts_of_mem hline) hnonempty
  refine ⟨hiff, fun hplain hread => hiff.mpr ?_⟩
  refine readAlike_of_wellRead (fun _ _ hnone => by cases hnone) (fun line hline => inParts_of_mem hline)
    (fun line hline c hc => hplain c ?_) hread
  rw [← Lines.flatten_split Commonmark.isLineEnding document.text]
  exact List.mem_flatten.mpr ⟨line, hline, hc⟩

def guide (text : String) : MarkdownDocument := ⟨"GUIDE.md", text.toList, ['\n']⟩

theorem splitHeadings_eq_iff_guide :
    (splitHeadings (guide "# A\n```\n# B\n```\n") = Commonmark.headings (guide "# A\n```\n# B\n```\n").text ↔
      ReadAlike none none (Commonmark.lines (guide "# A\n```\n# B\n```\n").text)) ∧
    ((∀ c ∈ (guide "# A\n```\n# B\n```\n").text,
        isLineBreak c = true → Commonmark.isLineEnding c = true) →
      WellRead none (Commonmark.lines (guide "# A\n```\n# B\n```\n").text) →
        splitHeadings (guide "# A\n```\n# B\n```\n") =
          Commonmark.headings (guide "# A\n```\n# B\n```\n").text) :=
  splitHeadings_eq_iff (guide "# A\n```\n# B\n```\n") (by decide)

/-- A line of code that begins with the fence and goes on does not close the block, but the splitter takes
it to, so that the comment behind it becomes a heading and the heading behind the block is lost. -/
theorem headings_misread :
    (∀ heading ∈ Commonmark.headings (guide "```\n``` x\n# A\n```\n# B\n").text,
      Commonmark.isEmptyHeading heading.2 = false) ∧
    Commonmark.headings (guide "```\n``` x\n# A\n```\n# B\n").text = [(18, "# B\n".toList)] ∧
    splitHeadings (guide "```\n``` x\n# A\n```\n# B\n") = [(10, "# A\n".toList)] := by
  decide

end CoreMesh.SelfHealingDocs
