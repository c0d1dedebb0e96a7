import CoreMesh.Lib.MarkedLines

/-!
# Headings and fenced code in CommonMark

The part of the block structure that decides which lines are ATX headings in a document of paragraphs, ATX
headings and fenced code blocks: a line is one if it has the form and no code block is open. A line ends in a
line feed, a carriage return or both, a fence is closed by at least as many of its characters with nothing
but blanks behind, and there is no backtick behind the backticks that open one.
-/

namespace Commonmark

def isLineEnding (c : Char) : Bool := c == '\n' || c == '\r'

def isBlank (c : Char) : Bool := c == ' ' || c == '\t'

def lines (text : List Char) : List (List Char) := Lines.split isLineEnding text

/-- A line without its line ending. -/
def content (line : List Char) : List Char := line.takeWhile fun c => !isLineEnding c

/-- What is behind an indentation of at most three spaces. -/
def unindented (line : List Char) : Option (List Char) :=
  if ((content line).takeWhile (· == ' ')).length ≤ 3 then some ((content line).dropWhile (· == ' '))
  else none

/-! ### Fences -/

/-- The character and the length of the fence of an open code block. -/
abbrev Fence := Option (Char × Nat)

/-- The run of one character that a line begins with, and what is behind it. -/
def run (line : List Char) : Option (Char × Nat × List Char) :=
  match unindented line with
  | some (c :: rest) =>
      some (c, ((c :: rest).takeWhile (· == c)).length, (c :: rest).dropWhile (· == c))
  | _ => none

/-- What a line opens. -/
def opening (line : List Char) : Fence :=
  match run line with
  | some (c, length, info) =>
      if (c == '`' && !info.contains '`' || c == '~') && 3 ≤ length then some (c, length) else none
  | none => none

/-- Whether a line closes a fence. -/
def closes (char : Char) (length : Nat) (line : List Char) : Bool :=
  match run line with
  | some (c, n, behind) => c == char && length ≤ n && behind.all isBlank
  | none => false

def fenceAfter (fence : Fence) (line : List Char) : Fence :=
  match fence with
  | some (char, length) => if closes char length line then none else some (char, length)
  | none => opening line

/-! ### Headings -/

/-- One to six number signs, and nothing or a blank behind them. -/
def isAtxHeading (line : List Char) : Bool :=
  match unindented line with
  | some rest =>
      let level := (rest.takeWhile (· == '#')).length
      1 ≤ level && level ≤ 6 && (rest.dropWhile (· == '#')).head?.all isBlank
  | none => false

/-- There is nothing behind the number signs. -/
def isEmptyHeading (line : List Char) : Bool :=
  isAtxHeading line && (unindented line).all fun rest => (rest.dropWhile (· == '#')).all isBlank

/-- The headings of a document, with where they begin. -/
def headings (text : List Char) : List (Nat × List Char) :=
  Lines.marked (fun fence line => fence.isNone && isAtxHeading line) fenceAfter none 0 (lines text)

/-! ### Lines -/

theorem content_append {line ending : List Char} (hline : ∀ c ∈ line, isLineEnding c = false)
    (hending : ending.head?.all isLineEnding = true) : content (line ++ ending) = line := by
  rw [content, List.takeWhile_append_of_pos fun c hc => by rw [hline c hc]; rfl]
  cases ending with
  | nil => exact List.append_nil line
  | cons c ending =>
      have hc : isLineEnding c = true := hending
      rw [List.takeWhile_cons_of_neg (by simp [hc]), List.append_nil]

/-- A line is its content and its line ending. -/
theorem exists_ending_of_mem_lines {text line : List Char} (hline : line ∈ lines text) :
    ∃ ending, line = content line ++ ending ∧ (∀ c ∈ content line, isLineEnding c = false) ∧
      ending ∈ [[], ['\n'], ['\r'], ['\r', '\n']] := by
  suffices hall : ∃ front ending, line = front ++ ending ∧ (∀ c ∈ front, isLineEnding c = false) ∧
      ending ∈ [[], ['\n'], ['\r'], ['\r', '\n']] by
    obtain ⟨front, ending, rfl, hfront, hending⟩ := hall
    have hends : ending.head?.all isLineEnding = true := by
      revert hending
      simp only [List.mem_cons, List.not_mem_nil, or_false]
      rintro (rfl | rfl | rfl | rfl) <;> rfl
    rw [content_append hfront hends]
    exact ⟨ending, rfl, hfront, hending⟩
  rw [lines] at hline
  induction text generalizing line with
  | nil => cases hline
  | cons c rest ih =>
      cases hends : Lines.endsBefore isLineEnding c rest.head? with
      | true =>
          rw [Lines.split_cons_of_ends hends] at hline
          obtain rfl | hrest := List.mem_cons.mp hline
          · refine ⟨[], [c], rfl, fun d hd => absurd hd List.not_mem_nil, ?_⟩
            simp only [Lines.endsBefore, Bool.and_eq_true, isLineEnding, Bool.or_eq_true, beq_iff_eq] at hends
            obtain rfl | rfl := hends.1 <;> decide
          · exact ih hrest
      | false =>
          rw [Lines.split_cons_of_not_ends hends] at hline
          obtain rfl | hrest := List.mem_cons.mp hline
          · cases hc : isLineEnding c with
            | true =>
                -- a carriage return that a line feed goes with
                obtain ⟨rfl, hfeed⟩ : c = '\r' ∧ rest.head? = some '\n' := by
                  simp only [Lines.endsBefore, hc, Bool.true_and, Bool.not_eq_false', Bool.and_eq_true,
                    beq_iff_eq] at hends
                  exact hends
                obtain ⟨d, behind, rfl⟩ : ∃ d behind, rest = d :: behind := by
                  cases rest with
                  | nil => cases hfeed
                  | cons d behind => exact ⟨d, behind, rfl⟩
                obtain rfl : d = '\n' := Option.some.inj hfeed
                have hcut : Lines.endsBefore isLineEnding '\n' behind.head? = true := by
                  simp [Lines.endsBefore, isLineEnding]
                rw [Lines.split_cons_of_ends hcut]
                exact ⟨[], ['\r', '\n'], rfl, fun d hd => absurd hd List.not_mem_nil, by decide⟩
            | false =>
                cases hsplit : Lines.split isLineEnding rest with
                | nil => exact ⟨[c], [], rfl, by simpa using hc, by decide⟩
                | cons line lines =>
                    obtain ⟨front, ending, hline, hfront, hending⟩ := ih (hsplit ▸ List.mem_cons_self)
                    rw [List.headD_cons, hline]
                    exact ⟨c :: front, ending, rfl, List.forall_mem_cons.mpr ⟨hc, hfront⟩, hending⟩
          · exact ih (List.mem_of_mem_tail hrest)

end Commonmark
