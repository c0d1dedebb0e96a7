import Mathlib.Data.List.Dedup
import Mathlib.Data.List.Sort
import Mathlib.Data.String.Basic
import CoreMesh.Lib.Lines
import CoreMesh.SqlEngine.Sandbox

/-!
# Markdown sections and their replacement

`self_healing_docs/markdown.py`: a document is split at its headings, and accepted bodies are spliced
into it. A text is the list of its characters. Where a tracked file is, and whether it may be written, is
for the file system, so that `_safe_markdown_path` is a parameter.
-/

namespace CoreMesh.SelfHealingDocs

open SqlEngine (strip)

abbrev Text := List Char

inductive Error where
  | markdownSafety (message : String)
  | git (message : String)
  deriving DecidableEq, Repr

structure MarkdownDocument where
  path : String
  text : Text
  newline : Text

structure DocSection where
  sectionId : String
  path : String
  heading : Text
  headingPath : List Text
  level : Nat
  body : Text
  bodyStart : Nat
  bodyEnd : Nat
  newline : Text
  ordinal : Nat
  deriving DecidableEq

structure PendingReplacement where
  docSection : DocSection
  replacementBody : Text

/-! ### Lines -/

/-- What `str.splitlines` ends a line at. -/
def isLineBreak (c : Char) : Bool :=
  [0x0a, 0x0b, 0x0c, 0x0d, 0x1c, 0x1d, 0x1e, 0x85, 0x2028, 0x2029].contains c.toNat

def splitlines (text : Text) : List Text := Lines.split isLineBreak text

def isBlank (c : Char) : Bool := c == ' ' || c == '\t'

/-- What is behind ` {0,3}`, if it is not blank. -/
def indented (line : Text) : Option Text :=
  if (line.takeWhile (· == ' ')).length ≤ 3 then some (line.dropWhile (· == ' ')) else none

/-- The character and the length of what `_FENCE_RE` finds. -/
def fenceMatch (line : Text) : Option (Char × Nat) :=
  match indented line with
  | some (c :: rest) =>
      if "`~".toList.contains c && 3 ≤ ((c :: rest).takeWhile (· == c)).length then
        some (c, ((c :: rest).takeWhile (· == c)).length)
      else none
  | _ => none

/-- `(?:\r\n|\n|\r)?$`; the end is also before a last line feed. -/
def atEnd (text : Text) : Bool :=
  ["", "\n", "\r", "\r\n", "\n\n", "\r\n\n"].contains (String.ofList text)

/-- `(?:[ \t]+#+)?[ \t]*(?:\r\n|\n|\r)?$`. -/
def closes (text : Text) : Bool :=
  let rest := text.dropWhile isBlank
  atEnd rest ||
    (text.head?.any isBlank && rest.head? == some '#' &&
      atEnd ((rest.dropWhile (· == '#')).dropWhile isBlank))

/-- `(.+?)`: the shortest text behind which the pattern closes. -/
def shortestText : Text → Option Text
  | [] => none
  | c :: rest =>
      if c == '\n' then none
      else if closes rest then some [c]
      else (shortestText rest).map (c :: ·)

/-- The level and the text that `_HEADING_RE` finds. The blanks behind the number signs are given back
one by one as long as there is no text behind them. -/
def headingMatch (line : Text) : Option (Nat × Text) :=
  match indented line with
  | none => none
  | some rest =>
      let level := (rest.takeWhile (· == '#')).length
      let behind := rest.dropWhile (· == '#')
      if 1 ≤ level && level ≤ 6 then
        (((List.range (behind.takeWhile isBlank).length).reverse).findSome? fun blanks =>
          shortestText (behind.drop (blanks + 1))).map fun text => (level, text)
      else none

/-! ### Splitting -/

/-- The code fence that is open: its character and its length. -/
abbrev Fence := Option (Char × Nat)

/-- The open fence behind a line that stands in it. -/
def closeFence (char : Char) (length : Nat) (line : Text) : Fence :=
  match fenceMatch line with
  | some (marker, markerLength) =>
      if marker == char && length ≤ markerLength then none else some (char, length)
  | none => some (char, length)

structure Pending where
  heading : Text
  headingPath : List Text
  level : Nat
  bodyStart : Nat
  ordinal : Nat

structure Splitter where
  stack : List Text
  sections : List DocSection
  pending : Option Pending
  offset : Nat
  fence : Fence
  ordinal : Nat

def Splitter.start : Splitter := ⟨[], [], none, 0, none, 0⟩

def makeSection (document : MarkdownDocument) (pending : Pending) (bodyEnd : Nat) : DocSection where
  sectionId := document.path ++ "::" ++ " > ".intercalate (pending.headingPath.map String.ofList) ++
    "::section-" ++ toString pending.ordinal
  path := document.path
  heading := pending.heading
  headingPath := pending.headingPath
  level := pending.level
  body := (document.text.take bodyEnd).drop pending.bodyStart
  bodyStart := pending.bodyStart
  bodyEnd := bodyEnd
  newline := document.newline
  ordinal := pending.ordinal

/-- The breadcrumb of a heading below those on the stack. -/
def enter (stack : List Text) (level : Nat) (heading : Text) : List Text :=
  let outer := stack.take (level - 1)
  outer ++ List.replicate (level - 1 - outer.length) "<untitled>".toList ++ [heading]

def closePending (document : MarkdownDocument) (s : Splitter) (bodyEnd : Nat) : List DocSection :=
  match s.pending with
  | some pending => s.sections ++ [makeSection document pending bodyEnd]
  | none => s.sections

def Splitter.line (document : MarkdownDocument) (s : Splitter) (line : Text) : Splitter :=
  match s.fence with
  | some (char, length) =>
      { s with fence := closeFence char length line, offset := s.offset + line.length }
  | none =>
      match fenceMatch line with
      | some marker => { s with fence := some marker, offset := s.offset + line.length }
      | none =>
          match headingMatch line with
          | some (level, text) =>
              let stack := enter s.stack level (strip text)
              { s with
                stack := stack
                sections := closePending document s s.offset
                pending := some
                  { heading := strip text, headingPath := stack, level := level,
                    bodyStart := s.offset + line.length, ordinal := s.ordinal + 1 }
                offset := s.offset + line.length
                ordinal := s.ordinal + 1 }
          | none => { s with offset := s.offset + line.length }

def splitMarkdownDocument (document : MarkdownDocument) : List DocSection :=
  closePending document
    ((splitlines document.text).foldl (Splitter.line document) .start) document.text.length

/-! ### Proposals -/

def headingOutsideFence : Fence → List Text → Bool
  | _, [] => false
  | some (char, length), line :: lines => headingOutsideFence (closeFence char length line) lines
  | none, line :: lines =>
      match fenceMatch line with
      | some marker => headingOutsideFence (some marker) lines
      | none => (headingMatch line).isSome || headingOutsideFence none lines

def containsAtxHeadingOutsideFence (text : Text) : Bool := headingOutsideFence none (splitlines text)

/-- What `(?:(?:[ \t]*)(?:\r\n|\n|\r))+` takes of the text behind some blanks. -/
def takeBlankLines (blanks : Text) : Text → Text
  | [] => []
  | c :: rest =>
      if isBlank c then takeBlankLines (blanks ++ [c]) rest
      else if c == '\n' || c == '\r' then blanks ++ c :: takeBlankLines [] rest
      else []

def leadingBlankLines (text : Text) : Text := takeBlankLines [] text

/-- The leftmost place from which blank lines go on to the end. -/
def trailingBlankLines (text : Text) : Text :=
  (text.tails.find? fun rest => leadingBlankLines rest == rest).getD []

/-- `replace("\r\n", "\n")`. -/
def joinBreaks : Text → Text
  | [] => []
  | c :: rest =>
      if c == '\r' && rest.head? == some '\n' then joinBreaks rest else c :: joinBreaks rest

def withNewlines (newline text : Text) : Text :=
  let normalized := (joinBreaks text).map fun c => if c == '\r' then '\n' else c
  if newline == ['\n'] then normalized
  else normalized.flatMap fun c => if c == '\n' then newline else [c]

def isFraming (c : Char) : Bool := isBlank c || c == '\r' || c == '\n'

/-- `strip(" \t\r\n")`. -/
def stripFraming (text : Text) : Text := (text.dropWhile isFraming).rdropWhile isFraming

def normalizeReplacementBody (docSection : DocSection) (proposedBody : Text) (maxChars : Nat) :
    Except Error Text :=
  if proposedBody.contains (Char.ofNat 0) then
    .error (.markdownSafety "replacement contains a NUL byte")
  else if strip proposedBody == [] then
    .error (.markdownSafety "replacement body must not be empty")
  else if maxChars < proposedBody.length then
    .error (.markdownSafety s!"replacement exceeds the {maxChars}-character section limit")
  else if containsAtxHeadingOutsideFence proposedBody then
    .error (.markdownSafety "replacement must not add, remove, or reproduce Markdown headings")
  else
    let core := stripFraming (withNewlines docSection.newline proposedBody)
    if core == [] then
      .error (.markdownSafety "replacement body has no non-whitespace content")
    else .ok (leadingBlankLines docSection.body ++ core ++ trailingBlankLines docSection.body)

/-! ### Application -/

def headingSignature (sections : List DocSection) : List (Nat × List Text) :=
  sections.map fun docSection => (docSection.level, docSection.headingPath)

def validateNonOverlapping : List String → Int → List PendingReplacement → Except Error Unit
  | _, _, [] => .ok ()
  | seenSections, previousEnd, replacement :: rest =>
      let docSection := replacement.docSection
      if seenSections.contains docSection.sectionId then
        .error (.markdownSafety s!"duplicate replacement for section {docSection.sectionId}")
      else if docSection.bodyStart < previousEnd then
        .error (.markdownSafety s!"overlapping replacement for section {docSection.sectionId}")
      else validateNonOverlapping (docSection.sectionId :: seenSections) docSection.bodyEnd rest

def splice (text : Text) (replacement : PendingReplacement) : Except Error Text :=
  let docSection := replacement.docSection
  if (text.take docSection.bodyEnd).drop docSection.bodyStart ≠ docSection.body then
    .error (.markdownSafety ("Markdown changed after retrieval: " ++ docSection.path ++ "#" ++
      String.ofList docSection.heading))
  else
    .ok (text.take docSection.bodyStart ++ replacement.replacementBody ++ text.drop docSection.bodyEnd)

/-- A file's new text. -/
def repair (relativePath : String) (document : MarkdownDocument)
    (replacements : List PendingReplacement) : Except Error Text := do
  validateNonOverlapping [] (-1)
    (replacements.insertionSort fun a b => a.docSection.bodyStart ≤ b.docSection.bodyStart)
  let text ← (replacements.insertionSort fun a b => b.docSection.bodyStart ≤ a.docSection.bodyStart).foldlM
    splice document.text
  if headingSignature (splitMarkdownDocument { document with text := text }) ≠
      headingSignature (splitMarkdownDocument document) then
    throw (.markdownSafety s!"heading hierarchy changed while repairing {relativePath}")
  return text

structure PreparedWrite where
  relativePath : String
  absolute : String
  text : Text
  deriving DecidableEq

section Application

variable (safeMarkdownPath : String → Except Error String)
  (documents : String → Option MarkdownDocument)

def prepareFile (prepared : List PreparedWrite) (relativePath : String)
    (fileReplacements : List PendingReplacement) : Except Error (List PreparedWrite) :=
  match documents relativePath with
  | none =>
      .error (.markdownSafety s!"replacement targets an unloaded Markdown file: {relativePath}")
  | some document => do
      let text ← repair relativePath document fileReplacements
      if text = document.text then return prepared
      let absolute ← safeMarkdownPath relativePath
      return prepared ++ [⟨relativePath, absolute, text⟩]

/-- The writes, in the order of the paths, once every file has been checked. -/
def prepare (replacements : List PendingReplacement) : Except Error (List PreparedWrite) :=
  ((replacements.map fun replacement => replacement.docSection.path).dedup.insertionSort
    (· ≤ ·)).foldlM
    (fun prepared path => prepareFile safeMarkdownPath documents prepared path
      (replacements.filter fun replacement => replacement.docSection.path == path)) []

/-- The paths of the changed files, and the files. -/
def applyMarkdownReplacements (files : String → Text) (replacements : List PendingReplacement) :
    Except Error (List String) × (String → Text) :=
  match prepare safeMarkdownPath documents replacements with
  | .error error => (.error error, files)
  | .ok prepared =>
      (.ok (prepared.map PreparedWrite.relativePath),
        prepared.foldl (fun files write path =>
          if path = write.absolute then write.text else files path) files)

end Application

end CoreMesh.SelfHealingDocs
