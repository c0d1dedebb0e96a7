import Mathlib.Tactic.Common

/-!
# SQL tokens

PostgreSQL's lexical rules as a scanner that reads one character at a time: comments (block comments
nest), quoted identifiers and string constants in all their spellings, dollar quoting, and the
continuation of a string constant on a later line. What counts as white space is a parameter, since
the readers of a text do not agree on it.

Where PostgreSQL reports an error the scanner goes on: a letter right after a number stays in the
number, and what is never closed is one token. Operators are not split further than comments split
them.
-/

namespace Sql

structure Dialect where
  isSpace : Char → Bool
  /-- Blank, newline and carriage return are space, and no visible ASCII character is. -/
  blank : isSpace ' ' = true
  newline : isSpace '\n' = true
  carriageReturn : isSpace '\r' = true
  visible : ∀ c : Char, 33 ≤ c.toNat → c.toNat ≤ 126 → isSpace c = false

inductive Kind where
  /-- One character of white space. -/
  | space
  | lineComment
  | blockComment
  | ident
  | quotedIdent
  /-- `U&"…"`. -/
  | unicodeIdent
  /-- String, bit string and dollar-quoted constants. -/
  | string
  | number
  /-- `$1`. -/
  | param
  | operator
  /-- Any other character. -/
  | symbol
  /-- A comment, constant or quoted identifier that the text does not close. -/
  | unterminated
  deriving DecidableEq, Repr

structure Token where
  kind : Kind
  text : List Char
  deriving DecidableEq, Repr

/-- The text of a list of tokens. -/
def concat (tokens : List Token) : List Char := tokens.flatMap Token.text

/-- White space and comments, which the grammar never sees. -/
def Token.isTrivia (t : Token) : Bool :=
  t.kind == .space || t.kind == .lineComment || t.kind == .blockComment

/-- The tokens the grammar sees. -/
def live (tokens : List Token) : List Token := tokens.filter fun t => !t.isTrivia

/-- What may stand between the parts of a string constant. -/
inductive Trivia where
  | space (c : Char)
  | lineComment (text : List Char)
  deriving DecidableEq, Repr

def Trivia.token : Trivia → Token
  | .space c => ⟨.space, [c]⟩
  | .lineComment text => ⟨.lineComment, text⟩

def isNewline (c : Char) : Bool := c == '\n' || c == '\r'

def isOperatorChar (c : Char) : Bool := "~!@#^&|`?+-*/%<>=".toList.contains c

/-- What has been read of the current token, and of the one before while the two may still join. -/
inductive State where
  | start
  | lineComment (text : List Char)
  /-- `before` is the last character if it can begin a delimiter with the next. -/
  | blockComment (depth : Nat) (before : Char) (text : List Char)
  | ident (text : List Char)
  | number (text : List Char)
  | param (text : List Char)
  | operator (init : List Char) (last : Char)
  | quotedIdent (unicode : Bool) (text : List Char)
  /-- After a closing quote, which a second one undoes. -/
  | quotedIdentEnd (unicode : Bool) (text : List Char)
  | string (escapes : Bool) (text : List Char)
  | backslash (text : List Char)
  | stringEnd (escapes : Bool) (text : List Char)
  /-- After a string constant, which goes on after white space and line comments with a newline in them. -/
  | gap (escapes newline : Bool) (literal : List Char) (between : List Trivia)
  /-- A minus there, where a second one begins a line comment. -/
  | gapMinus (escapes : Bool) (literal : List Char) (between : List Trivia)
  | gapComment (escapes : Bool) (literal : List Char) (between : List Trivia) (text : List Char)
  /-- `U&`, where a quote would make a Unicode constant or identifier. -/
  | uAmp (u : Char)
  | dollar
  | dollarTag (tag : List Char)
  | dollarBody (delimiter text : List Char)
  deriving DecidableEq, Repr

def spaces (text : List Char) : List Token := text.map fun c => ⟨.space, [c]⟩

/-- A string constant and what is behind it. -/
def gapTokens (literal : List Char) (between : List Trivia) : List Token :=
  ⟨.string, literal⟩ :: between.map Trivia.token

/-- The tokens a state stands for if the text ends here. -/
def State.close : State → List Token
  | .start => []
  | .lineComment text => [⟨.lineComment, text⟩]
  | .blockComment _ _ text => [⟨.unterminated, text⟩]
  | .ident text => [⟨.ident, text⟩]
  | .number text => [⟨.number, text⟩]
  | .param text => [⟨.param, text⟩]
  | .operator init last => [⟨.operator, init ++ [last]⟩]
  | .quotedIdent _ text => [⟨.unterminated, text⟩]
  | .quotedIdentEnd unicode text => [⟨if unicode then .unicodeIdent else .quotedIdent, text⟩]
  | .string _ text => [⟨.unterminated, text⟩]
  | .backslash text => [⟨.unterminated, text⟩]
  | .stringEnd _ text => [⟨.string, text⟩]
  | .gap _ _ literal between => gapTokens literal between
  | .gapMinus _ literal between => gapTokens literal between ++ [⟨.operator, ['-']⟩]
  | .gapComment _ literal between text => gapTokens literal between ++ [⟨.lineComment, text⟩]
  | .uAmp u => [⟨.ident, [u]⟩, ⟨.operator, ['&']⟩]
  | .dollar => [⟨.symbol, ['$']⟩]
  | .dollarTag tag => [⟨.symbol, ['$']⟩, ⟨.ident, tag⟩]
  | .dollarBody _ text => [⟨.unterminated, text⟩]

/-- Whether the text is inside a comment, constant or quoted identifier that is still open. -/
def State.isOpen : State → Bool
  | .lineComment _ | .blockComment _ _ _ | .quotedIdent _ _ | .string _ _ | .backslash _
  | .gapComment _ _ _ _ | .dollarBody _ _ => true
  | _ => false

section Scanner

variable (d : Dialect)

def identStart (c : Char) : Bool :=
  !d.isSpace c && (c.isAlpha || c == '_' || decide (128 ≤ c.toNat))

/-- A character of a word: no character outside ASCII ends one. -/
def wordChar (c : Char) : Bool := identStart d c || c.isDigit

def identCont (c : Char) : Bool := wordChar d c || c == '$'

/-- The state after the first character of a token, or the token if it is that character alone. -/
def begin (c : Char) : List Token × State :=
  if d.isSpace c then ([⟨.space, [c]⟩], .start)
  else if identStart d c then ([], .ident [c])
  else if c.isDigit then ([], .number [c])
  else if c = '"' then ([], .quotedIdent false [c])
  else if c = '\'' then ([], .string false [c])
  else if c = '$' then ([], .dollar)
  else if isOperatorChar c then ([], .operator [] c)
  else ([⟨.symbol, [c]⟩], .start)

/-- The character does not belong to what was read before. -/
def finish (state : State) (c : Char) : List Token × State :=
  (state.close ++ (begin d c).1, (begin d c).2)

def feedIdent (text : List Char) (c : Char) : List Token × State :=
  if identCont d c then ([], .ident (text ++ [c]))
  else if c = '\'' ∧ (text = ['e'] ∨ text = ['E']) then ([], .string true (text ++ [c]))
  else if c = '\'' ∧ text ∈ [['b'], ['B'], ['x'], ['X'], ['n'], ['N']] then
    ([], .string false (text ++ [c]))
  else if c = '&' ∧ text = ['u'] then ([], .uAmp 'u')
  else if c = '&' ∧ text = ['U'] then ([], .uAmp 'U')
  else finish d (.ident text) c

/-- The characters of a decimal integer. -/
def isDecimal (text : List Char) : Bool := text.all fun c => c.isDigit || c == '_'

/-- A decimal number up to the letter of its exponent, where a sign may follow. -/
def exponentOpen (text : List Char) : Bool :=
  (text.getLast? == some 'e' || text.getLast? == some 'E') &&
    text.dropLast.all fun c => c.isDigit || c == '_' || c == '.'

def feedNumber (text : List Char) (c : Char) : List Token × State :=
  if wordChar d c then ([], .number (text ++ [c]))
  else if c = '.' ∧ isDecimal text then ([], .number (text ++ [c]))
  else if (c = '+' ∨ c = '-') ∧ exponentOpen text then ([], .number (text ++ [c]))
  else finish d (.number text) c

/-- The operator before a comment that begins with its last character. -/
def headTokens (init : List Char) : List Token :=
  if init = [] then [] else [⟨.operator, init⟩]

def feedOperator (init : List Char) (last c : Char) : List Token × State :=
  if last = '-' ∧ c = '-' then (headTokens init, .lineComment [last, c])
  else if last = '/' ∧ c = '*' then (headTokens init, .blockComment 1 ' ' [last, c])
  else if isOperatorChar c then ([], .operator (init ++ [last]) c)
  else finish d (.operator init last) c

def feedBlockComment (depth : Nat) (before : Char) (text : List Char) (c : Char) :
    List Token × State :=
  if before = '*' ∧ c = '/' then
    if depth ≤ 1 then ([⟨.blockComment, text ++ [c]⟩], .start)
    else ([], .blockComment (depth - 1) ' ' (text ++ [c]))
  else if before = '/' ∧ c = '*' then ([], .blockComment (depth + 1) ' ' (text ++ [c]))
  else ([], .blockComment depth c (text ++ [c]))

def feedDollarBody (delimiter text : List Char) (c : Char) : List Token × State :=
  if c = '$' ∧ delimiter.isSuffixOf (text ++ [c]) ∧
      2 * delimiter.length ≤ (text ++ [c]).length then
    ([⟨.string, text ++ [c]⟩], .start)
  else ([], .dollarBody delimiter (text ++ [c]))

/-- After a string constant, where no quote can follow. -/
def feedGap (escapes newline : Bool) (literal : List Char) (between : List Trivia) (c : Char) :
    List Token × State :=
  if d.isSpace c then ([], .gap escapes (newline || isNewline c) literal (between ++ [.space c]))
  else if c = '-' then ([], .gapMinus escapes literal between)
  else finish d (.gap escapes newline literal between) c

/-- Reading one character: the tokens it completes and the state it leaves. -/
def feed (state : State) (c : Char) : List Token × State :=
  match state with
  | .start => begin d c
  | .lineComment text =>
      if isNewline c then finish d state c else ([], .lineComment (text ++ [c]))
  | .blockComment depth before text => feedBlockComment depth before text c
  | .ident text => feedIdent d text c
  | .number text => feedNumber d text c
  | .param text => if wordChar d c then ([], .param (text ++ [c])) else finish d state c
  | .operator init last => feedOperator d init last c
  | .quotedIdent unicode text =>
      if c = '"' then ([], .quotedIdentEnd unicode (text ++ [c]))
      else ([], .quotedIdent unicode (text ++ [c]))
  | .quotedIdentEnd unicode text =>
      if c = '"' then ([], .quotedIdent unicode (text ++ [c])) else finish d state c
  | .string escapes text =>
      if c = '\'' then ([], .stringEnd escapes (text ++ [c]))
      else if escapes ∧ c = '\\' then ([], .backslash (text ++ [c]))
      else ([], .string escapes (text ++ [c]))
  | .backslash text => ([], .string true (text ++ [c]))
  | .stringEnd escapes text =>
      if c = '\'' then ([], .string escapes (text ++ [c]))
      else feedGap d escapes false text [] c
  | .gap escapes newline literal between =>
      if c = '\'' ∧ newline then ([], .string escapes (concat (gapTokens literal between) ++ [c]))
      else feedGap d escapes newline literal between c
  | .gapMinus escapes literal between =>
      if c = '-' then ([], .gapComment escapes literal between ['-', c])
      else (gapTokens literal between ++ (feedOperator d [] '-' c).1, (feedOperator d [] '-' c).2)
  | .gapComment escapes literal between text =>
      if isNewline c then
        ([], .gap escapes true literal (between ++ [.lineComment text, .space c]))
      else ([], .gapComment escapes literal between (text ++ [c]))
  | .uAmp u =>
      if c = '\'' then ([], .string false [u, '&', c])
      else if c = '"' then ([], .quotedIdent true [u, '&', c])
      else (⟨.ident, [u]⟩ :: (feedOperator d [] '&' c).1, (feedOperator d [] '&' c).2)
  | .dollar =>
      if c = '$' then ([], .dollarBody ['$', c] ['$', c])
      else if identStart d c then ([], .dollarTag [c])
      else if c.isDigit then ([], .param ['$', c])
      else finish d state c
  | .dollarTag tag =>
      if c = '$' then ([], .dollarBody ('$' :: tag ++ [c]) ('$' :: tag ++ [c]))
      else if wordChar d c then ([], .dollarTag (tag ++ [c]))
      else (⟨.symbol, ['$']⟩ :: (feedIdent d tag c).1, (feedIdent d tag c).2)
  | .dollarBody delimiter text => feedDollarBody delimiter text c

/-- The tokens of the rest of a text. -/
def lexFrom (state : State) : List Char → List Token
  | [] => state.close
  | c :: rest => (feed d state c).1 ++ lexFrom (feed d state c).2 rest

def lex (text : List Char) : List Token := lexFrom d .start text

/-- The tokens completed by a text, and the state after it. -/
def scan (state : State) : List Char → List Token × State
  | [] => ([], state)
  | c :: rest =>
      ((feed d state c).1 ++ (scan (feed d state c).2 rest).1, (scan (feed d state c).2 rest).2)

end Scanner

end Sql
