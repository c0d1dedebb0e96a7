import Mathlib.Data.List.DropRight
import Mathlib.Data.String.Basic
import CoreMesh.Sql.Endings

/-!
# The SQL sandbox

`SQLSandbox.sanitize_sql` and what it calls. `sqlparse` is a parameter: a parse is a list of
statements, and a statement a tree whose leaves cover tokens, several of them where a keyword has
several words. How leaves are grouped is left open, except that a group has no token type of its own.
A text is the list of its characters.
-/

namespace CoreMesh.SqlEngine

open Sql

/-- `str.isspace`, which `strip`, the pattern `\s` and `sqlparse` go by. -/
def isSpace (c : Char) : Bool :=
  (9 ≤ c.toNat && c.toNat ≤ 13) || (28 ≤ c.toNat && c.toNat ≤ 32) || c.toNat == 0x85 ||
    c.toNat == 0xa0 || c.toNat == 0x1680 || (0x2000 ≤ c.toNat && c.toNat ≤ 0x200a) ||
    c.toNat == 0x2028 || c.toNat == 0x2029 || c.toNat == 0x202f || c.toNat == 0x205f ||
    c.toNat == 0x3000

/-- SQL as the service's own libraries read it. -/
def python : Dialect where
  isSpace := isSpace
  blank := by decide
  newline := by decide
  carriageReturn := by decide
  visible := by
    intro c hlow hhigh
    simp [isSpace]
    omega

def lstrip (text : List Char) : List Char := text.dropWhile isSpace

def rstrip (text : List Char) : List Char := text.rdropWhile isSpace

def strip (text : List Char) : List Char := rstrip (lstrip text)

/-- `rstrip(";")`. -/
def rstripSemicolons (text : List Char) : List Char := text.rdropWhile (· == ';')

/-! ### Parse trees -/

inductive LeafType where
  | whitespace
  | comment
  | keyword (normalized : List Char)
  | other
  deriving DecidableEq, Repr

structure Leaf where
  ttype : LeafType
  tokens : List Token
  deriving DecidableEq, Repr

/-- A leaf's type agrees with the tokens it covers. -/
def Leaf.WellTyped (leaf : Leaf) : Prop :=
  match leaf.ttype with
  | .whitespace => ∀ t ∈ leaf.tokens, t.kind = .space
  | .comment => ∀ t ∈ leaf.tokens, t.isTrivia = true
  | .keyword _ | .other =>
      ∃ init last, leaf.tokens = init ++ [last] ∧ last.isTrivia = false

inductive Node where
  | leaf (value : Leaf)
  | group (children : List Node)

mutual

def Node.leaves : Node → List Leaf
  | .leaf value => [value]
  | .group children => leavesOf children

def leavesOf : List Node → List Leaf
  | [] => []
  | node :: rest => node.leaves ++ leavesOf rest

end

abbrev Statement := List Node

def tokensOf (nodes : List Node) : List Token := (leavesOf nodes).flatMap Leaf.tokens

/-- `str` of a statement or of a run of its nodes. -/
def textOf (nodes : List Node) : List Char := concat (tokensOf nodes)

def semicolon : Token := ⟨.symbol, [';']⟩

structure SqlParse where
  parse : List Char → List Statement
  getType : Statement → List Char

/-- The parser loses nothing of a text, and no statement of it is blank. -/
structure SqlParse.Lossless (parser : SqlParse) (text : List Char) : Prop where
  whole : (parser.parse text).flatMap textOf = text
  nonblank : ∀ statement ∈ parser.parse text, strip (textOf statement) ≠ []

/-- The leaves that the parser finds in a text end where its tokens end. -/
structure SqlParse.Agrees (parser : SqlParse) (text : List Char) : Prop where
  tokens : (parser.parse text).flatMap tokensOf = lex python text
  wellTyped : ∀ statement ∈ parser.parse text, ∀ leaf ∈ leavesOf statement, leaf.WellTyped

/-! ### The sandbox -/

structure SQLSandboxConfig where
  rowLimit : Nat := 1000
  enforceLimit : Bool := true
  blockedKeywords : List String :=
    ["ALTER", "CALL", "COPY", "CREATE", "DELETE", "DROP", "GRANT", "INSERT", "MERGE", "REVOKE",
      "TRUNCATE", "UPDATE"]
  blockedFunctions : List String :=
    ["lo_import", "lo_export", "nextval", "pg_advisory_lock", "pg_advisory_unlock",
      "pg_cancel_backend", "pg_read_file", "pg_sleep", "pg_terminate_backend", "setval"]
  deriving DecidableEq, Repr

inductive SandboxError where
  /-- `UnsafeSQLError` with its reason. -/
  | unsafeSQL (reason : String)
  /-- `sqlparse.parse` of an empty text has no first statement. -/
  | indexError
  deriving DecidableEq, Repr

structure SanitizedSQL where
  sql : List Char
  limitApplied : Bool
  deriving DecidableEq, Repr

/-- `upper` of a keyword or statement type, which are ASCII. -/
def upper (text : List Char) : List Char := text.map Char.toUpper

/-- `split()[0]`. -/
def firstWord (text : List Char) : List Char := (lstrip text).takeWhile fun c => !isSpace c

/-- `_raise_for_blocked_keywords`: the first blocked keyword. -/
def blockedKeyword (config : SQLSandboxConfig) (statement : Statement) : Option String :=
  (leavesOf statement).findSome? fun leaf =>
    match leaf.ttype with
    | .keyword normalized =>
        let keyword := String.ofList (firstWord (upper normalized))
        if keyword ∈ config.blockedKeywords then some keyword else none
    | _ => none

/-- The letters the class `[a-z]` matches when case is ignored: four of them are not ASCII. -/
def isLetter (c : Char) : Bool :=
  c.isAlpha || c.toNat == 0x130 || c.toNat == 0x131 || c.toNat == 0x17f || c.toNat == 0x212a

def isNameStart (c : Char) : Bool := isLetter c || c == '_'

def isNameChar (c : Char) : Bool := isNameStart c || c.isDigit

/-- `lower` of a character of a name. -/
def lowerChar (c : Char) : List Char :=
  if c.toNat == 0x130 then ['i', Char.ofNat 0x307]
  else if c.toNat == 0x212a then ['k']
  else [c.toLower]

def lower (name : List Char) : List Char := name.flatMap lowerChar

/-- `\w`. Which characters outside ASCII are letters or digits is `unicodeWord`. -/
def isWord (unicodeWord : Char → Bool) (c : Char) : Bool :=
  c.isAlphanum || c == '_' || (decide (128 ≤ c.toNat) && unicodeWord c)

/-- `_FUNCTION_CALL_PATTERN` at one position: the name, and what follows the parenthesis. No other
split of the characters can match, since neither a name character nor a space is a parenthesis. -/
def matchCall : List Char → Option (List Char × List Char)
  | [] => none
  | c :: rest =>
      if isNameStart c then
        match (rest.dropWhile isNameChar).dropWhile isSpace with
        | '(' :: after => some (c :: rest.takeWhile isNameChar, after)
        | _ => none
      else none

/-- `finditer`: the names matched from left to right. `previous` is the character before the text, and
`fuel` bounds the characters left. -/
def findCalls (unicodeWord : Char → Bool) :
    (fuel : Nat) → (previous : Option Char) → List Char → List (List Char)
  | 0, _, _ => []
  | _, _, [] => []
  | fuel + 1, previous, c :: rest =>
      -- `\b` before a name holds where no word character precedes.
      if previous.any (isWord unicodeWord) then findCalls unicodeWord fuel (some c) rest
      else
        match matchCall (c :: rest) with
        | some (name, after) => name :: findCalls unicodeWord fuel (some '(') after
        | none => findCalls unicodeWord fuel (some c) rest

/-- `_raise_for_blocked_functions`: the first blocked function. -/
def blockedFunction (unicodeWord : Char → Bool) (config : SQLSandboxConfig) (text : List Char) :
    Option String :=
  (findCalls unicodeWord text.length none text).findSome? fun name =>
    let functionName := String.ofList (lower name)
    if functionName ∈ config.blockedFunctions then some functionName else none

/-- `_has_limit`. -/
def hasLimit (statement : Statement) : Bool :=
  statement.any fun
    | .leaf ⟨.keyword normalized, _⟩ => upper normalized == "LIMIT".toList
    | _ => false

/-- What `_strip_trailing_comments` pops: a node that is itself white space or a comment. -/
def Node.isTrailing : Node → Bool
  | .leaf ⟨.whitespace, _⟩ | .leaf ⟨.comment, _⟩ => true
  | _ => false

def keptNodes (statement : Statement) : List Node := statement.rdropWhile Node.isTrailing

/-- `_strip_trailing_comments`. -/
def stripTrailingComments (parser : SqlParse) (sql : List Char) : Except SandboxError (List Char) :=
  match parser.parse sql with
  | [] => .error .indexError
  | statement :: _ => .ok (rstrip (textOf (keptNodes statement)))

/-- The text `_append_row_limit` parses again. -/
def withoutSemicolon (sql : List Char) : List Char := rstrip (rstripSemicolons (strip sql))

/-- `LIMIT` and the number, after a blank. -/
def limitClause (rowLimit : Nat) : List Char := " LIMIT ".toList ++ (toString rowLimit).toList

/-- `_append_row_limit`. -/
def appendRowLimit (parser : SqlParse) (config : SQLSandboxConfig) (sql : List Char) :
    Except SandboxError (List Char) := do
  return (← stripTrailingComments parser (withoutSemicolon sql)) ++ limitClause config.rowLimit

def sanitizeSql (parser : SqlParse) (unicodeWord : Char → Bool) (config : SQLSandboxConfig)
    (sql : List Char) : Except SandboxError SanitizedSQL := do
  let stripped := strip sql
  if stripped.isEmpty then throw (.unsafeSQL "SQL query is empty.")
  match (parser.parse stripped).filter (fun statement => !(strip (textOf statement)).isEmpty) with
  | [statement] =>
      let statementType := String.ofList (upper (parser.getType statement))
      if statementType ≠ "SELECT" then
        throw (.unsafeSQL
          ("Only read-only SELECT statements are allowed; got " ++ statementType ++ "."))
      if let some keyword := blockedKeyword config statement then
        throw (.unsafeSQL ("Blocked unsafe SQL keyword: " ++ keyword ++ "."))
      if let some functionName := blockedFunction unicodeWord config (textOf statement) then
        throw (.unsafeSQL ("Blocked unsafe SQL function: " ++ functionName ++ "."))
      if !config.enforceLimit || hasLimit statement then
        return { sql := stripped, limitApplied := false }
      return { sql := ← appendRowLimit parser config stripped, limitApplied := true }
  | _ => throw (.unsafeSQL "Only one SQL statement may be executed at a time.")

/-- What a statement passed when it is accepted, and what is made of it. -/
theorem sanitizeSql_ok {parser : SqlParse} {unicodeWord : Char → Bool} {config : SQLSandboxConfig}
    {sql : List Char} {accepted : SanitizedSQL}
    (hok : sanitizeSql parser unicodeWord config sql = .ok accepted) :
    ∃ statement, (parser.parse (strip sql)).filter
        (fun statement => !(strip (textOf statement)).isEmpty) = [statement] ∧
      blockedKeyword config statement = none ∧
      blockedFunction unicodeWord config (textOf statement) = none ∧
      (accepted = ⟨strip sql, false⟩ ∨ accepted.limitApplied = true ∧
        appendRowLimit parser config (strip sql) = .ok accepted.sql) := by
  simp only [sanitizeSql] at hok
  by_cases hempty : (strip sql).isEmpty = true
  · rw [if_pos hempty] at hok
    cases hok
  rw [if_neg hempty] at hok
  split at hok
  · rename_i statement hstatement
    split at hok
    · cases hok
    split at hok
    · cases hok
    · rename_i hkeyword
      split at hok
      · cases hok
      · rename_i hfunction
        refine ⟨statement, hstatement, Option.eq_none_iff_forall_ne_some.mpr hkeyword,
          Option.eq_none_iff_forall_ne_some.mpr hfunction, ?_⟩
        split at hok
        · exact .inl (Except.ok.inj hok).symm
        · right
          cases happend : appendRowLimit parser config (strip sql) with
          | error failure =>
              rw [happend] at hok
              cases hok
          | ok limited =>
              rw [happend] at hok
              rw [← Except.ok.inj hok]
              exact ⟨rfl, rfl⟩
  · cases hok

/-! ### A parser of simple statements -/

def leafType (t : Token) : LeafType :=
  match t.kind with
  | .space => .whitespace
  | .lineComment | .blockComment => .comment
  | .ident =>
      if ["SELECT".toList, "FROM".toList, "WHERE".toList, "LIMIT".toList].contains (upper t.text) then
        .keyword (upper t.text)
      else .other
  | _ => .other

/-- What follows `WHERE` is a group with it. -/
def nodesOf : List Token → List Node
  | [] => []
  | t :: rest =>
      if upper t.text = "WHERE".toList then
        [.group ((t :: rest).map fun t => .leaf ⟨leafType t, [t]⟩)]
      else .leaf ⟨leafType t, [t]⟩ :: nodesOf rest

/-- `sqlparse` on a single `SELECT` of simple parts, whose only group is that of `WHERE`. -/
def selectParse : SqlParse where
  parse text :=
    match lex python text with
    | [] => []
    | t :: rest => [nodesOf (t :: rest)]
  getType _ := "SELECT".toList

theorem leafType_wellTyped (t : Token) : Leaf.WellTyped ⟨leafType t, [t]⟩ := by
  obtain ⟨kind, text⟩ := t
  have hlive : ∀ {t : Token}, t.isTrivia = false →
      ∃ init last, [t] = init ++ [last] ∧ last.isTrivia = false := fun ht => ⟨[], _, rfl, ht⟩
  cases kind with
  | space => simp [leafType, Leaf.WellTyped]
  | lineComment => simp [leafType, Leaf.WellTyped, Token.isTrivia]
  | blockComment => simp [leafType, Leaf.WellTyped, Token.isTrivia]
  | ident =>
      unfold leafType
      dsimp only
      split
      · exact hlive rfl
      · exact hlive rfl
  | _ => exact hlive rfl

theorem leavesOf_nodesOf (tokens : List Token) :
    leavesOf (nodesOf tokens) = tokens.map fun t => ⟨leafType t, [t]⟩ := by
  have hleaves : ∀ tokens : List Token,
      leavesOf (tokens.map fun t => .leaf ⟨leafType t, [t]⟩)
        = tokens.map fun t => ⟨leafType t, [t]⟩ := by
    intro tokens
    induction tokens with
    | nil => rfl
    | cons t rest ih => rw [List.map_cons, leavesOf, ih]; rfl
  induction tokens with
  | nil => rfl
  | cons t rest ih =>
      rw [nodesOf]
      split
      · rw [leavesOf, Node.leaves, hleaves, leavesOf, List.append_nil]
      · rw [leavesOf, ih]
        rfl

theorem leavesOf_selectParse (text : List Char) :
    (selectParse.parse text).flatMap leavesOf = (lex python text).map fun t => ⟨leafType t, [t]⟩ := by
  show (match lex python text with
    | [] => []
    | t :: rest => [nodesOf (t :: rest)]).flatMap leavesOf = _
  cases lex python text with
  | nil => rfl
  | cons t rest => rw [List.flatMap_singleton, leavesOf_nodesOf]

theorem selectParse_agrees (text : List Char) : selectParse.Agrees text := by
  have hleaves := leavesOf_selectParse text
  constructor
  · have htokens : (selectParse.parse text).flatMap tokensOf
        = ((selectParse.parse text).flatMap leavesOf).flatMap Leaf.tokens := by
      rw [List.flatMap_assoc]
      rfl
    rw [htokens, hleaves, List.flatMap_map]
    exact List.flatMap_singleton' _
  · intro statement hstatement leaf hleaf
    have hmem : leaf ∈ (selectParse.parse text).flatMap leavesOf :=
      List.mem_flatMap.mpr ⟨statement, hstatement, hleaf⟩
    rw [hleaves] at hmem
    obtain ⟨t, -, rfl⟩ := List.mem_map.mp hmem
    exact leafType_wellTyped t

theorem selectParse_whole (text : List Char) : (selectParse.parse text).flatMap textOf = text := by
  have htokens := (selectParse_agrees text).tokens
  have hconcat : concat (lex python text) = text := concat_lex text
  rw [← htokens, concat, List.flatMap_assoc] at hconcat
  exact hconcat

end CoreMesh.SqlEngine
