import CoreMesh.Lib.CQuote
import CoreMesh.Lib.Except
import CoreMesh.Lib.PosixPath
import CoreMesh.SelfHealingDocs.Structural

/-!
# Git discovery and worktree validation

`self_healing_docs/gitops.py`: what is read off the output of Git, and the output that Git writes with
its default `core.quotePath`. The revisions are resolved already. A path is the string of its bytes, and
the content of a file is its text, or nothing if it is not UTF-8.
-/

namespace CoreMesh.SelfHealingDocs

open CQuote (Bytes spelled render needsQuotes encode)
open SqlEngine (strip)

/-! ### Paths -/

def replaceBackslashes (path : Text) : Text := path.map fun c => if c = '\\' then '/' else c

/-- `_COMPOSE_NAMES`. -/
def composeNames : List Text :=
  ["compose.yml", "compose.yaml", "docker-compose.yml", "docker-compose.yaml"].map String.toList

def sourceLanguage (path : Text) : Option Language :=
  let normalized := replaceBackslashes path
  if PosixPath.suffix normalized = ".py".toList then some .python
  else if PosixPath.suffix normalized = ".go".toList then some .go
  else if composeNames.contains (PosixPath.name normalized) then some .compose
  else none

def excludedParts : List Text :=
  [".git", ".venv", "node_modules", "vendor", "__pycache__", ".pytest_cache", "artifacts"].map
    String.toList

def isTestOrGeneratedSource (path : Text) : Bool :=
  let normalized := replaceBackslashes path
  let parts := PosixPath.parts normalized
  let name := PosixPath.name normalized
  parts.any (fun part => excludedParts.contains part || ".venv-".toList.isPrefixOf part) ||
    parts.contains "tests".toList || "test_".toList.isPrefixOf name ||
    "_test.go".toList.isSuffixOf name || ".generated.go".toList.isSuffixOf name

/-- The language of a path that is neither unsupported nor excluded. -/
def selectedLanguage (path : Text) : Option Language :=
  match sourceLanguage path with
  | none => none
  | some language => if isTestOrGeneratedSource path then none else some language

/-- Git, as it stands behind `run_git`: `showFile` has the content of a file at a revision or what Git says
instead, and `repr` is how Python writes a text. -/
structure Git where
  showFile : Text → Text → Except Text (Option Text)
  repr : Text → Text

def gitError (parts : List Text) : Error := .git (String.ofList parts.flatten)

section Reading

variable (git : Git)

def validateRelativeRepoPath (path : Text) : Except Error Text :=
  if path = [] || path.contains '\x00' then
    .error (.git "repository path must be non-empty and NUL-free")
  else
    let normalized := replaceBackslashes path
    if PosixPath.isAbsolute normalized || (PosixPath.parts normalized).contains "..".toList then
      .error (gitError ["unsafe repository path: ".toList, git.repr path])
    else .ok (PosixPath.asPosix normalized)

def readTextAtRef (revision path : Text) : Except Error Text := do
  let normalized ← validateRelativeRepoPath git path
  match git.showFile revision normalized with
  | .error stderr =>
      .error (gitError ["git show ".toList, revision, ":".toList, normalized, " failed: ".toList, strip stderr])
  | .ok none => .error (gitError ["source file is not UTF-8: ".toList, normalized])
  | .ok (some text) => .ok text

/-! ### The changes between two revisions -/

/-- `str.splitlines`. -/
def linesOf (output : Text) : List Text :=
  (splitlines output).map fun line => line.filter fun c => !isLineBreak c

/-- The status of a line of `git diff --name-status`, and its old and its new path. -/
structure NameStatus where
  status : Text
  oldPath : Option Text
  newPath : Option Text
  deriving DecidableEq

def parseNameStatus (rawLine : Text) : Except Error NameStatus :=
  match rawLine.splitOn '\t' with
  | status :: paths =>
      if status.head? = some 'R' ∨ status.head? = some 'C' then
        match paths with
        | [oldPath, newPath] => .ok ⟨status, some oldPath, some newPath⟩
        | _ => .error (gitError ["unexpected rename/copy record: ".toList, git.repr rawLine])
      else
        match paths with
        | [path] =>
            .ok ⟨status, if status.head? = some 'A' then none else some path,
              if status.head? = some 'D' then none else some path⟩
        | _ => .error (gitError ["unexpected name-status record: ".toList, git.repr rawLine])
  | [] => .error (gitError ["unexpected name-status record: ".toList, git.repr rawLine])

variable (base head : Text)

def readDelta (record : NameStatus) : Except Error (Option SourceFileDelta) :=
  match (orPath record.newPath record.oldPath).bind selectedLanguage with
  | none => .ok none
  | some language => do
      let oldText ← record.oldPath.mapM (readTextAtRef git base)
      let newText ← record.newPath.mapM (readTextAtRef git head)
      return some ⟨record.status, record.oldPath, record.newPath, oldText, newText, language⟩

def discoverLine (rawLine : Text) : Except Error (Option SourceFileDelta) :=
  if rawLine = [] then .ok none
  else do
    let record ← parseNameStatus git rawLine
    readDelta git base head record

def discoverSourceDeltas (output : Text) : Except Error (List SourceFileDelta) := do
  let deltas ← (linesOf output).mapM (discoverLine git base head)
  return deltas.reduceOption

/-! ### The worktree -/

/-- What the file system says of a path below the root of the repository. -/
structure Checkout where
  isWithin : Text → Bool
  isSymlink : Text → Bool
  isFile : Text → Bool

/-- A path that `ls-files -z -- "*.md"` lists, unless it is not a file of its own. -/
def listMarkdownPath (checkout : Checkout) (raw : Bytes) : Except Error (Option Text) :=
  match CQuote.decode raw with
  | none => .error (.git "tracked Markdown path is not UTF-8")
  | some path => do
      let normalized ← validateRelativeRepoPath git path
      if !checkout.isWithin normalized then
        .error (gitError ["tracked Markdown escapes repository root: ".toList, normalized])
      else if checkout.isSymlink normalized then return none
      else return if checkout.isFile normalized then some normalized else none

def sortPaths (paths : List Text) : List Text := paths.insertionSort (· ≤ ·)

/-- The paths stand between NUL bytes, which no path has. -/
def trackedMarkdownPaths (checkout : Checkout) (tracked : List Bytes) : Except Error (List Text) := do
  let listed ← (tracked.filter fun raw => (encode ".md".toList).isSuffixOf raw).mapM
    (listMarkdownPath git checkout)
  return sortPaths listed.reduceOption

def validateWorktreeLine (expected : List Text) (line : Text) : Except Error Text :=
  if line.length < 4 then .error (gitError ["unexpected porcelain status line: ".toList, git.repr line])
  else
    let status := line.take 2
    let path := line.drop 3
    if path.tails.any (" -> ".toList.isPrefixOf ·) || status = "??".toList then
      .error (gitError ["unexpected renamed or untracked path after healing: ".toList, path])
    else do
      let normalized ← validateRelativeRepoPath git path
      if !expected.contains normalized then
        .error (gitError ["unexpected worktree change after healing: ".toList, normalized])
      -- `str.lower`, as far as the end of a path goes
      else if !".md".toList.isSuffixOf (normalized.map Char.toLower) then
        .error (gitError ["non-Markdown worktree change after healing: ".toList, normalized])
      else if status.contains 'D' then
        .error (gitError ["documentation healing must not delete files: ".toList, normalized])
      else .ok normalized

def validateMarkdownWorktreeChanges (output : Text) (expectedPaths : List Text) :
    Except Error (List Text) := do
  let expected ← expectedPaths.mapM (validateRelativeRepoPath git)
  let actual ← (linesOf output).mapM (validateWorktreeLine git expected)
  let missing := expected.dedup.filter fun path => !actual.contains path
  if missing = [] then return sortPaths actual
  else
    .error (gitError ["reported Markdown changes are absent from the worktree: ".toList,
      joinWith ", " (sortPaths missing)])

end Reading

/-! ### What Git writes -/

/-- A path that Git tracks. -/
structure RepoPath where
  bytes : Bytes
  clean : PosixPath.Clean (spelled bytes)
  inside : "..".toList ∉ (spelled bytes).splitOn '/'
  nul : 0 ∉ bytes

/-- A change between two revisions. A rename has its similarity in percent. -/
inductive TreeChange where
  | added (path : RepoPath)
  | deleted (path : RepoPath)
  | modified (path : RepoPath)
  | typeChanged (path : RepoPath)
  | renamed (score : Fin 101) (old new : RepoPath)

def TreeChange.oldPath : TreeChange → Option RepoPath
  | .added _ => none
  | .deleted path | .modified path | .typeChanged path => some path
  | .renamed _ old _ => some old

def TreeChange.newPath : TreeChange → Option RepoPath
  | .deleted _ => none
  | .added path | .modified path | .typeChanged path => some path
  | .renamed _ _ new => some new

/-- Three digits. -/
def scoreText (score : Fin 101) : Text :=
  [Char.ofNat (48 + score.val / 100), Char.ofNat (48 + score.val / 10 % 10), Char.ofNat (48 + score.val % 10)]

def TreeChange.status : TreeChange → Text
  | .added _ => ['A']
  | .deleted _ => ['D']
  | .modified _ => ['M']
  | .typeChanged _ => ['T']
  | .renamed score _ _ => 'R' :: scoreText score

def TreeChange.paths : TreeChange → List RepoPath
  | .added path | .deleted path | .modified path | .typeChanged path => [path]
  | .renamed _ old new => [old, new]

/-- A line of `git diff --name-status`. -/
def TreeChange.line (change : TreeChange) : Text :=
  change.status ++ change.paths.flatMap fun path => '\t' :: render false path.bytes

def nameStatusOutput (changes : List TreeChange) : Text :=
  changes.flatMap fun change => change.line ++ ['\n']

/-- What has become of a path in a worktree whose index is that of the commit. -/
inductive WorktreeStatus where
  | modified
  | typeChanged
  | deleted
  | untracked
  deriving DecidableEq, Repr

def WorktreeStatus.text : WorktreeStatus → Text
  | .modified => " M".toList
  | .typeChanged => " T".toList
  | .deleted => " D".toList
  | .untracked => "??".toList

structure WorktreeChange where
  status : WorktreeStatus
  path : RepoPath

/-- A line of `git status --porcelain`, where blanks are a reason to quote. -/
def WorktreeChange.line (change : WorktreeChange) : Text :=
  change.status.text ++ ' ' :: render true change.path.bytes

def porcelainOutput (changes : List WorktreeChange) : Text :=
  changes.flatMap fun change => change.line ++ ['\n']

end CoreMesh.SelfHealingDocs
