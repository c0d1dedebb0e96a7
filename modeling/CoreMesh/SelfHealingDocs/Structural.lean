import CoreMesh.Lib.OrderedDict
import CoreMesh.SelfHealingDocs.Markdown

/-!
# Structural units and their diff

`self_healing_docs/structural.py`: the units of a source file that documentation may speak of, and the
changes between two versions of a file. Python is taken from its syntax tree. What the tree walks over
Go and Compose files find is a parameter, and so are the parsers and `hashlib`.
-/

namespace CoreMesh.SelfHealingDocs

open SqlEngine (strip)

inductive Language where
  | python
  | go
  | compose
  deriving DecidableEq, Repr

inductive UnitKind where
  | composeService
  | goField
  | goFunction
  | goInterface
  | goInterfaceMethod
  | goRoute
  | goStruct
  | goType
  | pythonClass
  | pythonConstant
  | pythonField
  | pythonFunction
  | pythonService
  deriving DecidableEq, Repr

def UnitKind.text : UnitKind → Text
  | .composeService => "compose_service".toList
  | .goField => "go_field".toList
  | .goFunction => "go_function".toList
  | .goInterface => "go_interface".toList
  | .goInterfaceMethod => "go_interface_method".toList
  | .goRoute => "go_route".toList
  | .goStruct => "go_struct".toList
  | .goType => "go_type".toList
  | .pythonClass => "python_class".toList
  | .pythonConstant => "python_constant".toList
  | .pythonField => "python_field".toList
  | .pythonFunction => "python_function".toList
  | .pythonService => "python_service".toList

/-- `_BOUNDED_KINDS`. -/
def boundedKinds : List UnitKind :=
  [.composeService, .goField, .goFunction, .goInterfaceMethod, .goRoute, .pythonConstant, .pythonField,
    .pythonFunction, .pythonService]

structure SourceFileDelta where
  status : Text
  oldPath : Option Text
  newPath : Option Text
  oldText : Option Text
  newText : Option Text
  language : Language
  deriving DecidableEq

/-- `a or b` of paths: the empty path counts as none. -/
def orPath (path other : Option Text) : Option Text := (path.filter (· ≠ [])).or (other.filter (· ≠ []))

def SourceFileDelta.displayPath (delta : SourceFileDelta) : Text :=
  (orPath delta.newPath delta.oldPath).getD "<unknown>".toList

structure StructuralUnit where
  path : Text
  language : Language
  kind : UnitKind
  identity : Text
  name : Text
  representation : Text
  context : Text
  searchTerms : List Text
  startLine : Nat
  endLine : Nat
  modificationIsBounded : Bool
  deriving DecidableEq

inductive ChangeType where
  | added
  | removed
  | modified
  deriving DecidableEq, Repr

def ChangeType.text : ChangeType → Text
  | .added => "added".toList
  | .removed => "removed".toList
  | .modified => "modified".toList

structure StructuralChange where
  changeId : Text
  path : Text
  language : Language
  kind : UnitKind
  name : Text
  changeType : ChangeType
  before : Option Text
  after : Option Text
  context : Text
  searchTerms : List Text
  startLine : Nat
  endLine : Nat
  autoFixEligible : Bool
  deriving DecidableEq

/-! ### Python syntax trees -/

/-- An expression; `other` is one that the extraction does not look into, but for its texts. -/
inductive PyNode where
  | name (id : Text)
  | attribute (value : PyNode) (attr : Text)
  | call (func : PyNode) (operands : List PyNode)
  | string (value : Text)
  | other (tag : Text) (children : List PyNode)

structure Decorator where
  node : PyNode
  lineno : Nat

/-- The docstring is what `ast.get_docstring` makes of the body. -/
structure FunctionDef where
  isAsync : Bool
  name : Text
  args : PyNode
  returns : Option PyNode
  decoratorList : List Decorator
  docstring : Option Text
  lineno : Nat
  endLineno : Nat

structure ClassHeader where
  name : Text
  bases : List PyNode
  keywords : List (Option Text × PyNode)
  decoratorList : List Decorator
  docstring : Option Text
  lineno : Nat
  endLineno : Nat

structure AnnAssign where
  target : PyNode
  annotationNode : PyNode
  value : Option PyNode
  lineno : Nat
  endLineno : Nat

structure Assign where
  targets : List PyNode
  value : PyNode
  lineno : Nat
  endLineno : Nat

inductive PyStmt where
  | functionDef (node : FunctionDef)
  | classDef (node : ClassHeader) (body : List PyStmt)
  | annAssign (node : AnnAssign)
  | assign (node : Assign)
  | other

inductive ExtractError where
  | structuralParseError (message : Text)
  | exception (message : Text)
  deriving DecidableEq

inductive ParseFault where
  | syntaxError (lineno : Nat) (message : Text)
  | exception (message : Text)

/-- What parses and prints sources, and what the units of Go and Compose files are found by. These have
the language of their file. -/
structure Frontend where
  parse : Text → Text → Except ParseFault (List PyStmt)
  unparse : PyNode → Except Text Text
  lower : Text → Text
  isUpper : Text → Bool
  sha256 : Text → Text
  goUnits : Text → Text → Except ExtractError (List StructuralUnit)
  composeUnits : Text → Text → Except ExtractError (List StructuralUnit)
  goUnits_language : ∀ path source units, goUnits path source = .ok units →
    ∀ unit ∈ units, unit.language = .go
  composeUnits_language : ∀ path source units, composeUnits path source = .ok units →
    ∀ unit ∈ units, unit.language = .compose

/-- Where no units are found they are all of one language. -/
theorem language_of_none (language : Language) : ∀ (_path _source : Text) (units : List StructuralUnit),
    (.ok [] : Except ExtractError (List StructuralUnit)) = .ok units →
      ∀ unit ∈ units, unit.language = language := by
  intro _ _ units hunits unit hunit
  obtain rfl := Except.ok.inj hunits
  cases hunit

/-! ### Texts -/

def collapseSpace : Bool → Text → Text
  | _, [] => []
  | behindSpace, c :: rest =>
      if SqlEngine.isSpace c then (if behindSpace then [] else [' ']) ++ collapseSpace true rest
      else c :: collapseSpace false rest

/-- `_normalize_space`. -/
def normalizeSpace (value : Text) : Text := strip (collapseSpace false value)

def startsTerm (c : Char) : Bool := c.isAlpha || c == '_'

def continuesTerm (c : Char) : Bool := c.isAlphanum || c == '_' || c == '.' || c == '-'

/-- `re.findall` with `[A-Za-z_][A-Za-z0-9_.-]{2,}`, with as many steps as there are characters. -/
def findTerms : Nat → Text → List Text
  | 0, _ => []
  | _ + 1, [] => []
  | steps + 1, c :: rest =>
      let run := rest.takeWhile continuesTerm
      if startsTerm c && 2 ≤ run.length then (c :: run) :: findTerms steps (rest.drop run.length)
      else findTerms steps rest

def termsOf (value : Text) : List Text :=
  let normalized := strip value
  if normalized = [] then []
  else normalized.take 500 :: (findTerms normalized.length normalized).map (·.take 200)

section Extraction

variable (frontend : Frontend)

def termPrecedes (a b : Text) : Prop :=
  frontend.lower a < frontend.lower b ∨ (frontend.lower a = frontend.lower b ∧ a ≤ b)

instance : DecidableRel (termPrecedes frontend) := fun _ _ => inferInstanceAs (Decidable (_ ∨ _))

/-- `_clean_terms`. -/
def cleanTerms (values : List Text) : List Text :=
  (values.flatMap termsOf).dedup.insertionSort (termPrecedes frontend)

/-- `_safe_unparse`. -/
def safeUnparse (node : PyNode) : Except ExtractError Text :=
  match frontend.unparse node with
  | .ok value => .ok ((normalizeSpace value).take 2000)
  | .error message =>
      .error (.structuralParseError ("could not normalize Python AST node: ".toList ++ message))

def joinWith (sep : String) (parts : List Text) : Text := sep.toList.intercalate parts

/-- `_call_name`. -/
def callName : PyNode → Text
  | .name id => id
  | .attribute value attr =>
      match callName value with
      | [] => attr
      | front => front ++ '.' :: attr
  | _ => []

/-- `_call_name(target).split(".")[-1]`. -/
def lastName (node : PyNode) : Text := (callName node).rtakeWhile (· ≠ '.')

def routeMethods : List Text :=
  ["api_route", "delete", "get", "head", "options", "patch", "post", "put", "route", "trace",
    "websocket", "websocket_route"].map String.toList

/-- `_python_decorator_is_route`. -/
def decoratorIsRoute (node : PyNode) : Bool :=
  let target := match node with
    | .call func _ => func
    | _ => node
  routeMethods.contains (frontend.lower (lastName target))

mutual

/-- The texts among the nodes that `ast.walk` comes by. -/
def literals : PyNode → List Text
  | .name _ => []
  | .attribute value _ => literals value
  | .call func operands => literals func ++ literalsOf operands
  | .string value => [value]
  | .other _ children => literalsOf children

def literalsOf : List PyNode → List Text
  | [] => []
  | node :: nodes => literals node ++ literalsOf nodes

end

/-- `_python_literal_terms`. -/
def literalTerms (nodes : List PyNode) : List Text :=
  ((literalsOf nodes).map strip).filterMap fun value =>
    if value = [] then none else some (value.take 240)

/-- `_python_start_line`. -/
def startLine (lineno : Nat) (decorators : List Decorator) : Nat :=
  (decorators.map Decorator.lineno).foldl min lineno

/-- `_is_public_python_name`. -/
def isPublicName (name : Text) : Bool := name ≠ [] && name.head? ≠ some '_'

/-- `_first_doc_line`; a docstring of blanks alone has no first line. -/
def firstDocLine (docstring : Option Text) : Except ExtractError Text :=
  match docstring with
  | none | some [] => .ok []
  | some text =>
      match splitlines (strip text) with
      | [] => .error (.exception "list index out of range".toList)
      | line :: _ => .ok ((line.filter fun c => !isLineBreak c).take 500)

def functionUnit (path : Text) (parents : List Text) (node : FunctionDef) :
    Except ExtractError (List StructuralUnit) := do
  let qualified := joinWith "." (parents ++ [node.name])
  let decoratorTexts ← node.decoratorList.mapM fun item => safeUnparse frontend item.node
  let isRoute := node.decoratorList.any fun item => decoratorIsRoute frontend item.node
  if !(isPublicName node.name || isRoute || node.name == "__init__".toList) then return []
  let front := (if node.isAsync then "async def " else "def ").toList
  let arguments ← safeUnparse frontend node.args
  let returns ← node.returns.mapM (safeUnparse frontend)
  let header := front ++ qualified ++ '(' :: arguments ++ ')' ::
    (match returns with
      | some returns => " -> ".toList ++ returns
      | none => [])
  let representation := joinWith "\n" (decoratorTexts.map ('@' :: ·) ++ [header])
  let context ← firstDocLine node.docstring
  return [{
    path := path
    language := .python
    kind := .pythonFunction
    identity := "python_function:".toList ++ qualified
    name := qualified
    representation := representation
    context := context
    searchTerms := cleanTerms frontend
      (node.name :: qualified :: parents ++ literalTerms (node.decoratorList.map Decorator.node))
    startLine := startLine node.lineno node.decoratorList
    endLine := node.endLineno
    modificationIsBounded := true }]

def classUnit (path : Text) (parents : List Text) (node : ClassHeader) :
    Except ExtractError StructuralUnit := do
  let qualified := joinWith "." (parents ++ [node.name])
  let baseTexts ← node.bases.mapM (safeUnparse frontend)
  -- `**keywords` have no name and are left out
  let keywordTexts ← (node.keywords.filterMap fun (arg, value) => arg.map fun arg => (arg, value)).mapM
    fun (arg, value) => (arg ++ '=' :: ·) <$> safeUnparse frontend value
  let bases := baseTexts ++ keywordTexts
  let representation := "class ".toList ++ qualified ++
    if bases = [] then [] else '(' :: joinWith ", " bases ++ [')']
  let context ← firstDocLine node.docstring
  return {
    path := path
    language := .python
    kind := .pythonClass
    identity := "python_class:".toList ++ qualified
    name := qualified
    representation := representation
    context := context
    searchTerms := cleanTerms frontend (node.name :: qualified :: bases)
    startLine := startLine node.lineno node.decoratorList
    endLine := node.endLineno
    modificationIsBounded := false }

/-- `_python_field_unit`. -/
def fieldUnit (path className fieldName : Text) (annotated value : Option Text)
    (lineno endLineno : Nat) : StructuralUnit :=
  let qualified := className ++ '.' :: fieldName
  let typeText := annotated.getD []
  { path := path
    language := .python
    kind := .pythonField
    identity := "python_field:".toList ++ qualified
    name := qualified
    representation := qualified ++ (if typeText = [] then [] else ": ".toList ++ typeText) ++
      (match value with
        | some value => " = ".toList ++ value
        | none => [])
    context := "Field on ".toList ++ className
    searchTerms := cleanTerms frontend [fieldName, qualified, typeText, value.getD []]
    startLine := lineno
    endLine := endLineno
    modificationIsBounded := true }

def isService (value : Option PyNode) : Bool :=
  match value with
  | some (.call func _) => ["FastAPI".toList, "Flask".toList].contains (lastName func)
  | _ => false

/-- What a target of an assignment at the top of a module is a unit of. -/
def assignmentUnit (path typeText : Text) (value : Option PyNode) (lineno endLineno : Nat)
    (target : PyNode) : Except ExtractError (Option StructuralUnit) :=
  match target with
  | .name name =>
      if !isService value && !frontend.isUpper name then return none
      else do
        let text ← value.mapM (safeUnparse frontend)
        let text := text.getD "<no default>".toList
        let kind := if isService value then UnitKind.pythonService else UnitKind.pythonConstant
        return some {
          path := path
          language := .python
          kind := kind
          identity := kind.text ++ ':' :: name
          name := name
          representation := name ++ (if typeText = [] then [] else ": ".toList ++ typeText) ++
            " = ".toList ++ text
          context :=
            (if isService value then "Python application definition" else "Module constant").toList
          searchTerms := cleanTerms frontend (name :: typeText :: text :: literalTerms value.toList)
          startLine := lineno
          endLine := endLineno
          modificationIsBounded := true }
  | _ => return none

/-- `_python_module_assignment_units`. -/
def moduleAssignmentUnits (path : Text) (targets : List PyNode) (annotated : Option PyNode)
    (value : Option PyNode) (lineno endLineno : Nat) : Except ExtractError (List StructuralUnit) := do
  let typeText ← annotated.mapM (safeUnparse frontend)
  let units ← targets.mapM (assignmentUnit frontend path (typeText.getD []) value lineno endLineno)
  return units.reduceOption

def fieldUnits (path className : Text) (node : Assign) : Except ExtractError (List StructuralUnit) := do
  let value ← safeUnparse frontend node.value
  return node.targets.filterMap fun target =>
    match target with
    | .name id =>
        if isPublicName id then
          some (fieldUnit frontend path className id none (some value) node.lineno node.endLineno)
        else none
    | _ => none

def annotatedFieldUnits (path className : Text) (node : AnnAssign) :
    Except ExtractError (List StructuralUnit) := do
  match node.target with
  | .name id =>
      let typeText ← safeUnparse frontend node.annotationNode
      let value ← node.value.mapM (safeUnparse frontend)
      return [fieldUnit frontend path className id (some typeText) value node.lineno node.endLineno]
  | _ => return []

mutual

/-- One statement of `_extract_python_scope`. The class that it stands in has the joined names of
`parents`; at the top of the module there is none. -/
def extractPythonNode (path : Text) : List Text → PyStmt → Except ExtractError (List StructuralUnit)
  | parents, .functionDef node => functionUnit frontend path parents node
  | parents, .classDef node body => do
      let unit ← classUnit frontend path parents node
      let units ← extractPythonScope path (parents ++ [node.name]) body
      return unit :: units
  | [], .annAssign node =>
      moduleAssignmentUnits frontend path [node.target] (some node.annotationNode) node.value node.lineno
        node.endLineno
  | parents, .annAssign node => annotatedFieldUnits frontend path (joinWith "." parents) node
  | [], .assign node =>
      moduleAssignmentUnits frontend path node.targets none (some node.value) node.lineno node.endLineno
  | parents, .assign node => fieldUnits frontend path (joinWith "." parents) node
  | _, .other => return []

/-- `_extract_python_scope`. -/
def extractPythonScope (path : Text) : List Text → List PyStmt → Except ExtractError (List StructuralUnit)
  | _, [] => return []
  | parents, node :: body => do
      let units ← extractPythonNode path parents node
      let rest ← extractPythonScope path parents body
      return units ++ rest

end

/-! ### Versions of a file -/

def unitPrecedes (a b : StructuralUnit) : Prop :=
  a.startLine < b.startLine ∨ (a.startLine = b.startLine ∧ a.identity ≤ b.identity)

instance : DecidableRel unitPrecedes := fun _ _ => inferInstanceAs (Decidable (_ ∨ _))

def sortUnits (units : List StructuralUnit) : List StructuralUnit := units.insertionSort unitPrecedes

/-- `_dedupe_units`. -/
def dedupeUnits (units : List StructuralUnit) : List StructuralUnit :=
  OrderedDict.setDefaults StructuralUnit.identity [] units

/-- The units that are found in a file, in the order in which they are. -/
def foundUnits (language : Language) (path source : Text) : Except ExtractError (List StructuralUnit) :=
  match language with
  | .python =>
      match frontend.parse path source with
      | .ok body => extractPythonScope frontend path [] body
      | .error (.syntaxError lineno message) =>
          .error (.structuralParseError ("invalid Python syntax in ".toList ++ path ++ ':' ::
            (toString lineno).toList ++ ": ".toList ++ message))
      | .error (.exception message) => .error (.exception message)
  | .go => frontend.goUnits path source
  | .compose => frontend.composeUnits path source

/-- The units of a file that are compared. -/
def listUnits (language : Language) (found : List StructuralUnit) : List StructuralUnit :=
  match language with
  | .python => sortUnits found
  | .go => sortUnits (dedupeUnits found)
  | .compose => found

def extractUnits (language : Language) (path source : Text) : Except ExtractError (List StructuralUnit) :=
  match foundUnits frontend language path source with
  | .ok found => .ok (listUnits language found)
  | .error (.structuralParseError message) => .error (.structuralParseError message)
  | .error (.exception message) =>
      .error (.structuralParseError ("failed to parse ".toList ++ path ++ ": ".toList ++ message))

/-! ### The diff -/

/-- The identities of two versions, each once and in order. -/
def identities (oldUnits newUnits : List StructuralUnit) : List Text :=
  ((oldUnits ++ newUnits).map StructuralUnit.identity).dedup.insertionSort (· ≤ ·)

def diffUnit (delta : SourceFileDelta) (identity : Text) (before after : Option StructuralUnit)
    (current : StructuralUnit) (changeType : ChangeType) : StructuralChange :=
  let path := (orPath delta.newPath delta.oldPath).getD current.path
  let text : Option StructuralUnit → Text := fun unit => (unit.map StructuralUnit.representation).getD []
  { changeId := (frontend.sha256
      (joinWith "\x00" [path, identity, changeType.text, text before, text after])).take 16
    path := path
    language := current.language
    kind := current.kind
    name := current.name
    changeType := changeType
    before := before.map StructuralUnit.representation
    after := after.map StructuralUnit.representation
    context := current.context
    searchTerms := cleanTerms frontend
      ((before.map StructuralUnit.searchTerms).getD [] ++ (after.map StructuralUnit.searchTerms).getD [])
    startLine := current.startLine
    endLine := current.endLine
    autoFixEligible := changeType = .modified && boundedKinds.contains current.kind &&
      before.any StructuralUnit.modificationIsBounded && after.any StructuralUnit.modificationIsBounded }

/-- What is reported of an identity. -/
def diffIdentity (delta : SourceFileDelta) (identity : Text) (before after : Option StructuralUnit) :
    Option StructuralChange :=
  match before, after with
  | some old, some new =>
      if old.representation = new.representation then none
      else some (diffUnit frontend delta identity before after new .modified)
  | some old, none => some (diffUnit frontend delta identity before after old .removed)
  | none, some new => some (diffUnit frontend delta identity before after new .added)
  | none, none => none

/-- `_diff_units`: a dictionary by identity has the last unit of each. -/
def diffUnits (delta : SourceFileDelta) (oldUnits newUnits : List StructuralUnit) : List StructuralChange :=
  (identities oldUnits newUnits).filterMap fun identity =>
    diffIdentity frontend delta identity (OrderedDict.last? StructuralUnit.identity oldUnits identity)
      (OrderedDict.last? StructuralUnit.identity newUnits identity)

def extractSide (language : Language) (path : Option Text) (displayPath : Text) (text : Option Text) :
    Except ExtractError (List StructuralUnit) :=
  match text with
  | some source => extractUnits frontend language ((orPath path none).getD displayPath) source
  | none => .ok []

def changePrecedes (a b : StructuralChange) : Prop :=
  a.path < b.path ∨ (a.path = b.path ∧
    (a.startLine < b.startLine ∨ (a.startLine = b.startLine ∧ a.changeId ≤ b.changeId)))

instance : DecidableRel changePrecedes := fun _ _ => inferInstanceAs (Decidable (_ ∨ _))

def deltaChanges (delta : SourceFileDelta) : Except ExtractError (List StructuralChange) := do
  let oldUnits ← extractSide frontend delta.language delta.oldPath delta.displayPath delta.oldText
  let newUnits ← extractSide frontend delta.language delta.newPath delta.displayPath delta.newText
  return diffUnits frontend delta oldUnits newUnits

def extractStructuralChanges (deltas : List SourceFileDelta) :
    Except ExtractError (List StructuralChange) := do
  let changes ← (deltas.insertionSort fun a b => a.displayPath ≤ b.displayPath).mapM
    (deltaChanges frontend)
  return changes.flatten.insertionSort changePrecedes

end Extraction

end CoreMesh.SelfHealingDocs
