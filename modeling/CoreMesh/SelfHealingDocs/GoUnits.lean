import CoreMesh.Lib.RoseTree
import CoreMesh.SelfHealingDocs.Structural

/-!
# Units of Go files

`extract_go_units` over the tree that Tree-sitter makes of a Go file: exported functions and types, the
fields and methods in these, and calls that register routes. The parser is a parameter. Offsets count
characters, where the source counts the bytes of their encoding: a node ends with a character.
-/

namespace CoreMesh.SelfHealingDocs

open SqlEngine (strip)

structure GoNodeData where
  type : Text
  /-- The field of its parent that the node is. -/
  field : Option Text
  isNamed : Bool
  isMissing : Bool
  startByte : Nat
  endByte : Nat
  startRow : Nat
  startColumn : Nat
  endRow : Nat

abbrev GoNode := RoseTree GoNodeData

structure GoTree where
  rootNode : GoNode
  hasError : Bool

/-- The parser, unless its packages are not installed. -/
abbrev GoParser := Option (Text → GoTree)

section Walk

variable (source : Text)

def GoNode.type (node : GoNode) : Text := node.label.type

/-- `node.start_point.row + 1`. -/
def GoNode.startLine (node : GoNode) : Nat := node.label.startRow + 1

def GoNode.endLine (node : GoNode) : Nat := node.label.endRow + 1

def GoNode.namedChildren (node : GoNode) : List GoNode :=
  node.children.filter fun child => child.label.isNamed

def GoNode.childByFieldName (node : GoNode) (name : String) : Option GoNode :=
  node.children.find? fun child => child.label.field = some name.toList

mutual

/-- `_walk_tree`. -/
def walkTree : GoNode → List GoNode
  | .node label children => .node label children :: walkNamed children

def walkNamed : List GoNode → List GoNode
  | [] => []
  | child :: children => (if child.label.isNamed then walkTree child else []) ++ walkNamed children

end

def sourceSlice (start stop : Nat) : Text := (source.take stop).drop start

/-- `_node_text`. -/
def nodeText (node : GoNode) : Text := sourceSlice source node.label.startByte node.label.endByte

/-- `_first_error_point`. -/
def firstErrorPoint (root : GoNode) : Nat × Nat :=
  let isError := fun node : GoNode => node.type = "ERROR".toList || node.label.isMissing
  let node := ((walkTree root).find? isError).getD root
  (node.label.startRow + 1, node.label.startColumn + 1)

end Walk

/-- The last part of a text at a separator, as of `text.rsplit(sep, 1)[-1]`. -/
def lastPart (sep : Char) (text : Text) : Text := text.rtakeWhile (· ≠ sep)

/-- `text.strip(chars)`. -/
def stripChars (chars : List Char) (text : Text) : Text :=
  (text.dropWhile chars.contains).rdropWhile chars.contains

/-- `text.replace(old, new, 1)`. -/
def replaceOnce (old new : Text) : Text → Text
  | [] => if old = [] then new else []
  | c :: rest =>
      if old.isPrefixOf (c :: rest) then new ++ (c :: rest).drop old.length
      else c :: replaceOnce old new rest

/-! ### Declarations -/

section Declarations

variable (frontend : Frontend) (path source : Text)

/-- `_go_receiver_type`. -/
def goReceiverType (receiverNode : GoNode) : Text :=
  let declared := (walkTree receiverNode).findSome? fun node =>
    if node.type = "parameter_declaration".toList then node.childByFieldName "type" else none
  match declared with
  | some typeNode => normalizeSpace (nodeText source typeNode)
  | none => lastPart ' ' (stripChars ['(', ')', ' '] (normalizeSpace (nodeText source receiverNode)))

/-- `name[:1].isupper()`. -/
def isExported (name : Text) : Bool := frontend.isUpper (name.take 1)

/-- `_go_function_unit`. -/
def goFunctionUnit (node : GoNode) : Option StructuralUnit := do
  let nameNode ← node.childByFieldName "name"
  let name := nodeText source nameNode
  if !(isExported frontend name || name == "main".toList) then none
  let receiverNode := node.childByFieldName "receiver"
  let receiver := (receiverNode.map fun receiver => normalizeSpace (nodeText source receiver)).getD []
  let receiverType := (receiverNode.map (goReceiverType source)).getD []
  let receiverSignature := if receiverType = [] then [] else '(' :: receiverType ++ [')']
  let qualified := if receiverSignature = [] then name else receiverSignature ++ '.' :: name
  let endByte := match node.childByFieldName "body" with
    | some body => body.label.startByte
    | none => node.label.endByte
  let header := normalizeSpace (sourceSlice source node.label.startByte endByte)
  return {
    path := path
    language := .go
    kind := .goFunction
    identity := "go_function:".toList ++ qualified
    name := qualified
    representation :=
      if receiver = [] || receiverSignature = [] then header
      else replaceOnce receiver receiverSignature header
    context := "Exported Go method or function".toList
    searchTerms := cleanTerms frontend
      [name, qualified, receiverType, receiverType.dropWhile ['*', '[', ']'].contains]
    startLine := node.startLine
    endLine := node.endLine
    modificationIsBounded := true }

/-- The name of the field at a position among the fields of a struct. -/
def goFieldName (ordinal : Nat) (field : GoNode) : Text :=
  match field.childByFieldName "name", field.childByFieldName "type" with
  | some nameNode, _ => nodeText source nameNode
  | none, some typeField => normalizeSpace (nodeText source typeField)
  | none, none => "field_".toList ++ (toString ordinal).toList

def goFieldUnit (typeName : Text) (field : GoNode) (ordinal : Nat) : Option StructuralUnit :=
  let fieldName := goFieldName source ordinal field
  if !isExported frontend fieldName then none
  else
    let qualified := typeName ++ '.' :: fieldName
    let representation := normalizeSpace (nodeText source field)
    some {
      path := path
      language := .go
      kind := .goField
      identity := "go_field:".toList ++ qualified
      name := qualified
      representation := qualified ++ ": ".toList ++ representation
      context := "Field on Go struct ".toList ++ typeName
      searchTerms := cleanTerms frontend [typeName, fieldName, qualified, representation]
      startLine := field.startLine
      endLine := field.endLine
      modificationIsBounded := true }

/-- `_go_struct_field_units`. -/
def goStructFieldUnits (typeName : Text) (typeNode : GoNode) : List StructuralUnit :=
  let fields := (walkTree typeNode).filter fun field => field.type = "field_declaration".toList
  fields.zipIdx.filterMap fun field => goFieldUnit frontend path source typeName field.1 field.2

def goInterfaceMethodUnit (typeName : Text) (element : GoNode) : Option StructuralUnit := do
  if element.type ≠ "method_elem".toList then none
  let nameNode ← element.childByFieldName "name"
  let methodName := nodeText source nameNode
  let qualified := typeName ++ '.' :: methodName
  let representation := normalizeSpace (nodeText source element)
  return {
    path := path
    language := .go
    kind := .goInterfaceMethod
    identity := "go_interface_method:".toList ++ qualified
    name := qualified
    representation := qualified ++ ": ".toList ++ representation
    context := "Method on Go interface ".toList ++ typeName
    searchTerms := cleanTerms frontend [typeName, methodName, qualified, representation]
    startLine := element.startLine
    endLine := element.endLine
    modificationIsBounded := true }

/-- `_go_interface_method_units`. -/
def goInterfaceMethodUnits (typeName : Text) (typeNode : GoNode) : List StructuralUnit :=
  (walkTree typeNode).filterMap (goInterfaceMethodUnit frontend path source typeName)

def goTypeKind (typeKind : Text) : UnitKind :=
  if typeKind = "struct_type".toList then .goStruct
  else if typeKind = "interface_type".toList then .goInterface
  else .goType

/-- What `_go_type_units` finds of a specification: the type, then what is in it. -/
def goTypeSpecUnits (node : GoNode) : List StructuralUnit :=
  if node.type ≠ "type_spec".toList then []
  else
    match node.childByFieldName "name", node.childByFieldName "type" with
    | some nameNode, some typeNode =>
        let name := nodeText source nameNode
        if !isExported frontend name then []
        else
          let kind := goTypeKind typeNode.type
          let shape := match kind with
            | .goStruct => "struct".toList
            | .goInterface => "interface".toList
            | _ => normalizeSpace (nodeText source typeNode)
          let unit : StructuralUnit := {
            path := path
            language := .go
            kind := kind
            identity := kind.text ++ ':' :: name
            name := name
            representation := "type ".toList ++ name ++ ' ' :: shape
            context := "Exported Go type".toList
            searchTerms := cleanTerms frontend [name, typeNode.type]
            startLine := node.startLine
            endLine := node.endLine
            modificationIsBounded := false }
          unit :: (match kind with
            | .goStruct => goStructFieldUnits frontend path source name typeNode
            | .goInterface => goInterfaceMethodUnits frontend path source name typeNode
            | _ => [])
    | _, _ => []

/-- `_go_type_units`. -/
def goTypeUnits (declaration : GoNode) : List StructuralUnit :=
  (walkTree declaration).flatMap (goTypeSpecUnits frontend path source)

end Declarations

/-! ### Routes -/

/-- What a call registers a handler with: whom it calls and what it is given, as they are rendered. -/
structure Registration where
  callee : Text
  renderedArgs : List Text
  deriving DecidableEq

/-- A registration in its place. -/
structure RouteRegistration extends Registration where
  routePath : Text
  startLine : Nat
  endLine : Nat
  deriving DecidableEq

section Routes

variable (frontend : Frontend) (path source : Text)

/-- The arguments rendered so far, and the first path among them. -/
structure Rendering where
  renderedArgs : List Text
  routePath : Text

def renderArgument (rendering : Rendering) (child : GoNode) : Rendering :=
  let text := normalizeSpace (nodeText source child)
  let rendered := fun arg => { rendering with renderedArgs := rendering.renderedArgs ++ [arg] }
  if ["interpreted_string_literal".toList, "raw_string_literal".toList].contains child.type then
    if rendering.routePath = [] then { rendered text with routePath := stripChars "`\"".toList text }
    else rendered text
  else if ["identifier".toList, "selector_expression".toList].contains child.type then rendered text
  else if ["func_literal".toList, "function_literal".toList].contains child.type then
    rendered "<handler>".toList
  else if rendering.renderedArgs.length < 3 then rendered (text.take 120)
  else rendering

def routeLeaves : List Text := ["Handle".toList, "HandleFunc".toList, "Methods".toList]

/-- What `_go_route_unit` reads of a call. -/
def goRegistration (node : GoNode) : Option RouteRegistration := do
  let functionNode ← node.childByFieldName "function"
  let arguments ← node.childByFieldName "arguments"
  let callee := normalizeSpace (nodeText source functionNode)
  if !routeLeaves.contains (lastPart '.' callee) then none
  let rendering := arguments.namedChildren.foldl (renderArgument source) ⟨[], []⟩
  return {
    callee := callee
    renderedArgs := rendering.renderedArgs
    routePath := rendering.routePath
    startLine := node.startLine
    endLine := node.endLine }

def Registration.representation (route : Registration) : Text :=
  route.callee ++ '(' :: joinWith ", " route.renderedArgs ++ [')']

def routeIdentity (callee : Text) (routeIndex : Nat) : Text :=
  "go_route:".toList ++ callee ++ ':' :: (toString routeIndex).toList

/-- The unit of a registration with so many in front of it. -/
def routeUnit (route : RouteRegistration) (routeIndex : Nat) : StructuralUnit where
  path := path
  language := .go
  kind := .goRoute
  identity := routeIdentity route.callee routeIndex
  name :=
    if route.routePath = [] then "registration_".toList ++ (toString routeIndex).toList
    else route.routePath
  representation := route.representation
  context := "Go HTTP route registration".toList
  searchTerms := cleanTerms frontend
    (route.callee :: lastPart '.' route.callee :: route.routePath :: route.renderedArgs)
  startLine := route.startLine
  endLine := route.endLine
  modificationIsBounded := true

/-- `_go_route_unit`. -/
def goRouteUnit (node : GoNode) (routeIndex : Nat) : Option StructuralUnit :=
  (goRegistration source node).map fun route => routeUnit frontend path route routeIndex

end Routes

/-! ### Files -/

section Files

variable (frontend : Frontend)

def GoNode.isCall (node : GoNode) : Bool := node.type = "call_expression".toList

/-- The loop of `extract_go_units` over the nodes that are left. -/
def goUnitsOf (path source : Text) : Nat → List GoNode → List StructuralUnit
  | _, [] => []
  | routeIndex, node :: nodes =>
      if ["function_declaration".toList, "method_declaration".toList].contains node.type then
        (goFunctionUnit frontend path source node).toList ++ goUnitsOf path source routeIndex nodes
      else if node.type = "type_declaration".toList then
        goTypeUnits frontend path source node ++ goUnitsOf path source routeIndex nodes
      else if node.isCall then
        match goRouteUnit frontend path source node routeIndex with
        | some route => route :: goUnitsOf path source (routeIndex + 1) nodes
        | none => goUnitsOf path source routeIndex nodes
      else goUnitsOf path source routeIndex nodes

/-- The root of a file's tree, if it can be parsed. -/
def parseGo (parser : GoParser) (path source : Text) : Except ExtractError GoNode :=
  match parser with
  | none =>
      .error (.structuralParseError "Go parsing requires tree-sitter and tree-sitter-go".toList)
  | some parse =>
      let tree := parse source
      if tree.hasError then
        let point := firstErrorPoint tree.rootNode
        .error (.structuralParseError ("invalid Go syntax in ".toList ++ path ++ ':' ::
          (toString point.1).toList ++ ':' :: (toString point.2).toList))
      else .ok tree.rootNode

/-- `extract_go_units`, before repeated identities are left out and the units are ordered. -/
def extractGoUnits (parser : GoParser) (path source : Text) : Except ExtractError (List StructuralUnit) :=
  (parseGo parser path source).map fun root => goUnitsOf frontend path source 0 (walkTree root)

/-- The registrations among nodes, in order. -/
def registrationsOf (source : Text) (nodes : List GoNode) : List RouteRegistration :=
  (nodes.filter GoNode.isCall).filterMap (goRegistration source)

/-- The ordered registrations of a file that can be parsed. -/
def goRegistrations (parser : GoParser) (source : Text) : Option (List RouteRegistration) :=
  match parser with
  | none => none
  | some parse =>
      if (parse source).hasError then none
      else some (registrationsOf source (walkTree (parse source).rootNode))

end Files

/-! ### What the units have in common -/

section Units

variable {frontend : Frontend} {path source : Text} {node : GoNode} {unit : StructuralUnit}

/-- A unit of a Go file has an identity that begins with its kind. -/
structure IsGoUnit (unit : StructuralUnit) : Prop where
  language : unit.language = .go
  identity : ∃ rest, unit.identity = unit.kind.text ++ ':' :: rest

theorem goFunctionUnit_spec (hunit : goFunctionUnit frontend path source node = some unit) :
    IsGoUnit unit ∧ unit.kind = .goFunction := by
  rw [goFunctionUnit] at hunit
  obtain ⟨nameNode, -, hunit⟩ := Option.bind_eq_some_iff.mp hunit
  dsimp only at hunit
  split at hunit
  · cases hunit
  · obtain rfl := Option.some.inj hunit
    exact ⟨⟨rfl, _, rfl⟩, rfl⟩

theorem goFieldUnit_spec {typeName : Text} {ordinal : Nat}
    (hunit : goFieldUnit frontend path source typeName node ordinal = some unit) :
    IsGoUnit unit ∧ unit.kind = .goField := by
  rw [goFieldUnit] at hunit
  dsimp only at hunit
  split at hunit
  · cases hunit
  · obtain rfl := Option.some.inj hunit
    exact ⟨⟨rfl, _, rfl⟩, rfl⟩

theorem goInterfaceMethodUnit_spec {typeName : Text}
    (hunit : goInterfaceMethodUnit frontend path source typeName node = some unit) :
    IsGoUnit unit ∧ unit.kind = .goInterfaceMethod := by
  rw [goInterfaceMethodUnit] at hunit
  split at hunit
  · cases hunit
  · obtain ⟨nameNode, -, hunit⟩ := Option.bind_eq_some_iff.mp hunit
    obtain rfl := Option.some.inj hunit
    exact ⟨⟨rfl, _, rfl⟩, rfl⟩

theorem goTypeKind_ne_goRoute (typeKind : Text) : goTypeKind typeKind ≠ .goRoute := by
  rw [goTypeKind]
  split
  · decide
  · split <;> decide

theorem goTypeSpecUnits_spec (hunit : unit ∈ goTypeSpecUnits frontend path source node) :
    IsGoUnit unit ∧ unit.kind ≠ .goRoute := by
  rw [goTypeSpecUnits] at hunit
  split at hunit
  · cases hunit
  split at hunit
  case h_2 => cases hunit
  rename_i nameNode typeNode _ _
  dsimp only at hunit
  split at hunit
  · cases hunit
  obtain rfl | hinner := List.mem_cons.mp hunit
  · exact ⟨⟨rfl, _, rfl⟩, goTypeKind_ne_goRoute typeNode.type⟩
  split at hinner
  · obtain ⟨field, -, hfield⟩ := List.mem_filterMap.mp hinner
    obtain ⟨hgo, hkind⟩ := goFieldUnit_spec hfield
    exact ⟨hgo, by simp [hkind]⟩
  · obtain ⟨element, -, helement⟩ := List.mem_filterMap.mp hinner
    obtain ⟨hgo, hkind⟩ := goInterfaceMethodUnit_spec helement
    exact ⟨hgo, by simp [hkind]⟩
  · cases hinner

theorem goTypeUnits_spec (hunit : unit ∈ goTypeUnits frontend path source node) :
    IsGoUnit unit ∧ unit.kind ≠ .goRoute := by
  obtain ⟨spec, -, hspec⟩ := List.mem_flatMap.mp hunit
  exact goTypeSpecUnits_spec hspec

theorem isGoUnit_routeUnit (route : RouteRegistration) (routeIndex : Nat) :
    IsGoUnit (routeUnit frontend path route routeIndex) where
  language := rfl
  identity := ⟨route.callee ++ ':' :: (toString routeIndex).toList, rfl⟩

theorem registrationsOf_cons_of_ne {nodes : List GoNode} (hne : ¬ node.isCall = true) :
    registrationsOf source (node :: nodes) = registrationsOf source nodes := by
  rw [registrationsOf, List.filter_cons_of_neg hne]
  rfl

theorem registrationsOf_cons_of_eq {nodes : List GoNode} (hcall : node.isCall = true) :
    registrationsOf source (node :: nodes) =
      (goRegistration source node).toList ++ registrationsOf source nodes := by
  rw [registrationsOf, List.filter_cons_of_pos hcall, List.filterMap_cons]
  cases goRegistration source node <;> rfl

def StructuralUnit.isRoute (unit : StructuralUnit) : Bool := unit.kind = .goRoute

/-- The units of a file: those of its routes are the units of the registrations, counted on. -/
structure FindsRoutes (frontend : Frontend) (path : Text) (routeIndex : Nat)
    (routes : List RouteRegistration) (units : List StructuralUnit) : Prop where
  isGoUnit : ∀ unit ∈ units, IsGoUnit unit
  routes : units.filter StructuralUnit.isRoute =
    (routes.zipIdx routeIndex).map fun route => routeUnit frontend path route.1 route.2

variable {routeIndex : Nat} {routes : List RouteRegistration} {front units : List StructuralUnit}

theorem FindsRoutes.append_left (hrest : FindsRoutes frontend path routeIndex routes units)
    (hfront : ∀ unit ∈ front, IsGoUnit unit ∧ unit.kind ≠ .goRoute) :
    FindsRoutes frontend path routeIndex routes (front ++ units) where
  isGoUnit := List.forall_mem_append.mpr ⟨fun unit hunit => (hfront unit hunit).1, hrest.isGoUnit⟩
  routes := by
    have hnone : front.filter StructuralUnit.isRoute = [] :=
      List.filter_eq_nil_iff.mpr fun unit hunit hroute =>
        (hfront unit hunit).2 (of_decide_eq_true hroute)
    rw [List.filter_append, hnone, List.nil_append]
    exact hrest.routes

theorem FindsRoutes.cons (hrest : FindsRoutes frontend path (routeIndex + 1) routes units)
    (route : RouteRegistration) : FindsRoutes frontend path routeIndex (route :: routes)
      (routeUnit frontend path route routeIndex :: units) where
  isGoUnit := List.forall_mem_cons.mpr ⟨isGoUnit_routeUnit route routeIndex, hrest.isGoUnit⟩
  routes := by
    have hroute : (routeUnit frontend path route routeIndex).isRoute = true := decide_eq_true rfl
    rw [List.filter_cons_of_pos hroute, List.zipIdx_cons, List.map_cons, hrest.routes]

/-- The loop finds a unit of each registration. -/
theorem findsRoutes_goUnitsOf (nodes : List GoNode) (routeIndex : Nat) :
    FindsRoutes frontend path routeIndex (registrationsOf source nodes)
      (goUnitsOf frontend path source routeIndex nodes) := by
  induction nodes generalizing routeIndex with
  | nil => exact ⟨fun unit hunit => absurd hunit List.not_mem_nil, rfl⟩
  | cons node nodes ih =>
      rw [goUnitsOf]
      split
      · rename_i hfunction
        have hne : ¬ node.isCall = true := by
          intro hcall
          rw [of_decide_eq_true hcall] at hfunction
          exact absurd hfunction (by decide)
        rw [registrationsOf_cons_of_ne hne]
        refine (ih routeIndex).append_left fun unit hunit => ?_
        obtain ⟨hgo, hkind⟩ := goFunctionUnit_spec (Option.mem_toList.mp hunit)
        exact ⟨hgo, by simp [hkind]⟩
      split
      · rename_i htype
        have hne : ¬ node.isCall = true := by
          rw [GoNode.isCall, htype]
          decide
        rw [registrationsOf_cons_of_ne hne]
        exact (ih routeIndex).append_left fun unit hunit => goTypeUnits_spec hunit
      split
      · rename_i hcall
        rw [registrationsOf_cons_of_eq hcall, goRouteUnit]
        cases goRegistration source node with
        | none => exact ih routeIndex
        | some route => exact (ih (routeIndex + 1)).cons route
      · rename_i hne
        rw [registrationsOf_cons_of_ne hne]
        exact ih routeIndex

/-- A file has registrations exactly if its units can be found, and these are theirs. -/
theorem exists_extractGoUnits {parser : GoParser} (hroutes : goRegistrations parser source = some routes) :
    ∃ units, extractGoUnits frontend parser path source = .ok units ∧
      FindsRoutes frontend path 0 routes units := by
  cases parser with
  | none => cases hroutes
  | some parse =>
      dsimp only [goRegistrations] at hroutes
      split at hroutes
      · cases hroutes
      rename_i hparsed
      obtain rfl := Option.some.inj hroutes
      refine ⟨_, ?_, findsRoutes_goUnitsOf (walkTree (parse source).rootNode) 0⟩
      dsimp only [extractGoUnits, parseGo]
      rw [if_neg hparsed]
      rfl

theorem extractGoUnits_eq_ok {parser : GoParser}
    (hunits : extractGoUnits frontend parser path source = .ok units) :
    ∃ root, parseGo parser path source = .ok root ∧
      units = goUnitsOf frontend path source 0 (walkTree root) := by
  rw [extractGoUnits] at hunits
  cases hparse : parseGo parser path source with
  | error e =>
      rw [hparse] at hunits
      cases hunits
  | ok root =>
      rw [hparse] at hunits
      exact ⟨root, rfl, (Except.ok.inj hunits).symm⟩

theorem language_extractGoUnits {parser : GoParser}
    (hunits : extractGoUnits frontend parser path source = .ok units) :
    ∀ unit ∈ units, unit.language = .go := by
  obtain ⟨root, -, rfl⟩ := extractGoUnits_eq_ok hunits
  exact fun unit hunit => ((findsRoutes_goUnitsOf (walkTree root) 0).isGoUnit unit hunit).language

end Units

/-- The frontend with the units of Go files that a parser gives. -/
def withGo (frontend : Frontend) (parser : GoParser) : Frontend :=
  { frontend with
    goUnits := extractGoUnits frontend parser
    goUnits_language := fun _ _ _ hunits => language_extractGoUnits hunits }

end CoreMesh.SelfHealingDocs
