import CoreMesh.Lib.Except
import CoreMesh.Lib.JsonOrder
import CoreMesh.SelfHealingDocs.Structural

/-!
# Units of Compose files

`extract_compose_units`: each service of a Compose document with its contract as a text. The YAML loader is
a parameter, and so are the texts that Python makes of values. What a service has are JSON values whose keys
are texts; a number keeps the literal that Python writes for it.
-/

namespace CoreMesh.SelfHealingDocs

open SqlEngine (strip)

/-- The key of a service: a text, or what else YAML has, of which only the texts are used. -/
inductive ServiceName where
  | text (name : Text)
  | other (str repr : Text)
  deriving DecidableEq

/-- A dictionary of services. -/
structure Services where
  entries : List (ServiceName × Json)
  distinct : (entries.map Prod.fst).Nodup
  proper : ∀ entry ∈ entries, entry.2.IsProper

inductive ServicesValue where
  | null
  | mapping (services : Services)
  | other

/-- What a text is loaded as; of a mapping only `services` is read, if it is there. -/
inductive ComposeDocument where
  | mapping (services : Option ServicesValue)
  | other

inductive LoadFault where
  | yamlError (message : Text)
  | exception (message : Text)

structure ComposeFrontend where
  safeLoad : Text → Except LoadFault ComposeDocument
  casefold : Text → Text
  str : Json → Text
  repr : Text → Text

section Compose

variable (frontend : Frontend) (compose : ComposeFrontend)

def ServiceName.str : ServiceName → Text
  | .text name => name
  | .other str _ => str

def ServiceName.repr : ServiceName → Text
  | .text name => compose.repr name
  | .other _ repr => repr

/-- The services of a document, which may have none. -/
def composeServices (path source : Text) : Except ExtractError (List (ServiceName × Json)) :=
  match compose.safeLoad source with
  | .error (.yamlError message) =>
      .error (.structuralParseError ("invalid Compose YAML in ".toList ++ path ++ ": ".toList ++ message))
  | .error (.exception message) => .error (.exception message)
  | .ok .other =>
      .error (.structuralParseError ("Compose document must be a mapping: ".toList ++ path))
  | .ok (.mapping none) => .ok []
  | .ok (.mapping (some .null)) => .ok []
  | .ok (.mapping (some .other)) =>
      .error (.structuralParseError ("Compose services must be a mapping: ".toList ++ path))
  | .ok (.mapping (some (.mapping services))) => .ok services.entries

/-! ### Contracts -/

def foldedPrecedes (a b : Text) : Prop :=
  compose.casefold a < compose.casefold b ∨ (compose.casefold a = compose.casefold b ∧ a ≤ b)

instance : DecidableRel (foldedPrecedes compose) := fun _ _ => inferInstanceAs (Decidable (_ ∨ _))

/-- `item.split("=", 1)[0].strip()`. -/
def entryKey (item : Text) : Text := strip (item.takeWhile (· ≠ '='))

section Keys

variable (place : Text)

/-- The key of an item of a list, where the place is that of the environment. -/
def listedKey : Json → Except ExtractError Text
  | .str text => .ok (entryKey text.toList)
  | _ => .error (.structuralParseError
      ("Compose environment list for ".toList ++ place ++ " must contain strings".toList))

/-- The keys as they are found. -/
def foundKeys : Json → Except ExtractError (List Text)
  | .null => .ok []
  | .obj members => .ok (members.map fun m => strip m.1.toList)
  | .arr items => items.mapM (listedKey place)
  | _ => .error (.structuralParseError
      ("Compose environment for ".toList ++ place ++ " must be a mapping or list".toList))

/-- `_compose_environment_keys`. -/
def composeEnvironmentKeys (value : Json) : Except ExtractError (List Text) := do
  let keys ← foundKeys place value
  if keys.contains [] then
    .error (.structuralParseError
      ("Compose environment for ".toList ++ place ++ " contains an empty key".toList))
  else return keys.dedup.insertionSort (foldedPrecedes compose)

end Keys

def contractKeys : List String :=
  ["build", "command", "depends_on", "healthcheck", "image", "ports", "profiles"]

/-- The keys whose lists have no order. -/
def unorderedKeys : List String := ["depends_on", "ports", "profiles"]

/-- `_sorted_compose_values`, of a list. -/
def sortedComposeValues : Json → Json
  | .arr items => .arr (Json.sortByText items)
  | value => value

/-- The contract of a service, with the keys of its environment if it has one. -/
def composeContract (fields : List (String × Json)) (environment : Option (List Text)) :
    List (String × Json) :=
  let contract := contractKeys.filterMap fun key => (Json.lookup fields key).map fun value => (key, value)
  let keys := environment.map fun keys =>
    ("environment", Json.arr (keys.map fun key => .str (String.ofList key)))
  (contract ++ keys.toList).map fun field =>
    if unorderedKeys.contains field.1 then (field.1, sortedComposeValues field.2) else field

/-! ### Ports as terms -/

def truthy : Json → Bool
  | .null => false
  | .bool value => value
  | .num literal => (Json.decimal literal).mantissa ≠ 0
  | .str value => value ≠ ""
  | .arr items => !items.isEmpty
  | .obj members => !members.isEmpty

/-- The type of a number, as `type(value).__name__`. -/
def numberType (literal : String) : Text :=
  if literal.toList.any fun c => c == '.' || c == 'e' || c == 'E' then "float".toList else "int".toList

def notIterable (type : Text) : ExtractError :=
  .exception ("'".toList ++ type ++ "' object is not iterable".toList)

/-- What a loop over `value or []` comes by. -/
def iterate (value : Json) : Except ExtractError (List Json) :=
  if !truthy value then .ok []
  else
    match value with
    | .null => .ok []
    | .bool _ => .error (notIterable "bool".toList)
    | .num literal => .error (notIterable (numberType literal))
    | .str text => .ok (text.toList.map fun c => .str (String.ofList [c]))
    | .arr items => .ok items
    | .obj members => .ok (members.map fun m => .str m.1)

/-! ### Services -/

def composeServiceUnit (path source serviceName : Text) (fields : List (String × Json)) :
    Except ExtractError StructuralUnit := do
  let environment ← (Json.lookup fields "environment").mapM
    (composeEnvironmentKeys compose (compose.repr serviceName ++ " in ".toList ++ path))
  let normalized := Json.dumps (.obj (composeContract fields environment))
  let ports ← iterate ((Json.lookup fields "ports").getD (.arr []))
  return {
    path := path
    language := .compose
    kind := .composeService
    identity := "compose_service:".toList ++ serviceName
    name := serviceName
    representation := "service ".toList ++ serviceName ++ ": ".toList ++ normalized
    context := "Docker Compose microservice contract".toList
    searchTerms := cleanTerms frontend (serviceName :: environment.getD [] ++ ports.map compose.str)
    startLine := 1
    endLine := max 1 (source.count '\n' + 1)
    modificationIsBounded := true }

def composeEntryUnit (path source : Text) (entry : ServiceName × Json) :
    Except ExtractError StructuralUnit :=
  match entry with
  | (.text serviceName, .obj fields) => composeServiceUnit frontend compose path source serviceName fields
  | (serviceName, _) => .error (.structuralParseError
      ("invalid Compose service in ".toList ++ path ++ ": ".toList ++ serviceName.repr compose))

/-- `extract_compose_units`. -/
def extractComposeUnits (path source : Text) : Except ExtractError (List StructuralUnit) := do
  let services ← composeServices compose path source
  (services.insertionSort fun a b => a.1.str ≤ b.1.str).mapM
    (composeEntryUnit frontend compose path source)

end Compose

section Units

variable {frontend : Frontend} {compose : ComposeFrontend} {path source : Text}

/-- The names that the environment of a service defines. -/
def environmentNames : Json → List Text
  | .obj members => members.map fun m => strip m.1.toList
  | .arr items => items.filterMap fun item =>
      match item with
      | .str text => some (entryKey text.toList)
      | _ => none
  | _ => []

theorem mapM_listedKey {place : Text} {items : List Json} {keys : List Text}
    (hkeys : items.mapM (listedKey place) = .ok keys) : keys = environmentNames (.arr items) := by
  induction items generalizing keys with
  | nil => exact (Except.ok.inj hkeys).symm
  | cons item items ih =>
      rw [List.mapM_cons] at hkeys
      obtain ⟨first, hfirst, hkeys⟩ := Outcome.bind_eq_ok hkeys
      obtain ⟨rest, hrest, hkeys⟩ := Outcome.bind_eq_ok hkeys
      obtain rfl := Except.ok.inj hkeys
      rw [ih hrest]
      cases item with
      | str text =>
          obtain rfl := Except.ok.inj hfirst
          rfl
      | _ => cases hfirst

/-- The names that are accepted, each once and in order. -/
theorem composeEnvironmentKeys_eq_ok {place : Text} {value : Json} {keys : List Text}
    (hkeys : composeEnvironmentKeys compose place value = .ok keys) :
    keys = (environmentNames value).dedup.insertionSort (foldedPrecedes compose) := by
  obtain ⟨found, hfound, hkeys⟩ := Outcome.bind_eq_ok hkeys
  have hnames : found = environmentNames value := by
    cases value with
    | null => exact (Except.ok.inj hfound).symm
    | obj members => exact (Except.ok.inj hfound).symm
    | arr items => exact mapM_listedKey hfound
    | _ => cases hfound
  split at hkeys
  · cases hkeys
  · rw [← hnames]
    exact (Except.ok.inj hkeys).symm

/-- The contract of a service that is accepted. -/
def contractOf (compose : ComposeFrontend) (fields : List (String × Json)) : Json :=
  .obj (composeContract fields ((Json.lookup fields "environment").map fun value =>
    (environmentNames value).dedup.insertionSort (foldedPrecedes compose)))

theorem composeServiceUnit_eq_ok {serviceName : Text} {fields : List (String × Json)}
    {unit : StructuralUnit}
    (hunit : composeServiceUnit frontend compose path source serviceName fields = .ok unit) :
    unit.language = .compose ∧ unit.identity = "compose_service:".toList ++ serviceName ∧
      unit.representation =
        "service ".toList ++ serviceName ++ ": ".toList ++ Json.dumps (contractOf compose fields) := by
  obtain ⟨environment, henvironment, hunit⟩ := Outcome.bind_eq_ok hunit
  obtain ⟨ports, -, hunit⟩ := Outcome.bind_eq_ok hunit
  obtain rfl := Except.ok.inj hunit
  have hkeys : environment = (Json.lookup fields "environment").map fun value =>
      (environmentNames value).dedup.insertionSort (foldedPrecedes compose) := by
    cases hlookup : Json.lookup fields "environment" with
    | none =>
        rw [hlookup] at henvironment
        exact (Except.ok.inj henvironment).symm
    | some value =>
        rw [hlookup] at henvironment
        obtain ⟨keys, hkeys, henvironment⟩ := Outcome.bind_eq_ok henvironment
        obtain rfl := Except.ok.inj henvironment
        rw [composeEnvironmentKeys_eq_ok hkeys]
        rfl
  refine ⟨rfl, rfl, ?_⟩
  rw [contractOf, ← hkeys]

theorem composeEntryUnit_eq_ok {entry : ServiceName × Json} {unit : StructuralUnit}
    (hunit : composeEntryUnit frontend compose path source entry = .ok unit) :
    ∃ serviceName fields, entry = (.text serviceName, .obj fields) ∧
      composeServiceUnit frontend compose path source serviceName fields = .ok unit := by
  obtain ⟨name, value⟩ := entry
  cases name with
  | other => cases hunit
  | text serviceName =>
      cases value with
      | obj fields => exact ⟨serviceName, fields, rfl, hunit⟩
      | _ => cases hunit

theorem language_extractComposeUnits {units : List StructuralUnit}
    (hunits : extractComposeUnits frontend compose path source = .ok units) :
    ∀ unit ∈ units, unit.language = .compose := by
  obtain ⟨services, -, hunits⟩ := Outcome.bind_eq_ok hunits
  intro unit hunit
  obtain ⟨entry, -, hentry⟩ := Outcome.exists_of_mem_mapM hunits hunit
  obtain ⟨serviceName, fields, -, hservice⟩ := composeEntryUnit_eq_ok hentry
  exact (composeServiceUnit_eq_ok hservice).1

end Units

/-- The frontend with the units of Compose files. -/
def withCompose (frontend : Frontend) (compose : ComposeFrontend) : Frontend :=
  { frontend with
    composeUnits := extractComposeUnits frontend compose
    composeUnits_language := fun _ _ _ hunits => language_extractComposeUnits hunits }

end CoreMesh.SelfHealingDocs
