import CoreMesh.SelfHealingDocs.ComposeContracts

/-!
# The diff of two Compose files

Which documents are accepted, what is known of their services behind the units, and when the diff of two of
them is empty.
-/

namespace CoreMesh.SelfHealingDocs

open SqlEngine (strip)
open OrderedDict (last?)

/-! ### The documents that are accepted -/

section Accepted

variable {frontend : Frontend} {compose : ComposeFrontend} {path source : Text}

/-- Each name of an environment says something. -/
def AcceptedEnvironment : Json → Prop
  | .null => True
  | .obj members => ∀ m ∈ members, strip m.1.toList ≠ []
  | .arr items => ∀ item ∈ items, ∃ text, item = .str text ∧ entryKey text.toList ≠ []
  | _ => False

/-- Ports that a loop can go through. -/
def AcceptedPorts (ports : Json) : Prop := ∃ items, iterate ports = .ok items

structure AcceptedService (fields : List (String × Json)) : Prop where
  environment : ∀ value ∈ Json.lookup fields "environment", AcceptedEnvironment value
  ports : ∀ value ∈ Json.lookup fields "ports", AcceptedPorts value

theorem exists_foundKeys_iff {place : Text} {value : Json} :
    (∃ keys, foundKeys place value = .ok keys ∧ keys.contains [] = false) ↔ AcceptedEnvironment value := by
  cases value with
  | null => exact ⟨fun _ => trivial, fun _ => ⟨[], rfl, rfl⟩⟩
  | obj members =>
      have hnone : (members.map fun m => strip m.1.toList).contains [] = false ↔
          ∀ m ∈ members, strip m.1.toList ≠ [] := by
        rw [← Bool.not_eq_true, List.contains_iff_mem, List.mem_map]
        exact ⟨fun hnot m hm hempty => hnot ⟨m, hm, hempty⟩, fun hall ⟨m, hm, hempty⟩ => hall m hm hempty⟩
      constructor
      · intro ⟨keys, hkeys, hnames⟩
        obtain rfl := Except.ok.inj hkeys
        exact hnone.mp hnames
      · exact fun hall => ⟨_, rfl, hnone.mpr hall⟩
  | arr items =>
      have hnone : (environmentNames (.arr items)).contains [] = false ↔
          ∀ text, .str text ∈ items → entryKey text.toList ≠ [] := by
        rw [← Bool.not_eq_true, List.contains_iff_mem, environmentNames, List.mem_filterMap]
        constructor
        · exact fun hnot text htext hempty => hnot ⟨.str text, htext, congrArg some hempty⟩
        · intro hall ⟨item, hitem, hempty⟩
          cases item with
          | str text => exact hall text hitem (Option.some.inj hempty)
          | _ => cases hempty
      constructor
      · intro ⟨keys, hkeys, hnames⟩ item hitem
        rw [mapM_listedKey hkeys] at hnames
        obtain ⟨key, -, hkey⟩ := Outcome.mem_mapM hkeys hitem
        cases item with
        | str text => exact ⟨text, rfl, hnone.mp hnames text hitem⟩
        | _ => cases hkey
      · intro hall
        have hsome : ∃ keys, items.mapM (listedKey place) = .ok keys := by
          apply Outcome.exists_mapM_eq_ok_iff.mpr
          intro item hitem
          obtain ⟨text, rfl, -⟩ := hall item hitem
          exact ⟨_, rfl⟩
        obtain ⟨keys, hkeys⟩ := hsome
        refine ⟨keys, hkeys, ?_⟩
        rw [mapM_listedKey hkeys]
        apply hnone.mpr
        intro text htext
        obtain ⟨text', htext', hname⟩ := hall _ htext
        rwa [Json.str.inj htext']
  | _ => exact ⟨fun ⟨_, hkeys, _⟩ => (by cases hkeys), fun hfalse => hfalse.elim⟩

theorem exists_composeEnvironmentKeys_iff {place : Text} {value : Json} :
    (∃ keys, composeEnvironmentKeys compose place value = .ok keys) ↔ AcceptedEnvironment value := by
  rw [← @exists_foundKeys_iff place]
  constructor
  · intro ⟨keys, hkeys⟩
    obtain ⟨found, hfound, hkeys⟩ := Outcome.bind_eq_ok hkeys
    split at hkeys
    · cases hkeys
    · rename_i hnone
      exact ⟨found, hfound, eq_false_of_ne_true hnone⟩
  · intro ⟨found, hfound, hnone⟩
    refine ⟨found.dedup.insertionSort (foldedPrecedes compose), ?_⟩
    rw [composeEnvironmentKeys, hfound]
    show (if found.contains [] = true then _ else _) = _
    rw [hnone]
    rfl

theorem exists_composeServiceUnit_iff {serviceName : Text} {fields : List (String × Json)} :
    (∃ unit, composeServiceUnit frontend compose path source serviceName fields = .ok unit) ↔
      AcceptedService fields := by
  have henvironment : (∃ environment, (Json.lookup fields "environment").mapM
      (composeEnvironmentKeys compose (compose.repr serviceName ++ " in ".toList ++ path)) =
        .ok environment) ↔ ∀ value ∈ Json.lookup fields "environment", AcceptedEnvironment value := by
    cases Json.lookup fields "environment" with
    | none => exact ⟨fun _ value hvalue => (by cases hvalue), fun _ => ⟨none, rfl⟩⟩
    | some value =>
        constructor
        · intro ⟨environment, hok⟩ value' hvalue'
          obtain rfl := Option.some.inj hvalue'
          obtain ⟨keys, hkeys, -⟩ := Outcome.bind_eq_ok hok
          exact exists_composeEnvironmentKeys_iff.mp ⟨keys, hkeys⟩
        · intro hall
          obtain ⟨keys, hkeys⟩ := (@exists_composeEnvironmentKeys_iff compose
            (compose.repr serviceName ++ " in ".toList ++ path) value).mpr (hall value rfl)
          refine ⟨some keys, ?_⟩
          show (composeEnvironmentKeys compose _ value >>= _) = _
          rw [hkeys]
          rfl
  have hports : (∃ items, iterate ((Json.lookup fields "ports").getD (.arr [])) = .ok items) ↔
      ∀ value ∈ Json.lookup fields "ports", AcceptedPorts value := by
    cases Json.lookup fields "ports" with
    | none => exact ⟨fun _ value hvalue => (by cases hvalue), fun _ => ⟨[], rfl⟩⟩
    | some value =>
        exact ⟨fun hok value' hvalue' => Option.some.inj hvalue' ▸ hok, fun hall => hall value rfl⟩
  constructor
  · intro ⟨unit, hunit⟩
    obtain ⟨environment, hok, hunit⟩ := Outcome.bind_eq_ok hunit
    obtain ⟨items, hitems, -⟩ := Outcome.bind_eq_ok hunit
    exact ⟨henvironment.mp ⟨environment, hok⟩, hports.mp ⟨items, hitems⟩⟩
  · intro haccepted
    obtain ⟨environment, hok⟩ := henvironment.mpr haccepted.environment
    obtain ⟨items, hitems⟩ := hports.mpr haccepted.ports
    refine Outcome.exists_bind_eq_ok_iff.mpr ⟨environment, hok, ?_⟩
    exact Outcome.exists_bind_eq_ok_iff.mpr ⟨items, hitems, _, rfl⟩

/-- The services that a document defines, if it is one of Compose. -/
def definedServices : ComposeDocument → Option (List (ServiceName × Json))
  | .mapping none => some []
  | .mapping (some .null) => some []
  | .mapping (some (.mapping services)) => some services.entries
  | _ => none

/-- A text is a document with the given services, all of which are accepted. -/
structure Accepts (compose : ComposeFrontend) (source : Text) (services : List (ServiceName × Json)) :
    Prop where
  loaded : ∃ document, compose.safeLoad source = .ok document ∧ definedServices document = some services
  services : ∀ entry ∈ services, ∃ serviceName fields,
    entry = (.text serviceName, .obj fields) ∧ AcceptedService fields

theorem composeServices_eq_ok_iff {services : List (ServiceName × Json)} :
    composeServices compose path source = .ok services ↔
      ∃ document, compose.safeLoad source = .ok document ∧ definedServices document = some services := by
  rw [composeServices]
  cases compose.safeLoad source with
  | error fault => cases fault <;> exact ⟨fun hok => (nomatch hok), fun ⟨_, hok, _⟩ => (nomatch hok)⟩
  | ok document =>
      have hsingle : (∃ document', (Except.ok document : Except LoadFault _) = .ok document' ∧
          definedServices document' = some services) ↔ definedServices document = some services :=
        ⟨fun ⟨_, hsame, hdefined⟩ => Except.ok.inj hsame ▸ hdefined,
          fun hdefined => ⟨document, rfl, hdefined⟩⟩
      rw [hsingle]
      cases document with
      | other => exact ⟨fun hok => (nomatch hok), fun hdefined => (nomatch hdefined)⟩
      | mapping value =>
          obtain _ | _ | _ | _ := value <;> simp [definedServices]

/-- The keys of the services are different, and their values are as a loader has them. -/
theorem Accepts.distinct {services : List (ServiceName × Json)} (haccepts : Accepts compose source services) :
    (services.map Prod.fst).Nodup ∧ ∀ entry ∈ services, entry.2.IsProper := by
  obtain ⟨document, -, hdefined⟩ := haccepts.loaded
  have hempty : (([] : List (ServiceName × Json)).map Prod.fst).Nodup ∧
      ∀ entry ∈ ([] : List (ServiceName × Json)), entry.2.IsProper :=
    ⟨List.nodup_nil, fun entry hentry => absurd hentry List.not_mem_nil⟩
  cases document with
  | other => cases hdefined
  | mapping value =>
      cases value with
      | none =>
          obtain rfl := Option.some.inj hdefined
          exact hempty
      | some value =>
          cases value with
          | null =>
              obtain rfl := Option.some.inj hdefined
              exact hempty
          | mapping found =>
              obtain rfl := Option.some.inj hdefined
              exact ⟨found.distinct, found.proper⟩
          | other => cases hdefined

theorem exists_composeEntryUnit_iff {entry : ServiceName × Json} :
    (∃ unit, composeEntryUnit frontend compose path source entry = .ok unit) ↔
      ∃ serviceName fields, entry = (.text serviceName, .obj fields) ∧ AcceptedService fields := by
  constructor
  · intro ⟨unit, hunit⟩
    obtain ⟨serviceName, fields, hentry, hservice⟩ := composeEntryUnit_eq_ok hunit
    exact ⟨serviceName, fields, hentry, exists_composeServiceUnit_iff.mp ⟨unit, hservice⟩⟩
  · intro ⟨serviceName, fields, hentry, haccepted⟩
    rw [hentry]
    exact exists_composeServiceUnit_iff.mpr haccepted

/-- The services of a document in the order in which they are gone through. -/
def sortedServices (services : List (ServiceName × Json)) : List (ServiceName × Json) :=
  services.insertionSort fun a b => a.1.str ≤ b.1.str

theorem mem_sortedServices {services : List (ServiceName × Json)} {entry : ServiceName × Json} :
    entry ∈ sortedServices services ↔ entry ∈ services :=
  (List.perm_insertionSort _ services).mem_iff

theorem exists_serviceUnits_iff {services : List (ServiceName × Json)} :
    (∃ units, (sortedServices services).mapM (composeEntryUnit frontend compose path source) = .ok units) ↔
      ∀ entry ∈ services, ∃ serviceName fields,
        entry = (.text serviceName, .obj fields) ∧ AcceptedService fields := by
  rw [Outcome.exists_mapM_eq_ok_iff]
  simp only [exists_composeEntryUnit_iff, mem_sortedServices]

theorem extractComposeUnits_eq_ok_iff {units : List StructuralUnit} :
    extractComposeUnits frontend compose path source = .ok units ↔
      ∃ services, Accepts compose source services ∧
        (sortedServices services).mapM (composeEntryUnit frontend compose path source) = .ok units := by
  constructor
  · intro hunits
    obtain ⟨services, hservices, hunits⟩ := Outcome.bind_eq_ok hunits
    have haccepted := exists_serviceUnits_iff.mp ⟨units, hunits⟩
    exact ⟨services, ⟨composeServices_eq_ok_iff.mp hservices, haccepted⟩, hunits⟩
  · intro ⟨services, haccepts, hunits⟩
    rw [extractComposeUnits, composeServices_eq_ok_iff.mpr haccepts.loaded]
    exact hunits

end Accepted

/-! ### What the units tell of the services -/

section Described

variable {frontend : Frontend} {compose : ComposeFrontend} {path source : Text}
  {services : List (ServiceName × Json)} {units : List StructuralUnit}

def composeIdentity (serviceName : Text) : Text := "compose_service:".toList ++ serviceName

def composeRepresentation (compose : ComposeFrontend) (serviceName : Text) (fields : List (String × Json)) :
    Text :=
  "service ".toList ++ serviceName ++ ": ".toList ++ Json.dumps (contractOf compose fields)

/-- Units that show each service under its identity, and nothing else. -/
structure ShowsServices (compose : ComposeFrontend) (services : List (ServiceName × Json))
    (units : List StructuralUnit) : Prop where
  shown : ∀ serviceName fields, (.text serviceName, .obj fields) ∈ services →
    (last? StructuralUnit.identity units (composeIdentity serviceName)).map StructuralUnit.representation =
      some (composeRepresentation compose serviceName fields)
  service : ∀ identity unit, last? StructuralUnit.identity units identity = some unit →
    ∃ serviceName fields, (.text serviceName, .obj fields) ∈ services ∧
      identity = composeIdentity serviceName

theorem showsServices_of_mapM (hdistinct : (services.map Prod.fst).Nodup)
    (hunits : (sortedServices services).mapM (composeEntryUnit frontend compose path source) = .ok units) :
    ShowsServices compose services units := by
  -- Each unit is that of a service, whose identity has its name.
  have hentry : ∀ unit ∈ units, ∃ serviceName fields, (.text serviceName, .obj fields) ∈ services ∧
      unit.identity = composeIdentity serviceName ∧
      unit.representation = composeRepresentation compose serviceName fields := by
    intro unit hunit
    obtain ⟨entry, hmem, hentry⟩ := Outcome.exists_of_mem_mapM hunits hunit
    obtain ⟨serviceName, fields, rfl, hservice⟩ := composeEntryUnit_eq_ok hentry
    exact ⟨serviceName, fields, mem_sortedServices.mp hmem, (composeServiceUnit_eq_ok hservice).2⟩
  constructor
  · intro serviceName fields hmem
    obtain ⟨unit, hunit, hok⟩ := Outcome.mem_mapM hunits (mem_sortedServices.mpr hmem)
    obtain ⟨-, hidentity, -⟩ := composeServiceUnit_eq_ok hok
    cases hlast : last? StructuralUnit.identity units (composeIdentity serviceName) with
    | none => exact absurd hidentity (OrderedDict.last?_eq_none_iff.mp hlast unit hunit)
    | some shown =>
        obtain ⟨hshown, hshownMem⟩ := OrderedDict.key_of_last? hlast
        obtain ⟨serviceName', fields', hmem', hidentity', hrepresentation⟩ := hentry shown hshownMem
        obtain rfl : serviceName' = serviceName :=
          List.append_cancel_left (hidentity'.symm.trans hshown)
        obtain rfl : fields' = fields :=
          Json.obj.inj (Prod.mk.inj (List.inj_on_of_nodup_map hdistinct hmem' hmem rfl)).2
        exact congrArg some hrepresentation
  · intro identity unit hlast
    obtain ⟨rfl, hmem⟩ := OrderedDict.key_of_last? hlast
    obtain ⟨serviceName, fields, hservice, hidentity, -⟩ := hentry unit hmem
    exact ⟨serviceName, fields, hservice, hidentity⟩

/-- Two documents with the same names of services, of which those with one name are related. -/
structure SameServices (R : List (String × Json) → List (String × Json) → Prop)
    (services services' : List (ServiceName × Json)) : Prop where
  names : ∀ name, name ∈ services.map Prod.fst ↔ name ∈ services'.map Prod.fst
  contracts : ∀ name fields fields', (name, .obj fields) ∈ services → (name, .obj fields') ∈ services' →
    R fields fields'

variable {source' : Text} {services' : List (ServiceName × Json)} {units' : List StructuralUnit}

theorem Accepts.exists_service (haccepts : Accepts compose source services) {name : ServiceName}
    (hname : name ∈ services.map Prod.fst) :
    ∃ serviceName fields, name = .text serviceName ∧ (.text serviceName, .obj fields) ∈ services := by
  obtain ⟨entry, hentry, rfl⟩ := List.mem_map.mp hname
  obtain ⟨serviceName, fields, rfl, -⟩ := haccepts.services entry hentry
  exact ⟨serviceName, fields, rfl, hentry⟩

theorem mem_of_same_shown (haccepts : Accepts compose source services)
    (hshows : ShowsServices compose services units) (hshows' : ShowsServices compose services' units')
    (hsame : ∀ identity, (last? StructuralUnit.identity units identity).map StructuralUnit.representation =
      (last? StructuralUnit.identity units' identity).map StructuralUnit.representation)
    {name : ServiceName} (hname : name ∈ services.map Prod.fst) : name ∈ services'.map Prod.fst := by
  obtain ⟨serviceName, fields, rfl, hmem⟩ := haccepts.exists_service hname
  have hshown := hshows.shown serviceName fields hmem
  rw [hsame] at hshown
  obtain ⟨unit, hlast, -⟩ := Option.map_eq_some_iff.mp hshown
  obtain ⟨serviceName', fields', hmem', hidentity⟩ := hshows'.service _ unit hlast
  rw [List.append_cancel_left hidentity]
  exact List.mem_map_of_mem hmem'

theorem composeRepresentation_inj {serviceName : Text} {fields fields' : List (String × Json)} :
    composeRepresentation compose serviceName fields = composeRepresentation compose serviceName fields' ↔
      Json.dumps (contractOf compose fields) = Json.dumps (contractOf compose fields') :=
  List.append_right_inj _

/-- The units show the same exactly if the services are the same, up to what their contracts leave out. -/
theorem same_shown_iff (haccepts : Accepts compose source services)
    (haccepts' : Accepts compose source' services') (hshows : ShowsServices compose services units)
    (hshows' : ShowsServices compose services' units') :
    (∀ identity, (last? StructuralUnit.identity units identity).map StructuralUnit.representation =
      (last? StructuralUnit.identity units' identity).map StructuralUnit.representation) ↔
    SameServices (fun fields fields' => SameContract fields fields' ∧ SamePresence fields fields')
      services services' := by
  have hcontract : ∀ {serviceName fields fields'}, (.text serviceName, .obj fields) ∈ services →
      (.text serviceName, .obj fields') ∈ services' →
      (composeRepresentation compose serviceName fields = composeRepresentation compose serviceName fields' ↔
        SameContract fields fields' ∧ SamePresence fields fields') := by
    intro serviceName fields fields' hmem hmem'
    rw [composeRepresentation_inj]
    exact dumps_contractOf_iff (haccepts.distinct.2 _ hmem) (haccepts'.distinct.2 _ hmem')
  constructor
  · intro hsame
    refine ⟨fun name => ⟨?_, ?_⟩, fun name fields fields' hmem hmem' => ?_⟩
    · exact mem_of_same_shown haccepts hshows hshows' hsame
    · exact mem_of_same_shown haccepts' hshows' hshows fun identity => (hsame identity).symm
    · obtain ⟨serviceName, -, rfl, -⟩ := haccepts.exists_service (List.mem_map_of_mem hmem)
      apply (hcontract hmem hmem').mp
      apply Option.some.inj
      rw [← hshows.shown serviceName fields hmem, ← hshows'.shown serviceName fields' hmem', hsame]
  · intro hservices identity
    cases hlast : last? StructuralUnit.identity units identity with
    | none =>
        cases hlast' : last? StructuralUnit.identity units' identity with
        | none => rfl
        | some unit' =>
            obtain ⟨serviceName, fields', hmem', rfl⟩ := hshows'.service identity unit' hlast'
            obtain ⟨_, fields, hname, hmem⟩ :=
              haccepts.exists_service ((hservices.names _).mpr (List.mem_map_of_mem hmem'))
            obtain rfl := ServiceName.text.inj hname
            have hshown := hshows.shown serviceName fields hmem
            rw [hlast] at hshown
            cases hshown
    | some unit =>
        obtain ⟨serviceName, fields, hmem, rfl⟩ := hshows.service identity unit hlast
        obtain ⟨_, fields', hname, hmem'⟩ :=
          haccepts'.exists_service ((hservices.names _).mp (List.mem_map_of_mem hmem))
        obtain rfl := ServiceName.text.inj hname
        have hsame := (hcontract hmem hmem').mpr (hservices.contracts _ fields fields' hmem hmem')
        rw [← hlast, hshows.shown serviceName fields hmem, hshows'.shown serviceName fields' hmem', hsame]

theorem extractSide_compose_eq_ok {path : Option Text} {displayPath : Text}
    (hunits : extractSide (withCompose frontend compose) .compose path displayPath (some source) =
      .ok units) : ∃ services, Accepts compose source services ∧ ShowsServices compose services units := by
  rw [extractSide] at hunits
  obtain ⟨found, hfound, rfl⟩ := extractUnits_eq_ok hunits
  obtain ⟨services, haccepts, hmapM⟩ := extractComposeUnits_eq_ok_iff.mp hfound
  exact ⟨services, haccepts, showsServices_of_mapM haccepts.distinct.1 hmapM⟩

theorem exists_extractSide_compose (haccepts : Accepts compose source services) (path : Option Text)
    (displayPath : Text) : ∃ units, ShowsServices compose services units ∧
      extractSide (withCompose frontend compose) .compose path displayPath (some source) = .ok units := by
  obtain ⟨units, hmapM⟩ := (@exists_serviceUnits_iff frontend compose
    ((orPath path none).getD displayPath) source services).mpr haccepts.services
  have hfound : foundUnits (withCompose frontend compose) .compose ((orPath path none).getD displayPath)
      source = .ok units := extractComposeUnits_eq_ok_iff.mpr ⟨services, haccepts, hmapM⟩
  refine ⟨units, showsServices_of_mapM haccepts.distinct.1 hmapM, ?_⟩
  rw [extractSide, extractUnits, hfound]
  rfl

end Described

/-- The diff of two files is empty exactly if both are Compose documents with the same names of services,
each of which has the same contract in both, and an environment in both or in neither. -/
theorem composeDiff_eq_nil_iff (frontend : Frontend) (compose : ComposeFrontend) (delta : SourceFileDelta)
    {oldText newText : Text} (hcompose : delta.language = .compose)
    (holdText : delta.oldText = some oldText) (hnewText : delta.newText = some newText) :
    deltaChanges (withCompose frontend compose) delta = .ok [] ↔
      ∃ oldServices newServices, Accepts compose oldText oldServices ∧ Accepts compose newText newServices ∧
        SameServices (fun fields fields' => SameContract fields fields' ∧ SamePresence fields fields')
          oldServices newServices := by
  constructor
  · intro hempty
    obtain ⟨oldUnits, newUnits, hold, hnew, hdiff⟩ := deltaChanges_eq_ok hempty
    rw [hcompose, holdText] at hold
    rw [hcompose, hnewText] at hnew
    obtain ⟨oldServices, holdAccepts, holdShows⟩ := extractSide_compose_eq_ok hold
    obtain ⟨newServices, hnewAccepts, hnewShows⟩ := extractSide_compose_eq_ok hnew
    refine ⟨oldServices, newServices, holdAccepts, hnewAccepts, ?_⟩
    apply (same_shown_iff holdAccepts hnewAccepts holdShows hnewShows).mp
    exact diffUnits_eq_nil_iff.mp hdiff.symm
  · intro ⟨oldServices, newServices, holdAccepts, hnewAccepts, hservices⟩
    obtain ⟨oldUnits, holdShows, hold⟩ :=
      @exists_extractSide_compose frontend _ _ _ holdAccepts delta.oldPath delta.displayPath
    obtain ⟨newUnits, hnewShows, hnew⟩ :=
      @exists_extractSide_compose frontend _ _ _ hnewAccepts delta.newPath delta.displayPath
    rw [← hcompose, ← holdText] at hold
    rw [← hcompose, ← hnewText] at hnew
    rw [deltaChanges_of_extractSide hold hnew]
    apply congrArg Except.ok
    apply diffUnits_eq_nil_iff.mpr
    exact (same_shown_iff holdAccepts hnewAccepts holdShows hnewShows).mpr hservices

/-! ### A service with an environment that is empty -/

section Api

/-- A version of a file with one service. -/
structure ApiVersion where
  source : String
  fields : List (String × Json)
  proper : (Json.obj fields).IsProper

def ApiVersion.text (version : ApiVersion) : Text := version.source.toList

def ApiVersion.services (version : ApiVersion) : Services where
  entries := [(.text "api".toList, .obj version.fields)]
  distinct := List.nodup_singleton _
  proper := List.forall_mem_singleton.mpr version.proper

def portsApi : ApiVersion where
  source :=
    "services:\n  api:\n    ports: ['8080:8000', '8081:8001']\n    environment:\n      TIMEOUT: '30'\n"
  fields := [("ports", .arr [.str "8080:8000", .str "8081:8001"]),
    ("environment", .obj [("TIMEOUT", .str "30")])]
  proper := ⟨by decide +kernel, by decide +kernel⟩

def reorderedApi : ApiVersion where
  source := "services:\n  api:\n    environment: [TIMEOUT=15]\n    ports: ['8081:8001', '8080:8000']\n"
  fields := [("environment", .arr [.str "TIMEOUT=15"]),
    ("ports", .arr [.str "8081:8001", .str "8080:8000"])]
  proper := ⟨by decide +kernel, by decide +kernel⟩

def bareApi : ApiVersion where
  source := "services:\n  api:\n    image: api\n"
  fields := [("image", .str "api")]
  proper := ⟨by decide +kernel, by decide +kernel⟩

def emptyApi : ApiVersion where
  source := "services:\n  api:\n    image: api\n    environment: []\n"
  fields := [("image", .str "api"), ("environment", .arr [])]
  proper := ⟨by decide +kernel, by decide +kernel⟩

def apiVersions : List ApiVersion := [portsApi, reorderedApi, bareApi, emptyApi]

/-- The loader on these files. -/
def apiCompose : ComposeFrontend where
  safeLoad source :=
    match OrderedDict.get? ApiVersion.text apiVersions source with
    | some version => .ok (.mapping (some (.mapping version.services)))
    | none => .error (.yamlError "could not find expected ':'".toList)
  casefold text := text.map Char.toLower
  str value :=
    match value with
    | .str text => text.toList
    | value => Json.dumps value
  repr text := '\'' :: text ++ ['\'']

def apiDelta (old new : ApiVersion) : SourceFileDelta where
  status := "M".toList
  oldPath := some "compose.yml".toList
  newPath := some "compose.yml".toList
  oldText := some old.text
  newText := some new.text
  language := .compose

theorem accepts_api : ∀ version ∈ apiVersions, Accepts apiCompose version.text version.services.entries := by
  have hdistinct : OrderedDict.Distinct ApiVersion.text apiVersions := by
    have hsources : (apiVersions.map ApiVersion.source).Nodup := by
      simp [apiVersions, portsApi, reorderedApi, bareApi, emptyApi]
    have htexts := hsources.map (f := String.toList) fun _ _ hsame => String.toList_inj.mp hsame
    rwa [List.map_map] at htexts
  have hread : ∀ version ∈ apiVersions,
      (∀ value ∈ Json.lookup version.fields "environment",
        (composeEnvironmentKeys apiCompose [] value).isOk = true) ∧
      ∀ value ∈ Json.lookup version.fields "ports", (iterate value).isOk = true := by
    decide +kernel
  have hok : ∀ {α : Type} {outcome : Except ExtractError α}, outcome.isOk = true →
      ∃ value, outcome = .ok value := by
    intro α outcome houtcome
    cases outcome with
    | error error => cases houtcome
    | ok value => exact ⟨value, rfl⟩
  intro version hversion
  have hload : apiCompose.safeLoad version.text = .ok (.mapping (some (.mapping version.services))) := by
    simp only [apiCompose, hdistinct.mem_iff.mp hversion]
  obtain ⟨henvironment, hports⟩ := hread version hversion
  refine ⟨⟨_, hload, rfl⟩, List.forall_mem_singleton.mpr ⟨_, _, rfl, ?_, ?_⟩⟩
  · exact fun value hvalue => exists_composeEnvironmentKeys_iff.mp (hok (henvironment value hvalue))
  · exact fun value hvalue => hok (hports value hvalue)

theorem sameServices_api {R : List (String × Json) → List (String × Json) → Prop} {old new : ApiVersion}
    (hfields : R old.fields new.fields) : SameServices R old.services.entries new.services.entries where
  names _ := Iff.rfl
  contracts name fields fields' hmem hmem' := by
    obtain ⟨-, hfirst⟩ := Prod.mk.inj (List.mem_singleton.mp hmem)
    obtain ⟨-, hfirst'⟩ := Prod.mk.inj (List.mem_singleton.mp hmem')
    rw [Json.obj.inj hfirst, Json.obj.inj hfirst']
    exact hfields

/-- Ports in another order and an environment in its other form are no change. -/
theorem composeDiff_eq_nil_iff_reordered :
    deltaChanges (withCompose propertyFrontend apiCompose) (apiDelta portsApi reorderedApi) = .ok [] := by
  have hnone : ∀ key ∈ exactKeys, Json.lookup portsApi.fields key = none ∧
      Json.lookup reorderedApi.fields key = none := by
    decide +kernel
  have hunordered : ∀ key ∈ unorderedKeys, key = "ports" ∨
      (Json.lookup portsApi.fields key = none ∧ Json.lookup reorderedApi.fields key = none) := by
    decide +kernel
  have hports : Json.lookup portsApi.fields "ports" = some (.arr [.str "8080:8000", .str "8081:8001"]) ∧
      Json.lookup reorderedApi.fields "ports" = some (.arr [.str "8081:8001", .str "8080:8000"]) :=
    ⟨rfl, rfl⟩
  have hnames : serviceEnvironment portsApi.fields = serviceEnvironment reorderedApi.fields := by
    decide +kernel
  have hcontract : SameContract portsApi.fields reorderedApi.fields := by
    refine ⟨fun key hkey => ?_, fun key hkey => ?_, fun name => by rw [hnames]⟩
    · rw [(hnone key hkey).1, (hnone key hkey).2]
      exact .none
    · obtain rfl | ⟨hold, hnew⟩ := hunordered key hkey
      · rw [hports.1, hports.2]
        exact .some (.list ⟨_, .cons (.str _) (.cons (.str _) .nil), .swap _ _ _⟩)
      · rw [hold, hnew]
        exact .none
  have hpresence : SamePresence portsApi.fields reorderedApi.fields := by
    show (_ : Bool) = _
    decide +kernel
  exact (composeDiff_eq_nil_iff propertyFrontend apiCompose (apiDelta portsApi reorderedApi) rfl rfl rfl).mpr
    ⟨_, _, accepts_api portsApi (by simp [apiVersions]), accepts_api reorderedApi (by simp [apiVersions]),
      sameServices_api ⟨hcontract, hpresence⟩⟩

/-- An environment without names is a change of a service that had no environment. -/
theorem composeDiff_of_empty_environment :
    Accepts apiCompose bareApi.text bareApi.services.entries ∧
      Accepts apiCompose emptyApi.text emptyApi.services.entries ∧
      SameServices SameContract bareApi.services.entries emptyApi.services.entries ∧
      deltaChanges (withCompose propertyFrontend apiCompose) (apiDelta bareApi emptyApi) ≠ .ok [] := by
  have hfields : ∀ key ∈ exactKeys ++ unorderedKeys, key = "image" ∨
      (Json.lookup bareApi.fields key = none ∧ Json.lookup emptyApi.fields key = none) := by
    decide +kernel
  have hsame : ∀ {R : Json → Json → Prop}, (∀ v, R v v) → ∀ key ∈ exactKeys ++ unorderedKeys,
      Option.Rel R (Json.lookup bareApi.fields key) (Json.lookup emptyApi.fields key) := by
    intro R hR key hkey
    obtain rfl | ⟨hold, hnew⟩ := hfields key hkey
    · exact .some (hR (.str "api"))
    · rw [hold, hnew]
      exact .none
  have hnames : serviceEnvironment bareApi.fields = serviceEnvironment emptyApi.fields := by
    decide +kernel
  refine ⟨accepts_api bareApi (by simp [apiVersions]), accepts_api emptyApi (by simp [apiVersions]),
    sameServices_api ⟨fun key hkey => ?_, fun key hkey => ?_, fun name => by rw [hnames]⟩, ?_⟩
  · exact hsame (fun v => Json.equiv_of_sortKeys_eq v v rfl) key (List.mem_append_left _ hkey)
  · exact hsame (fun v => .value (Json.equiv_of_sortKeys_eq v v rfl)) key (List.mem_append_right _ hkey)
  · decide +kernel

end Api

end CoreMesh.SelfHealingDocs
