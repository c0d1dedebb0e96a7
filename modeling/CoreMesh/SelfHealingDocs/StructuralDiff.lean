import CoreMesh.SelfHealingDocs.Structural

/-!
# What a structural diff leaves out

The diff has one unit of each identity, the last that a Python file has and the first that a Go file has.
A change of the units hidden behind these is not reported, and a change of their order alone may be.
-/

namespace CoreMesh.SelfHealingDocs

open OrderedDict (Distinct last?)

variable {frontend : Frontend} {delta : SourceFileDelta} {oldUnits newUnits : List StructuralUnit}

/-- A unit as the claim of completeness sees it: its identity and its representation. -/
def content : StructuralUnit → Text × Text :=
  OrderedDict.entry StructuralUnit.identity StructuralUnit.representation

/-- The units of a file in an order in which the last unit of an identity is the one that is compared. -/
def overriding (language : Language) (found : List StructuralUnit) : List StructuralUnit :=
  match language with
  | .python => sortUnits found
  | .go => found.reverse
  | .compose => found

def comparedUnit (language : Language) (found : List StructuralUnit) (identity : Text) :
    Option StructuralUnit :=
  last? StructuralUnit.identity (overriding language found) identity

/-- The units behind which there is one with the same identity that is compared in their place. -/
def hiddenUnits (language : Language) (found : List StructuralUnit) : List StructuralUnit :=
  OrderedDict.hidden StructuralUnit.identity (overriding language found)

/-- The compared units of all identities are the same in both versions. -/
def SameCompared (language : Language) (oldUnits newUnits : List StructuralUnit) : Prop :=
  ∀ identity, (comparedUnit language oldUnits identity).map StructuralUnit.representation =
    (comparedUnit language newUnits identity).map StructuralUnit.representation

/-- Nothing is reported of two versions with the same units, and something of any others. -/
def Complete (frontend : Frontend) (delta : SourceFileDelta) (oldUnits newUnits : List StructuralUnit) :
    Prop :=
  diffUnits frontend delta (listUnits delta.language oldUnits) (listUnits delta.language newUnits) = [] ↔
    (oldUnits.map content).Perm (newUnits.map content)

instance (frontend : Frontend) (delta : SourceFileDelta) (oldUnits newUnits : List StructuralUnit) :
    Decidable (Complete frontend delta oldUnits newUnits) :=
  inferInstanceAs (Decidable (_ ↔ _))

/-! ### What is reported -/

theorem diffIdentity_eq_none_iff {identity : Text} {before after : Option StructuralUnit} :
    diffIdentity frontend delta identity before after = none ↔
      before.map StructuralUnit.representation = after.map StructuralUnit.representation := by
  cases before with
  | none => cases after <;> simp [diffIdentity]
  | some old => cases after <;> simp [diffIdentity]

theorem mem_identities {identity : Text} :
    identity ∈ identities oldUnits newUnits ↔
      identity ∈ oldUnits.map StructuralUnit.identity ∨ identity ∈ newUnits.map StructuralUnit.identity := by
  rw [identities, (List.perm_insertionSort _ _).mem_iff, List.mem_dedup, List.map_append, List.mem_append]

theorem last?_eq_none {units : List StructuralUnit} {identity : Text}
    (hnot : identity ∉ units.map StructuralUnit.identity) :
    last? StructuralUnit.identity units identity = none :=
  OrderedDict.last?_eq_none_iff.mpr fun _ hunit hsame => hnot (hsame ▸ List.mem_map_of_mem hunit)

theorem diffUnits_eq_nil_iff :
    diffUnits frontend delta oldUnits newUnits = [] ↔
      ∀ identity, (last? StructuralUnit.identity oldUnits identity).map StructuralUnit.representation =
        (last? StructuralUnit.identity newUnits identity).map StructuralUnit.representation := by
  rw [diffUnits, List.filterMap_eq_nil_iff]
  constructor
  · intro hnone identity
    by_cases hmem : identity ∈ identities oldUnits newUnits
    · exact diffIdentity_eq_none_iff.mp (hnone identity hmem)
    · rw [mem_identities, not_or] at hmem
      rw [last?_eq_none hmem.1, last?_eq_none hmem.2]
  · exact fun hsame identity _ => diffIdentity_eq_none_iff.mpr (hsame identity)

/-! ### Which unit is compared -/

theorem perm_overriding (language : Language) (found : List StructuralUnit) :
    (overriding language found).Perm found := by
  cases language with
  | python => exact List.perm_insertionSort _ found
  | go => exact List.reverse_perm found
  | compose => exact .refl found

theorem last?_of_distinct {units : List StructuralUnit} (hdistinct : Distinct StructuralUnit.identity units)
    (identity : Text) : last? StructuralUnit.identity units identity =
      OrderedDict.get? StructuralUnit.identity units identity := by
  have hreverse : Distinct StructuralUnit.identity units.reverse := by
    rw [Distinct, List.map_reverse, List.nodup_reverse]
    exact hdistinct
  exact (hreverse.perm_iff hdistinct).mp (List.reverse_perm units) identity

theorem last?_listUnits (language : Language) (found : List StructuralUnit) (identity : Text) :
    last? StructuralUnit.identity (listUnits language found) identity =
      comparedUnit language found identity := by
  cases language with
  | python => rfl
  | compose => rfl
  | go =>
      have hempty : Distinct StructuralUnit.identity [] := List.nodup_nil
      have hdedupe : Distinct StructuralUnit.identity (dedupeUnits found) :=
        hempty.setDefaults found
      have hsort := List.perm_insertionSort unitPrecedes (dedupeUnits found)
      have hsorted : Distinct StructuralUnit.identity (sortUnits (dedupeUnits found)) :=
        (hsort.map _).nodup_iff.mpr hdedupe
      have hfirst : comparedUnit .go found identity =
          OrderedDict.get? StructuralUnit.identity found identity := by
        rw [comparedUnit, last?, overriding, List.reverse_reverse]
      rw [hfirst, listUnits, last?_of_distinct hsorted, (hsorted.perm_iff hdedupe).mp hsort identity]
      exact OrderedDict.get?_setDefaults [] found identity

theorem diffUnits_listUnits_eq_nil_iff {language : Language} :
    diffUnits frontend delta (listUnits language oldUnits) (listUnits language newUnits) = [] ↔
      SameCompared language oldUnits newUnits := by
  rw [diffUnits_eq_nil_iff]
  simp only [last?_listUnits, SameCompared]

/-! ### Completeness -/

/-- With the same compared units the versions have the same units up to the hidden ones. -/
theorem perm_iff_hiddenUnits {language : Language} (hsame : SameCompared language oldUnits newUnits) :
    (oldUnits.map content).Perm (newUnits.map content) ↔
      ((hiddenUnits language oldUnits).map content).Perm ((hiddenUnits language newUnits).map content) := by
  have hold := (perm_overriding language oldUnits).map content
  have hnew := (perm_overriding language newUnits).map content
  have hparts := OrderedDict.perm_iff_hidden hsame
  constructor
  · exact fun hall => hparts.mp ((hold.trans hall).trans hnew.symm)
  · exact fun hhidden => (hold.symm.trans (hparts.mpr hhidden)).trans hnew

theorem complete_iff (frontend : Frontend) (delta : SourceFileDelta)
    (oldUnits newUnits : List StructuralUnit) :
    Complete frontend delta oldUnits newUnits ↔
      (SameCompared delta.language oldUnits newUnits →
        ((hiddenUnits delta.language oldUnits).map content).Perm
          ((hiddenUnits delta.language newUnits).map content)) ∧
      ((oldUnits.map content).Perm (newUnits.map content) →
        SameCompared delta.language oldUnits newUnits) := by
  rw [Complete, diffUnits_listUnits_eq_nil_iff]
  constructor
  · intro hcomplete
    exact ⟨fun hsame => (perm_iff_hiddenUnits hsame).mp (hcomplete.mp hsame), hcomplete.mpr⟩
  · rintro ⟨hhidden, hcompared⟩
    exact ⟨fun hsame => (perm_iff_hiddenUnits hsame).mpr (hhidden hsame), hcompared⟩

/-! ### A property with a setter -/

section Property

/-- The source of a class with a property, of which the getter returns a given type. -/
def propertySource (returned : String) : Text :=
  ("class Cache:\n    @property\n    def size(self) -> " ++ returned ++
    ":\n        ...\n    @size.setter\n    def size(self, value):\n        ...\n").toList

def propertyMethod (args decorator : PyNode) (returns : Option PyNode) (lineno : Nat) : PyStmt :=
  .functionDef {
    isAsync := false
    name := "size".toList
    args := args
    returns := returns
    decoratorList := [⟨decorator, lineno - 1⟩]
    docstring := none
    lineno := lineno
    endLineno := lineno + 1 }

def propertyModule (returned : String) : List PyStmt :=
  [.classDef {
      name := "Cache".toList
      bases := []
      keywords := []
      decoratorList := []
      docstring := none
      lineno := 1
      endLineno := 7 }
    [propertyMethod (.other "self".toList []) (.name "property".toList) (some (.name returned.toList)) 3,
      propertyMethod (.other "self, value".toList []) (.attribute (.name "size".toList) "setter".toList)
        none 6]]

def propertyFrontend : Frontend where
  parse _ source :=
    if source = propertySource "int" then .ok (propertyModule "int")
    else if source = propertySource "str" then .ok (propertyModule "str")
    else .error (.syntaxError 1 "invalid syntax".toList)
  unparse node :=
    match node with
    | .name id => .ok id
    | .attribute (.name id) attr => .ok (id ++ '.' :: attr)
    | .other tag [] => .ok tag
    | _ => .error "unsupported".toList
  lower text := text.map Char.toLower
  isUpper text := text.any Char.isUpper && !text.any Char.isLower
  sha256 text := text
  goUnits _ _ := .ok []
  composeUnits _ _ := .ok []
  goUnits_language := language_of_none .go
  composeUnits_language := language_of_none .compose

def propertyDelta : SourceFileDelta where
  status := "M".toList
  oldPath := some "app/cache.py".toList
  newPath := some "app/cache.py".toList
  oldText := some (propertySource "int")
  newText := some (propertySource "str")
  language := .python

def propertyUnits (returned : String) : List StructuralUnit :=
  match foundUnits propertyFrontend .python "app/cache.py".toList (propertySource returned) with
  | .ok units => units
  | .error _ => []

/-- The getter's type changes from `int` to `str`, and as the setter is the same nothing is reported. -/
theorem not_complete_of_property :
    deltaChanges propertyFrontend propertyDelta = .ok [] ∧
      ¬ Complete propertyFrontend propertyDelta (propertyUnits "int") (propertyUnits "str") := by
  decide +kernel

end Property

end CoreMesh.SelfHealingDocs
