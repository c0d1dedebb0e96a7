import CoreMesh.SelfHealingDocs.ComposeUnits
import CoreMesh.SelfHealingDocs.Removals

/-!
# What the text of a Compose contract tells

The texts of two contracts are one exactly if the contracts say the same: order counts neither in mappings
nor in the lists that have none, and of an environment the names count alone, and whether there is one.
-/

namespace CoreMesh.SelfHealingDocs

open OrderedDict (last?)

/-! ### Names in order -/

section Names

variable {compose : ComposeFrontend}

instance : Std.Total (foldedPrecedes compose) where
  total a b := by
    obtain hlt | heq | hlt := lt_trichotomy (compose.casefold a) (compose.casefold b)
    · exact .inl (.inl hlt)
    · obtain hle | hle := le_total a b
      · exact .inl (.inr ⟨heq, hle⟩)
      · exact .inr (.inr ⟨heq.symm, hle⟩)
    · exact .inr (.inl hlt)

instance : IsTrans Text (foldedPrecedes compose) where
  trans a b c := by
    rintro (hlt | ⟨heq, hle⟩) (hlt' | ⟨heq', hle'⟩)
    · exact .inl (hlt.trans hlt')
    · exact .inl (heq' ▸ hlt)
    · exact .inl (heq ▸ hlt')
    · exact .inr ⟨heq.trans heq', hle.trans hle'⟩

instance : Std.Antisymm (foldedPrecedes compose) where
  antisymm a b := by
    rintro (hlt | ⟨heq, hle⟩) (hlt' | ⟨heq', hle'⟩)
    · exact absurd hlt' (lt_asymm hlt)
    · exact absurd hlt (heq' ▸ lt_irrefl _)
    · exact absurd hlt' (heq ▸ lt_irrefl _)
    · exact le_antisymm hle hle'

/-- Each once and in order, names are the same exactly if they are the same set. -/
theorem sorted_dedup_eq_iff {names names' : List Text} :
    names.dedup.insertionSort (foldedPrecedes compose) =
        names'.dedup.insertionSort (foldedPrecedes compose) ↔
      ∀ name, name ∈ names ↔ name ∈ names' := by
  have hsort := List.perm_insertionSort (foldedPrecedes compose) names.dedup
  have hsort' := List.perm_insertionSort (foldedPrecedes compose) names'.dedup
  constructor
  · intro hsame name
    rw [← List.mem_dedup, ← hsort.mem_iff, hsame, hsort'.mem_iff, List.mem_dedup]
  · intro hsame
    have hperm : names.dedup.Perm names'.dedup := by
      rw [List.perm_ext_iff_of_nodup (List.nodup_dedup _) (List.nodup_dedup _)]
      intro name
      rw [List.mem_dedup, List.mem_dedup]
      exact hsame name
    exact List.Perm.eq_of_pairwise' (List.pairwise_insertionSort _ _) (List.pairwise_insertionSort _ _)
      ((hsort.trans hperm).trans hsort'.symm)

end Names

/-! ### Contracts by their keys -/

section Lookup

/-- Of some keys the values that they have. -/
def select (keys : List String) (value : String → Option Json) : List (String × Json) :=
  keys.filterMap fun key => (value key).map fun v => (key, v)

theorem mem_select {keys : List String} {value : String → Option Json} {m : String × Json} :
    m ∈ select keys value ↔ m.1 ∈ keys ∧ value m.1 = some m.2 := by
  rw [select, List.mem_filterMap]
  constructor
  · rintro ⟨key, hkey, hm⟩
    obtain ⟨v, hv, rfl⟩ := Option.map_eq_some_iff.mp hm
    exact ⟨hkey, hv⟩
  · rintro ⟨hkey, hvalue⟩
    exact ⟨m.1, hkey, by rw [hvalue]; rfl⟩

theorem nodup_select {keys : List String} (hkeys : keys.Nodup) (value : String → Option Json) :
    ((select keys value).map Prod.fst).Nodup := by
  have hsub : ((select keys value).map Prod.fst).Sublist keys := by
    rw [select, List.map_filterMap]
    induction keys with
    | nil => exact .slnil
    | cons key keys ih =>
        rw [List.filterMap_cons]
        cases value key with
        | none => exact (ih (List.nodup_cons.mp hkeys).2).cons key
        | some v => exact (ih (List.nodup_cons.mp hkeys).2).cons_cons key
  exact hkeys.sublist hsub

theorem lookup_select {keys : List String} (hkeys : keys.Nodup) (value : String → Option Json)
    (key : String) : Json.lookup (select keys value) key = if key ∈ keys then value key else none := by
  apply Option.ext
  intro v
  rw [Json.lookup_eq_some_iff (nodup_select hkeys value), mem_select]
  by_cases hmem : key ∈ keys
  · rw [if_pos hmem, and_iff_right hmem]
  · rw [if_neg hmem]
    exact ⟨fun h => absurd h.1 hmem, fun h => by cases h⟩

end Lookup

section Contract

variable {compose : ComposeFrontend} {fields fields' : List (String × Json)}

/-- The keys of a contract. -/
def fieldKeys : List String := contractKeys ++ ["environment"]

/-- The value of a key as a contract has it. -/
def contractValue (key : String) (value : Json) : Json :=
  if unorderedKeys.contains key then sortedComposeValues value else value

/-- What a contract has under a key. -/
def contractField (fields : List (String × Json)) (environment : Option (List Text)) (key : String) :
    Option Json :=
  if key = "environment" then
    environment.map fun keys => .arr (keys.map fun key => .str (String.ofList key))
  else (Json.lookup fields key).map (contractValue key)

theorem composeContract_eq (fields : List (String × Json)) (environment : Option (List Text)) :
    composeContract fields environment = select fieldKeys (contractField fields environment) := by
  have hfields : ∀ key ∈ contractKeys, key ≠ "environment" := by decide
  have hsorted : ∀ (key : String) (value : Json),
      (if unorderedKeys.contains key then (key, sortedComposeValues value) else (key, value)) =
        (key, contractValue key value) := by
    intro key value
    rw [contractValue]
    split <;> rfl
  have henvironment : unorderedKeys.contains "environment" = false := by decide
  rw [composeContract, select, fieldKeys, List.filterMap_append, List.map_append, List.map_filterMap]
  congr 1
  · refine List.filterMap_congr fun key hkey => ?_
    rw [contractField, if_neg (hfields key hkey), Option.map_map, Option.map_map]
    exact congrArg (fun f => (Json.lookup fields key).map f) (funext fun value => hsorted key value)
  · cases environment with
    | none => rfl
    | some keys =>
        simp only [contractField, Option.map_some, Option.toList_some, List.map_cons, List.map_nil,
          henvironment]
        rfl

/-- The keys whose values are compared as they are. -/
def exactKeys : List String := ["build", "command", "healthcheck", "image"]

/-- Lists are the same in any order, other values as they are. -/
inductive SameUnordered : Json → Json → Prop where
  | list {items items' : List Json} (hitems : Json.SameItems items items') :
      SameUnordered (.arr items) (.arr items')
  | value {v w : Json} (hequiv : Json.Equiv v w) : SameUnordered v w

/-- The names in the environment of a service, which has none if there is no environment. -/
def serviceEnvironment (fields : List (String × Json)) : List Text :=
  ((Json.lookup fields "environment").map environmentNames).getD []

/-- Two services have the same contract. -/
structure SameContract (fields fields' : List (String × Json)) : Prop where
  exact : ∀ key ∈ exactKeys, Option.Rel Json.Equiv (Json.lookup fields key) (Json.lookup fields' key)
  unordered : ∀ key ∈ unorderedKeys,
    Option.Rel SameUnordered (Json.lookup fields key) (Json.lookup fields' key)
  environment : ∀ name, name ∈ serviceEnvironment fields ↔ name ∈ serviceEnvironment fields'

/-- Both services have an environment, or neither. -/
def SamePresence (fields fields' : List (String × Json)) : Prop :=
  (Json.lookup fields "environment").isSome = (Json.lookup fields' "environment").isSome

theorem map_eq_map_iff_rel {f : Json → Json} {R : Json → Json → Prop} {before after : Option Json}
    (hR : ∀ v ∈ before, ∀ w ∈ after, f v = f w ↔ R v w) :
    before.map f = after.map f ↔ Option.Rel R before after := by
  cases before with
  | none =>
      cases after with
      | none => exact ⟨fun _ => .none, fun _ => rfl⟩
      | some w => exact ⟨fun hsame => absurd hsame (by simp), fun hrel => nomatch hrel⟩
  | some v =>
      cases after with
      | none => exact ⟨fun hsame => absurd hsame (by simp), fun hrel => nomatch hrel⟩
      | some w =>
          rw [Option.map_some, Option.map_some, Option.some.injEq, hR v rfl w rfl]
          constructor
          · exact .some
          · intro hrel
            cases hrel with
            | some hvw => exact hvw

theorem sortKeys_arr_eq_iff {items items' : List Json} :
    Json.sortKeys (.arr items) = Json.sortKeys (.arr items') ↔
      Json.sortItems items = Json.sortItems items' := by
  rw [Json.sortKeys, Json.sortKeys, Json.arr.injEq]

theorem sortedComposeValues_eq_self {v : Json} (hv : ∀ items, v ≠ .arr items) :
    sortedComposeValues v = v := by
  cases v with
  | arr items => exact absurd rfl (hv items)
  | _ => rfl

theorem arr_of_equiv {items : List Json} {w : Json} (hequiv : Json.Equiv (.arr items) w) :
    ∃ items', w = .arr items' ∧ Json.EquivItems items items' := by
  cases hequiv with
  | arr hitems => exact ⟨_, rfl, hitems⟩

theorem sortKeys_sortedComposeValues_iff {v w : Json} (hv : v.IsProper) (hw : w.IsProper) :
    Json.sortKeys (sortedComposeValues v) = Json.sortKeys (sortedComposeValues w) ↔
      SameUnordered v w := by
  have hlists : ∀ {items items' : List Json}, v = .arr items → w = .arr items' →
      (Json.sortKeys (sortedComposeValues v) = Json.sortKeys (sortedComposeValues w) ↔
        Json.SameItems items items') := by
    rintro items items' rfl rfl
    exact sortKeys_arr_eq_iff.trans (Json.sortItems_sortByText_iff hv.of_mem_items hw.of_mem_items)
  constructor
  · intro hsame
    by_cases hvArr : ∃ items, v = .arr items
    · obtain ⟨items, rfl⟩ := hvArr
      by_cases hwArr : ∃ items', w = .arr items'
      · obtain ⟨items', rfl⟩ := hwArr
        exact .list ((hlists rfl rfl).mp hsame)
      · rw [sortedComposeValues_eq_self fun items' h => hwArr ⟨items', h⟩] at hsame
        obtain ⟨items', hitems', -⟩ := arr_of_equiv (Json.equiv_of_sortKeys_eq _ _ hsame)
        exact absurd ⟨items', hitems'⟩ hwArr
    · rw [sortedComposeValues_eq_self fun items h => hvArr ⟨items, h⟩] at hsame
      by_cases hwArr : ∃ items', w = .arr items'
      · obtain ⟨items', rfl⟩ := hwArr
        obtain ⟨items, hitems, -⟩ := arr_of_equiv (Json.equiv_of_sortKeys_eq _ _ hsame.symm)
        exact absurd ⟨items, hitems⟩ hvArr
      · rw [sortedComposeValues_eq_self fun items' h => hwArr ⟨items', h⟩] at hsame
        exact .value (Json.equiv_of_sortKeys_eq v w hsame)
  · intro hsame
    cases hsame with
    | list hitems => exact (hlists rfl rfl).mpr hitems
    | value hequiv =>
        by_cases hvArr : ∃ items, v = .arr items
        · obtain ⟨items, rfl⟩ := hvArr
          obtain ⟨items', rfl, hitems⟩ := arr_of_equiv hequiv
          exact (hlists rfl rfl).mpr ⟨items', hitems, .refl items'⟩
        · have hwArr : ∀ items', w ≠ .arr items' := by
            rintro items' rfl
            cases hequiv with
            | arr hitems => exact hvArr ⟨_, rfl⟩
          rw [sortedComposeValues_eq_self fun items h => hvArr ⟨items, h⟩, sortedComposeValues_eq_self hwArr]
          exact (Json.equiv_iff hv.distinct).mp hequiv

/-- The names of an environment as a value. -/
def namesValue (names : List Text) : Json := .arr (names.map fun name => .str (String.ofList name))

theorem sortKeys_namesValue_eq_iff {names names' : List Text} :
    Json.sortKeys (namesValue names) = Json.sortKeys (namesValue names') ↔ names = names' := by
  have hstrings : ∀ names : List Text, Json.sortItems (names.map fun name => .str (String.ofList name)) =
      names.map fun name => .str (String.ofList name) := by
    intro names
    rw [Json.sortItems_eq, List.map_map]
    exact List.map_congr_left fun _ _ => rfl
  rw [namesValue, namesValue, sortKeys_arr_eq_iff, hstrings, hstrings]
  refine List.map_inj_right fun name name' hsame => ?_
  exact String.ofList_injective (Json.str.inj hsame)

/-- What the environments have in common if the contracts have the same names. -/
theorem environment_map_eq_iff : ((Json.lookup fields "environment").map fun value =>
      (environmentNames value).dedup.insertionSort (foldedPrecedes compose)) =
        ((Json.lookup fields' "environment").map fun value =>
          (environmentNames value).dedup.insertionSort (foldedPrecedes compose)) ↔
      SamePresence fields fields' ∧
        ∀ name, name ∈ serviceEnvironment fields ↔ name ∈ serviceEnvironment fields' := by
  rw [SamePresence, serviceEnvironment, serviceEnvironment]
  cases Json.lookup fields "environment" with
  | none => cases Json.lookup fields' "environment" <;> simp
  | some value =>
      cases Json.lookup fields' "environment" with
      | none => simp
      | some value' =>
          rw [Option.map_some, Option.map_some, Option.some.injEq, sorted_dedup_eq_iff]
          simp

theorem lookup_composeContract (environment : Option (List Text)) (key : String) :
    Json.lookup (composeContract fields environment) key =
      if key ∈ fieldKeys then contractField fields environment key else none := by
  rw [composeContract_eq, lookup_select (by decide)]

/-- Each key of a contract is compared by itself, and of the environment the names. -/
theorem sortKeys_contractOf_iff : Json.sortKeys (contractOf compose fields) =
      Json.sortKeys (contractOf compose fields') ↔
    (∀ key ∈ contractKeys,
      ((Json.lookup fields key).map fun value => Json.sortKeys (contractValue key value)) =
        (Json.lookup fields' key).map fun value => Json.sortKeys (contractValue key value)) ∧
    (SamePresence fields fields' ∧
      ∀ name, name ∈ serviceEnvironment fields ↔ name ∈ serviceEnvironment fields') := by
  have hnodup : ∀ (fields : List (String × Json)) (environment : Option (List Text)),
      ((composeContract fields environment).map Prod.fst).Nodup := by
    intro fields environment
    rw [composeContract_eq]
    exact nodup_select (by decide) _
  have hnames : ∀ environment environment' : Option (List Text),
      ((environment.map namesValue).map Json.sortKeys = (environment'.map namesValue).map Json.sortKeys ↔
        environment = environment') := by
    intro environment environment'
    rw [Option.map_map, Option.map_map]
    refine (Option.map_injective fun names names' hsame => ?_).eq_iff
    exact sortKeys_namesValue_eq_iff.mp hsame
  have hfield : ∀ key ∈ contractKeys, key ∈ fieldKeys ∧ key ≠ "environment" := by decide
  rw [contractOf, contractOf, Json.sortKeys_obj_eq_iff (hnodup _ _) (hnodup _ _),
    ← @environment_map_eq_iff compose, ← hnames]
  simp only [lookup_composeContract]
  constructor
  · intro hsame
    refine ⟨fun key hkey => ?_, hsame "environment"⟩
    obtain ⟨hmem, hother⟩ := hfield key hkey
    have hkeys := hsame key
    rw [if_pos hmem, if_pos hmem, contractField, contractField, if_neg hother, if_neg hother,
      Option.map_map, Option.map_map] at hkeys
    exact hkeys
  · rintro ⟨hsame, henvironment⟩ key
    by_cases hmem : key ∈ fieldKeys
    · obtain hkey | hkey := List.mem_append.mp hmem
      · have hother := (hfield key hkey).2
        rw [if_pos hmem, if_pos hmem, contractField, contractField, if_neg hother, if_neg hother,
          Option.map_map, Option.map_map]
        exact hsame key hkey
      · obtain rfl := List.mem_singleton.mp hkey
        exact henvironment
    · rw [if_neg hmem, if_neg hmem]

theorem contractField_exact_iff (hproper : (Json.obj fields).IsProper) {key : String}
    (hkey : unorderedKeys.contains key = false) :
    ((Json.lookup fields key).map fun value => Json.sortKeys (contractValue key value)) =
        ((Json.lookup fields' key).map fun value => Json.sortKeys (contractValue key value)) ↔
      Option.Rel Json.Equiv (Json.lookup fields key) (Json.lookup fields' key) := by
  apply map_eq_map_iff_rel
  intro v hv w _
  rw [contractValue, contractValue, hkey]
  exact (Json.equiv_iff (hproper.of_mem_members.2 _ (Json.lookup_mem hv)).distinct).symm

theorem contractField_unordered_iff (hproper : (Json.obj fields).IsProper)
    (hproper' : (Json.obj fields').IsProper) {key : String} (hkey : unorderedKeys.contains key = true) :
    ((Json.lookup fields key).map fun value => Json.sortKeys (contractValue key value)) =
        ((Json.lookup fields' key).map fun value => Json.sortKeys (contractValue key value)) ↔
      Option.Rel SameUnordered (Json.lookup fields key) (Json.lookup fields' key) := by
  apply map_eq_map_iff_rel
  intro v hv w hw
  rw [contractValue, contractValue, hkey]
  exact sortKeys_sortedComposeValues_iff (hproper.of_mem_members.2 _ (Json.lookup_mem hv))
    (hproper'.of_mem_members.2 _ (Json.lookup_mem hw))

/-- Contracts are one value exactly if they say the same and neither service alone has an environment. -/
theorem contract_iff (hproper : (Json.obj fields).IsProper) (hproper' : (Json.obj fields').IsProper) :
    Json.sortKeys (contractOf compose fields) = Json.sortKeys (contractOf compose fields') ↔
      SameContract fields fields' ∧ SamePresence fields fields' := by
  have hexact : ∀ key ∈ exactKeys, key ∈ contractKeys ∧ unorderedKeys.contains key = false := by decide
  have hunordered : ∀ key ∈ unorderedKeys, key ∈ contractKeys ∧ unorderedKeys.contains key = true := by
    decide
  have hcases : ∀ key ∈ contractKeys, key ∈ exactKeys ∨ key ∈ unorderedKeys := by decide
  rw [sortKeys_contractOf_iff]
  constructor
  · intro ⟨hsame, hpresence, henvironment⟩
    refine ⟨⟨fun key hkey => ?_, fun key hkey => ?_, henvironment⟩, hpresence⟩
    · obtain ⟨hmem, hkind⟩ := hexact key hkey
      exact (contractField_exact_iff hproper hkind).mp (hsame key hmem)
    · obtain ⟨hmem, hkind⟩ := hunordered key hkey
      exact (contractField_unordered_iff hproper hproper' hkind).mp (hsame key hmem)
  · intro ⟨hcontract, hpresence⟩
    refine ⟨fun key hkey => ?_, hpresence, hcontract.environment⟩
    obtain hmem | hmem := hcases key hkey
    · exact (contractField_exact_iff hproper (hexact key hmem).2).mpr (hcontract.exact key hmem)
    · apply (contractField_unordered_iff hproper hproper' (hunordered key hmem).2).mpr
      exact hcontract.unordered key hmem

theorem wellFormed_contractOf (hproper : (Json.obj fields).IsProper) :
    (contractOf compose fields).wellFormed = true := by
  rw [contractOf, composeContract_eq]
  refine Json.wellFormedMembers_iff.mpr fun m hm => ?_
  obtain ⟨-, hm⟩ := mem_select.mp hm
  rw [contractField] at hm
  split at hm
  · obtain ⟨names, -, hm⟩ := Option.map_eq_some_iff.mp hm
    rw [← hm]
    refine Json.wellFormedItems_iff.mpr fun item hitem => ?_
    obtain ⟨name, -, rfl⟩ := List.mem_map.mp hitem
    rfl
  · obtain ⟨value, hvalue, hm⟩ := Option.map_eq_some_iff.mp hm
    have hwell := (hproper.of_mem_members.2 _ (Json.lookup_mem hvalue)).wellFormed
    rw [← hm, contractValue]
    split
    · cases value with
      | arr items =>
          refine Json.wellFormedItems_iff.mpr fun item hitem => ?_
          have hmem := (List.perm_insertionSort Json.textPrecedes items).mem_iff.mp hitem
          exact Json.wellFormedItems_iff.mp hwell item hmem
      | _ => exact hwell
    · exact hwell

theorem dumps_contractOf_iff (hproper : (Json.obj fields).IsProper)
    (hproper' : (Json.obj fields').IsProper) :
    Json.dumps (contractOf compose fields) = Json.dumps (contractOf compose fields') ↔
      SameContract fields fields' ∧ SamePresence fields fields' := by
  rw [Json.dumps_eq_iff_sortKeys (wellFormed_contractOf hproper) (wellFormed_contractOf hproper')]
  exact contract_iff hproper hproper'

end Contract

end CoreMesh.SelfHealingDocs
