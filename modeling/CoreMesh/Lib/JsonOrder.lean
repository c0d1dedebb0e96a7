import Mathlib.Data.Char
import Mathlib.Data.List.Lex
import Mathlib.Data.List.Perm.Basic
import Mathlib.Data.List.Sort
import Mathlib.Order.Basic
import CoreMesh.Lib.JsonWriting
import CoreMesh.Lib.OrderedDict

/-!
# JSON values but for the order of members

Values are equivalent if they differ in the order of the members of objects. With the members in the order
of their keys they are one value then, and have one text.
-/

namespace Json

/-- A member precedes another if its key does, character by character. -/
def keyPrecedes (m m' : String × Json) : Prop := m.1.toList ≤ m'.1.toList

instance : DecidableRel keyPrecedes := fun m m' => inferInstanceAs (Decidable (m.1.toList ≤ m'.1.toList))

mutual

/-- The value with the members of every object in order. -/
def sortKeys : Json → Json
  | .arr items => .arr (sortItems items)
  | .obj members => .obj ((sortMembers members).insertionSort keyPrecedes)
  | .null => .null
  | .bool value => .bool value
  | .num literal => .num literal
  | .str value => .str value

def sortItems : List Json → List Json
  | [] => []
  | item :: items => sortKeys item :: sortItems items

def sortMembers : List (String × Json) → List (String × Json)
  | [] => []
  | (key, item) :: members => (key, sortKeys item) :: sortMembers members

end

/-- The compact text in ASCII, with the members of every object in order. -/
def dumps (v : Json) : List Char := JsonText.asciiText (sortKeys v)

mutual

/-- No object has two members with one key. -/
def distinctKeys : Json → Bool
  | .arr items => distinctItems items
  | .obj members => decide (members.map Prod.fst).Nodup && distinctMembers members
  | _ => true

def distinctItems : List Json → Bool
  | [] => true
  | item :: items => distinctKeys item && distinctItems items

def distinctMembers : List (String × Json) → Bool
  | [] => true
  | (_, item) :: members => distinctKeys item && distinctMembers members

end

mutual

/-- Values that differ in the order of members only. -/
inductive Equiv : Json → Json → Prop where
  | null : Equiv .null .null
  | bool (value : Bool) : Equiv (.bool value) (.bool value)
  | num (literal : String) : Equiv (.num literal) (.num literal)
  | str (value : String) : Equiv (.str value) (.str value)
  | arr {items items' : List Json} (hitems : EquivItems items items') : Equiv (.arr items) (.arr items')
  | obj {members reordered members' : List (String × Json)} (hmembers : EquivMembers members reordered)
      (hperm : reordered.Perm members') : Equiv (.obj members) (.obj members')

inductive EquivItems : List Json → List Json → Prop where
  | nil : EquivItems [] []
  | cons {v w : Json} {items items' : List Json} (hfirst : Equiv v w) (hrest : EquivItems items items') :
      EquivItems (v :: items) (w :: items')

inductive EquivMembers : List (String × Json) → List (String × Json) → Prop where
  | nil : EquivMembers [] []
  | cons {v w : Json} {members members' : List (String × Json)} (key : String) (hfirst : Equiv v w)
      (hrest : EquivMembers members members') : EquivMembers ((key, v) :: members) ((key, w) :: members')

end

/-! ### Sorting -/

theorem sortItems_eq (items : List Json) : sortItems items = items.map sortKeys := by
  induction items with
  | nil => rfl
  | cons item items ih => rw [sortItems, ih, List.map_cons]

theorem sortMembers_eq (members : List (String × Json)) :
    sortMembers members = members.map fun m => (m.1, sortKeys m.2) := by
  induction members with
  | nil => rfl
  | cons m members ih => rw [sortMembers, ih, List.map_cons]

theorem map_fst_sortMembers (members : List (String × Json)) :
    (sortMembers members).map Prod.fst = members.map Prod.fst := by
  rw [sortMembers_eq, List.map_map]
  rfl

instance : Std.Total keyPrecedes := ⟨fun m m' => le_total m.1.toList m'.1.toList⟩

instance : IsTrans (String × Json) keyPrecedes := ⟨fun _ _ _ h h' => le_trans h h'⟩

/-- Members with different keys have one order. -/
theorem insertionSort_eq_iff {members members' : List (String × Json)}
    (hdistinct : (members.map Prod.fst).Nodup) :
    members.insertionSort keyPrecedes = members'.insertionSort keyPrecedes ↔ members.Perm members' := by
  have hsort := List.perm_insertionSort keyPrecedes members
  have hsort' := List.perm_insertionSort keyPrecedes members'
  constructor
  · intro hsame
    rw [hsame] at hsort
    exact hsort.symm.trans hsort'
  · intro hperm
    refine List.Perm.eq_of_pairwise ?_ (List.pairwise_insertionSort keyPrecedes members)
      (List.pairwise_insertionSort keyPrecedes members') ((hsort.trans hperm).trans hsort'.symm)
    intro m m' hm hm' hle hle'
    have hkeys : m.1 = m'.1 := String.toList_inj.mp (le_antisymm hle hle')
    have hmem := hsort.mem_iff.mp hm
    have hmem' := hperm.mem_iff.mpr (hsort'.mem_iff.mp hm')
    exact List.inj_on_of_nodup_map hdistinct hmem hmem' hkeys

theorem exists_perm_of_map_perm {α β : Type} {f : α → β} {l : List β} {l' : List α}
    (hperm : l.Perm (l'.map f)) : ∃ reordered : List α, l = reordered.map f ∧ reordered.Perm l' := by
  have hcomp := congrFun (congrFun (List.eq_map_comp_perm f) l) l'
  exact hcomp.mpr hperm

theorem distinctMembers_iff {members : List (String × Json)} :
    distinctMembers members = true ↔ ∀ m ∈ members, m.2.distinctKeys = true := by
  induction members with
  | nil => simp [distinctMembers]
  | cons m members ih => simp only [distinctMembers, Bool.and_eq_true, ih, List.forall_mem_cons]

theorem distinctItems_iff {items : List Json} :
    distinctItems items = true ↔ ∀ item ∈ items, item.distinctKeys = true := by
  induction items with
  | nil => simp [distinctItems]
  | cons item items ih => simp only [distinctItems, Bool.and_eq_true, ih, List.forall_mem_cons]

/-! ### Equivalent values are one when sorted -/

mutual

theorem Equiv.sortKeys_eq : ∀ (v w : Json), Equiv v w → v.distinctKeys = true → sortKeys v = sortKeys w
  | .null, _, hequiv, _ => by cases hequiv; rfl
  | .bool _, _, hequiv, _ => by cases hequiv; rfl
  | .num _, _, hequiv, _ => by cases hequiv; rfl
  | .str _, _, hequiv, _ => by cases hequiv; rfl
  | .arr items, _, hequiv, hdistinct => by
      cases hequiv with
      | arr hitems => rw [sortKeys, sortKeys, EquivItems.sortItems_eq items _ hitems hdistinct]
  | .obj members, _, hequiv, hdistinct => by
      cases hequiv with
      | @obj _ reordered members' hmembers hperm =>
          obtain ⟨hkeys, hvalues⟩ := Bool.and_eq_true_iff.mp hdistinct
          have hsorted := EquivMembers.sortMembers_eq members _ hmembers hvalues
          have hnodup : ((sortMembers reordered).map Prod.fst).Nodup := by
            rw [← hsorted, map_fst_sortMembers]
            exact of_decide_eq_true hkeys
          have hperm' : (sortMembers reordered).Perm (sortMembers members') := by
            rw [Json.sortMembers_eq, Json.sortMembers_eq]
            exact hperm.map _
          rw [sortKeys, sortKeys, hsorted, (insertionSort_eq_iff hnodup).mpr hperm']

theorem EquivItems.sortItems_eq : ∀ (items items' : List Json), EquivItems items items' →
    distinctItems items = true → sortItems items = sortItems items'
  | [], _, hequiv, _ => by cases hequiv; rfl
  | item :: items, _, hequiv, hdistinct => by
      cases hequiv with
      | cons hfirst hrest =>
          obtain ⟨hitem, hitems⟩ := Bool.and_eq_true_iff.mp hdistinct
          rw [sortItems, sortItems, Equiv.sortKeys_eq item _ hfirst hitem,
            EquivItems.sortItems_eq items _ hrest hitems]

theorem EquivMembers.sortMembers_eq : ∀ (members members' : List (String × Json)),
    EquivMembers members members' → distinctMembers members = true →
      sortMembers members = sortMembers members'
  | [], _, hequiv, _ => by cases hequiv; rfl
  | (_, v) :: members, _, hequiv, hdistinct => by
      cases hequiv with
      | cons key hfirst hrest =>
          obtain ⟨hitem, hmembers⟩ := Bool.and_eq_true_iff.mp hdistinct
          rw [sortMembers, sortMembers, Equiv.sortKeys_eq v _ hfirst hitem,
            EquivMembers.sortMembers_eq members _ hrest hmembers]

end

mutual

theorem equiv_of_sortKeys_eq : ∀ (v w : Json), sortKeys v = sortKeys w → Equiv v w
  | .null, w, hsame => by
      cases w with
      | null => exact .null
      | _ => simp [sortKeys] at hsame
  | .bool value, w, hsame => by
      cases w with
      | bool value' =>
          obtain rfl := Json.bool.inj hsame
          exact .bool value
      | _ => simp [sortKeys] at hsame
  | .num literal, w, hsame => by
      cases w with
      | num literal' =>
          obtain rfl := Json.num.inj hsame
          exact .num literal
      | _ => simp [sortKeys] at hsame
  | .str value, w, hsame => by
      cases w with
      | str value' =>
          obtain rfl := Json.str.inj hsame
          exact .str value
      | _ => simp [sortKeys] at hsame
  | .arr items, w, hsame => by
      cases w with
      | arr items' =>
          rw [sortKeys, sortKeys] at hsame
          exact .arr (equivItems_of_sortItems_eq items items' (Json.arr.inj hsame))
      | _ => simp [sortKeys] at hsame
  | .obj members, w, hsame => by
      cases w with
      | obj members' =>
          rw [sortKeys, sortKeys] at hsame
          have hperm := List.perm_insertionSort keyPrecedes (sortMembers members)
          rw [Json.obj.inj hsame] at hperm
          have hperm' := hperm.symm.trans (List.perm_insertionSort keyPrecedes (sortMembers members'))
          rw [sortMembers_eq members'] at hperm'
          obtain ⟨reordered, hmap, hreordered⟩ := exists_perm_of_map_perm hperm'
          rw [← sortMembers_eq reordered] at hmap
          exact .obj (equivMembers_of_sortMembers_eq members reordered hmap) hreordered
      | _ => simp [sortKeys] at hsame

theorem equivItems_of_sortItems_eq : ∀ (items items' : List Json),
    sortItems items = sortItems items' → EquivItems items items'
  | [], items', hsame => by
      cases items' with
      | nil => exact .nil
      | cons => simp [sortItems] at hsame
  | item :: items, items', hsame => by
      cases items' with
      | nil => simp [sortItems] at hsame
      | cons item' items' =>
          rw [sortItems, sortItems] at hsame
          obtain ⟨hfirst, hrest⟩ := List.cons.inj hsame
          exact .cons (equiv_of_sortKeys_eq item item' hfirst) (equivItems_of_sortItems_eq items items' hrest)

theorem equivMembers_of_sortMembers_eq : ∀ (members members' : List (String × Json)),
    sortMembers members = sortMembers members' → EquivMembers members members'
  | [], members', hsame => by
      cases members' with
      | nil => exact .nil
      | cons => simp [sortMembers] at hsame
  | (key, v) :: members, members', hsame => by
      cases members' with
      | nil => simp [sortMembers] at hsame
      | cons m members' =>
          obtain ⟨key', w⟩ := m
          rw [sortMembers, sortMembers] at hsame
          obtain ⟨hfirst, hrest⟩ := List.cons.inj hsame
          obtain ⟨rfl, hvalue⟩ := Prod.mk.inj hfirst
          exact .cons key (equiv_of_sortKeys_eq v w hvalue)
            (equivMembers_of_sortMembers_eq members members' hrest)

end

theorem equiv_iff {v w : Json} (hdistinct : v.distinctKeys = true) :
    Equiv v w ↔ sortKeys v = sortKeys w :=
  ⟨fun hequiv => Equiv.sortKeys_eq v w hequiv hdistinct, equiv_of_sortKeys_eq v w⟩

/-! ### Texts -/

theorem wellFormedItems_iff {items : List Json} :
    wellFormedItems items = true ↔ ∀ item ∈ items, item.wellFormed = true := by
  induction items with
  | nil => simp [wellFormedItems]
  | cons item items ih => simp only [wellFormedItems, Bool.and_eq_true, ih, List.forall_mem_cons]

mutual

theorem wellFormed_sortKeys : ∀ v : Json, v.wellFormed = true → (sortKeys v).wellFormed = true
  | .null, hv => hv
  | .bool _, hv => hv
  | .num _, hv => hv
  | .str _, hv => hv
  | .arr items, hv => wellFormed_sortItems items hv
  | .obj members, hv => by
      have hmembers := wellFormedMembers_iff.mp (wellFormed_sortMembers members hv)
      rw [sortKeys]
      refine wellFormedMembers_iff.mpr fun m hm => hmembers m ?_
      exact (List.perm_insertionSort keyPrecedes (sortMembers members)).mem_iff.mp hm

theorem wellFormed_sortItems : ∀ items : List Json, wellFormedItems items = true →
    wellFormedItems (sortItems items) = true
  | [], hv => hv
  | item :: items, hv => by
      obtain ⟨hitem, hitems⟩ := Bool.and_eq_true_iff.mp hv
      exact Bool.and_eq_true_iff.mpr ⟨wellFormed_sortKeys item hitem, wellFormed_sortItems items hitems⟩

theorem wellFormed_sortMembers : ∀ members : List (String × Json), wellFormedMembers members = true →
    wellFormedMembers (sortMembers members) = true
  | [], hv => hv
  | (_, v) :: members, hv => by
      obtain ⟨hitem, hmembers⟩ := Bool.and_eq_true_iff.mp hv
      exact Bool.and_eq_true_iff.mpr ⟨wellFormed_sortKeys v hitem, wellFormed_sortMembers members hmembers⟩

end

theorem dumps_eq_iff_sortKeys {v w : Json} (hv : v.wellFormed = true) (hw : w.wellFormed = true) :
    dumps v = dumps w ↔ sortKeys v = sortKeys w := by
  constructor
  · exact JsonText.asciiText_inj (wellFormed_sortKeys v hv) (wellFormed_sortKeys w hw)
  · intro hsame
    rw [dumps, dumps, hsame]

/-- A value as a reader that keeps one member of a key has it. -/
structure IsProper (v : Json) : Prop where
  wellFormed : v.wellFormed = true
  distinct : v.distinctKeys = true

theorem IsProper.of_mem_items {items : List Json} (hproper : (Json.arr items).IsProper) :
    ∀ item ∈ items, item.IsProper := fun item hitem =>
  ⟨wellFormedItems_iff.mp hproper.wellFormed item hitem, distinctItems_iff.mp hproper.distinct item hitem⟩

theorem IsProper.of_mem_members {members : List (String × Json)} (hproper : (Json.obj members).IsProper) :
    (members.map Prod.fst).Nodup ∧ ∀ m ∈ members, m.2.IsProper := by
  obtain ⟨hkeys, hvalues⟩ := Bool.and_eq_true_iff.mp hproper.distinct
  refine ⟨of_decide_eq_true hkeys, fun m hm => ⟨?_, distinctMembers_iff.mp hvalues m hm⟩⟩
  exact wellFormedMembers_iff.mp hproper.wellFormed m hm

/-! ### Objects by their keys -/

theorem lookup_mem {members : List (String × Json)} {key : String} {v : Json}
    (hlookup : lookup members key = some v) : (key, v) ∈ members := by
  obtain ⟨m, hm, rfl⟩ := Option.map_eq_some_iff.mp hlookup
  obtain ⟨rfl, hmem⟩ := @OrderedDict.key_of_last? _ _ _ Prod.fst members key m hm
  exact hmem

theorem lookup_eq_some_iff {members : List (String × Json)} (hkeys : (members.map Prod.fst).Nodup)
    {key : String} {v : Json} : lookup members key = some v ↔ (key, v) ∈ members := by
  constructor
  · exact lookup_mem
  · intro hmem
    have hdistinct : OrderedDict.Distinct Prod.fst members := hkeys
    have hlast := hdistinct.last?_eq hmem
    exact congrArg (Option.map Prod.snd) hlast

/-- Objects are equivalent if what they have under each key is. -/
theorem sortKeys_obj_eq_iff {members members' : List (String × Json)} (hkeys : (members.map Prod.fst).Nodup)
    (hkeys' : (members'.map Prod.fst).Nodup) : sortKeys (.obj members) = sortKeys (.obj members') ↔
      ∀ key, (lookup members key).map sortKeys = (lookup members' key).map sortKeys := by
  have hdistinct : OrderedDict.Distinct Prod.fst members := hkeys
  have hnodup : ((sortMembers members).map Prod.fst).Nodup := by
    rw [map_fst_sortMembers]
    exact hkeys
  have hentry : (members.map (OrderedDict.entry Prod.fst fun m => sortKeys m.2)).Perm
      (members'.map (OrderedDict.entry Prod.fst fun m => sortKeys m.2)) ↔ _ :=
    hdistinct.entry_perm_iff hkeys'
  rw [sortKeys, sortKeys, Json.obj.injEq, insertionSort_eq_iff hnodup, sortMembers_eq, sortMembers_eq]
  refine hentry.trans (forall_congr' fun key => ?_)
  rw [lookup, lookup, Option.map_map, Option.map_map]
  rfl

/-! ### Lists without an order -/

/-- Items are equivalent, one by one, to the others in some order. -/
def SameItems (items items' : List Json) : Prop :=
  ∃ reordered, EquivItems items reordered ∧ reordered.Perm items'

def textPrecedes (v w : Json) : Prop := dumps v ≤ dumps w

instance : DecidableRel textPrecedes := fun v w => inferInstanceAs (Decidable (dumps v ≤ dumps w))

def sortByText (items : List Json) : List Json := items.insertionSort textPrecedes

theorem map_dumps_eq_iff {items items' : List Json} (hitems : wellFormedItems items = true)
    (hitems' : wellFormedItems items' = true) :
    items.map dumps = items'.map dumps ↔ sortItems items = sortItems items' := by
  induction items generalizing items' with
  | nil => cases items' <;> simp [sortItems]
  | cons item items ih =>
      cases items' with
      | nil => simp [sortItems]
      | cons item' items' =>
          obtain ⟨hfirst, hrest⟩ := Bool.and_eq_true_iff.mp hitems
          obtain ⟨hfirst', hrest'⟩ := Bool.and_eq_true_iff.mp hitems'
          rw [List.map_cons, List.map_cons, sortItems, sortItems, List.cons.injEq, List.cons.injEq,
            dumps_eq_iff_sortKeys hfirst hfirst', ih hrest hrest']

theorem map_dumps_sortByText (items : List Json) :
    (sortByText items).map dumps = (items.map dumps).insertionSort (· ≤ ·) :=
  List.map_insertionSort textPrecedes (· ≤ ·) dumps items fun _ _ _ _ => Iff.rfl

/-- Sorted by their texts, the items of two lists are equivalent exactly if they are in some order. -/
theorem sortItems_sortByText_iff {items items' : List Json} (hitems : ∀ item ∈ items, item.IsProper)
    (hitems' : ∀ item ∈ items', item.IsProper) :
    sortItems (sortByText items) = sortItems (sortByText items') ↔ SameItems items items' := by
  have hwell : ∀ {l : List Json}, (∀ item ∈ l, item.IsProper) → wellFormedItems l = true :=
    fun hl => wellFormedItems_iff.mpr fun item hitem => (hl item hitem).wellFormed
  have hsorted : ∀ {l : List Json}, (∀ item ∈ l, item.IsProper) → wellFormedItems (sortByText l) = true :=
    fun hl => hwell fun item hitem => hl item ((List.perm_insertionSort textPrecedes _).mem_iff.mp hitem)
  rw [← map_dumps_eq_iff (hsorted hitems) (hsorted hitems'), map_dumps_sortByText, map_dumps_sortByText]
  have hdistinct : distinctItems items = true :=
    distinctItems_iff.mpr fun item hitem => (hitems item hitem).distinct
  constructor
  · intro hsame
    have hperm := List.perm_insertionSort (· ≤ ·) (items.map dumps)
    rw [hsame] at hperm
    obtain ⟨reordered, hmap, hreordered⟩ :=
      exists_perm_of_map_perm (hperm.symm.trans (List.perm_insertionSort (· ≤ ·) (items'.map dumps)))
    have hwellReordered := hwell fun item hitem => hitems' item (hreordered.mem_iff.mp hitem)
    refine ⟨reordered, equivItems_of_sortItems_eq items reordered ?_, hreordered⟩
    exact (map_dumps_eq_iff (hwell hitems) hwellReordered).mp hmap
  · rintro ⟨reordered, hequiv, hreordered⟩
    have hwellReordered := hwell fun item hitem => hitems' item (hreordered.mem_iff.mp hitem)
    have hmap := (map_dumps_eq_iff (hwell hitems) hwellReordered).mpr
      (EquivItems.sortItems_eq items reordered hequiv hdistinct)
    rw [hmap]
    refine List.Perm.eq_of_pairwise' (List.pairwise_insertionSort (· ≤ ·) _)
      (List.pairwise_insertionSort (· ≤ ·) _) ?_
    exact ((List.perm_insertionSort _ _).trans (hreordered.map dumps)).trans
      (List.perm_insertionSort _ _).symm

end Json
