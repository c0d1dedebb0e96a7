import Mathlib.Data.Rat.Lemmas
import CoreMesh.Cache.Request
import CoreMesh.Lib.KeyedList

/-!
# Parameters

The parameters of a request as JSON values, in which a number is exact and an object is a map, and what
the decoder makes of them: numbers are rounded to float64s, and a field with one out of range is left out.
-/

namespace CoreMesh.Cache

open KeyedList

/-- The number a literal stands for. -/
def numberValue (literal : String) : ℚ :=
  let d := Json.decimal literal
  (if d.negative then -1 else 1) * (d.mantissa : ℚ) * (10 : ℚ) ^ d.exponent

mutual

/-- The value a text stands for. -/
def exactValue : Json → GoValue ℚ
  | .null => .null
  | .bool value => .bool value
  | .num literal => .float64 (numberValue literal)
  | .str value => .string value
  | .arr items => .slice (exactItems items)
  | .obj members => .map (exactMembers members)

def exactItems : List Json → List (GoValue ℚ)
  | [] => []
  | item :: rest => exactValue item :: exactItems rest

def exactMembers : List (String × Json) → List (String × GoValue ℚ)
  | [] => []
  | (key, item) :: rest => insertMissing key (exactValue item) (exactMembers rest)

end

/-- The requests have the same parameters, with the same values. -/
def SameParameters (r r' : Request) : Prop :=
  ∀ key ∉ excludedFields, (r.fields.lookup key).map exactValue = (r'.fields.lookup key).map exactValue

/-- The requests have the same parameters to the decoder: numbers are rounded, and a parameter with a
number out of range is none. -/
def SameDecoded (floats : FloatCodec) (r r' : Request) : Prop :=
  ∀ key ∉ excludedFields,
    (r.fields.lookup key).bind (decode floats) = (r'.fields.lookup key).bind (decode floats)

/-! ### The fields of a request -/

/-- What is hashed of a field. -/
def decodeParameter (floats : FloatCodec) (key : String) (raw : Json) :
    Option (GoValue floats.Value) :=
  if key ∈ excludedFields then none else decode floats raw

theorem normalized_eq_filterMap (floats : FloatCodec) (fields : List (String × Json)) :
    normalized floats excludedFields fields = fields.filterMap fun entry =>
      (decodeParameter floats entry.1 entry.2).map fun value => (entry.1, value) := by
  refine List.filterMap_congr fun entry _ => ?_
  by_cases hkey : entry.1 ∈ excludedFields <;> simp [decodeParameter, hkey]

theorem lookup_normalized (floats : FloatCodec) (r : Request) (key : String) :
    (normalized floats excludedFields r.fields).lookup key =
      (r.fields.lookup key).bind (decodeParameter floats key) := by
  rw [normalized_eq_filterMap]
  exact lookup_filterMap (sorted_fields r) (decodeParameter floats) key

theorem sorted_normalized (floats : FloatCodec) (r : Request) :
    Sorted (normalized floats excludedFields r.fields) := by
  rw [normalized_eq_filterMap]
  refine sorted_filterMap (sorted_fields r) fun entry entry' hentry => ?_
  obtain ⟨value, -, rfl⟩ := Option.map_eq_some_iff.mp hentry
  rfl

/-- The hashed fields are the same exactly if they are so one by one. -/
theorem normalized_eq_iff {floats : FloatCodec} {r r' : Request} :
    normalized floats excludedFields r.fields = normalized floats excludedFields r'.fields ↔
      SameDecoded floats r r' := by
  have hdecode : ∀ key ∉ excludedFields, decodeParameter floats key = decode floats :=
    fun key hkey => funext fun raw => if_neg hkey
  constructor
  · intro heq key hkey
    have hboth := congrArg (List.lookup key) heq
    rwa [lookup_normalized, lookup_normalized, hdecode key hkey] at hboth
  · intro hsame
    refine ext (sorted_normalized floats r) (sorted_normalized floats r') fun key => ?_
    rw [lookup_normalized, lookup_normalized]
    by_cases hkey : key ∈ excludedFields
    · have hskip : decodeParameter floats key = fun _ => none := funext fun raw => if_pos hkey
      rw [hskip, Option.bind_fun_none, Option.bind_fun_none]
    · rw [hdecode key hkey]
      exact hsame key hkey

/-! ### Numbers that a float64 holds -/

section Held

variable (floats : FloatCodec)

mutual

/-- Every number is written again as the decimal it is. -/
def Held : Json → Prop
  | .num literal => ∃ f, floats.parseFloat literal = some f ∧
      numberValue (String.ofList (floats.format f)) = numberValue literal
  | .arr items => HeldItems items
  | .obj members => HeldMembers members
  | _ => True

def HeldItems : List Json → Prop
  | [] => True
  | item :: rest => Held item ∧ HeldItems rest

def HeldMembers : List (String × Json) → Prop
  | [] => True
  | (_, item) :: rest => Held item ∧ HeldMembers rest

end

mutual

/-- A decoded value, with each float as the decimal it is written as. -/
def written : GoValue floats.Value → GoValue ℚ
  | .null => .null
  | .bool value => .bool value
  | .float64 value => .float64 (numberValue (String.ofList (floats.format value)))
  | .string value => .string value
  | .slice items => .slice (writtenItems items)
  | .map entries => .map (writtenEntries entries)

def writtenItems : List (GoValue floats.Value) → List (GoValue ℚ)
  | [] => []
  | item :: rest => written item :: writtenItems rest

def writtenEntries : List (String × GoValue floats.Value) → List (String × GoValue ℚ)
  | [] => []
  | (key, value) :: rest => (key, written value) :: writtenEntries rest

end

variable {floats}

theorem writtenEntries_insertMissing (key : String) (value : GoValue floats.Value)
    (entries : List (String × GoValue floats.Value)) :
    writtenEntries floats (insertMissing key value entries) =
      insertMissing key (written floats value) (writtenEntries floats entries) := by
  induction entries with
  | nil => rfl
  | cons head rest ih =>
      obtain ⟨k, v⟩ := head
      rw [writtenEntries]
      unfold insertMissing
      split
      · rw [writtenEntries]
      · split
        · rw [writtenEntries, writtenEntries]
        · rw [writtenEntries, ih]

mutual

/-- Nothing is lost of a value whose numbers are held. -/
theorem decode_of_held : ∀ json, Held floats json →
    ∃ value, decode floats json = some value ∧ written floats value = exactValue json
  | .null, _ => ⟨.null, by rw [decode], by rw [written, exactValue]⟩
  | .bool value, _ => ⟨.bool value, by rw [decode], by rw [written, exactValue]⟩
  | .num literal, hheld => by
      rw [Held] at hheld
      obtain ⟨f, hparse, hvalue⟩ := hheld
      exact ⟨.float64 f, by rw [decode, hparse, Option.map_some], by rw [written, exactValue, hvalue]⟩
  | .str value, _ => ⟨.string value, by rw [decode], by rw [written, exactValue]⟩
  | .arr items, hheld => by
      rw [Held] at hheld
      obtain ⟨values, hdecode, hwritten⟩ := decodeItems_of_held items hheld
      exact ⟨.slice values, by rw [decode, hdecode, Option.map_some], by rw [written, exactValue, hwritten]⟩
  | .obj members, hheld => by
      rw [Held] at hheld
      obtain ⟨entries, hdecode, hwritten⟩ := decodeMembers_of_held members hheld
      exact ⟨.map entries, by rw [decode, hdecode, Option.map_some], by rw [written, exactValue, hwritten]⟩

theorem decodeItems_of_held : ∀ items, HeldItems floats items →
    ∃ values, decodeItems floats items = some values ∧ writtenItems floats values = exactItems items
  | [], _ => ⟨[], by rw [decodeItems], by rw [writtenItems, exactItems]⟩
  | item :: rest, hheld => by
      rw [HeldItems] at hheld
      obtain ⟨value, hvalue, hwritten⟩ := decode_of_held item hheld.1
      obtain ⟨values, hvalues, hrest⟩ := decodeItems_of_held rest hheld.2
      exact ⟨value :: values, by rw [decodeItems, hvalue, hvalues]; rfl,
        by rw [writtenItems, exactItems, hwritten, hrest]⟩

theorem decodeMembers_of_held : ∀ members, HeldMembers floats members →
    ∃ entries, decodeMembers floats members = some entries ∧
      writtenEntries floats entries = exactMembers members
  | [], _ => ⟨[], by rw [decodeMembers], by rw [writtenEntries, exactMembers]⟩
  | (key, item) :: rest, hheld => by
      rw [HeldMembers] at hheld
      obtain ⟨value, hvalue, hwritten⟩ := decode_of_held item hheld.1
      obtain ⟨entries, hentries, hrest⟩ := decodeMembers_of_held rest hheld.2
      exact ⟨insertMissing key value entries, by rw [decodeMembers, hvalue, hentries]; rfl,
        by rw [writtenEntries_insertMissing, exactMembers, hwritten, hrest]⟩

end

/-- Each parameter of the one request that a float64 holds is one of the other, and with the same value if
that is held as well. -/
def KeepsParameters (floats : FloatCodec) (r r' : Request) : Prop :=
  ∀ key ∉ excludedFields, ∀ json, r.fields.lookup key = some json → Held floats json →
    ∃ json', r'.fields.lookup key = some json' ∧ (Held floats json' → exactValue json' = exactValue json)

theorem SameDecoded.symm {r r' : Request} (hsame : SameDecoded floats r r') : SameDecoded floats r' r :=
  fun key hkey => (hsame key hkey).symm

theorem SameDecoded.keepsParameters {r r' : Request} (hsame : SameDecoded floats r r') :
    KeepsParameters floats r r' := by
  intro key hkey json hjson hheld
  obtain ⟨value, hdecode, hwritten⟩ := decode_of_held json hheld
  have hboth := hsame key hkey
  rw [hjson, Option.bind_some, hdecode] at hboth
  obtain ⟨json', hjson', hdecode'⟩ := Option.bind_eq_some_iff.mp hboth.symm
  refine ⟨json', hjson', fun hheld' => ?_⟩
  obtain ⟨value', hdecode'', hwritten'⟩ := decode_of_held json' hheld'
  obtain rfl : value = value' := Option.some.inj (hdecode'.symm.trans hdecode'')
  exact hwritten'.symm.trans hwritten

end Held

end CoreMesh.Cache
