import Mathlib.Data.List.Basic
import Mathlib.Data.Rat.Defs
import Mathlib.Tactic.Common

/-!
# Values of the graph state

What tools return and sessions carry, and `_json_ready`, which makes plain data of it whenever the
state passes from one node to the next.
-/

namespace CoreMesh.Agents

/-- A value as `_json_ready` tells values apart. A dictionary has strings for keys. -/
inductive PyValue where
  | none
  | bool (value : Bool)
  | int (value : ℤ)
  | float (value : ℚ)
  | str (value : String)
  | bytes (data : List UInt8)
  | path (value : String)
  | enum (value : String)
  /-- A tuple, a list or a set. -/
  | list (items : List PyValue)
  | dict (entries : List (String × PyValue))
  /-- A model or a data class. -/
  | record (fields : List (String × PyValue))
  /-- An object of another class, which has no length, no items and no value as a number. -/
  | other (className : String)

namespace PyValue

abbrev Dict := List (String × PyValue)

def get (entries : Dict) (key : String) : Option PyValue :=
  (entries.find? fun entry => entry.1 == key).map Prod.snd

/-- `pop` without the value. -/
def pop (entries : Dict) (key : String) : Dict := entries.filter fun entry => entry.1 != key

def set (entries : Dict) (key : String) (value : PyValue) : Dict :=
  match entries with
  | [] => [(key, value)]
  | (name, old) :: rest =>
      if name = key then (key, value) :: rest else (name, old) :: set rest key value

def truthy : PyValue → Bool
  | none => false
  | bool value => value
  | int value => value != 0
  | float value => value != 0
  | str value => value != ""
  | bytes data => !data.isEmpty
  | path _ => true
  | enum value => value != ""
  | list items => !items.isEmpty
  | dict entries => !entries.isEmpty
  | record _ => true
  | other _ => true

/-- The entry of a dictionary, or the default where it is missing or falsy. -/
def getOr (entries : Dict) (key : String) (default : PyValue) : PyValue :=
  match get entries key with
  | some value => if truthy value then value else default
  | Option.none => default

def typeName : PyValue → String
  | none => "NoneType"
  | bool _ => "bool"
  | int _ => "int"
  | float _ => "float"
  | str _ => "str"
  | bytes _ => "bytes"
  | path _ => "PosixPath"
  | enum _ => "Enum"
  | list _ => "list"
  | dict _ => "dict"
  | record _ => "BaseModel"
  | other className => className

mutual

def jsonReady : PyValue → PyValue
  | record fields => dict (jsonReadyEntries fields)
  | enum value => str value
  | dict entries => dict (jsonReadyEntries entries)
  | list items => list (jsonReadyItems items)
  | bytes data => str ("<" ++ toString data.length ++ " bytes>")
  | path value => str value
  | none => none
  | bool value => bool value
  | int value => int value
  | float value => float value
  | str value => str value
  | other className => other className

def jsonReadyEntries : List (String × PyValue) → List (String × PyValue)
  | [] => []
  | (key, value) :: rest => (key, jsonReady value) :: jsonReadyEntries rest

def jsonReadyItems : List PyValue → List PyValue
  | [] => []
  | value :: rest => jsonReady value :: jsonReadyItems rest

end

mutual

theorem jsonReady_jsonReady : ∀ value : PyValue, jsonReady (jsonReady value) = jsonReady value
  | record fields => by simp only [jsonReady, jsonReadyEntries_jsonReadyEntries fields]
  | dict entries => by simp only [jsonReady, jsonReadyEntries_jsonReadyEntries entries]
  | list items => by simp only [jsonReady, jsonReadyItems_jsonReadyItems items]
  | enum _ | bytes _ | path _ | none | bool _ | int _ | float _ | str _ | other _ => by
      simp only [jsonReady]

theorem jsonReadyEntries_jsonReadyEntries :
    ∀ entries : List (String × PyValue),
      jsonReadyEntries (jsonReadyEntries entries) = jsonReadyEntries entries
  | [] => rfl
  | (key, value) :: rest => by
      simp only [jsonReadyEntries, jsonReady_jsonReady value, jsonReadyEntries_jsonReadyEntries rest]

theorem jsonReadyItems_jsonReadyItems :
    ∀ items : List PyValue, jsonReadyItems (jsonReadyItems items) = jsonReadyItems items
  | [] => rfl
  | value :: rest => by
      simp only [jsonReadyItems, jsonReady_jsonReady value, jsonReadyItems_jsonReadyItems rest]

end

theorem get_jsonReadyEntries (entries : Dict) (key : String) :
    get (jsonReadyEntries entries) key = (get entries key).map jsonReady := by
  induction entries with
  | nil => rfl
  | cons entry rest ih =>
      obtain ⟨name, value⟩ := entry
      unfold get at ih ⊢
      rw [jsonReadyEntries, List.find?_cons, List.find?_cons]
      cases hname : name == key with
      | true => rfl
      | false => exact ih

theorem get_cons (name : String) (value : PyValue) (rest : Dict) (key : String) :
    get ((name, value) :: rest) key = if key = name then some value else get rest key := by
  unfold get
  by_cases hname : key = name
  · rw [if_pos hname, List.find?_cons_of_pos (by simp [hname])]
    rfl
  · rw [if_neg hname, List.find?_cons_of_neg (by simp [Ne.symm hname])]

theorem get_pop (entries : Dict) (key other : String) :
    get (pop entries key) other = if other = key then Option.none else get entries other := by
  induction entries with
  | nil => exact (ite_self _).symm
  | cons entry rest ih =>
      obtain ⟨name, value⟩ := entry
      unfold pop at ih ⊢
      by_cases hname : name = key
      · rw [List.filter_cons_of_neg (by simp [hname]), ih, get_cons, hname]
        by_cases hother : other = key <;> simp [hother]
      · rw [List.filter_cons_of_pos (by simp [hname]), get_cons, ih, get_cons]
        by_cases hother : other = name
        · simp [hother, hname]
        · simp [hother]

theorem get_set (entries : Dict) (key : String) (value : PyValue) (other : String) :
    get (set entries key value) other = if other = key then some value else get entries other := by
  induction entries with
  | nil => rw [set, get_cons]
  | cons entry rest ih =>
      obtain ⟨name, old⟩ := entry
      rw [set]
      by_cases hname : name = key
      · rw [if_pos hname, get_cons, get_cons, hname]
        by_cases hother : other = key <;> simp [hother]
      · rw [if_neg hname, get_cons, get_cons, ih]
        by_cases hother : other = name
        · simp [hother, hname]
        · simp [hother]

end PyValue

end CoreMesh.Agents
