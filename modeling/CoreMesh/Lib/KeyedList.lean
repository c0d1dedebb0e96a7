import Mathlib.Data.List.Sort
import Mathlib.Order.Basic
import Mathlib.Tactic.Common

/-!
# Maps as sorted lists of entries

A finite map is the list of its entries by strictly increasing key, so that equality of the lists is
equality of the maps.
-/

namespace KeyedList

universe u v w

variable {K : Type u} {V : Type v} {W : Type w}

theorem lookup_cons [DecidableEq K] (key k : K) (value : V) (rest : List (K × V)) :
    ((k, value) :: rest).lookup key = if key = k then some value else rest.lookup key := by
  by_cases hkey : key = k
  · rw [if_pos hkey, hkey, List.lookup_cons_self]
  · have hskip : (key == k) = false := by simpa using hkey
    rw [if_neg hkey, List.lookup_cons, hskip]

theorem lookup_map [DecidableEq K] (keys : List K) (f : K → V) (key : K) :
    (keys.map fun other => (other, f other)).lookup key = if key ∈ keys then some (f key) else none := by
  induction keys with
  | nil => rfl
  | cons other keys ih =>
      rw [List.map_cons, lookup_cons, ih]
      by_cases hkey : key = other
      · rw [if_pos hkey, if_pos (List.mem_cons.mpr (.inl hkey)), hkey]
      · simp [hkey]

variable [LinearOrder K]

def Sorted (entries : List (K × V)) : Prop := entries.Pairwise fun a b => a.1 < b.1

theorem lookup_eq_some_iff {entries : List (K × V)} (hsorted : Sorted entries) {key : K} {value : V} :
    entries.lookup key = some value ↔ (key, value) ∈ entries := by
  induction entries with
  | nil => simp
  | cons head rest ih =>
      obtain ⟨k, v⟩ := head
      obtain ⟨hleast, hrest⟩ := List.pairwise_cons.mp hsorted
      rw [lookup_cons]
      by_cases hkey : key = k
      · subst hkey
        have hfresh : (key, value) ∉ rest := fun hmem => lt_irrefl key (hleast _ hmem)
        simp [hfresh, eq_comm]
      · simp [hkey, ih hrest]

/-- Entries by key with the same values are the same entries. -/
theorem ext {entries entries' : List (K × V)} (hsorted : Sorted entries) (hsorted' : Sorted entries')
    (hlookup : ∀ key, entries.lookup key = entries'.lookup key) : entries = entries' := by
  have : Std.Irrefl fun a b : K × V => a.1 < b.1 := ⟨fun a => lt_irrefl a.1⟩
  have : Std.Asymm fun a b : K × V => a.1 < b.1 := ⟨fun _ _ => lt_asymm⟩
  refine List.Pairwise.eq_of_mem_iff hsorted hsorted' fun entry => ?_
  rw [← lookup_eq_some_iff hsorted, ← lookup_eq_some_iff hsorted', hlookup]

/-- Keeping some entries, with other values. -/
theorem sorted_filterMap {entries : List (K × V)} (hsorted : Sorted entries) {f : K × V → Option (K × W)}
    (hkey : ∀ entry entry', f entry = some entry' → entry'.1 = entry.1) :
    Sorted (entries.filterMap f) := by
  refine List.Pairwise.filterMap f (fun a b hlt a' ha b' hb => ?_) hsorted
  rw [hkey a a' ha, hkey b b' hb]
  exact hlt

theorem lookup_filterMap {entries : List (K × V)} (hsorted : Sorted entries)
    (f : K → V → Option W) (key : K) :
    (entries.filterMap fun entry => (f entry.1 entry.2).map fun value => (entry.1, value)).lookup key =
      (entries.lookup key).bind (f key) := by
  induction entries with
  | nil => rfl
  | cons head rest ih =>
      obtain ⟨k, v⟩ := head
      obtain ⟨hleast, hrest⟩ := List.pairwise_cons.mp hsorted
      rw [lookup_cons]
      by_cases hkey : key = k
      · subst hkey
        have hfresh : rest.lookup key = none :=
          List.lookup_eq_none_iff.mpr fun entry hmem => by simpa using (hleast entry hmem).ne
        cases hvalue : f key v with
        | none => simp [hvalue, ih hrest, hfresh]
        | some value => simp [hvalue]
      · cases hvalue : f k v with
        | none => simp [hvalue, ih hrest, hkey]
        | some value => simp [hvalue, ih hrest, lookup_cons, hkey]

end KeyedList
