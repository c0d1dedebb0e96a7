import Mathlib.Tactic.Common

/-!
# The first element of a stable sort

Sorting a list that is in order already by another relation orders it by the two in turn, the new one
first: what comes out first is least in that order.
-/

namespace StableSort

universe u

variable {α : Type u}

/-- Two elements of a list stand in it in one order or the other. -/
theorem pair_sublist {l : List α} {a b : α} (ha : a ∈ l) (hb : b ∈ l) (hne : a ≠ b) :
    List.Sublist [a, b] l ∨ List.Sublist [b, a] l := by
  induction l with
  | nil => cases ha
  | cons c rest ih =>
      rcases List.mem_cons.mp ha with rfl | harest
      · rcases List.mem_cons.mp hb with rfl | hbrest
        · exact absurd rfl hne
        · exact .inl (.cons_cons _ (List.singleton_sublist.mpr hbrest))
      · rcases List.mem_cons.mp hb with rfl | hbrest
        · exact .inr (.cons_cons _ (List.singleton_sublist.mpr harest))
        · rcases ih harest hbrest with h | h
          · exact .inl (.cons _ h)
          · exact .inr (.cons _ h)

theorem head_mergeSort {le : α → α → Bool} (htrans : ∀ a b c, le a b → le b c → le a c)
    (htotal : ∀ a b, le a b || le b a) {R : α → α → Prop} {l rest : List α} {first : α}
    (hnodup : l.Nodup) (hsorted : l.Pairwise R) (hhead : l.mergeSort le = first :: rest) :
    first ∈ l ∧ ∀ e ∈ l, le first e = true ∧ (e ≠ first → le e first = true → R first e) := by
  have hperm := List.mergeSort_perm l le
  rw [hhead] at hperm
  have hmem : first ∈ l := hperm.mem_iff.mp List.mem_cons_self
  have hleast := List.pairwise_mergeSort htrans htotal l
  rw [hhead] at hleast
  refine ⟨hmem, fun e he => ⟨?_, fun hne hle => ?_⟩⟩
  · rcases List.mem_cons.mp (hperm.mem_iff.mpr he) with rfl | hrest
    · simpa using htotal e e
    · exact (List.pairwise_cons.mp hleast).1 e hrest
  · rcases pair_sublist he hmem hne with hbefore | hafter
    · -- A stable sort would have left the element before the first one.
      have hkept := List.pair_sublist_mergeSort htrans htotal hle hbefore
      rw [hhead] at hkept
      have hrest : List.Sublist [e, first] rest := by
        cases hkept with
        | cons _ h => exact h
        | cons_cons _ h => exact absurd rfl hne
      have hagain : first ∈ rest := hrest.subset (by simp)
      exact absurd hagain (List.nodup_cons.mp (hperm.nodup_iff.mpr hnodup)).1
    · exact (List.pairwise_cons.mp (hsorted.sublist hafter)).1 e (List.mem_singleton_self e)

end StableSort
