import Mathlib.Data.List.Basic
import Mathlib.Tactic.Common

/-!
# Replacing ranges of a list

Ranges that are in order and apart are replaced all at once. Replaced one by one from the last to the first
they come to the same, since each range is where it was as long as only later ones have been replaced.
-/

namespace Substitution

variable {α : Type*}

/-- A range of a list and what is to stand there. -/
structure Edit (α : Type*) where
  start : Nat
  stop : Nat
  content : List α

def replace (l : List α) (edit : Edit α) : List α := l.take edit.start ++ edit.content ++ l.drop edit.stop

/-- The list from an offset on, with all ranges replaced. -/
def simultaneous (l : List α) : Nat → List (Edit α) → List α
  | offset, [] => l.drop offset
  | offset, edit :: edits =>
      (l.take edit.start).drop offset ++ edit.content ++ simultaneous l edit.stop edits

/-- Ranges of a list, in order and apart. -/
structure Apart (l : List α) (edits : List (Edit α)) : Prop where
  ordered : edits.Pairwise fun edit later => edit.stop ≤ later.start
  within : ∀ edit ∈ edits, edit.start ≤ edit.stop ∧ edit.stop ≤ l.length

variable {l : List α} {edit : Edit α} {edits : List (Edit α)}

theorem Apart.tail (hapart : Apart l (edit :: edits)) : Apart l edits :=
  ⟨(List.pairwise_cons.mp hapart.ordered).2, (List.forall_mem_cons.mp hapart.within).2⟩

theorem Apart.stop_le (hapart : Apart l (edit :: edits)) : ∀ later ∈ edits, edit.stop ≤ later.start :=
  (List.pairwise_cons.mp hapart.ordered).1

/-- What is in front of all ranges stays. -/
theorem simultaneous_eq_append {offset k : Nat} (hoffset : offset ≤ k)
    (hk : ∀ edit ∈ edits, k ≤ edit.start) :
    simultaneous l offset edits = (l.take k).drop offset ++ simultaneous l k edits := by
  cases edits with
  | nil =>
      rw [simultaneous, simultaneous, List.drop_take, ← Nat.add_sub_cancel' hoffset, ← List.drop_drop,
        Nat.add_sub_cancel_left, List.take_append_drop]
  | cons edit edits =>
      have hstart := hk edit List.mem_cons_self
      have hparts : (l.take edit.start).drop offset =
          (l.take k).drop offset ++ (l.take edit.start).drop k := by
        have hcut := List.take_append_drop (k - offset) ((l.take edit.start).drop offset)
        rw [List.drop_drop, Nat.add_sub_cancel' hoffset, ← List.drop_take, List.take_take,
          Nat.min_eq_left hstart] at hcut
        exact hcut.symm
      rw [simultaneous, simultaneous, hparts]
      simp only [List.append_assoc]

/-- From the last range to the first. -/
theorem foldr_replace (hapart : Apart l edits) :
    edits.foldr (fun edit rest => replace rest edit) l = simultaneous l 0 edits := by
  induction edits with
  | nil => rfl
  | cons edit edits ih =>
      obtain ⟨hle, hlength⟩ := hapart.within edit List.mem_cons_self
      have hlater := simultaneous_eq_append (l := l) (Nat.zero_le edit.stop) hapart.stop_le
      have hfront : (l.take edit.stop).length = edit.stop := List.length_take_of_le hlength
      rw [List.foldr_cons, ih hapart.tail, hlater, List.drop_zero, replace, simultaneous, List.drop_zero,
        List.take_append_of_le_length (by omega), List.take_take, Nat.min_eq_left hle,
        List.drop_left' hfront]

/-- A range is where it was once all later ones have been replaced. -/
theorem slice_foldr_replace (hapart : Apart l (edit :: edits)) :
    ((edits.foldr (fun edit rest => replace rest edit) l).take edit.stop).drop edit.start =
      (l.take edit.stop).drop edit.start := by
  obtain ⟨-, hlength⟩ := hapart.within edit List.mem_cons_self
  rw [foldr_replace hapart.tail, simultaneous_eq_append (Nat.zero_le edit.stop) hapart.stop_le,
    List.drop_zero, List.take_left' (List.length_take_of_le hlength)]

end Substitution
