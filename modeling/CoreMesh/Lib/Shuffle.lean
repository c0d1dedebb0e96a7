import Mathlib.Data.List.Nodup
import Mathlib.Tactic.Common

/-!
# Shuffling

From the last place to the second, what is there changes places with what is at a drawn place up to it.
Whatever is drawn, a list keeps its elements.
-/

namespace Shuffle

variable {α : Type*}

def exchange (l : List α) (i j : ℕ) : List α :=
  if h : i < l.length ∧ j < l.length then (l.set i (l.get ⟨j, h.2⟩)).set j (l.get ⟨i, h.1⟩) else l

theorem exchange_perm (l : List α) (i j : ℕ) : (exchange l i j).Perm l := by
  unfold exchange
  split
  · rename_i h
    exact List.set_set_perm h.1 h.2
  · exact List.Perm.refl l

/-- The places from the last one to the second. -/
def places (l : List α) : List ℕ := (List.range' 1 (l.length - 1)).reverse

def shuffle (draw : (i : ℕ) → Fin (i + 1)) (l : List α) : List α :=
  (places l).foldl (fun shuffled i => exchange shuffled i (draw i)) l

theorem shuffle_perm (draw : (i : ℕ) → Fin (i + 1)) (l : List α) : (shuffle draw l).Perm l := by
  have hfold : ∀ (is : List ℕ) (shuffled : List α), shuffled.Perm l →
      (is.foldl (fun shuffled i => exchange shuffled i (draw i)) shuffled).Perm l := by
    intro is
    induction is with
    | nil => exact fun _ hperm => hperm
    | cons i is ih =>
        intro shuffled hperm
        exact ih _ ((exchange_perm shuffled i (draw i)).trans hperm)
  exact hfold (places l) l (List.Perm.refl l)

end Shuffle
