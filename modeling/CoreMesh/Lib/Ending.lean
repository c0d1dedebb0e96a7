import Mathlib.Data.List.Basic
import Mathlib.Tactic.Common

/-!
# Computations that may not end

A computation with loops of its own gives a value, fails, or goes on for ever. With a bound on the
rounds of its loops the last has no outcome. A computation ends if it has one, a failure or not.
-/

namespace Outcome

universe u

variable {ε α β γ : Type u}

/-- Without an outcome the computation is still in one of its loops. -/
abbrev Loops (ε α : Type u) := ExceptT ε Option α

namespace Loops

/-- A computation without a loop. -/
def raising (outcome : Except ε α) : Loops ε α := ExceptT.mk (some outcome)

/-- A loop that cannot fail. -/
def looping (outcome : Option α) : Loops ε α := ExceptT.mk (outcome.map .ok)

end Loops

open Loops

def Ends (c : Loops ε α) : Prop := ∃ outcome, c.run = some outcome

@[simp] theorem ends_pure (value : α) : Ends (pure value : Loops ε α) := ⟨.ok value, rfl⟩

@[simp] theorem ends_raising (outcome : Except ε α) : Ends (raising outcome) := ⟨outcome, rfl⟩

@[simp] theorem ends_looping {outcome : Option α} :
    Ends (looping outcome : Loops ε α) ↔ ∃ value, outcome = some value := by
  constructor
  · intro hends
    obtain ⟨result, hresult⟩ := hends
    obtain ⟨value, hvalue, -⟩ := Option.map_eq_some_iff.mp hresult
    exact ⟨value, hvalue⟩
  · intro hsome
    obtain ⟨value, rfl⟩ := hsome
    exact ⟨.ok value, rfl⟩

theorem ends_bind_iff {c : Loops ε α} {rest : α → Loops ε β} :
    Ends (c >>= rest) ↔ Ends c ∧ ∀ value, c.run = some (.ok value) → Ends (rest value) := by
  unfold Ends
  rw [ExceptT.run_bind]
  cases hc : c.run with
  | none => simp
  | some outcome =>
      cases outcome with
      | error raised => simp
      | ok value => simp

@[simp] theorem ends_raising_bind {outcome : Except ε α} {rest : α → Loops ε β} :
    Ends (raising outcome >>= rest) ↔ ∀ value, outcome = .ok value → Ends (rest value) := by
  rw [ends_bind_iff]
  constructor
  · intro hends value hvalue
    exact hends.2 value (by rw [hvalue]; rfl)
  · intro hends
    exact ⟨ends_raising outcome, fun value hvalue => hends value (Option.some.inj hvalue)⟩

@[simp] theorem ends_looping_bind {outcome : Option α} {rest : α → Loops ε β} :
    Ends (looping outcome >>= rest) ↔ ∃ value, outcome = some value ∧ Ends (rest value) := by
  rw [ends_bind_iff, ends_looping]
  cases outcome with
  | none => simp
  | some value =>
      constructor
      · intro hends
        exact ⟨value, rfl, hends.2 value rfl⟩
      · intro hends
        obtain ⟨value', hvalue', hrest⟩ := hends
        obtain rfl := Option.some.inj hvalue'
        refine ⟨⟨value, rfl⟩, fun value' hvalue' => ?_⟩
        obtain rfl := Except.ok.inj (Option.some.inj hvalue')
        exact hrest

theorem mapM_eq_some_iff {f : α → Option β} {l : List α} {results : List β} :
    l.mapM f = some results ↔ (∀ a ∈ l, ∃ b, f a = some b) ∧ results = l.filterMap f := by
  induction l generalizing results with
  | nil => simp [eq_comm]
  | cons a rest ih =>
      rw [List.mapM_cons, List.forall_mem_cons]
      cases ha : f a with
      | none => simp
      | some b =>
          rw [List.filterMap_cons_some ha]
          constructor
          · intro hresults
            rw [Option.bind_eq_bind, Option.bind_some] at hresults
            obtain ⟨others, hothers, hcons⟩ := Option.bind_eq_some_iff.mp hresults
            obtain ⟨hrest, rfl⟩ := ih.mp hothers
            exact ⟨⟨⟨b, rfl⟩, hrest⟩, (Option.some.inj hcons).symm⟩
          · intro hall
            obtain ⟨⟨-, hrest⟩, rfl⟩ := hall
            rw [ih.mpr ⟨hrest, rfl⟩]
            rfl

theorem mapM_eq_some_iff_forall₂ {f : α → Option β} {l : List α} {results : List β} :
    l.mapM f = some results ↔ List.Forall₂ (fun a b => f a = some b) l results := by
  constructor
  · intro hsome
    induction l generalizing results with
    | nil =>
        obtain rfl := Option.some.inj hsome
        exact .nil
    | cons a l ih =>
        rw [List.mapM_cons] at hsome
        obtain ⟨first, hfirst, hsome⟩ := Option.bind_eq_some_iff.mp hsome
        obtain ⟨others, hothers, hsome⟩ := Option.bind_eq_some_iff.mp hsome
        obtain rfl := Option.some.inj hsome
        exact .cons hfirst (ih hothers)
  · intro hall
    induction hall with
    | nil => rfl
    | cons hfirst _ ih => rw [List.mapM_cons, hfirst, ih]; rfl

/-- A loop for each element, of which the first that is not ready ends them all. -/
theorem ends_mapM_iff {ready : α → Except ε β} {walk : α → Option γ} {l : List α} :
    Ends (l.mapM fun a => do
        let value ← raising (ready a)
        let walked ← looping (walk a)
        return (value, walked) : Loops ε (List (β × γ))) ↔
      ∀ a ∈ l.takeWhile fun a => (ready a).isOk, ∃ walked, walk a = some walked := by
  induction l with
  | nil => simp
  | cons a rest ih =>
      rw [List.mapM_cons, bind_assoc]
      cases hready : ready a with
      | error raised => simp [hready, Except.isOk, Except.toBool]
      | ok value =>
          have htake : (a :: rest).takeWhile (fun a => (ready a).isOk) =
              a :: rest.takeWhile fun a => (ready a).isOk :=
            List.takeWhile_cons_of_pos (by rw [hready]; rfl)
          have hrest (value : β × γ) (others : Loops ε (List (β × γ))) :
              Ends (others >>= fun values => pure (value :: values)) ↔ Ends others := by
            rw [ends_bind_iff]
            simp
          rw [htake, List.forall_mem_cons, ← ih]
          simp only [bind_assoc, pure_bind, ends_raising_bind, ends_looping_bind, hrest,
            Except.ok.injEq, forall_eq', exists_and_right]

end Outcome
