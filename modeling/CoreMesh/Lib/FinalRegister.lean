import Mathlib.Data.List.Induction
import Mathlib.Tactic.Common

/-!
# Registers with final values

A register takes every value written to it, but keeps a final value when one that is not final is
written. So it holds the last final value, or the last value as long as none was final, and the order in
which final and other values are written does not matter.
-/

namespace FinalRegister

universe u

variable {α : Type u} (final : α → Bool)

def write (value : Option α) (new : α) : α :=
  match value with
  | none => new
  | some old => if final old && !final new then old else new

/-- What an empty register holds after some writes. -/
def writes (vs : List α) : Option α := vs.foldl (fun value new => some (write final value new)) none

variable {final}

theorem writes_concat (vs : List α) (new : α) :
    writes final (vs ++ [new]) = some (write final (writes final vs) new) := by
  unfold writes
  rw [List.foldl_append, List.foldl_cons, List.foldl_nil]

theorem writes_eq (vs : List α) :
    writes final vs = (vs.filter final).getLast?.or vs.getLast? := by
  induction vs using List.reverseRecOn with
  | nil => rfl
  | append_singleton vs new ih =>
      rw [writes_concat, ih, List.filter_append, List.getLast?_append, List.getLast?_append,
        List.getLast?_singleton, Option.some_or]
      cases hnew : final new with
      | true =>
          cases hold : (vs.filter final).getLast?.or vs.getLast? with
          | none => simp [write, hnew]
          | some old => simp [write, hnew]
      | false =>
          cases hlast : (vs.filter final).getLast? with
          | none =>
              have hnone : vs.filter final = [] := List.getLast?_eq_none_iff.mp hlast
              have hpending : ∀ old, vs.getLast? = some old → final old = false := by
                intro old hold
                simpa using List.filter_eq_nil_iff.mp hnone old (List.mem_of_getLast? hold)
              cases hold : vs.getLast? with
              | none => simp [write, hnew]
              | some old => simp [write, hnew, hpending old hold]
          | some old =>
              have hfinal : final old = true := (List.mem_filter.mp (List.mem_of_getLast? hlast)).2
              simp [write, hnew, hfinal]

/-- Once a final value was written, the register holds the last one. -/
theorem writes_of_final {vs : List α} {last : α} (hlast : (vs.filter final).getLast? = some last) :
    writes final vs = some last := by
  rw [writes_eq, hlast, Option.some_or]

end FinalRegister
