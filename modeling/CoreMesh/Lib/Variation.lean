import Mathlib.Algebra.Order.Group.Defs
import Mathlib.Algebra.Order.Group.Unbundled.Basic
import Mathlib.Algebra.Order.Group.MinMax
import Mathlib.Tactic.Abel
import Mathlib.Tactic.Linarith

/-!
# The rise of a sequence

How far a sequence rises in all its steps together. It rises at least from its start to its peak, and no
further exactly if it first rises and then falls: after a step down every step up counts some of the way
twice.
-/

namespace Variation

variable {K : Type*}

def peak [LinearOrder K] (start : K) (xs : List K) : K := xs.foldl max start

/-- No step down is followed by a step up. -/
def RisesThenFalls [LE K] (xs : List K) : Prop :=
  ∃ up down, xs = up ++ down ∧ up.Pairwise (fun a b => a ≤ b) ∧ down.Pairwise (fun a b => b ≤ a)

section Order

variable [LinearOrder K] {start x : K} {xs : List K}

theorem peak_mem (start : K) (xs : List K) : peak start xs ∈ start :: xs := by
  unfold peak
  induction xs generalizing start with
  | nil => exact List.mem_singleton_self start
  | cons x xs ih =>
      rw [List.foldl_cons]
      obtain heq | hmem := List.mem_cons.mp (ih (max start x))
      · rw [heq]
        obtain hmax | hmax := max_choice start x
        · rw [hmax]
          exact List.mem_cons_self
        · rw [hmax]
          exact List.mem_cons_of_mem _ List.mem_cons_self
      · exact List.mem_cons_of_mem _ (List.mem_cons_of_mem _ hmem)

theorem le_peak (start : K) (xs : List K) : start ≤ peak start xs := by
  unfold peak
  induction xs generalizing start with
  | nil => exact le_rfl
  | cons x xs ih => exact (le_max_left start x).trans (ih (max start x))

theorem risesThenFalls_of_falls (hfalls : xs.Pairwise fun a b => b ≤ a) : RisesThenFalls xs :=
  ⟨[], xs, rfl, List.Pairwise.nil, hfalls⟩

theorem risesThenFalls_cons_of_le (hle : start ≤ x) :
    RisesThenFalls (start :: x :: xs) ↔ RisesThenFalls (x :: xs) := by
  constructor
  · rintro ⟨up, down, heq, hup, hdown⟩
    cases up with
    | nil =>
        rw [List.nil_append] at heq
        rw [← heq] at hdown
        exact risesThenFalls_of_falls hdown.of_cons
    | cons first up =>
        obtain ⟨-, hrest⟩ := List.cons.inj heq
        exact ⟨up, down, hrest, hup.of_cons, hdown⟩
  · rintro ⟨up, down, heq, hup, hdown⟩
    refine ⟨start :: up, down, by rw [heq, List.cons_append], ?_, hdown⟩
    refine List.pairwise_cons.mpr ⟨fun y hy => ?_, hup⟩
    cases up with
    | nil => cases hy
    | cons first up =>
        obtain ⟨rfl, -⟩ := List.cons.inj heq
        obtain rfl | hlater := List.mem_cons.mp hy
        · exact hle
        · exact hle.trans (List.rel_of_pairwise_cons hup hlater)

theorem risesThenFalls_cons_of_lt (hlt : x < start) :
    RisesThenFalls (start :: x :: xs) ↔ (x :: xs).Pairwise fun a b => b ≤ a := by
  constructor
  · rintro ⟨up, down, heq, hup, hdown⟩
    cases up with
    | nil =>
        rw [List.nil_append] at heq
        rw [← heq] at hdown
        exact hdown.of_cons
    | cons first up =>
        obtain ⟨rfl, hrest⟩ := List.cons.inj heq
        cases up with
        | nil =>
            obtain rfl : x :: xs = down := hrest
            exact hdown
        | cons second up =>
            obtain ⟨rfl, -⟩ := List.cons.inj hrest
            exact absurd (List.rel_of_pairwise_cons hup List.mem_cons_self) (not_le.mpr hlt)
  · intro hfalls
    refine risesThenFalls_of_falls (List.pairwise_cons.mpr ⟨fun y hy => ?_, hfalls⟩)
    obtain rfl | hlater := List.mem_cons.mp hy
    · exact hlt.le
    · exact (List.rel_of_pairwise_cons hfalls hlater).trans hlt.le

end Order

variable [AddCommGroup K] [LinearOrder K] [IsOrderedAddMonoid K]

/-- The steps up, from a start on. -/
def rise : K → List K → K
  | _, [] => 0
  | last, x :: xs => max 0 (x - last) + rise x xs

theorem rise_nonneg (start : K) (xs : List K) : 0 ≤ rise start xs := by
  induction xs generalizing start with
  | nil => exact le_rfl
  | cons x xs ih => exact add_nonneg (le_max_left _ _) (ih x)

/-- A sequence rises at least as far as it comes. -/
theorem sub_le_rise {start x : K} {xs : List K} (hx : x ∈ xs) : x - start ≤ rise start xs := by
  induction xs generalizing start with
  | nil => cases hx
  | cons y xs ih =>
      have hstep : y - start ≤ max 0 (y - start) := le_max_right _ _
      obtain rfl | hlater := List.mem_cons.mp hx
      · exact hstep.trans (le_add_of_nonneg_right (rise_nonneg _ _))
      · calc
          x - start = (y - start) + (x - y) := by abel
          _ ≤ max 0 (y - start) + rise y xs := add_le_add hstep (ih hlater)

theorem rise_le_zero_iff {start : K} {xs : List K} :
    rise start xs ≤ 0 ↔ (start :: xs).Pairwise fun a b => b ≤ a := by
  constructor
  · intro hrise
    induction xs generalizing start with
    | nil => exact List.pairwise_singleton _ _
    | cons x xs ih =>
        have hrest : rise x xs ≤ 0 :=
          (le_add_of_nonneg_left (le_max_left 0 (x - start))).trans hrise
        refine List.pairwise_cons.mpr ⟨fun y hy => ?_, ih hrest⟩
        exact sub_nonpos.mp ((sub_le_rise hy).trans hrise)
  · intro hfalls
    induction xs generalizing start with
    | nil => exact le_rfl
    | cons x xs ih =>
        have hstep : x - start ≤ 0 :=
          sub_nonpos.mpr (List.rel_of_pairwise_cons hfalls List.mem_cons_self)
        unfold rise
        rw [max_eq_left hstep, zero_add]
        exact ih hfalls.of_cons

/-- A sequence rises no further than to its peak exactly if it rises and then falls. -/
theorem rise_le_iff (start : K) (xs : List K) :
    rise start xs ≤ peak start xs - start ↔ RisesThenFalls (start :: xs) := by
  induction xs generalizing start with
  | nil =>
      have hfalls : [start].Pairwise fun a b : K => b ≤ a := List.pairwise_singleton _ _
      simp [rise, peak, risesThenFalls_of_falls hfalls]
  | cons x xs ih =>
      unfold rise
      obtain hle | hlt := le_or_gt start x
      · have hpeak : peak start (x :: xs) = peak x xs := by
          unfold peak
          rw [List.foldl_cons, max_eq_right hle]
        rw [risesThenFalls_cons_of_le hle, ← ih x, hpeak, max_eq_right (sub_nonneg.mpr hle)]
        have hsplit : peak x xs - start = (x - start) + (peak x xs - x) := by abel
        rw [hsplit, add_le_add_iff_left]
      · have hpeak : peak start (x :: xs) = peak start xs := by
          unfold peak
          rw [List.foldl_cons, max_eq_left hlt.le]
        rw [risesThenFalls_cons_of_lt hlt, ← rise_le_zero_iff, hpeak,
          max_eq_left (sub_nonpos.mpr hlt.le), zero_add]
        constructor
        · intro h
          obtain hstart | hmem := List.mem_cons.mp (peak_mem start xs)
          · rwa [hstart, sub_self] at h
          · -- To a peak that lies ahead it has further to rise than from the start.
            have hfar : peak start xs - x ≤ peak start xs - start := (sub_le_rise hmem).trans h
            exact absurd hlt (not_lt.mpr (sub_le_sub_iff_left _ |>.mp hfar))
        · exact fun h => h.trans (sub_nonneg.mpr (le_peak start xs))

end Variation
