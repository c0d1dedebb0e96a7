import Mathlib.Algebra.Order.Field.Basic
import Mathlib.Tactic.Linarith
import Mathlib.Tactic.Positivity
import CoreMesh.Lib.Transition

/-!
# Token buckets

A bucket holds up to its capacity, gains no more than its rate while time passes, and gives one token
for each admission. Losing tokens is always allowed, so an implementation that rounds down or forgets
some is a bucket too. However the steps fall, what is admitted in an interval is at most the capacity
and what the interval refills.
-/

namespace Bucket

open Transition

section Within

variable {K : Type*} [LinearOrder K]

/-- The admissions in an interval. -/
def within (admitted : List K) (t₁ t₂ : K) : List K := admitted.filter fun t => t₁ ≤ t ∧ t ≤ t₂

theorem within_append (before after : List K) (t₁ t₂ : K) :
    within (before ++ after) t₁ t₂ = within before t₁ t₂ ++ within after t₁ t₂ :=
  List.filter_append ..

theorem within_of_past {admitted : List K} {time now : K} (hpast : ∀ t ∈ admitted, t ≤ time)
    (hlater : time ≤ now) (t₁ : K) : within admitted t₁ now = within admitted t₁ time := by
  apply List.filter_congr
  intro t ht
  rw [decide_eq_decide]
  exact ⟨fun h => ⟨h.1, hpast t ht⟩, fun h => ⟨h.1, le_trans h.2 hlater⟩⟩

theorem within_of_before {admitted : List K} {time t₁ : K} (hpast : ∀ t ∈ admitted, t ≤ time)
    (hbefore : time < t₁) (t₂ : K) : within admitted t₁ t₂ = [] := by
  apply List.filter_eq_nil_iff.mpr
  intro t ht
  have hle := hpast t ht
  simp only [decide_eq_true_eq, not_and]
  intro hge
  exact absurd (le_trans hge hle) (not_le.mpr hbefore)

end Within

variable {K : Type*} [Field K] [LinearOrder K] [IsStrictOrderedRing K]

structure State (K : Type*) where
  level : K
  time : K
  /-- The times of the admissions so far. -/
  admitted : List K

/-- What the bucket may hold at a later time. -/
def available (capacity rate : K) (s : State K) (now : K) : K :=
  min capacity (s.level + rate * (now - s.time))

inductive Step (capacity rate : K) : State K → K → State K → Prop where
  | wait {s : State K} {now level : K} (hlater : s.time ≤ now) (hpos : 0 ≤ level)
      (hlevel : level ≤ available capacity rate s now) :
      Step capacity rate s now { s with level := level, time := now }
  | admitted {s : State K} {now level : K} (hlater : s.time ≤ now) (hpos : 0 ≤ level)
      (hlevel : level + 1 ≤ available capacity rate s now) :
      Step capacity rate s now ⟨level, now, s.admitted ++ [now]⟩

/-- What has been admitted since `t₁` and what is left are covered by one full bucket and the refill
since then. -/
structure Covered (capacity rate t₁ : K) (s : State K) : Prop where
  pos : 0 ≤ s.level
  past : ∀ t ∈ s.admitted, t ≤ s.time
  since : t₁ ≤ s.time →
    ((within s.admitted t₁ s.time).length : K) + s.level ≤ capacity + rate * (s.time - t₁)

/-- The admissions so far leave room for what is available. -/
theorem Covered.available_le {capacity rate t₁ now : K} {s : State K} (hrate : 0 ≤ rate)
    (hcovered : Covered capacity rate t₁ s) (hlater : s.time ≤ now) (hnow : t₁ ≤ now) :
    ((within s.admitted t₁ now).length : K) + available capacity rate s now ≤
      capacity + rate * (now - t₁) := by
  rcases lt_or_ge s.time t₁ with hbefore | hsince
  · rw [within_of_before hcovered.past hbefore]
    have hfull : available capacity rate s now ≤ capacity := min_le_left _ _
    have hrefill : 0 ≤ rate * (now - t₁) := mul_nonneg hrate (sub_nonneg.mpr hnow)
    simp only [List.length_nil, Nat.cast_zero]
    linarith
  · have hcount := hcovered.since hsince
    have hrefill : available capacity rate s now ≤ s.level + rate * (now - s.time) := min_le_right _ _
    rw [within_of_past hcovered.past hlater]
    linarith

theorem Covered.step {capacity rate t₁ now : K} {s s' : State K} (hrate : 0 ≤ rate)
    (hcovered : Covered capacity rate t₁ s) (hstep : Step capacity rate s now s') :
    Covered capacity rate t₁ s' := by
  cases hstep with
  | wait hlater hpos hlevel =>
      refine ⟨hpos, fun t ht => le_trans (hcovered.past t ht) hlater, fun hnow => ?_⟩
      have hroom := hcovered.available_le hrate hlater hnow
      linarith
  | admitted hlater hpos hlevel =>
      refine ⟨hpos, fun t ht => ?_, fun hnow => ?_⟩
      · rcases List.mem_append.mp ht with hold | hnew
        · exact le_trans (hcovered.past t hold) hlater
        · exact (List.mem_singleton.mp hnew).le
      · have hroom := hcovered.available_le hrate hlater hnow
        have hlast : within [now] t₁ now = [now] := List.filter_eq_self.mpr (by simpa using hnow)
        rw [within_append, hlast, List.length_append, List.length_singleton, Nat.cast_add,
          Nat.cast_one]
        linarith

/-- No interval sees more admissions than the capacity and its refill. -/
theorem admissions_le {capacity rate : K} (hcapacity : 0 ≤ capacity) (hrate : 0 ≤ rate)
    {init s : State K} {times : List K} (hstart : init.admitted = []) (hpos : 0 ≤ init.level)
    (hfull : init.level ≤ capacity) (hrun : Run (Step capacity rate) init times s) {t₁ t₂ : K}
    (hinterval : t₁ ≤ t₂) :
    ((within s.admitted t₁ t₂).length : K) ≤ capacity + rate * (t₂ - t₁) := by
  have hinit : Covered capacity rate t₁ init := by
    refine ⟨hpos, by simp [hstart], fun hsince => ?_⟩
    have hrefill : 0 ≤ rate * (init.time - t₁) := mul_nonneg hrate (sub_nonneg.mpr hsince)
    simp only [hstart, within, List.filter_nil, List.length_nil, Nat.cast_zero]
    linarith
  have hrefill : 0 ≤ rate * (t₂ - t₁) := mul_nonneg hrate (sub_nonneg.mpr hinterval)
  refine (hrun.invariant (fun s => Covered capacity rate t₁ s ∧
    ((within s.admitted t₁ t₂).length : K) ≤ capacity + rate * (t₂ - t₁)) ⟨hinit, ?_⟩ ?_).2
  · simp only [hstart, within, List.filter_nil, List.length_nil, Nat.cast_zero]
    linarith
  · rintro s now s' ⟨hcovered, hbound⟩ hstep
    have hcovered' := hcovered.step hrate hstep
    refine ⟨hcovered', ?_⟩
    cases hstep with
    | wait => exact hbound
    | @admitted _ _ level =>
        rcases lt_or_ge t₂ now with hafter | hbefore
        · have hnone : within [now] t₁ t₂ = [] := by
            simp [within, not_le.mpr hafter]
          rw [within_append, hnone, List.append_nil]
          exact hbound
        · rcases lt_or_ge now t₁ with hearly | hsince
          · rw [within_of_before hcovered'.past hearly]
            simp only [List.length_nil, Nat.cast_zero]
            linarith
          · have hcount := hcovered'.since hsince
            have hmono : rate * (now - t₁) ≤ rate * (t₂ - t₁) :=
              mul_le_mul_of_nonneg_left (by linarith) hrate
            rw [within_of_past hcovered'.past hbefore]
            linarith

end Bucket
