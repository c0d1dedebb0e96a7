import Mathlib.Algebra.Order.Floor.Ring
import Mathlib.Algebra.Order.Field.Basic
import Mathlib.Data.Rat.Floor
import Mathlib.Tactic.Linarith

/-!
# Rounding to the nearest

Rounding with halves to the even neighbour, as the default of floating-point formats and of the
printing of decimals. Rounding keeps a number between two integers, so a bound that is a round number
survives it.
-/

namespace Rounding

variable {K : Type*} [Field K] [LinearOrder K] [FloorRing K]

/-- To the nearest integer, from the middle to the even one. -/
def halfEven (x : K) : ℤ :=
  let below := x - ⌊x⌋
  let above := ⌊x⌋ + 1 - x
  if below < above ∨ below = above ∧ ⌊x⌋ % 2 = 0 then ⌊x⌋ else ⌊x⌋ + 1

/-- To the nearest multiple of the given power of a tenth. -/
def toDecimals (places : ℕ) (x : K) : K := halfEven (x * 10 ^ places) / 10 ^ places

variable [IsStrictOrderedRing K]

theorem halfEven_eq_or (x : K) :
    halfEven x = ⌊x⌋ ∨ halfEven x = ⌊x⌋ + 1 ∧ 1 / 2 ≤ x - ⌊x⌋ := by
  simp only [halfEven]
  split
  · exact .inl rfl
  · next hup =>
      rw [not_or, not_lt] at hup
      exact .inr ⟨rfl, by linarith [hup.1]⟩

theorem le_halfEven {x : K} {n : ℤ} (hn : n ≤ x) : n ≤ halfEven x := by
  have hfloor : n ≤ ⌊x⌋ := Int.le_floor.mpr hn
  obtain heq | ⟨heq, -⟩ := halfEven_eq_or x <;> omega

theorem halfEven_le {x : K} {n : ℤ} (hn : x ≤ n) : halfEven x ≤ n := by
  obtain heq | ⟨heq, hup⟩ := halfEven_eq_or x
  · rw [heq]
    exact Int.cast_le.mp ((Int.floor_le x).trans hn)
  · -- A number that is rounded up is above its floor, and so is the integer above it.
    have hlt : (⌊x⌋ : K) < n := by linarith
    have hlt : ⌊x⌋ < n := Int.cast_lt.mp hlt
    omega

theorem abs_halfEven_le {x : K} {n : ℤ} (hn : |x| ≤ n) : |halfEven x| ≤ n := by
  obtain ⟨hlow, hhigh⟩ := abs_le.mp hn
  rw [abs_le]
  constructor
  · exact le_halfEven (by exact_mod_cast hlow)
  · exact halfEven_le hhigh

theorem le_abs_halfEven {x : K} {n : ℤ} (hn : n ≤ |x|) : n ≤ |halfEven x| := by
  obtain hpos | hneg := le_abs.mp hn
  · exact (le_halfEven hpos).trans (le_abs_self _)
  · have hle : halfEven x ≤ -n := halfEven_le (by push_cast; linarith)
    exact le_trans (by omega) (neg_le_abs _)

/-- Rounding moves a number by half a unit at most. -/
theorem abs_halfEven_sub_le (x : K) : |(halfEven x : K) - x| ≤ 1 / 2 := by
  have hfloor := Int.floor_le x
  have hfraction := Int.lt_floor_add_one x
  rw [abs_le]
  simp only [halfEven]
  split
  · next hdown =>
      have hhalf : x - ⌊x⌋ ≤ ⌊x⌋ + 1 - x := hdown.elim le_of_lt fun h => h.1.le
      constructor <;> linarith
  · next hup =>
      rw [not_or, not_lt] at hup
      push_cast
      constructor <;> linarith [hup.1]

/-- A number is rounded to the integer that is less than half a unit away. -/
theorem halfEven_eq {x : K} {n : ℤ} (hlow : n ≤ x) (hhigh : x < n + 1 / 2) : halfEven x = n := by
  have hfloor : ⌊x⌋ = n := Int.floor_eq_iff.mpr ⟨hlow, by linarith⟩
  have hbelow : x - ⌊x⌋ < ⌊x⌋ + 1 - x := by
    rw [hfloor]
    linarith
  simp only [halfEven]
  rw [if_pos (.inl hbelow), hfloor]

theorem halfEven_mono {x y : K} (hle : x ≤ y) : halfEven x ≤ halfEven y := by
  obtain hlt | hsame := (Int.floor_le_floor hle).lt_or_eq
  · have habove := halfEven_eq_or x
    have hbelow : ⌊y⌋ ≤ halfEven y := le_halfEven (Int.floor_le y)
    omega
  · simp only [halfEven]
    split
    · split <;> omega
    · next hup =>
        rw [not_or, not_lt, not_and] at hup
        have hcast : (⌊y⌋ : K) = ⌊x⌋ := by rw [hsame]
        -- What is rounded up stays so as it comes nearer to the integer above.
        rw [if_neg]
        · omega
        · rintro (hdown | ⟨hmiddle, heven⟩)
          · rw [hcast] at hdown
            linarith [hup.1]
          · rw [hcast] at hmiddle
            refine hup.2 (le_antisymm ?_ hup.1) (hsame ▸ heven)
            linarith

@[simp] theorem halfEven_intCast (n : ℤ) : halfEven (n : K) = n :=
  le_antisymm (halfEven_le le_rfl) (le_halfEven le_rfl)

/-- Up to the middle a number is rounded down to an even one. -/
theorem halfEven_le_iff {x : K} {n : ℤ} (hn : n % 2 = 0) : halfEven x ≤ n ↔ x ≤ n + 1 / 2 := by
  have hfloor := Int.floor_le x
  have hfraction := Int.lt_floor_add_one x
  constructor
  · intro hle
    have hround := (abs_le.mp (abs_halfEven_sub_le x)).1
    have hcast : (halfEven x : K) ≤ n := Int.cast_le.mpr hle
    linarith
  · intro hle
    by_contra hup
    have hcast : (n : K) + 1 ≤ halfEven x := by exact_mod_cast not_le.mp hup
    have hround := (abs_le.mp (abs_halfEven_sub_le x)).2
    -- Then the number is the middle, and its floor is even.
    have hmiddle : x = n + 1 / 2 := by linarith
    have heven : ⌊x⌋ = n := by
      rw [Int.floor_eq_iff]
      constructor <;> linarith
    apply hup
    simp only [halfEven, heven]
    rw [if_pos (.inr ⟨by linarith, hn⟩)]

theorem toDecimals_le {x : K} {n : ℤ} (places : ℕ) (hn : x ≤ n) : toDecimals places x ≤ n := by
  have hpow : (0 : K) < 10 ^ places := by positivity
  have hscaled : x * 10 ^ places ≤ ((n * 10 ^ places : ℤ) : K) := by
    push_cast
    exact mul_le_mul_of_nonneg_right hn hpow.le
  have hround : (halfEven (x * 10 ^ places) : K) ≤ ((n * 10 ^ places : ℤ) : K) :=
    Int.cast_le.mpr (halfEven_le hscaled)
  push_cast at hround
  exact (div_le_iff₀ hpow).mpr hround

theorem toDecimals_mono {x y : K} (places : ℕ) (hle : x ≤ y) : toDecimals places x ≤ toDecimals places y := by
  have hpow : (0 : K) < 10 ^ places := by positivity
  have hscaled : x * 10 ^ places ≤ y * 10 ^ places := mul_le_mul_of_nonneg_right hle hpow.le
  have hround : (halfEven (x * 10 ^ places) : K) ≤ halfEven (y * 10 ^ places) :=
    Int.cast_le.mpr (halfEven_mono hscaled)
  exact div_le_div_of_nonneg_right hround hpow.le

/-- A difference of rounded numbers needs no rounding. -/
theorem toDecimals_sub (places : ℕ) (x y : K) :
    toDecimals places (toDecimals places x - toDecimals places y) = toDecimals places x - toDecimals places y := by
  have hpow : (10 : K) ^ places ≠ 0 := by positivity
  have hscaled : (toDecimals places x - toDecimals places y) * 10 ^ places =
      ((halfEven (x * 10 ^ places) - halfEven (y * 10 ^ places) : ℤ) : K) := by
    rw [toDecimals, toDecimals, ← sub_div, div_mul_cancel₀ _ hpow, Int.cast_sub]
  rw [toDecimals, hscaled, halfEven_intCast, Int.cast_sub, sub_div]
  rfl

theorem toDecimals_zero (places : ℕ) : toDecimals places (0 : K) = 0 := by
  rw [toDecimals, zero_mul]
  have hzero := @halfEven_intCast K _ _ _ _ 0
  rw [Int.cast_zero] at hzero
  rw [hzero, Int.cast_zero, zero_div]

end Rounding
