import Mathlib.Algebra.Order.Field.Power
import Mathlib.Data.Nat.Sqrt
import Mathlib.Data.Int.Log
import Mathlib.Tactic.Positivity
import CoreMesh.Lib.Rounding

/-!
# Double precision

The numbers of IEEE 754 binary64 as rationals of 53 bits, with two infinities and a nan; the two zeros
are one. An operation is the exact one followed by rounding to the nearest number, from the middle to the
even one. A number that is of 53 bits already is not moved, and any other by a unit in its last place at
most.
-/

/-- Of 53 bits over an exponent in range. -/
def Binary64.Representable (x : ℚ) : Prop :=
  ∃ n e : ℤ, |n| < 2 ^ 53 ∧ -1074 ≤ e ∧ e ≤ 971 ∧ x = n * 2 ^ e

inductive Binary64 where
  | nan
  | infinity (negative : Bool)
  | finite (x : ℚ) (hx : Binary64.Representable x)
  deriving DecidableEq

namespace Binary64

/-! ### Rounding -/

/-- The exponent of the last place. -/
def quantum (x : ℚ) : ℤ := max (Int.log 2 |x| - 52) (-1074)

/-- To the nearest number of 53 bits, whatever its size. -/
def nearest (x : ℚ) : ℚ := Rounding.halfEven (x / 2 ^ quantum x) * 2 ^ quantum x

theorem zpow_pos (e : ℤ) : (0 : ℚ) < 2 ^ e := by positivity

theorem abs_lt_zpow (x : ℚ) : |x| < 2 ^ (53 + quantum x) := by
  have hlog : |x| < (2 : ℚ) ^ (Int.log 2 |x| + 1) := Int.lt_zpow_succ_log_self (by norm_num) |x|
  have hle : Int.log 2 |x| + 1 ≤ 53 + quantum x := by
    unfold quantum
    omega
  exact hlog.trans_le (zpow_le_zpow_right₀ (by norm_num) hle)

/-- Above the least exponent the first of the 53 bits is set. -/
theorem zpow_le_abs {x : ℚ} (hx : x ≠ 0) (hquantum : -1074 < quantum x) :
    2 ^ (52 + quantum x) ≤ |x| := by
  have hlog : quantum x = Int.log 2 |x| - 52 := by
    unfold quantum at hquantum ⊢
    omega
  rw [hlog, add_sub_cancel]
  exact Int.zpow_log_le_self (by norm_num) (abs_pos.mpr hx)

theorem zpow_quantum_le (x : ℚ) : (2 : ℚ) ^ quantum x ≤ max |x| 1 / 2 ^ 52 := by
  have hone : 1 ≤ max |x| 1 := le_max_right _ _
  rw [le_div_iff₀ (by norm_num)]
  unfold quantum
  obtain hlow | hhigh := le_total (Int.log 2 |x| - 52) (-1074)
  · rw [max_eq_right hlow]
    calc
      (2 : ℚ) ^ (-1074 : ℤ) * 2 ^ 52 ≤ 2 ^ (-52 : ℤ) * 2 ^ 52 :=
        mul_le_mul_of_nonneg_right (zpow_le_zpow_right₀ (by norm_num) (by norm_num)) (by norm_num)
      _ = 1 := by norm_num
      _ ≤ max |x| 1 := hone
  · rw [max_eq_left hhigh]
    have hscaled : (2 : ℚ) ^ (Int.log 2 |x| - 52) * 2 ^ 52 = 2 ^ Int.log 2 |x| := by
      rw [zpow_sub₀ (by norm_num)]
      exact div_mul_cancel₀ _ (by norm_num)
    rw [hscaled]
    obtain hzero | hpos := (abs_nonneg x).eq_or_lt
    · rw [← hzero, Int.log_zero_right, zpow_zero]
      exact le_max_right _ _
    · exact (Int.zpow_log_le_self (by norm_num) hpos).trans (le_max_left _ _)

theorem abs_nearest_sub_le (x : ℚ) : |nearest x - x| ≤ max |x| 1 / 2 ^ 53 := by
  have hpos := zpow_pos (quantum x)
  have hhalf := Rounding.abs_halfEven_sub_le (x / 2 ^ quantum x)
  have hunits : nearest x - x =
      (Rounding.halfEven (x / 2 ^ quantum x) - x / 2 ^ quantum x) * 2 ^ quantum x := by
    rw [sub_mul, div_mul_cancel₀ _ hpos.ne', nearest]
  calc
    |nearest x - x| ≤ 1 / 2 * 2 ^ quantum x := by
      rw [hunits, abs_mul, abs_of_pos hpos]
      exact mul_le_mul_of_nonneg_right hhalf hpos.le
    _ ≤ 1 / 2 * (max |x| 1 / 2 ^ 52) := mul_le_mul_of_nonneg_left (zpow_quantum_le x) (by norm_num)
    _ = max |x| 1 / 2 ^ 53 := by ring

theorem nearest_nonneg {x : ℚ} (hx : 0 ≤ x) : 0 ≤ nearest x := by
  have hround : 0 ≤ Rounding.halfEven (x / 2 ^ quantum x) :=
    Rounding.le_halfEven (by rw [Int.cast_zero]; exact div_nonneg hx (zpow_pos _).le)
  exact mul_nonneg (by exact_mod_cast hround) (zpow_pos _).le

/-- Well above the least numbers, rounding is of no account next to a hundredth. -/
theorem nearest_bounds {x : ℚ} (hx : 1 / 1000000 ≤ x) :
    99 / 100 * x ≤ nearest x ∧ nearest x ≤ 101 / 100 * x := by
  have hround := abs_nearest_sub_le x
  have hmoved : max |x| 1 / 2 ^ 53 ≤ 1 / 100 * x := by
    rw [abs_of_pos (by linarith), div_le_iff₀ (by norm_num)]
    apply max_le <;> linarith
  obtain ⟨hlow, hhigh⟩ := abs_le.mp (hround.trans hmoved)
  constructor <;> linarith

/-- In a binade the last place is the same. -/
theorem nearest_eq {x : ℚ} {e : ℤ} (he : -1074 ≤ e) (hlow : 2 ^ (52 + e) ≤ x) (hhigh : x < 2 ^ (53 + e)) :
    nearest x = Rounding.halfEven (x / 2 ^ e) * 2 ^ e := by
  have hpos : 0 < x := (zpow_pos _).trans_le hlow
  have hquantum : quantum x = e := by
    have hle := (Int.zpow_le_iff_le_log (b := 2) (by norm_num) hpos).mp (by exact_mod_cast hlow)
    have hlt := (Int.lt_zpow_iff_log_lt (b := 2) (by norm_num) hpos).mp (by exact_mod_cast hhigh)
    unfold quantum
    rw [abs_of_pos hpos]
    omega
  rw [nearest, hquantum]

theorem quantum_mono {x y : ℚ} (hx : 0 < x) (hle : x ≤ y) : quantum x ≤ quantum y := by
  have hlog : Int.log 2 |x| ≤ Int.log 2 |y| := by
    apply Int.log_mono_right (abs_pos.mpr hx.ne')
    rwa [abs_of_pos hx, abs_of_pos (hx.trans_le hle)]
  unfold quantum
  omega

theorem nearest_nonpos {x : ℚ} (hx : x ≤ 0) : nearest x ≤ 0 := by
  have hround : Rounding.halfEven (x / 2 ^ quantum x) ≤ 0 :=
    Rounding.halfEven_le (by rw [Int.cast_zero]; exact div_nonpos_of_nonpos_of_nonneg hx (zpow_pos _).le)
  exact mul_nonpos_of_nonpos_of_nonneg (by exact_mod_cast hround) (zpow_pos _).le

/-- Rounding keeps the order of numbers that are not negative. -/
theorem nearest_mono {x y : ℚ} (hx : 0 ≤ x) (hle : x ≤ y) : nearest x ≤ nearest y := by
  obtain rfl | hpos := hx.eq_or_lt
  · exact (nearest_nonpos le_rfl).trans (nearest_nonneg hle)
  obtain hsame | hlt := (quantum_mono hpos hle).eq_or_lt
  · unfold nearest
    rw [hsame]
    apply mul_le_mul_of_nonneg_right _ (zpow_pos _).le
    exact_mod_cast Rounding.halfEven_mono (div_le_div_of_nonneg_right hle (zpow_pos _).le)
  · -- Between the two is the least number of the binade of the greater one.
    have hfirst : |y| = y := abs_of_pos (hpos.trans_le hle)
    have hsplit (n : ℕ) (k e : ℤ) (hk : k = n) : (2 : ℚ) ^ (k + e) = ((2 ^ n : ℤ) : ℚ) * 2 ^ e := by
      rw [hk, zpow_add₀ (by norm_num)]
      norm_num
    have hlow : nearest x ≤ 2 ^ (53 + quantum x) := by
      have hbound := abs_lt_zpow x
      rw [abs_of_pos hpos, hsplit 53 53 _ rfl, ← div_lt_iff₀ (zpow_pos _)] at hbound
      rw [nearest, hsplit 53 53 _ rfl]
      apply mul_le_mul_of_nonneg_right _ (zpow_pos _).le
      exact_mod_cast Rounding.halfEven_le hbound.le
    have hhigh : (2 : ℚ) ^ (52 + quantum y) ≤ nearest y := by
      have hquantum : -1074 < quantum y := by
        have hleast : -1074 ≤ quantum x := le_max_right _ _
        omega
      have hbound := zpow_le_abs (hpos.trans_le hle).ne' hquantum
      rw [hfirst, hsplit 52 52 _ rfl, ← le_div_iff₀ (zpow_pos _)] at hbound
      rw [nearest, hsplit 52 52 _ rfl]
      apply mul_le_mul_of_nonneg_right _ (zpow_pos _).le
      exact_mod_cast Rounding.le_halfEven hbound
    exact (hlow.trans (zpow_le_zpow_right₀ (by norm_num) (by omega))).trans hhigh

/-- What is rounded stays below a power of two up to the middle between it and the number before it. -/
theorem nearest_lt_zpow_iff {x : ℚ} {e : ℤ} (he : -1074 ≤ e) (hx : 0 ≤ x) :
    nearest x < 2 ^ (53 + e) ↔ x < (2 ^ 53 - 1 / 2) * 2 ^ e := by
  have hpos := zpow_pos e
  have hlow : (2 : ℚ) ^ (52 + e) = 2 ^ 52 * 2 ^ e := zpow_add₀ (by norm_num) 52 e
  have hhigh : (2 : ℚ) ^ (53 + e) = 2 ^ 53 * 2 ^ e := zpow_add₀ (by norm_num) 53 e
  have hbinade {y : ℚ} (hfirst : 2 ^ 52 ≤ y) (hlast : y < 2 ^ 53) :
      nearest (y * 2 ^ e) = Rounding.halfEven y * 2 ^ e := by
    have hround := nearest_eq (x := y * 2 ^ e) he
      (by rw [hlow]; exact mul_le_mul_of_nonneg_right hfirst hpos.le)
      (by rw [hhigh]; exact mul_lt_mul_of_pos_right hlast hpos)
    rwa [mul_div_cancel_right₀ _ hpos.ne'] at hround
  obtain ⟨y, rfl⟩ : ∃ y, x = y * 2 ^ e := ⟨x / 2 ^ e, (div_mul_cancel₀ x hpos.ne').symm⟩
  rw [hhigh, mul_lt_mul_iff_left₀ hpos]
  constructor
  · intro hbelow
    by_contra hmiddle
    have htop : nearest ((2 ^ 53 - 1 / 2) * 2 ^ e) = 2 ^ 53 * 2 ^ e := by
      have heven : Rounding.halfEven (2 ^ 53 - 1 / 2 : ℚ) = 2 ^ 53 := by norm_num [Rounding.halfEven]
      rw [hbinade (by norm_num) (by norm_num), heven]
      norm_num
    have hmono : nearest ((2 ^ 53 - 1 / 2) * 2 ^ e) ≤ nearest (y * 2 ^ e) :=
      nearest_mono (by positivity) (mul_le_mul_of_nonneg_right (not_lt.mp hmiddle) hpos.le)
    rw [htop] at hmono
    exact absurd hbelow (not_lt.mpr hmono)
  · intro hmiddle
    obtain hnormal | hless := le_total (2 ^ 52) y
    · have hround := (abs_le.mp (Rounding.abs_halfEven_sub_le y)).2
      rw [hbinade hnormal (by linarith)]
      apply mul_lt_mul_of_pos_right _ hpos
      linarith
    · have hfirst : Rounding.halfEven (2 ^ 52 : ℚ) = 2 ^ 52 := by norm_num [Rounding.halfEven]
      have hmono : nearest (y * 2 ^ e) ≤ nearest (2 ^ 52 * 2 ^ e) :=
        nearest_mono hx (mul_le_mul_of_nonneg_right hless hpos.le)
      rw [hbinade le_rfl (by norm_num), hfirst] at hmono
      apply hmono.trans_lt
      apply mul_lt_mul_of_pos_right _ hpos
      norm_num

/-! ### The numbers -/

theorem representable_zero : Representable 0 := ⟨0, 0, by norm_num, by norm_num, by norm_num, by norm_num⟩

theorem representable_intCast {n : ℤ} (hn : |n| < 2 ^ 53) : Representable n :=
  ⟨n, 0, hn, by norm_num, by norm_num, by rw [zpow_zero, mul_one]⟩

theorem abs_mul_zpow_lt {n : ℤ} {k : ℕ} (hn : |n| < 2 ^ k) (e : ℤ) : |(n : ℚ) * 2 ^ e| < 2 ^ (k + e) := by
  have hn' : |(n : ℚ)| < 2 ^ k := by exact_mod_cast hn
  rw [abs_mul, abs_of_pos (zpow_pos e), zpow_add₀ (by norm_num), zpow_natCast]
  exact mul_lt_mul_of_pos_right hn' (zpow_pos e)

theorem Representable.abs_lt_overflow {x : ℚ} (hx : Representable x) : |x| < 2 ^ (1024 : ℤ) := by
  obtain ⟨n, e, hn, -, hhigh, rfl⟩ := hx
  exact (abs_mul_zpow_lt hn e).trans_le (zpow_le_zpow_right₀ (by norm_num) (by omega))

/-- What is of 53 bits is not rounded. -/
theorem nearest_of_representable {x : ℚ} (hx : Representable x) : nearest x = x := by
  obtain rfl | hne := eq_or_ne x 0
  · have hzero : Rounding.halfEven (0 : ℚ) = 0 := by norm_num [Rounding.halfEven]
    rw [nearest, zero_div, hzero, Int.cast_zero, zero_mul]
  · obtain ⟨n, e, hn, hlow, -, heq⟩ := hx
    have hquantum : quantum x ≤ e := by
      have hlt := heq ▸ abs_mul_zpow_lt hn e
      have hlog := (Int.lt_zpow_iff_log_lt (b := 2) (by norm_num) (abs_pos.mpr hne)).mp hlt
      unfold quantum
      omega
    obtain ⟨k, hk⟩ := Int.eq_ofNat_of_zero_le (sub_nonneg.mpr hquantum)
    have he : e = k + quantum x := by omega
    have hwhole : x / 2 ^ quantum x = ((n * 2 ^ k : ℤ) : ℚ) := by
      rw [div_eq_iff (zpow_pos _).ne']
      calc
        x = n * 2 ^ (k + quantum x) := by rw [← he, ← heq]
        _ = ((n * 2 ^ k : ℤ) : ℚ) * 2 ^ quantum x := by
          rw [zpow_add₀ (by norm_num), zpow_natCast]
          push_cast
          ring
    rw [nearest, hwhole, Rounding.halfEven_intCast, ← hwhole, div_mul_cancel₀ _ (zpow_pos _).ne']

theorem nearest_intCast {n : ℤ} (hn : |n| < 2 ^ 53) : nearest n = n :=
  nearest_of_representable (representable_intCast hn)

/-- A number that is rounded and not too large is of 53 bits. -/
theorem representable_nearest {x : ℚ} (hx : |nearest x| < 2 ^ (1024 : ℤ)) : Representable (nearest x) := by
  have hpos := zpow_pos (quantum x)
  have hlow : -1074 ≤ quantum x := le_max_right _ _
  have hmagnitude : |x / 2 ^ quantum x| * 2 ^ quantum x = |x| := by
    rw [abs_div, abs_of_pos hpos, div_mul_cancel₀ _ hpos.ne']
  have hle : |Rounding.halfEven (x / 2 ^ quantum x)| ≤ 2 ^ 53 := by
    apply Rounding.abs_halfEven_le
    have hlt := abs_lt_zpow x
    rw [← hmagnitude, zpow_add₀ (by norm_num), mul_lt_mul_iff_left₀ hpos] at hlt
    push_cast
    exact hlt.le
  unfold nearest at hx ⊢
  rw [abs_mul, abs_of_pos hpos] at hx
  obtain hcarry | hfits := hle.eq_or_lt
  · -- The carry leaves a power of two, whose last place is one further up.
    have hcarry' : |(Rounding.halfEven (x / 2 ^ quantum x) : ℚ)| = 2 ^ (53 : ℤ) := by exact_mod_cast hcarry
    rw [hcarry', ← zpow_add₀ (by norm_num), zpow_lt_zpow_iff_right₀ (by norm_num)] at hx
    have hnext : (2 : ℚ) ^ (quantum x + 1) = 2 * 2 ^ quantum x := by
      rw [zpow_add_one₀ (by norm_num), mul_comm]
    obtain heq | heq := eq_or_eq_neg_of_abs_eq hcarry
    · refine ⟨2 ^ 52, quantum x + 1, by norm_num, by omega, by omega, ?_⟩
      rw [heq, hnext]
      push_cast
      ring
    · refine ⟨-2 ^ 52, quantum x + 1, by norm_num, by omega, by omega, ?_⟩
      rw [heq, hnext]
      push_cast
      ring
  · refine ⟨_, quantum x, hfits, hlow, ?_, rfl⟩
    by_contra hhigh
    have hne : x ≠ 0 := by
      rintro rfl
      simp [quantum] at hhigh
    have hnormal := zpow_le_abs hne (by omega)
    rw [← hmagnitude, zpow_add₀ (by norm_num), mul_le_mul_iff_left₀ hpos] at hnormal
    have hbit := Rounding.le_abs_halfEven (n := 2 ^ 52) (by push_cast; exact hnormal)
    have hbit' : (2 : ℚ) ^ (52 : ℤ) ≤ |(Rounding.halfEven (x / 2 ^ quantum x) : ℚ)| := by exact_mod_cast hbit
    have hlarge : (2 : ℚ) ^ (1024 : ℤ) ≤ 2 ^ (52 : ℤ) * 2 ^ quantum x := by
      rw [← zpow_add₀ (by norm_num)]
      exact zpow_le_zpow_right₀ (by norm_num) (by omega)
    linarith [mul_le_mul_of_nonneg_right hbit' hpos.le]

theorem Representable.ceil {x : ℚ} (hx : Representable x) : Representable ⌈x⌉ := by
  obtain ⟨n, e, hn, hlow, hhigh, heq⟩ := hx
  obtain hwhole | hfraction := le_or_gt 0 e
  · obtain ⟨k, rfl⟩ := Int.eq_ofNat_of_zero_le hwhole
    have hceil : x = ((n * 2 ^ k : ℤ) : ℚ) := by
      rw [heq, zpow_natCast]
      push_cast
      rfl
    refine ⟨n, k, hn, hlow, hhigh, ?_⟩
    rw [hceil, Int.ceil_intCast, ← hceil, heq]
  · have hlt : |x| < 2 ^ 52 := by
      have hle : (2 : ℚ) ^ (53 + e) ≤ 2 ^ (52 : ℤ) := zpow_le_zpow_right₀ (by norm_num) (by omega)
      rw [heq]
      exact (abs_mul_zpow_lt hn e).trans_le (by exact_mod_cast hle)
    obtain ⟨hbelow, habove⟩ := abs_lt.mp hlt
    apply representable_intCast
    have hle : ⌈x⌉ ≤ 2 ^ 52 := Int.ceil_le.mpr (by push_cast; exact habove.le)
    have hge : -2 ^ 52 < ⌈x⌉ := Int.lt_ceil.mpr (by push_cast; exact hbelow)
    rw [abs_lt]
    constructor <;> omega

theorem Representable.neg {x : ℚ} (hx : Representable x) : Representable (-x) := by
  obtain ⟨n, e, hn, hlow, hhigh, rfl⟩ := hx
  exact ⟨-n, e, by rwa [abs_neg], hlow, hhigh, by rw [Int.cast_neg, neg_mul]⟩

theorem Representable.double {x : ℚ} (hx : Representable x) (hsize : |x| < 2 ^ (1023 : ℤ)) :
    Representable (x * 2) := by
  obtain ⟨n, e, hn, hlow, hhigh, rfl⟩ := hx
  obtain hroom | htop := hhigh.lt_or_eq
  · exact ⟨n, e + 1, hn, by omega, by omega, by rw [zpow_add_one₀ (by norm_num), mul_assoc]⟩
  · -- At the top there is a bit to spare.
    subst htop
    refine ⟨n * 2, 971, ?_, hlow, hhigh, by rw [Int.cast_mul, Int.cast_ofNat, mul_right_comm]⟩
    rw [abs_mul, abs_of_pos (zpow_pos _)] at hsize
    have hsplit : (2 : ℚ) ^ (1023 : ℤ) = 2 ^ (52 : ℤ) * 2 ^ (971 : ℤ) := by
      rw [← zpow_add₀ (by norm_num)]
      norm_num
    rw [hsplit, mul_lt_mul_iff_left₀ (zpow_pos _)] at hsize
    have hhalf : |n| < 2 ^ 52 := by exact_mod_cast hsize
    rw [abs_mul]
    norm_num
    omega

/-! ### Operations -/

def ofRat (x : ℚ) : Binary64 :=
  if hx : |nearest x| < 2 ^ (1024 : ℤ) then .finite (nearest x) (representable_nearest hx)
  else .infinity (decide (x < 0))

def ofInt (n : ℤ) : Binary64 := ofRat n

def zero : Binary64 := .finite 0 representable_zero

def le : Binary64 → Binary64 → Bool
  | .nan, _ => false
  | _, .nan => false
  | .infinity left, .infinity right => left || !right
  | .infinity negative, .finite _ _ => negative
  | .finite _ _, .infinity negative => !negative
  | .finite x _, .finite y _ => x ≤ y

def lt : Binary64 → Binary64 → Bool
  | .nan, _ => false
  | _, .nan => false
  | .infinity left, .infinity right => left && !right
  | .infinity negative, .finite _ _ => negative
  | .finite _ _, .infinity negative => !negative
  | .finite x _, .finite y _ => x < y

def add : Binary64 → Binary64 → Binary64
  | .nan, _ => .nan
  | _, .nan => .nan
  | .infinity left, .infinity right => if left = right then .infinity left else .nan
  | .infinity negative, .finite _ _ => .infinity negative
  | .finite _ _, .infinity negative => .infinity negative
  | .finite x _, .finite y _ => ofRat (x + y)

def neg : Binary64 → Binary64
  | .nan => .nan
  | .infinity negative => .infinity !negative
  | .finite x hx => .finite (-x) hx.neg

def sub (x y : Binary64) : Binary64 := add x (neg y)

def mul : Binary64 → Binary64 → Binary64
  | .nan, _ => .nan
  | _, .nan => .nan
  | .infinity left, .infinity right => .infinity (left != right)
  | .infinity negative, .finite x _ => if x = 0 then .nan else .infinity (negative != decide (x < 0))
  | .finite x _, .infinity negative => if x = 0 then .nan else .infinity (negative != decide (x < 0))
  | .finite x _, .finite y _ => ofRat (x * y)

/-- By zero as by the positive one. -/
def div : Binary64 → Binary64 → Binary64
  | .nan, _ => .nan
  | _, .nan => .nan
  | .infinity _, .infinity _ => .nan
  | .infinity negative, .finite x _ => .infinity (negative != decide (x < 0))
  | .finite _ _, .infinity _ => zero
  | .finite x _, .finite y _ =>
      if y = 0 then if x = 0 then .nan else .infinity (decide (x < 0)) else ofRat (x / y)

def ceil : Binary64 → Binary64
  | .nan => .nan
  | .infinity negative => .infinity negative
  | .finite x hx => .finite ⌈x⌉ hx.ceil

/-- The root of a number in units of `2 ^ -601`, odd if it is not exact. A unit is far below the last place
of any root, so that the rounding after it is that of the root itself. -/
def rootUnits (x : ℚ) : ℕ :=
  let units := ⌊x * 4 ^ 600⌋₊
  2 * units.sqrt + if units.sqrt * units.sqrt = units then 0 else 1

def sqrt : Binary64 → Binary64
  | .nan => .nan
  | .infinity negative => if negative then .nan else .infinity false
  | .finite x _ => if x < 0 then .nan else ofRat (rootUnits x / 2 ^ 601)

/-- Towards zero. -/
def truncate (x : ℚ) : ℤ := if 0 ≤ x then ⌊x⌋ else ⌈x⌉

/-- A conversion to 64 bits that is right where the result is in range. -/
def Converts (toInt64 : Binary64 → Int64) : Prop :=
  ∀ x hx, -2 ^ 63 ≤ truncate x → truncate x < 2 ^ 63 → (toInt64 (.finite x hx)).toInt = truncate x

@[simp] theorem truncate_intCast (n : ℤ) : truncate n = n := by
  unfold truncate
  split
  · exact Int.floor_intCast n
  · exact Int.ceil_intCast n

theorem Converts.toInt_eq {toInt64 : Binary64 → Int64} (hconvert : Converts toInt64) {x : ℚ} {n : ℤ}
    (hx : Representable x) (hn : x = n) (hlow : -2 ^ 63 ≤ n) (hhigh : n < 2 ^ 63) :
    (toInt64 (.finite x hx)).toInt = n := by
  have htruncate : truncate x = n := by rw [hn, truncate_intCast]
  rw [hconvert x hx (by omega) (by omega), htruncate]

theorem ofRat_of_representable {x : ℚ} (hx : Representable x) : ofRat x = .finite x hx := by
  have hnearest := nearest_of_representable hx
  have hsize : |nearest x| < 2 ^ (1024 : ℤ) := hnearest.symm ▸ hx.abs_lt_overflow
  rw [ofRat, dif_pos hsize]
  simp only [hnearest]

theorem ofInt_eq {n : ℤ} (hn : |n| < 2 ^ 53) : ofInt n = .finite n (representable_intCast hn) :=
  ofRat_of_representable _

/-- In the unit interval nothing overflows. -/
theorem ofRat_of_mem_unit {x : ℚ} (hlow : 0 ≤ x) (hhigh : x ≤ 1) :
    ∃ hx, ofRat x = .finite (nearest x) hx ∧ 0 ≤ nearest x ∧ nearest x ≤ 1 := by
  have hone : nearest 1 = 1 := by exact_mod_cast nearest_intCast (n := 1) (by norm_num)
  have hle : nearest x ≤ 1 := hone ▸ nearest_mono hlow hhigh
  have hnonneg := nearest_nonneg hlow
  have hsize : |nearest x| < 2 ^ (1024 : ℤ) := by
    rw [abs_of_nonneg hnonneg]
    exact hle.trans_lt (one_lt_zpow₀ (by norm_num) (by norm_num))
  exact ⟨representable_nearest hsize, dif_pos hsize, hnonneg, hle⟩

/-- What is not finite after rounding was large before. -/
theorem ofRat_cases (x : ℚ) :
    (∃ hx, ofRat x = .finite (nearest x) hx) ∨
      ofRat x = .infinity (decide (x < 0)) ∧ 2 ^ (1023 : ℤ) ≤ |x| := by
  unfold ofRat
  split
  · next hsize => exact .inl ⟨representable_nearest hsize, rfl⟩
  · next hsize =>
      refine .inr ⟨rfl, ?_⟩
      by_contra hsmall
      apply hsize
      have hround := abs_nearest_sub_le x
      have htriangle := abs_sub_abs_le_abs_sub (nearest x) x
      have hone : (1 : ℚ) ≤ 2 ^ (1023 : ℤ) := one_le_zpow₀ (by norm_num) (by norm_num)
      have hmoved : max |x| 1 / 2 ^ 53 ≤ 2 ^ (1023 : ℤ) :=
        (div_le_self (by positivity) (by norm_num)).trans (max_le (not_le.mp hsmall).le hone)
      have hdouble : (2 : ℚ) ^ (1024 : ℤ) = 2 ^ (1023 : ℤ) * 2 := zpow_add_one₀ (by norm_num) 1023
      rw [hdouble]
      generalize (2 : ℚ) ^ (1023 : ℤ) = bound at hsmall hmoved ⊢
      linarith

theorem ofRat_of_large {x : ℚ} (hx : 2 ^ (1024 : ℤ) ≤ x) : ofRat x = .infinity false := by
  have hpos : 0 < x := (zpow_pos _).trans_le hx
  have htop : (2 : ℚ) ^ (1024 : ℤ) = 2 ^ 53 * 2 ^ (971 : ℤ) := zpow_add₀ (by norm_num) 53 971
  have hlarge : ¬|nearest x| < 2 ^ (1024 : ℤ) := by
    rw [abs_of_nonneg (nearest_nonneg hpos.le), show (1024 : ℤ) = 53 + 971 from rfl,
      nearest_lt_zpow_iff (by norm_num) hpos.le, not_lt]
    rw [htop] at hx
    apply le_trans _ hx
    apply mul_le_mul_of_nonneg_right _ (zpow_pos _).le
    norm_num
  rw [ofRat, dif_neg hlarge, decide_eq_false hpos.not_gt]

theorem add_zero_left (x : Binary64) : add zero x = x := by
  cases x with
  | nan => rfl
  | infinity negative => rfl
  | finite x hx =>
      show ofRat (0 + x) = _
      rw [zero_add, ofRat_of_representable hx]

/-- The root of a square is exact. -/
theorem sqrt_sq {r : ℚ} (hr : Representable r) (hsq : Representable (r * r)) {units : ℕ}
    (hunits : r = units / 2 ^ 600) : sqrt (.finite (r * r) hsq) = .finite r hr := by
  have hfloor : ⌊r * r * 4 ^ 600⌋₊ = units * units := by
    have hwhole : r * r * 4 ^ 600 = ((units * units : ℕ) : ℚ) := by
      have hfour : (4 : ℚ) ^ 600 = 2 ^ 600 * 2 ^ 600 := by rw [← mul_pow]; norm_num
      rw [hunits, hfour]
      push_cast
      field_simp
    rw [hwhole, Nat.floor_natCast]
  have hroot : rootUnits (r * r) = 2 * units := by
    unfold rootUnits
    dsimp only
    rw [hfloor, Nat.sqrt_eq, if_pos rfl, add_zero]
  have hexact : ((rootUnits (r * r) : ℕ) : ℚ) / 2 ^ 601 = r := by
    rw [hroot, hunits, pow_succ]
    push_cast
    field_simp
  have hpos : ¬r * r < 0 := not_lt.mpr (mul_self_nonneg r)
  rw [sqrt, if_neg hpos, hexact, ofRat_of_representable hr]

end Binary64
