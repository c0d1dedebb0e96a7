import Mathlib.Algebra.GroupWithZero.Nat
import Mathlib.Data.Nat.Find
import Mathlib.Tactic.Common

/-!
# The Gregorian calendar

The calendar as it is now, for all years from 1 on. Days are counted from the first day of that year, which
is 1; dates are in the order of their counts, and each count is that of a date.
-/

namespace Calendar

def isLeap (year : ℕ) : Prop := year % 4 = 0 ∧ (year % 100 ≠ 0 ∨ year % 400 = 0)

instance (year : ℕ) : Decidable (isLeap year) := inferInstanceAs (Decidable (_ ∧ _))

/-- The days in front of the first of January. -/
def daysBeforeYear (year : ℕ) : ℕ :=
  (year - 1) * 365 + (year - 1) / 4 - (year - 1) / 100 + (year - 1) / 400

def daysInYear (year : ℕ) : ℕ := if isLeap year then 366 else 365

def daysInMonth (year : ℕ) : ℕ → ℕ
  | 2 => if isLeap year then 29 else 28
  | 4 | 6 | 9 | 11 => 30
  | _ => 31

/-- The days of the months that are over. -/
def daysBeforeMonth (year month : ℕ) : ℕ := ((List.range' 1 (month - 1)).map (daysInMonth year)).sum

structure Date where
  year : ℕ
  month : ℕ
  day : ℕ
  year_pos : 1 ≤ year
  month_pos : 1 ≤ month
  month_le : month ≤ 12
  day_pos : 1 ≤ day
  day_le : day ≤ daysInMonth year month

def Date.toOrdinal (date : Date) : ℕ :=
  daysBeforeYear date.year + daysBeforeMonth date.year date.month + date.day

/-- The year and the month are the last ones that begin by then; there is none from the year 10000 on. -/
def Date.ofOrdinal (ordinal : ℕ) : Option Date :=
  let year := Nat.findGreatest (fun year => daysBeforeYear year < ordinal) 10000
  let rest := ordinal - daysBeforeYear year
  let month := Nat.findGreatest (fun month => daysBeforeMonth year month < rest) 12
  let day := rest - daysBeforeMonth year month
  if h : 1 ≤ year ∧ year ≤ 9999 ∧ 1 ≤ month ∧ month ≤ 12 ∧ 1 ≤ day ∧ day ≤ daysInMonth year month then
    some ⟨year, month, day, h.1, h.2.2.1, h.2.2.2.1, h.2.2.2.2.1, h.2.2.2.2.2⟩
  else none

theorem succ_div_eq (n d : ℕ) : (n + 1) / d = n / d + if (n + 1) % d = 0 then 1 else 0 := by
  rw [Nat.succ_div]
  simp only [Nat.dvd_iff_mod_eq_zero]

theorem daysBeforeYear_succ {year : ℕ} (hyear : 1 ≤ year) :
    daysBeforeYear (year + 1) = daysBeforeYear year + daysInYear year := by
  obtain ⟨last, rfl⟩ := Nat.exists_eq_add_of_le' hyear
  have hle : last / 100 ≤ last / 4 := Nat.div_le_div_left (by decide) (by decide)
  have hmod_four := Nat.mod_mod_of_dvd (last + 1) (show 4 ∣ 100 by decide)
  have hmod_hundred := Nat.mod_mod_of_dvd (last + 1) (show 100 ∣ 400 by decide)
  rw [daysBeforeYear, daysBeforeYear, daysInYear, Nat.add_sub_cancel, Nat.add_sub_cancel,
    succ_div_eq last 4, succ_div_eq last 100, succ_div_eq last 400]
  -- Only how the three counts of years grow matters from here on.
  generalize last / 4 = fours at *
  generalize last / 100 = hundreds at *
  generalize last / 400 = cycles at *
  by_cases hfour : (last + 1) % 4 = 0
  · by_cases hhundred : (last + 1) % 100 = 0
    · by_cases hcycle : (last + 1) % 400 = 0
      · have hleap : isLeap (last + 1) := ⟨hfour, .inr hcycle⟩
        rw [if_pos hfour, if_pos hhundred, if_pos hcycle, if_pos hleap]
        omega
      · have hplain : ¬isLeap (last + 1) := fun h => h.2.elim (· hhundred) hcycle
        rw [if_pos hfour, if_pos hhundred, if_neg hcycle, if_neg hplain]
        omega
    · have hcycle : (last + 1) % 400 ≠ 0 := fun hcycle => hhundred (by rw [← hmod_hundred, hcycle])
      have hleap : isLeap (last + 1) := ⟨hfour, .inl hhundred⟩
      rw [if_pos hfour, if_neg hhundred, if_neg hcycle, if_pos hleap]
      omega
  · have hhundred : (last + 1) % 100 ≠ 0 := fun hhundred => hfour (by rw [← hmod_four, hhundred])
    have hcycle : (last + 1) % 400 ≠ 0 := fun hcycle => hhundred (by rw [← hmod_hundred, hcycle])
    have hplain : ¬isLeap (last + 1) := fun h => hfour h.1
    rw [if_neg hfour, if_neg hhundred, if_neg hcycle, if_neg hplain]
    omega

theorem daysBeforeYear_mono {year year' : ℕ} (hyear : 1 ≤ year) (hle : year ≤ year') :
    daysBeforeYear year ≤ daysBeforeYear year' := by
  induction hle with
  | refl => exact Nat.le_refl _
  | step hle ih =>
      refine Nat.le_trans ih ?_
      rw [Nat.succ_eq_add_one, daysBeforeYear_succ (Nat.le_trans hyear hle)]
      exact Nat.le_add_right _ _

theorem daysBeforeMonth_succ {year month : ℕ} (hmonth : 1 ≤ month) :
    daysBeforeMonth year (month + 1) = daysBeforeMonth year month + daysInMonth year month := by
  obtain ⟨m, rfl⟩ := Nat.exists_eq_add_of_le hmonth
  rw [daysBeforeMonth, daysBeforeMonth, Nat.add_sub_cancel, Nat.add_sub_cancel_left, Nat.add_comm 1 m,
    List.range'_concat, List.map_append, List.sum_append, Nat.one_mul, Nat.add_comm 1 m]
  simp

theorem daysBeforeMonth_mono {year month month' : ℕ} (hmonth : 1 ≤ month) (hle : month ≤ month') :
    daysBeforeMonth year month ≤ daysBeforeMonth year month' := by
  induction hle with
  | refl => exact Nat.le_refl _
  | step hle ih =>
      refine Nat.le_trans ih ?_
      rw [Nat.succ_eq_add_one, daysBeforeMonth_succ (Nat.le_trans hmonth hle)]
      exact Nat.le_add_right _ _

theorem daysBeforeMonth_end (year : ℕ) : daysBeforeMonth year 13 = daysInYear year := by
  rw [daysInYear]
  by_cases hleap : isLeap year
  · simp [daysBeforeMonth, List.range', daysInMonth, hleap]
  · simp [daysBeforeMonth, List.range', daysInMonth, hleap]

namespace Date

theorem dayOfYear_le (date : Date) :
    daysBeforeMonth date.year date.month + date.day ≤ daysInYear date.year := by
  have hend := @daysBeforeMonth_mono date.year (date.month + 1) 13 (by omega)
    (Nat.succ_le_succ date.month_le)
  rw [daysBeforeMonth_succ date.month_pos, daysBeforeMonth_end] at hend
  have hday := date.day_le
  omega

theorem toOrdinal_lt_of_year_lt {a b : Date} (hyear : a.year < b.year) : a.toOrdinal < b.toOrdinal := by
  have hmono := daysBeforeYear_mono (Nat.le_succ_of_le a.year_pos) (Nat.succ_le_of_lt hyear)
  rw [Nat.succ_eq_add_one, daysBeforeYear_succ a.year_pos] at hmono
  have hday := a.dayOfYear_le
  have hpos := b.day_pos
  rw [toOrdinal, toOrdinal]
  omega

theorem toOrdinal_lt_of_month_lt {a b : Date} (hyear : a.year = b.year) (hmonth : a.month < b.month) :
    a.toOrdinal < b.toOrdinal := by
  have hmono := @daysBeforeMonth_mono a.year _ _ (Nat.le_succ_of_le a.month_pos) (Nat.succ_le_of_lt hmonth)
  rw [Nat.succ_eq_add_one, daysBeforeMonth_succ a.month_pos] at hmono
  have hday := a.day_le
  have hpos := b.day_pos
  rw [toOrdinal, toOrdinal, ← hyear]
  omega

/-- Dates are compared by year, month and day. -/
theorem toOrdinal_lt_iff (a b : Date) : a.toOrdinal < b.toOrdinal ↔
    a.year < b.year ∨ a.year = b.year ∧ (a.month < b.month ∨ a.month = b.month ∧ a.day < b.day) := by
  obtain hyear | hyear | hyear := lt_trichotomy a.year b.year
  · have hlt := toOrdinal_lt_of_year_lt hyear
    omega
  · obtain hmonth | hmonth | hmonth := lt_trichotomy a.month b.month
    · have hlt := toOrdinal_lt_of_month_lt hyear hmonth
      omega
    · rw [toOrdinal, toOrdinal, hyear, hmonth]
      omega
    · have hlt := toOrdinal_lt_of_month_lt hyear.symm hmonth
      omega
  · have hlt := toOrdinal_lt_of_year_lt hyear
    omega

theorem toOrdinal_of_ofOrdinal {ordinal : ℕ} {date : Date} (hdate : ofOrdinal ordinal = some date) :
    date.toOrdinal = ordinal ∧ date.year ≤ 9999 := by
  rw [ofOrdinal] at hdate
  split at hdate
  · rename_i hvalid
    obtain rfl := Option.some.inj hdate
    refine ⟨?_, hvalid.2.1⟩
    have hpos := hvalid.2.2.2.2.1
    rw [toOrdinal]
    dsimp only at hpos ⊢
    omega
  · cases hdate

end Date

end Calendar
