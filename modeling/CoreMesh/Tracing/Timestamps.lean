import CoreMesh.Lib.Binary64
import CoreMesh.Lib.Calendar
import CoreMesh.Lib.FixedWidth
import CoreMesh.Tracing.TraceTree

/-!
# Timestamps

`_iso_time` and those who compare what it gives: the analyzer and the artifact sort the spans by the texts of
their starts, the artifact takes the least start and the greatest end, and the registry orders by the column
that holds the start. A time without a fraction has none in its text, and `+` is in front of the point.
-/

namespace CoreMesh.Tracing

open Calendar FixedWidth

/-! ### Times and their texts -/

/-- A `datetime` in UTC. -/
structure DateTime where
  date : Date
  hour : ℕ
  minute : ℕ
  second : ℕ
  microsecond : ℕ
  year_le : date.year ≤ 9999
  hour_lt : hour < 24
  minute_lt : minute < 60
  second_lt : second < 60
  microsecond_lt : microsecond < 1000000

namespace DateTime

/-- In microseconds, from the day in front of the first one. -/
def instant (time : DateTime) : ℕ :=
  (((time.date.toOrdinal * 24 + time.hour) * 60 + time.minute) * 60 + time.second) * 1000000 +
    time.microsecond

def fraction (microsecond : ℕ) : List Char := if microsecond = 0 then [] else '.' :: digits 6 microsecond

def utcOffset : List Char := "+00:00".toList

def isoformat (time : DateTime) : String :=
  String.ofList (digits 4 time.date.year ++ '-' :: (digits 2 time.date.month ++ '-' ::
    (digits 2 time.date.day ++ 'T' :: (digits 2 time.hour ++ ':' :: (digits 2 time.minute ++ ':' ::
      (digits 2 time.second ++ (fraction time.microsecond ++ utcOffset)))))))

/-- The time that is so many microseconds after the start of 1970. -/
def ofMicroseconds (microseconds : ℕ) : Option DateTime :=
  match hdate : Date.ofOrdinal (719163 + microseconds / 86400000000) with
  | some date => some
      { date := date
        hour := microseconds / 3600000000 % 24
        minute := microseconds / 60000000 % 60
        second := microseconds / 1000000 % 60
        microsecond := microseconds % 1000000
        year_le := (Date.toOrdinal_of_ofOrdinal hdate).2
        hour_lt := Nat.mod_lt _ (by omega)
        minute_lt := Nat.mod_lt _ (by omega)
        second_lt := Nat.mod_lt _ (by omega)
        microsecond_lt := Nat.mod_lt _ (by omega) }
  | none => none

/-- Whole seconds, and the rest of them times a million, which is rounded as a float and to an integer. -/
def toMicroseconds (seconds : ℚ) : ℕ :=
  ⌊seconds⌋.toNat * 1000000 + (Rounding.halfEven (Binary64.nearest (Int.fract seconds * 1000000))).toNat

/-- `datetime.fromtimestamp` in UTC, on what is not negative. -/
def fromTimestamp (seconds : ℚ) : Option DateTime := ofMicroseconds (toMicroseconds seconds)

end DateTime

def isoTimestamp : Binary64 → Option String
  | .finite seconds _ => (DateTime.fromTimestamp seconds).map DateTime.isoformat
  | .nan | .infinity _ => none

/-- `_iso_time`, on a count that is not zero. -/
def isoTime (nanoseconds : ℕ) : Option String := isoTimestamp (Binary64.ofRat ((nanoseconds : ℚ) / 1000000000))

/-! ### The order of the texts -/

namespace DateTime

theorem field_lt_iff {width m n : ℕ} (hm : m < 10 ^ width) (hn : n < 10 ^ width) (c : Char) {x y : List Char} :
    digits width m ++ c :: x < digits width n ++ c :: y ↔ m < n ∨ m = n ∧ x < y := by
  rw [digits_append_lt_iff hm hn, List.cons_lt_cons_iff]
  have hc : ¬c < c := lt_irrefl c
  tauto

/-- A missing fraction is that of the least time of its second. -/
theorem fraction_lt_iff {m n : ℕ} (hm : m < 1000000) (hn : n < 1000000) :
    fraction m ++ utcOffset < fraction n ++ utcOffset ↔ m < n := by
  have hnone : ∀ k, k ≠ 0 → fraction 0 ++ utcOffset < fraction k ++ utcOffset := by
    intro k hk
    rw [fraction, if_pos rfl, fraction, if_neg hk]
    exact List.cons_lt_cons_iff.mpr (.inl (by decide))
  by_cases hm0 : m = 0
  · subst hm0
    by_cases hn0 : n = 0
    · subst hn0
      exact iff_of_false (lt_irrefl _) (lt_irrefl _)
    · exact iff_of_true (hnone n hn0) (by omega)
  · by_cases hn0 : n = 0
    · subst hn0
      exact iff_of_false (lt_asymm (hnone m hm0)) (by omega)
    · rw [fraction, if_neg hm0, fraction, if_neg hn0, List.cons_append, List.cons_append, List.cons_lt_cons_iff,
        digits_append_lt_iff hm hn]
      have hpoint : ¬( '.' < '.') := lt_irrefl _
      have htail : ¬utcOffset < utcOffset := lt_irrefl _
      tauto

theorem instant_lt_iff (a b : DateTime) : a.instant < b.instant ↔
    a.date.toOrdinal < b.date.toOrdinal ∨ a.date.toOrdinal = b.date.toOrdinal ∧
      (a.hour < b.hour ∨ a.hour = b.hour ∧ (a.minute < b.minute ∨ a.minute = b.minute ∧
        (a.second < b.second ∨ a.second = b.second ∧ a.microsecond < b.microsecond))) := by
  have hha := a.hour_lt
  have hhb := b.hour_lt
  have hma := a.minute_lt
  have hmb := b.minute_lt
  have hsa := a.second_lt
  have hsb := b.second_lt
  have hua := a.microsecond_lt
  have hub := b.microsecond_lt
  rw [instant, instant]
  omega

/-- To compare year, month, day and the rest is to compare the date and the rest. -/
theorem by_date_iff {year sameYear month sameMonth day sameDay rest : Prop} :
    (year ∨ sameYear ∧ (month ∨ sameMonth ∧ (day ∨ sameDay ∧ rest))) ↔
      ((year ∨ sameYear ∧ (month ∨ sameMonth ∧ day)) ∨ (sameYear ∧ sameMonth ∧ sameDay) ∧ rest) := by
  tauto

/-- The text of the earlier time is the smaller one. -/
theorem isoformat_lt_iff (a b : DateTime) : a.isoformat < b.isoformat ↔ a.instant < b.instant := by
  have hyears : a.date.year < 10 ^ 4 ∧ b.date.year < 10 ^ 4 :=
    ⟨Nat.lt_succ_of_le a.year_le, Nat.lt_succ_of_le b.year_le⟩
  have htwo : ∀ {n : ℕ}, n < 60 → n < 10 ^ 2 := fun h => h.trans (by omega)
  have hmonth : ∀ date : Date, date.month < 10 ^ 2 := fun date => date.month_le.trans_lt (by omega)
  have hdays : ∀ date : Date, date.day < 10 ^ 2 := by
    intro date
    refine (date.day_le.trans ?_).trans_lt (show 31 < 10 ^ 2 by omega)
    rw [daysInMonth.eq_def]
    split
    · split
      · omega
      · omega
    all_goals omega
  have hsame : a.date.toOrdinal = b.date.toOrdinal ↔
      a.date.year = b.date.year ∧ a.date.month = b.date.month ∧ a.date.day = b.date.day := by
    have hlt := Date.toOrdinal_lt_iff a.date b.date
    have hgt := Date.toOrdinal_lt_iff b.date a.date
    omega
  rw [String.lt_iff_toList_lt, isoformat, isoformat, String.toList_ofList, String.toList_ofList,
    field_lt_iff hyears.1 hyears.2, field_lt_iff (hmonth _) (hmonth _), field_lt_iff (hdays _) (hdays _),
    field_lt_iff (htwo (a.hour_lt.trans (by omega))) (htwo (b.hour_lt.trans (by omega))),
    field_lt_iff (htwo a.minute_lt) (htwo b.minute_lt),
    digits_append_lt_iff (htwo a.second_lt) (htwo b.second_lt),
    fraction_lt_iff a.microsecond_lt b.microsecond_lt, instant_lt_iff, Date.toOrdinal_lt_iff, hsame]
  exact by_date_iff

theorem isoformat_inj {a b : DateTime} : a.isoformat = b.isoformat ↔ a.instant = b.instant := by
  have hlt := isoformat_lt_iff a b
  have hgt := isoformat_lt_iff b a
  obtain h | h | h := lt_trichotomy a.isoformat b.isoformat
  · exact iff_of_false h.ne (hlt.mp h).ne
  · refine iff_of_true h ?_
    rw [h] at hlt hgt
    have hle : ¬a.instant < b.instant := fun h => lt_irrefl _ (hlt.mpr h)
    have hge : ¬b.instant < a.instant := fun h => lt_irrefl _ (hgt.mpr h)
    omega
  · exact iff_of_false h.ne' (hgt.mp h).ne'

/-! ### Times of counts -/

theorem instant_ofMicroseconds {microseconds : ℕ} {time : DateTime}
    (htime : ofMicroseconds microseconds = some time) :
    time.instant = microseconds + 719163 * 86400000000 := by
  rw [ofMicroseconds] at htime
  split at htime
  · rename_i date hdate
    obtain rfl := Option.some.inj htime
    rw [instant]
    dsimp only
    rw [(Date.toOrdinal_of_ofOrdinal hdate).1]
    omega
  · cases htime

theorem toMicroseconds_mono {s t : ℚ} (hs : 0 ≤ s) (hle : s ≤ t) : toMicroseconds s ≤ toMicroseconds t := by
  have hmillion : Binary64.nearest 1000000 = 1000000 := by
    have hcast := Binary64.nearest_intCast (show |(1000000 : ℤ)| < 2 ^ 53 by decide)
    exact_mod_cast hcast
  have hrest : ∀ x : ℚ, (Rounding.halfEven (Binary64.nearest (Int.fract x * 1000000))).toNat ≤ 1000000 := by
    intro x
    have hfract : Int.fract x * 1000000 ≤ 1000000 := by
      have := (Int.fract_lt_one x).le
      linarith
    have hnearest := Binary64.nearest_mono (mul_nonneg (Int.fract_nonneg x) (by norm_num)) hfract
    rw [hmillion] at hnearest
    have hround : Rounding.halfEven (Binary64.nearest (Int.fract x * 1000000)) ≤ 1000000 :=
      Rounding.halfEven_le (by exact_mod_cast hnearest)
    omega
  have hfloor : ⌊s⌋ ≤ ⌊t⌋ := Int.floor_le_floor hle
  have hpos : 0 ≤ ⌊s⌋ := Int.floor_nonneg.mpr hs
  rw [toMicroseconds, toMicroseconds]
  obtain hlt | heq := lt_or_eq_of_le hfloor
  · -- A second that has begun is after all of the one before, however that is rounded.
    have hless := hrest s
    omega
  · have hfract : Int.fract s * 1000000 ≤ Int.fract t * 1000000 := by
      rw [Int.fract, Int.fract, heq]
      linarith
    have hnearest := Binary64.nearest_mono (mul_nonneg (Int.fract_nonneg s) (by norm_num)) hfract
    have hround := Int.toNat_le_toNat (Rounding.halfEven_mono hnearest)
    rw [heq]
    omega

end DateTime

/-- The counts whose texts there are, and the times that these are the texts of. -/
theorem isoTime_eq_some {nanoseconds : ℕ} {text : String} (htext : isoTime nanoseconds = some text) :
    ∃ time : DateTime, text = time.isoformat ∧ time.instant = DateTime.toMicroseconds
      (Binary64.nearest ((nanoseconds : ℚ) / 1000000000)) + 719163 * 86400000000 := by
  rw [isoTime] at htext
  obtain ⟨hx, hfinite⟩ | ⟨hinfinite, -⟩ := Binary64.ofRat_cases ((nanoseconds : ℚ) / 1000000000)
  · rw [hfinite] at htext
    obtain ⟨time, htime, rfl⟩ := Option.map_eq_some_iff.mp htext
    exact ⟨time, rfl, DateTime.instant_ofMicroseconds htime⟩
  · rw [hinfinite] at htext
    cases htext

/-- A later count has no earlier text. -/
theorem isoTime_mono {m n : ℕ} (hle : m ≤ n) {s t : String} (hs : isoTime m = some s)
    (ht : isoTime n = some t) : s ≤ t := by
  obtain ⟨a, rfl, ha⟩ := isoTime_eq_some hs
  obtain ⟨b, rfl, hb⟩ := isoTime_eq_some ht
  refine le_of_not_gt fun hlt => ?_
  have hinstant := (DateTime.isoformat_lt_iff b a).mp hlt
  have hpos : (0 : ℚ) ≤ m / 1000000000 := by positivity
  have hcounts : (m : ℚ) / 1000000000 ≤ n / 1000000000 := by
    apply div_le_div_of_nonneg_right _ (by norm_num)
    exact_mod_cast hle
  have hmono := DateTime.toMicroseconds_mono (Binary64.nearest_nonneg hpos) (Binary64.nearest_mono hpos hcounts)
  omega

end CoreMesh.Tracing
