import CoreMesh.Gateway.RetryAfter
import CoreMesh.Http.Url
import CoreMesh.Lib.Binary64
import CoreMesh.Lib.Except

/-!
# The limiter in machine arithmetic

`Config.Validate`, and what `NewRedisTokenBucket` and `Allow` then make of the limits: a rate of double
precision, a time to live in nanoseconds of 64 bits, and the rate that the script reads from a text with
six decimals. The conversion of a double that is out of range is left to the machine.

`Config` has no `RedisURL` here, which is not checked.
-/

namespace CoreMesh.Gateway.Machine

open Binary64

/-- What `url.ParseRequestURI` returns. -/
structure RequestURI extends Http.URL where
  user : Option String := none
  fragment : String := ""

structure Config where
  primaryURL : String
  fallbackURL : String
  rateLimitCapacity : Int64
  rateLimitRefillPerSecond : Binary64
  circuitFailureThreshold : Int64
  circuitFailureWindow : Int64
  circuitOpenDuration : Int64
  allowedOrigins : List String

namespace Config

section Validate

variable (parseRequestURI : String → Except String RequestURI) (quote : String → String)

def mustBeGreaterThanZero (name : String) (isNot : Bool) : Except String Unit :=
  if isNot then .error (name ++ " must be greater than zero") else .ok ()

def validateURL (name raw : String) : Except String Unit :=
  match parseRequestURI raw with
  | .error err => .error ("invalid " ++ name ++ ": " ++ err)
  | .ok _ => .ok ()

/-- One round of the loop over the origins; `quote` is that of the verb `%q`. -/
def validateOrigin (origin : String) : Except String Unit :=
  let invalid := Except.error ("invalid GATEWAY_ALLOWED_ORIGINS entry " ++ quote origin)
  match parseRequestURI origin with
  | .error _ => invalid
  | .ok parsed =>
      if parsed.scheme = "" ∨ parsed.host = "" ∨ parsed.user ≠ none ∨ parsed.path ≠ "" ∨
          parsed.rawQuery ≠ "" ∨ parsed.fragment ≠ "" then invalid
      else if parsed.scheme ≠ "http" ∧ parsed.scheme ≠ "https" then
        .error ("GATEWAY_ALLOWED_ORIGINS entry " ++ quote origin ++ " must use http or https")
      else .ok ()

def validate (c : Config) : Except String Unit := do
  mustBeGreaterThanZero "RATE_LIMIT_CAPACITY" (c.rateLimitCapacity ≤ 0)
  mustBeGreaterThanZero "RATE_LIMIT_REFILL_PER_SECOND" (c.rateLimitRefillPerSecond.le zero)
  mustBeGreaterThanZero "CIRCUIT_FAILURE_THRESHOLD" (c.circuitFailureThreshold ≤ 0)
  mustBeGreaterThanZero "CIRCUIT_FAILURE_WINDOW" (c.circuitFailureWindow ≤ 0)
  mustBeGreaterThanZero "CIRCUIT_OPEN_DURATION" (c.circuitOpenDuration ≤ 0)
  validateURL parseRequestURI "GATEWAY_PRIMARY_URL" c.primaryURL
  validateURL parseRequestURI "GATEWAY_FALLBACK_URL" c.fallbackURL
  c.allowedOrigins.forM (validateOrigin parseRequestURI quote)

end Validate

/-- `DefaultConfig`. -/
def default : Config where
  primaryURL := "http://localhost:8000"
  fallbackURL := "http://localhost:8000"
  rateLimitCapacity := 100
  rateLimitRefillPerSecond := .finite 20 ⟨20, 0, by norm_num, by norm_num, by norm_num, by norm_num⟩
  circuitFailureThreshold := 5
  circuitFailureWindow := 30000000000
  circuitOpenDuration := 30000000000
  allowedOrigins := ["http://localhost:3000", "http://localhost:5173"]

theorem mustBeGreaterThanZero_eq_ok {name : String} {isNot : Bool}
    (hok : mustBeGreaterThanZero name isNot = .ok ()) : isNot = false := by
  cases isNot with
  | false => rfl
  | true => cases hok

/-- What `Validate` says of the limits that it accepts; a nan passes. -/
theorem validate_ok {parseRequestURI : String → Except String RequestURI} {quote : String → String}
    {c : Config} (hvalid : c.validate parseRequestURI quote = .ok ()) :
    0 < c.rateLimitCapacity.toInt ∧ c.rateLimitRefillPerSecond.le zero = false := by
  obtain ⟨_, hcapacity, hrest⟩ := Outcome.bind_eq_ok hvalid
  obtain ⟨_, hrate, _⟩ := Outcome.bind_eq_ok hrest
  constructor
  · have hpositive := of_decide_eq_false (mustBeGreaterThanZero_eq_ok hcapacity)
    rw [Int64.not_le, Int64.lt_iff_toInt_lt, Int64.toInt_zero] at hpositive
    exact hpositive
  · exact mustBeGreaterThanZero_eq_ok hrate

end Config

structure RedisTokenBucket where
  capacity : Int64
  refillPerSecond : Binary64
  /-- In nanoseconds. -/
  ttl : Int64

def rateLimitRedisMinimumTTL : Int64 := Int64.ofInt (Gateway.rateLimitRedisMinimumTTL * second)

/-- `math.Ceil(float64(capacity)/refillPerSecond)*2`. -/
def refillSeconds (capacity : Int64) (refillPerSecond : Binary64) : Binary64 :=
  mul (ceil (div (ofInt capacity.toInt) refillPerSecond)) (ofInt 2)

def newRedisTokenBucket (toInt64 : Binary64 → Int64) (capacity : Int64) (refillPerSecond : Binary64) :
    RedisTokenBucket :=
  let ttl := toInt64 (refillSeconds capacity refillPerSecond) * Int64.ofInt second
  { capacity
    refillPerSecond
    ttl := if ttl < rateLimitRedisMinimumTTL then rateLimitRedisMinimumTTL else ttl }

/-- `Duration.Seconds`. -/
def seconds (d : Int64) : Binary64 :=
  add (ofInt (d.toInt.tdiv second)) (div (ofInt (d.toInt.tmod second)) (ofInt second))

namespace RedisTokenBucket

/-- What the script reads from the text that `strconv.FormatFloat` writes of the rate. -/
def refillRate (b : RedisTokenBucket) : Binary64 :=
  match b.refillPerSecond with
  | .nan => .nan
  | .infinity negative => .infinity negative
  | .finite x _ => ofRat (sixDecimals x)

/-- The seconds after which the script lets the key run out. -/
def expiry (toInt64 : Binary64 → Int64) (b : RedisTokenBucket) : Int64 := toInt64 (seconds b.ttl)

/-- The key lives for as long as the bucket takes to fill up, at the configured rate and at the rate of
the script, which is positive. -/
structure Sound (toInt64 : Binary64 → Int64) (b : RedisTokenBucket) : Prop where
  ttl_pos : 0 < b.ttl.toInt
  wait_le_ttl : ∀ x hx, b.refillPerSecond = .finite x hx →
    (b.capacity.toInt / x : ℚ) ≤ b.ttl.toInt / second
  expiry_eq : (b.expiry toInt64).toInt * second = b.ttl.toInt
  refillRate_pos : lt zero b.refillRate
  capacity_le : ∀ x hx, b.refillRate = .finite x hx → (b.capacity.toInt : ℚ) ≤ x * (b.expiry toInt64).toInt
  retryAfter_ne_none : ∀ x hx, b.refillRate = .finite x hx → ∀ now state,
    (tokenBucketScript b.capacity.toInt x (b.expiry toInt64).toInt now state).1.retryAfter ≠ none

end RedisTokenBucket

/-! ### The time to live -/

theorem ttl_eq (toInt64 : Binary64 → Int64) (capacity : Int64) (refillPerSecond : Binary64) :
    (newRedisTokenBucket toInt64 capacity refillPerSecond).ttl.toInt = max (60 * second)
      (Int.bmod ((toInt64 (refillSeconds capacity refillPerSecond)).toInt * second) (2 ^ 64)) := by
  have hsecond : (Int64.ofInt second).toInt = second := by decide
  have hminimum : rateLimitRedisMinimumTTL.toInt = 60 * second := by decide
  rw [← hsecond, ← Int64.toInt_mul, hsecond, ← hminimum]
  unfold newRedisTokenBucket
  dsimp only
  split
  · next hlt =>
      rw [Int64.lt_iff_toInt_lt] at hlt
      exact (max_eq_left hlt.le).symm
  · next hle =>
      rw [Int64.lt_iff_toInt_lt, not_lt] at hle
      exact (max_eq_right hle).symm

section Finite

variable {capacity : Int64} {x : ℚ}

theorem ofInt_capacity (hcapacity : 0 < capacity.toInt) :
    (∃ hc, ofInt capacity.toInt = .finite (nearest capacity.toInt) hc) ∧
      99 / 100 * (capacity.toInt : ℚ) ≤ nearest capacity.toInt ∧
      nearest capacity.toInt ≤ 101 / 100 * capacity.toInt := by
  have hone : (1 : ℚ) ≤ capacity.toInt := by exact_mod_cast hcapacity
  refine ⟨?_, nearest_bounds (by linarith)⟩
  obtain hfinite | ⟨-, hlarge⟩ := ofRat_cases capacity.toInt
  · exact hfinite
  · have hbound : (capacity.toInt : ℚ) < 2 ^ (63 : ℤ) := by exact_mod_cast capacity.toInt_lt
    have hpower : (2 : ℚ) ^ (63 : ℤ) ≤ 2 ^ (1023 : ℤ) := zpow_le_zpow_right₀ (by norm_num) (by norm_num)
    rw [abs_of_pos (by linarith)] at hlarge
    exact absurd (hpower.trans hlarge) (not_le.mpr hbound)

theorem mul_ceil_two {y : ℚ} (hy : Representable y) (hsize : |(⌈y⌉ : ℚ)| < 2 ^ (1023 : ℤ)) :
    mul (ceil (.finite y hy)) (ofInt 2) = .finite (⌈y⌉ * 2) (hy.ceil.double hsize) := by
  have hsmall : |(2 : ℤ)| < 2 ^ 53 := by norm_num
  rw [ofInt_eq hsmall]
  simp only [ceil, mul]
  push_cast
  exact ofRat_of_representable _

/-- Either nothing overflows on the way to the doubled seconds, or there are too many of them anyway. -/
theorem refillSeconds_cases (hcapacity : 0 < capacity.toInt) (hx : Representable x) (hpos : 0 < x) :
    (∃ hr, refillSeconds capacity (.finite x hx) =
        .finite (⌈nearest (nearest capacity.toInt / x)⌉ * 2) hr) ∨
      2 ^ 64 ≤ ⌈nearest (nearest capacity.toInt / x)⌉ := by
  obtain ⟨⟨hc, hcast⟩, hlow, -⟩ := ofInt_capacity hcapacity
  have hone : (1 : ℚ) ≤ capacity.toInt := by exact_mod_cast hcapacity
  have hquotient : 0 < nearest capacity.toInt / x := div_pos (by linarith) hpos
  generalize hy : nearest capacity.toInt / x = y at hquotient
  have hdiv : refillSeconds capacity (.finite x hx) = mul (ceil (ofRat y)) (ofInt 2) := by
    rw [refillSeconds, hcast, div, if_neg hpos.ne', hy]
  have hpower : (2 : ℚ) ^ (65 : ℤ) ≤ 2 ^ (1023 : ℤ) := zpow_le_zpow_right₀ (by norm_num) (by norm_num)
  rw [hdiv]
  obtain ⟨hnearest, hfinite⟩ | ⟨-, hlarge⟩ := ofRat_cases y
  · by_cases hsize : |(⌈nearest y⌉ : ℚ)| < 2 ^ (1023 : ℤ)
    · rw [hfinite]
      exact .inl ⟨_, mul_ceil_two hnearest hsize⟩
    · right
      have hceil : 0 ≤ ⌈nearest y⌉ := Int.ceil_nonneg (nearest_nonneg hquotient.le)
      rw [not_lt, abs_of_nonneg (by exact_mod_cast hceil)] at hsize
      have hmany : (2 ^ 65 : ℤ) ≤ ⌈nearest y⌉ := by exact_mod_cast hpower.trans hsize
      omega
  · right
    rw [abs_of_pos hquotient] at hlarge
    have hmany : (2 : ℚ) ^ 65 ≤ y := by exact_mod_cast hpower.trans hlarge
    clear hlarge hpower
    have hnearest := (nearest_bounds (by linarith : 1 / 1000000 ≤ y)).1
    have hceil := Int.le_ceil (nearest y)
    have hround : ((2 ^ 64 : ℤ) : ℚ) ≤ ⌈nearest y⌉ := by
      push_cast
      linarith
    exact_mod_cast hround

theorem ttl_of_le {toInt64 : Binary64 → Int64} (hconvert : Converts toInt64) {m : ℤ} {rate : Binary64}
    {hr : Representable (m * 2)} (hseconds : refillSeconds capacity rate = .finite (m * 2) hr)
    (hlow : 0 ≤ m) (hhigh : m ≤ 4611686018) :
    (newRedisTokenBucket toInt64 capacity rate).ttl.toInt = max 60 (m * 2) * second := by
  have hexact : (toInt64 (.finite (m * 2) hr)).toInt = m * 2 :=
    hconvert.toInt_eq hr (by push_cast; rfl) (by omega) (by omega)
  have hsecond : second = 1000000000 := rfl
  have hfits : Int.bmod (m * 2 * 1000000000) (2 ^ 64) = m * 2 * 1000000000 := by
    apply Int.bmod_eq_of_le <;> omega
  rw [ttl_eq, hseconds, hexact, hsecond, hfits]
  omega

theorem ttl_le {toInt64 : Binary64 → Int64} (hconvert : Converts toInt64) {m : ℤ} {rate : Binary64}
    (hseconds : (∃ hr, refillSeconds capacity rate = .finite (m * 2) hr) ∨ 2 ^ 64 ≤ m)
    (hover : 4611686018 < m) :
    (newRedisTokenBucket toInt64 capacity rate).ttl.toInt * 10 ≤ 9 * (m * second) := by
  have hsecond : second = 1000000000 := rfl
  have hbound := (newRedisTokenBucket toInt64 capacity rate).ttl.toInt_lt
  by_cases hsize : m * 2 < 2 ^ 63
  · obtain ⟨hr, hfinite⟩ | hmany := hseconds
    · have hexact : (toInt64 (.finite (m * 2) hr)).toInt = m * 2 :=
        hconvert.toInt_eq hr (by push_cast; rfl) (by omega) (by omega)
      rw [ttl_eq, hfinite, hexact, hsecond, Int.bmod_def]
      split
      · next hrest =>
          have hwraps : 1 ≤ m * 2 * 1000000000 / 2 ^ 64 := by omega
          omega
      · omega
    · omega
  · rw [hsecond]
    omega

/-- The greatest number of seconds that fits is even in its last place, so the middle is rounded to it. -/
theorem ceil_nearest_le_iff {y : ℚ} (hy : 0 ≤ y) :
    ⌈nearest y⌉ ≤ 4611686018 ↔ y ≤ 4611686018 + 1 / 2 ^ 21 := by
  rw [Int.ceil_le]
  push_cast
  obtain hlow | hhigh := lt_or_ge y (2 ^ 32)
  · obtain hzero | hpos := lt_or_ge y 1
    · have hround := (abs_le.mp (abs_nearest_sub_le y)).2
      rw [abs_of_nonneg hy, max_eq_right hzero.le] at hround
      constructor <;> intro <;> linarith
    · obtain ⟨-, hround⟩ := nearest_bounds (by linarith : 1 / 1000000 ≤ y)
      constructor <;> intro <;> linarith
  · obtain hbinade | hbeyond := lt_or_ge y (2 ^ 33)
    · have hnearest := nearest_eq (x := y) (e := -20) (by norm_num) (by norm_num; linarith)
        (by norm_num; linarith)
      have hlast : (2 : ℚ) ^ (-20 : ℤ) = 1 / 2 ^ 20 := by norm_num
      have heven := Rounding.halfEven_le_iff (x := y * 2 ^ 20) (n := 4611686018 * 2 ^ 20) (by norm_num)
      rw [hnearest, hlast, div_div_eq_mul_div, div_one, mul_one_div, div_le_iff₀ (by norm_num)]
      constructor
      · intro hle
        have hupper := heven.mp (by exact_mod_cast hle)
        push_cast at hupper
        linarith
      · intro hle
        have hupper := heven.mpr (by push_cast; linarith)
        exact_mod_cast hupper
    · obtain ⟨hround, -⟩ := nearest_bounds (by linarith : 1 / 1000000 ≤ y)
      constructor <;> intro <;> linarith

theorem wait_le (hcapacity : 0 < capacity.toInt) (hpos : 0 < x) :
    8 / 5 * (capacity.toInt / x) ≤
      ((max 60 (⌈nearest (nearest capacity.toInt / x)⌉ * 2) : ℤ) : ℚ) := by
  obtain ⟨-, hlow, -⟩ := ofInt_capacity hcapacity
  have hslow : 99 / 100 * (capacity.toInt / x) ≤ nearest capacity.toInt / x := by
    rw [← mul_div_assoc]
    exact div_le_div_of_nonneg_right hlow hpos.le
  generalize nearest capacity.toInt / x = y at hslow
  have hsixty : (60 : ℚ) ≤ ((max 60 (⌈nearest y⌉ * 2) : ℤ) : ℚ) := by exact_mod_cast le_max_left _ _
  obtain hshort | hlong := lt_or_ge y 1
  · linarith
  · have hdoubled : (⌈nearest y⌉ * 2 : ℚ) ≤ ((max 60 (⌈nearest y⌉ * 2) : ℤ) : ℚ) := by
      exact_mod_cast le_max_right _ _
    have hceil := Int.le_ceil (nearest y)
    obtain ⟨hround, -⟩ := nearest_bounds (by linarith : 1 / 1000000 ≤ y)
    linarith

end Finite

theorem seconds_eq {d : Int64} {k : ℤ} (hd : d.toInt = k * second) (hk : |k| < 2 ^ 53) :
    seconds d = .finite k (representable_intCast hk) := by
  have hsecond : second ≠ 0 := by decide
  have hnone : |(0 : ℤ)| < 2 ^ 53 := by norm_num
  have hsmall : |second| < 2 ^ 53 := by decide
  have hrest : div (ofInt 0) (ofInt second) = .finite (0 : ℤ) (representable_intCast hnone) := by
    have hquotient : ((0 : ℤ) : ℚ) / second = (0 : ℤ) := by rw [Int.cast_zero, zero_div]
    rw [ofInt_eq hnone, ofInt_eq hsmall]
    simp only [div, Int.cast_eq_zero, if_neg hsecond]
    rw [hquotient]
    exact ofInt_eq hnone
  have hsum : (k : ℚ) + (0 : ℤ) = k := by rw [Int.cast_zero, add_zero]
  rw [seconds, hd, Int.mul_tdiv_cancel k hsecond, Int.mul_tmod_left, hrest, ofInt_eq hk]
  simp only [add]
  rw [hsum]
  exact ofRat_of_representable _

/-! ### The rate of the script -/

theorem sixDecimals_pos_iff (x : ℚ) : 0 < sixDecimals x ↔ 1 / 2000000 < x := by
  have heven := Rounding.halfEven_le_iff (x := x * 1000000) (n := 0) rfl
  rw [← roundHalfEven_eq, Int.cast_zero, zero_add] at heven
  rw [sixDecimals, div_pos_iff_of_pos_right (by norm_num), Int.cast_pos, ← not_le, heven, not_le]
  constructor <;> intro <;> linarith

theorem lt_zero_ofRat {x : ℚ} (hx : 1 / 1000000 ≤ x) : lt zero (ofRat x) = true := by
  obtain ⟨hlow, -⟩ := nearest_bounds hx
  obtain ⟨_, hfinite⟩ | ⟨hinfinite, -⟩ := ofRat_cases x
  · rw [hfinite]
    exact decide_eq_true (by linarith)
  · rw [hinfinite, decide_eq_false (by linarith)]
    rfl

/-- A rate that is read back from its six decimals is not much less. -/
theorem le_of_refillRate {x r : ℚ} {hr : Representable r} (hx : 1 / 2000000 < x)
    (hrate : ofRat (sixDecimals x) = .finite r hr) : 0 < r ∧ x ≤ 8 / 5 * r := by
  obtain ⟨hpos, hsix, hsixth⟩ := le_sixDecimals ((sixDecimals_pos_iff x).mpr hx)
  obtain ⟨hlow, -⟩ := nearest_bounds hsixth
  obtain ⟨_, hfinite⟩ | ⟨hinfinite, -⟩ := ofRat_cases (sixDecimals x)
  · rw [hfinite] at hrate
    injection hrate with hr
    rw [← hr]
    constructor <;> linarith
  · rw [hinfinite] at hrate
    cases hrate

theorem ofRat_sixDecimals_of_le {x : ℚ} (hpos : 0 < x) (hx : x ≤ 1 / 2000000) :
    ofRat (sixDecimals x) = zero := by
  have hnone : ¬ 0 < sixDecimals x := by
    rw [sixDecimals_pos_iff]
    exact not_lt.mpr hx
  have hzero := RedisTokenBucket.sixDecimals_nonneg hpos.le
  rw [le_antisymm (not_lt.mp hnone) hzero]
  exact ofRat_of_representable representable_zero

theorem retryAfter_ne_none {capacity ttl : ℤ} {refillRate : ℚ} (hrate : refillRate ≠ 0) (now : ℚ)
    (state : Option Stored) :
    (tokenBucketScript capacity refillRate ttl now state).1.retryAfter ≠ none := by
  simp only [tokenBucketScript, if_neg hrate]
  split
  · intro hnone
    cases hnone
  · intro hnone
    cases hnone

namespace RedisTokenBucket

theorem sound_of_ttl {toInt64 : Binary64 → Int64} (hconvert : Converts toInt64) {b : RedisTokenBucket}
    {k : ℤ} (httl : b.ttl.toInt = k * second) (hlow : 60 ≤ k) (hhigh : k ≤ 9223372036)
    (hwait : ∀ x hx, b.refillPerSecond = .finite x hx → (b.capacity.toInt / x : ℚ) ≤ k)
    (hrate : lt zero b.refillRate)
    (hfull : ∀ r hr, b.refillRate = .finite r hr → 0 < r ∧ (b.capacity.toInt : ℚ) ≤ r * k) :
    b.Sound toInt64 := by
  have hsecond : second = 1000000000 := rfl
  have hsize : |k| < 2 ^ 53 := by
    rw [abs_lt]
    constructor <;> omega
  have hexpiry : (b.expiry toInt64).toInt = k := by
    rw [expiry, seconds_eq httl hsize]
    exact hconvert.toInt_eq _ rfl (by omega) (by omega)
  refine ⟨?_, ?_, ?_, hrate, ?_, ?_⟩
  · rw [httl, hsecond]
    omega
  · intro x hx hfinite
    have hcancel : ((b.ttl.toInt : ℤ) : ℚ) / second = k := by
      rw [httl, Int.cast_mul, hsecond]
      exact mul_div_cancel_right₀ _ (by norm_num)
    rw [hcancel]
    exact hwait x hx hfinite
  · rw [hexpiry, httl]
  · intro r hr hfinite
    rw [hexpiry]
    exact (hfull r hr hfinite).2
  · intro r hr hfinite
    exact retryAfter_ne_none (hfull r hr hfinite).1.ne'

end RedisTokenBucket

section Limits

variable {toInt64 : Binary64 → Int64} {capacity : Int64}

theorem sound_infinity (hconvert : Converts toInt64) (hcapacity : 0 < capacity.toInt) :
    (newRedisTokenBucket toInt64 capacity (.infinity false)).Sound toInt64 := by
  obtain ⟨⟨_, hcast⟩, -⟩ := ofInt_capacity hcapacity
  have hsize : |((⌈(0 : ℚ)⌉ : ℤ) : ℚ)| < 2 ^ (1023 : ℤ) := by
    rw [Int.ceil_zero, Int.cast_zero, abs_zero]
    exact zpow_pos 1023
  have hseconds : refillSeconds capacity (.infinity false) =
      .finite (⌈(0 : ℚ)⌉ * 2) (representable_zero.ceil.double hsize) := by
    rw [refillSeconds, hcast]
    exact mul_ceil_two representable_zero hsize
  have httl := ttl_of_le hconvert hseconds (Int.ceil_zero (R := ℚ)).ge (by rw [Int.ceil_zero]; norm_num)
  rw [Int.ceil_zero] at httl
  refine RedisTokenBucket.sound_of_ttl hconvert httl (le_max_left _ _) (by norm_num) ?_ rfl ?_
  · intro x hx hfinite
    cases hfinite
  · intro r hr hfinite
    cases hfinite

theorem sound_finite_iff (hconvert : Converts toInt64) (hcapacity : 0 < capacity.toInt) {x : ℚ}
    (hx : Representable x) (hpos : 0 < x) :
    (newRedisTokenBucket toInt64 capacity (.finite x hx)).Sound toInt64 ↔
      1 / 2000000 < x ∧ nearest capacity.toInt ≤ (4611686018 + 1 / 2 ^ 21) * x := by
  have hone : (1 : ℚ) ≤ capacity.toInt := by exact_mod_cast hcapacity
  obtain ⟨-, hnear, hfar⟩ := ofInt_capacity hcapacity
  have hquotient : 0 ≤ nearest capacity.toInt / x := div_nonneg (by linarith) hpos.le
  have hseconds := refillSeconds_cases hcapacity hx hpos
  rw [← div_le_iff₀ hpos, ← ceil_nearest_le_iff hquotient]
  constructor
  · intro hsound
    constructor
    · by_contra hslow
      have hrate := hsound.refillRate_pos
      have hzero := ofRat_sixDecimals_of_le hpos (not_lt.mp hslow)
      simp only [RedisTokenBucket.refillRate, newRedisTokenBucket, hzero] at hrate
      exact absurd hrate (by decide)
    · by_contra hover
      have hlong : (4611686018 : ℚ) < nearest capacity.toInt / x := by
        rw [ceil_nearest_le_iff hquotient, not_le] at hover
        linarith
      have hround := (nearest_bounds (by linarith : 1 / 1000000 ≤ nearest capacity.toInt / x)).2
      have hceil := Int.ceil_lt_add_one (nearest (nearest capacity.toInt / x))
      have hquotient' : nearest capacity.toInt / x ≤ 101 / 100 * (capacity.toInt / x) := by
        rw [← mul_div_assoc]
        exact div_le_div_of_nonneg_right hfar hpos.le
      -- The seconds have wrapped around to nine tenths at most of what the bucket takes.
      have hshort : ((newRedisTokenBucket toInt64 capacity (.finite x hx)).ttl.toInt * 10 : ℚ) ≤
          9 * (⌈nearest (nearest capacity.toInt / x)⌉ * second) := by
        exact_mod_cast ttl_le hconvert hseconds (not_le.mp hover)
      have hwait : (capacity.toInt / x : ℚ) * second ≤
          (newRedisTokenBucket toInt64 capacity (.finite x hx)).ttl.toInt :=
        (le_div_iff₀ (by norm_num [second])).mp (hsound.wait_le_ttl x hx rfl)
      norm_num [second] at hshort hwait
      linarith
  · rintro ⟨hrate, hfits⟩
    have hm : 0 ≤ ⌈nearest (nearest capacity.toInt / x)⌉ := Int.ceil_nonneg (nearest_nonneg hquotient)
    obtain ⟨_, hfinite⟩ | hmany := hseconds
    · have hroom := wait_le hcapacity hpos
      have httl := ttl_of_le hconvert hfinite hm hfits
      have hwait : 0 ≤ (capacity.toInt : ℚ) / x := div_nonneg (by linarith) hpos.le
      refine RedisTokenBucket.sound_of_ttl hconvert httl (le_max_left _ _) (by omega) ?_ ?_ ?_
      · rintro _ _ ⟨⟩
        show (capacity.toInt : ℚ) / x ≤ _
        linarith
      · obtain ⟨-, -, hsixth⟩ := le_sixDecimals ((sixDecimals_pos_iff x).mpr hrate)
        exact lt_zero_ofRat hsixth
      · intro r hr hread
        obtain ⟨hrpos, hle⟩ := le_of_refillRate hrate hread
        refine ⟨hrpos, ?_⟩
        show (capacity.toInt : ℚ) ≤ _
        calc
          (capacity.toInt : ℚ) = x * (capacity.toInt / x) := (mul_div_cancel₀ _ hpos.ne').symm
          _ ≤ 8 / 5 * r * (capacity.toInt / x) := mul_le_mul_of_nonneg_right hle hwait
          _ = r * (8 / 5 * (capacity.toInt / x)) := by ring
          _ ≤ r * ((max 60 (⌈nearest (nearest capacity.toInt / x)⌉ * 2) : ℤ) : ℚ) :=
            mul_le_mul_of_nonneg_left hroom hrpos.le
    · omega

/-- Of the limits that `Validate` accepts, the bucket is sound exactly if the rate is infinite, or it is
not lost in its six decimals and the bucket takes no more than half the seconds that a time to live of 64
bits can hold, up to what the division rounds. -/
theorem limits_sound_iff (hconvert : Converts toInt64)
    {parseRequestURI : String → Except String RequestURI} {quote : String → String} {c : Config}
    (hvalid : c.validate parseRequestURI quote = .ok ()) :
    (newRedisTokenBucket toInt64 c.rateLimitCapacity c.rateLimitRefillPerSecond).Sound toInt64 ↔
      c.rateLimitRefillPerSecond = .infinity false ∨
        ∃ x hx, c.rateLimitRefillPerSecond = .finite x hx ∧ 1 / 2000000 < x ∧
          nearest c.rateLimitCapacity.toInt ≤ (4611686018 + 1 / 2 ^ 21) * x := by
  obtain ⟨hcapacity, haccepted⟩ := Config.validate_ok hvalid
  cases hrate : c.rateLimitRefillPerSecond with
  | nan =>
      constructor
      · intro hsound
        exact absurd hsound.refillRate_pos Bool.false_ne_true
      · rintro (hinfinite | ⟨x, hx, hfinite, -⟩)
        · cases hinfinite
        · cases hfinite
  | infinity negative =>
      rw [hrate] at haccepted
      cases negative with
      | true => cases haccepted
      | false => exact iff_of_true (sound_infinity hconvert hcapacity) (.inl rfl)
  | finite x hx =>
      rw [hrate] at haccepted
      have hpos : 0 < x := not_le.mp (of_decide_eq_false haccepted)
      rw [sound_finite_iff hconvert hcapacity hx hpos]
      constructor
      · intro hlimits
        exact .inr ⟨x, hx, rfl, hlimits⟩
      · rintro (hinfinite | ⟨_, _, ⟨⟩, hlimits⟩)
        · cases hinfinite
        · exact hlimits

end Limits

/-- On amd64 what is out of range becomes the least number. -/
def toInt64 : Binary64 → Int64
  | .finite x _ =>
      if -2 ^ 63 ≤ truncate x ∧ truncate x < 2 ^ 63 then Int64.ofInt (truncate x) else Int64.minValue
  | _ => Int64.minValue

theorem converts_toInt64 : Converts toInt64 := by
  intro x hx hlow hhigh
  rw [toInt64, if_pos ⟨hlow, hhigh⟩]
  exact Int64.toInt_ofInt_of_le hlow hhigh

/-- `url.ParseRequestURI` on the default URLs. -/
def parseLocalhost : String → Except String RequestURI
  | "http://localhost:8000" => .ok { scheme := "http", host := "localhost:8000" }
  | "http://localhost:3000" => .ok { scheme := "http", host := "localhost:3000" }
  | "http://localhost:5173" => .ok { scheme := "http", host := "localhost:5173" }
  | _ => .error "invalid URI for request"

def quoted (s : String) : String := "\"" ++ s ++ "\""

theorem validate_default {rate : Binary64} (hrate : rate.le zero = false) :
    { Config.default with rateLimitRefillPerSecond := rate }.validate parseLocalhost quoted = .ok () := by
  simp only [Config.validate, hrate]
  rfl

/-- The default configuration. -/
theorem limits_sound_iff_default :
    (newRedisTokenBucket toInt64 Config.default.rateLimitCapacity
      Config.default.rateLimitRefillPerSecond).Sound toInt64 := by
  rw [limits_sound_iff converts_toInt64 (validate_default (by decide))]
  refine .inr ⟨20, _, rfl, by norm_num, ?_⟩
  have hexact : nearest Config.default.rateLimitCapacity.toInt = (100 : ℤ) := nearest_intCast (by decide)
  rw [hexact]
  norm_num

/-- The default capacity at a token in some thirty-four years. -/
theorem limits_unsound_slow : ∃ hx,
    { Config.default with rateLimitRefillPerSecond := .finite (1 / 1073741824) hx }.validate parseLocalhost
      quoted = .ok () ∧
    (newRedisTokenBucket toInt64 100 (.finite (1 / 1073741824) hx)).refillRate = zero ∧
    (newRedisTokenBucket toInt64 100 (.finite (1 / 1073741824) hx)).ttl.toInt = 60 * second ∧
    ¬ (newRedisTokenBucket toInt64 100 (.finite (1 / 1073741824) hx)).Sound toInt64 := by
  have hx : Representable (1 / 1073741824) := ⟨1, -30, by norm_num, by norm_num, by norm_num, by norm_num⟩
  refine ⟨hx, validate_default (decide_eq_false (by norm_num)), ofRat_sixDecimals_of_le (by norm_num) (by norm_num), ?_, ?_⟩
  · have hcapacity : nearest (100 : Int64).toInt = (100 : ℤ) := nearest_intCast (by decide)
    have hwait : ((100 : ℤ) : ℚ) / (1 / 1073741824) = (107374182400 : ℤ) := by norm_num
    have hquotient := nearest_intCast (n := 107374182400) (by decide)
    have hpositive : 0 < (100 : Int64).toInt := by decide
    have hcases := refillSeconds_cases hpositive hx (by norm_num)
    rw [hcapacity, hwait, hquotient, Int.ceil_intCast] at hcases
    obtain ⟨hr, hseconds⟩ | hmany := hcases
    · have hexact := converts_toInt64.toInt_eq (n := 214748364800) hr (by norm_num) (by decide) (by decide)
      rw [ttl_eq, hseconds, hexact]
      decide
    · exact absurd hmany (by decide)
  · rw [sound_finite_iff converts_toInt64 (by decide) hx (by norm_num)]
    rintro ⟨hrate, -⟩
    norm_num at hrate

end CoreMesh.Gateway.Machine
