import Mathlib.Order.Bounds.Basic
import CoreMesh.Gateway.ClockRegression
import CoreMesh.Gateway.ServeHTTP
import CoreMesh.Lib.Rounding

/-!
# Retry-After

What a client is told that is denied, and when its next request is admitted. Until then every call is
denied and stores what the bucket has gained since, so the stored tokens stay on one line through the
denial. A key that runs out has been idle for long enough to have a token, so its full bucket comes no
earlier than the line reaches one.
-/

namespace CoreMesh.Gateway

open Transition

theorem roundHalfEven_eq (x : ℚ) : roundHalfEven x = Rounding.halfEven x := by
  have hlt : x - ⌊x⌋ < 1 / 2 ↔ x - ⌊x⌋ < ⌊x⌋ + 1 - x := by
    constructor <;> intro <;> linarith
  have heq : x - ⌊x⌋ = 1 / 2 ↔ x - ⌊x⌋ = ⌊x⌋ + 1 - x := by
    constructor <;> intro <;> linarith
  exact if_congr (or_congr hlt (and_congr_left' heq)) rfl rfl

/-- A rate that is not lost in its six decimals is rounded down by a third at most. -/
theorem le_sixDecimals {x : ℚ} (hsix : 0 < sixDecimals x) :
    0 < x ∧ x ≤ 3 / 2 * sixDecimals x ∧ 1 / 1000000 ≤ sixDecimals x := by
  have hround := abs_le.mp (Rounding.abs_halfEven_sub_le (x * 1000000))
  rw [← roundHalfEven_eq] at hround
  have hsixth : sixDecimals x * 1000000 = roundHalfEven (x * 1000000) := by
    unfold sixDecimals
    exact div_mul_cancel₀ _ (by norm_num)
  have hpos : 0 < roundHalfEven (x * 1000000) := by
    have hscaled : 0 < sixDecimals x * 1000000 := by positivity
    rw [hsixth] at hscaled
    exact_mod_cast hscaled
  have hone : (1 : ℚ) ≤ roundHalfEven (x * 1000000) := by exact_mod_cast hpos
  refine ⟨?_, ?_, ?_⟩ <;> linarith

namespace RedisTokenBucket

/-- The result of `Allow`, the duration in nanoseconds of an `int64`. -/
def limitResult (reply : Reply) : Option LimitResult :=
  reply.retryAfter.map fun retryAfter =>
    { allowed := decide (reply.allowed = 1)
      remaining := reply.remaining
      retryAfter := Int.bmod (retryAfter * second) (2 ^ 64) }

/-- The `Retry-After` header of `ServeHTTP`. -/
def retryAfterHeader (reply : Reply) : Option ℤ :=
  (limitResult reply).map fun limit => retryAfterSeconds limit.retryAfter

theorem retryAfterHeader_eq {reply : Reply} {r : ℤ} (hreply : reply.retryAfter = some r) (hpos : 1 ≤ r)
    (hle : r ≤ 1000000) : retryAfterHeader reply = some r := by
  have hsecond : second = 1000000000 := rfl
  have hfits : Int.bmod (r * second) (2 ^ 64) = r * second := by
    rw [hsecond]
    apply Int.bmod_eq_of_le <;> omega
  have hceil : -(-(r * 1000000000) / 1000000000) = r := by omega
  unfold retryAfterHeader limitResult
  rw [hreply, Option.map_some, Option.map_some]
  dsimp only
  rw [hfits, retryAfterSeconds, hsecond, if_neg (by omega), hceil, max_eq_right hpos]

section Denied

variable {capacity : ℤ} {refillPerSecond : ℚ}

/-- The script fills the bucket before its key runs out. -/
theorem capacity_le_sixDecimals_ttl (hcapacity : 1 ≤ capacity) (hrate : 0 < sixDecimals refillPerSecond) :
    (capacity : ℚ) ≤ sixDecimals refillPerSecond * (newRedisTokenBucket capacity refillPerSecond).ttl := by
  obtain ⟨hpos, hsix, -⟩ := le_sixDecimals hrate
  have hfull : (0 : ℚ) < capacity := by exact_mod_cast hcapacity
  have hwait : 0 ≤ (capacity : ℚ) / refillPerSecond := (div_pos hfull hpos).le
  have httl := two_mul_le_ttl capacity refillPerSecond
  calc
    (capacity : ℚ) = refillPerSecond * (capacity / refillPerSecond) := (mul_div_cancel₀ _ hpos.ne').symm
    _ ≤ 3 / 2 * sixDecimals refillPerSecond * (capacity / refillPerSecond) :=
      mul_le_mul_of_nonneg_right hsix hwait
    _ ≤ sixDecimals refillPerSecond * (2 * (capacity / refillPerSecond)) := by
      have hspare := mul_nonneg hrate.le hwait
      linarith
    _ ≤ sixDecimals refillPerSecond * (newRedisTokenBucket capacity refillPerSecond).ttl :=
      mul_le_mul_of_nonneg_left httl hrate.le

/-- What a denial leaves, and how long the script then takes to gain the rest of a token. -/
def remaining (b : RedisTokenBucket) (denied : Stored) : ℚ :=
  (1 - denied.tokens) / sixDecimals b.refillPerSecond

/-- A key after a denial, as long as nothing was admitted: the tokens are on the line through the denial,
and where the key has run out they would have reached one. -/
structure Waiting (b : RedisTokenBucket) (denied : Stored) (w : World) : Prop where
  line : ∀ stored, w.state = some stored → stored.tokens =
    denied.tokens + (stored.updatedAt - denied.updatedAt) * sixDecimals b.refillPerSecond
  expires : ∀ stored, w.state = some stored → stored.expiresAt = stored.updatedAt + b.ttl
  clock : ∀ stored, w.state = some stored → denied.updatedAt ≤ stored.updatedAt ∧
    stored.updatedAt ≤ w.clock
  gone : w.state = none → denied.updatedAt + b.remaining denied ≤ w.clock

theorem remaining_le_iff {b : RedisTokenBucket} {denied : Stored} (hrate : 0 < sixDecimals b.refillPerSecond)
    (later : ℚ) : denied.updatedAt + b.remaining denied ≤ later ↔
      1 ≤ denied.tokens + (later - denied.updatedAt) * sixDecimals b.refillPerSecond := by
  rw [← le_sub_iff_add_le', remaining, div_le_iff₀ hrate, sub_le_iff_le_add']

/-- While a key waits, a request finds a token from the time on that the denial left. -/
theorem Waiting.one_le_refilled_iff {b : RedisTokenBucket} {denied : Stored} {w : World}
    (hwaiting : Waiting b denied w) (hcapacity : 1 ≤ b.capacity)
    (hrate : 0 < sixDecimals b.refillPerSecond) {later : ℚ} (hlater : w.clock ≤ later) :
    1 ≤ b.refilled later w.state ↔ denied.updatedAt + b.remaining denied ≤ later := by
  have hfull : (1 : ℚ) ≤ b.capacity := by exact_mod_cast hcapacity
  cases hstate : w.state with
  | none =>
      have hgone := hwaiting.gone hstate
      have hrefilled : b.refilled later none = b.capacity := by simp [refilled]
      rw [hrefilled]
      exact ⟨fun _ => hgone.trans hlater, fun _ => hfull⟩
  | some stored =>
      have hpast := (hwaiting.clock stored hstate).2
      have helapsed : 0 ≤ later - stored.updatedAt := sub_nonneg.mpr (hpast.trans hlater)
      have hrefilled : b.refilled later (some stored) = min (b.capacity : ℚ)
          (denied.tokens + (later - denied.updatedAt) * sixDecimals b.refillPerSecond) := by
        simp only [refilled, Option.map_some, Option.getD_some, max_eq_right helapsed]
        rw [hwaiting.line stored hstate]
        congr 1
        ring
      rw [hrefilled, le_min_iff, remaining_le_iff hrate]
      exact and_iff_right hfull

theorem Waiting.next {b : RedisTokenBucket} {denied : Stored} {w w' : World} {e : Event}
    (hwaiting : Waiting b denied w) (hcapacity : 1 ≤ b.capacity)
    (hrate : 0 < sixDecimals b.refillPerSecond)
    (hlife : (b.capacity : ℚ) ≤ sixDecimals b.refillPerSecond * b.ttl)
    (htokens : ∀ stored, w.state = some stored → 0 ≤ stored.tokens)
    (hstep : b.next w e = some w') (hnone : w'.admitted = w.admitted) : Waiting b denied w' := by
  have hfull : (1 : ℚ) ≤ b.capacity := by exact_mod_cast hcapacity
  rcases next_cases hstep with ⟨now, -, -, -, rfl⟩ | ⟨now, -, hclock, hlt, rfl⟩ |
    ⟨now, stored, -, hstate, hclock, hexpired, rfl⟩
  · simp at hnone
  · cases hstate : w.state with
    | none =>
        have hrefilled : b.refilled now none = b.capacity := by simp [refilled]
        rw [hstate, hrefilled] at hlt
        linarith
    | some stored =>
        obtain ⟨hlater, hpast⟩ := hwaiting.clock stored hstate
        have helapsed : 0 ≤ now - stored.updatedAt := sub_nonneg.mpr (hpast.trans hclock)
        rw [hstate] at hlt
        have hline : b.refilled now (some stored) =
            denied.tokens + (now - denied.updatedAt) * sixDecimals b.refillPerSecond := by
          have hsum : b.refilled now (some stored) = min (b.capacity : ℚ)
              (stored.tokens + (now - stored.updatedAt) * sixDecimals b.refillPerSecond) := by
            simp only [refilled, Option.map_some, Option.getD_some, max_eq_right helapsed]
          rw [hsum] at hlt ⊢
          obtain hcap | hlow := min_lt_iff.mp hlt
          · linarith
          · rw [min_eq_right (by linarith), hwaiting.line stored hstate]
            ring
        refine ⟨?_, ?_, ?_, ?_⟩
        · rintro stored' ⟨⟩
          exact hline
        · rintro stored' ⟨⟩
          rfl
        · rintro stored' ⟨⟩
          exact ⟨hlater.trans (hpast.trans hclock), le_rfl⟩
        · rintro ⟨⟩
  · refine ⟨?_, ?_, ?_, fun _ => ?_⟩
    · rintro _ ⟨⟩
    · rintro _ ⟨⟩
    · rintro _ ⟨⟩
    · rw [remaining_le_iff hrate]
      have hline := hwaiting.line stored hstate
      have hpos := htokens stored hstate
      have hidle : sixDecimals b.refillPerSecond * b.ttl ≤
          (now - stored.updatedAt) * sixDecimals b.refillPerSecond := by
        rw [mul_comm]
        apply mul_le_mul_of_nonneg_right _ hrate.le
        rw [hwaiting.expires stored hstate] at hexpired
        linarith
      linarith

theorem admitted_prefix {b : RedisTokenBucket} {w w' : World} {e : Event} (hstep : b.next w e = some w') :
    w.admitted <+: w'.admitted := by
  rcases next_cases hstep with ⟨now, -, -, -, rfl⟩ | ⟨now, -, -, -, rfl⟩ | ⟨now, stored, -, -, -, -, rfl⟩
  · exact List.prefix_append _ _
  · exact List.prefix_rfl
  · exact List.prefix_rfl

theorem Waiting.run {b : RedisTokenBucket} {denied : Stored} {w w' : World} {es : List Event}
    (hcapacity : 1 ≤ b.capacity) (hconfigured : 0 ≤ b.refillPerSecond)
    (hrate : 0 < sixDecimals b.refillPerSecond)
    (hlife : (b.capacity : ℚ) ≤ sixDecimals b.refillPerSecond * b.ttl) (hsound : Sound b w)
    (hwaiting : Waiting b denied w) (hrun : Run (Steps b.next) w es w') :
    w.admitted <+: w'.admitted ∧ Sound b w' ∧ (w'.admitted = w.admitted → Waiting b denied w') := by
  have hcapacity' : 0 ≤ b.capacity := by omega
  refine hrun.invariant (fun v => w.admitted <+: v.admitted ∧ Sound b v ∧
    (v.admitted = w.admitted → Waiting b denied v)) ⟨List.prefix_rfl, hsound, fun _ => hwaiting⟩ ?_
  rintro v e v' ⟨hextends, hsound, hwaits⟩ hstep
  have hmore := admitted_prefix hstep
  refine ⟨hextends.trans hmore, hsound.next hcapacity' hconfigured hstep, fun hnone => ?_⟩
  rw [hnone] at hmore
  have hsame : v.admitted = w.admitted := hmore.eq_of_length_le hextends.length_le
  refine (hwaits hsame).next hcapacity hrate hlife ?_ hstep (hnone.trans hsame.symm)
  exact fun stored hstored => (hsound.range stored hstored).1

theorem allowed_iff {b : RedisTokenBucket} {now : ℚ} {state : Option Stored} :
    (b.allow now state).1.allowed = 1 ↔ 1 ≤ b.refilled now state := by
  obtain hone | hnone := le_or_gt 1 (b.refilled now state)
  · rw [allow_of_one_le hone]
    exact iff_of_true rfl hone
  · rw [allow_of_lt_one hnone]
    exact iff_of_false Int.zero_ne_one (not_le.mpr hnone)

theorem waiting_of_denied {b : RedisTokenBucket} (now tokens : ℚ) (admitted : List ℚ) :
    Waiting b ⟨tokens, now, now + b.ttl⟩ ⟨some ⟨tokens, now, now + b.ttl⟩, now, admitted⟩ := by
  refine ⟨?_, ?_, ?_, ?_⟩
  · rintro stored ⟨⟩
    simp
  · rintro stored ⟨⟩
    rfl
  · rintro stored ⟨⟩
    exact ⟨le_rfl, le_rfl⟩
  · rintro ⟨⟩

theorem denied_cases {b : RedisTokenBucket} {now : ℚ} {w denied : World}
    (hstep : b.next w (.allow now) = some denied) (hdenied : (b.allow now w.state).1.allowed = 0) :
    w.clock ≤ now ∧ b.refilled now w.state < 1 ∧
      denied = ⟨some ⟨b.refilled now w.state, now, now + b.ttl⟩, now, w.admitted⟩ := by
  have hlt : b.refilled now w.state < 1 := by
    rw [← not_le, ← allowed_iff, hdenied]
    exact Int.zero_ne_one
  rcases next_cases hstep with ⟨_, ⟨⟩, -, hone, -⟩ | ⟨_, ⟨⟩, hclock, -, rfl⟩ | ⟨_, _, ⟨⟩, -⟩
  · exact absurd hone (not_le.mpr hlt)
  · exact ⟨hclock, hlt, rfl⟩

/-- After a denial, with nothing admitted since, requests are admitted from the time on at which the
bucket has gained the rest of a token. -/
theorem admitted_after_denied_iff {b : RedisTokenBucket} (hcapacity : 1 ≤ b.capacity)
    (hconfigured : 0 ≤ b.refillPerSecond) (hrate : 0 < sixDecimals b.refillPerSecond)
    (hlife : (b.capacity : ℚ) ≤ sixDecimals b.refillPerSecond * b.ttl) {now : ℚ} {w denied : World}
    (hsound : Sound b w) (hstep : b.next w (.allow now) = some denied)
    (hdenied : (b.allow now w.state).1.allowed = 0) {es : List Event} {w' : World} {later : ℚ}
    (hrun : Run (Steps b.next) denied es w') (hnone : w'.admitted = denied.admitted)
    (hlater : w'.clock ≤ later) :
    (b.allow later w'.state).1.allowed = 1 ↔ now + b.remaining (b.allow now w.state).2 ≤ later := by
  have hsound' := hsound.next (by omega) hconfigured hstep
  obtain ⟨-, hlt, rfl⟩ := denied_cases hstep hdenied
  have hwaiting := waiting_of_denied (b := b) now (b.refilled now w.state) w.admitted
  obtain ⟨-, -, hwaits⟩ := hwaiting.run hcapacity hconfigured hrate hlife hsound' hrun
  rw [allowed_iff, (hwaits hnone).one_le_refilled_iff hcapacity hrate hlater, allow_of_lt_one hlt]

/-- After this many seconds every request is admitted, if nothing was admitted since. -/
def Suffices (b : RedisTokenBucket) (denied : World) (now : ℚ) (n : ℤ) : Prop :=
  ∀ es w later, Run (Steps b.next) denied es w → w.admitted = denied.admitted → w.clock ≤ later →
    now + n ≤ later → (b.allow later w.state).1.allowed = 1

theorem retry_after_denied {b : RedisTokenBucket} (hcapacity : 1 ≤ b.capacity)
    (hconfigured : 0 ≤ b.refillPerSecond) (hsixth : 1 / 1000000 ≤ sixDecimals b.refillPerSecond)
    (hlife : (b.capacity : ℚ) ≤ sixDecimals b.refillPerSecond * b.ttl) {now : ℚ} {w denied : World}
    (hsound : Sound b w) (hstep : b.next w (.allow now) = some denied)
    (hdenied : (b.allow now w.state).1.allowed = 0) :
    ∃ r : ℤ, (b.allow now w.state).1.retryAfter = some r ∧
      retryAfterHeader (b.allow now w.state).1 = some r ∧ IsLeast {n | b.Suffices denied now n} r := by
  have hrate : 0 < sixDecimals b.refillPerSecond := by linarith
  obtain ⟨hclock, hlt, hworld⟩ := denied_cases hstep hdenied
  have htokens := hsound.refilled_nonneg (by omega) hconfigured now
  have hremaining : b.remaining (b.allow now w.state).2 =
      (1 - b.refilled now w.state) / sixDecimals b.refillPerSecond := by
    rw [allow_of_lt_one hlt]
    rfl
  have hretry : (b.allow now w.state).1.retryAfter = some ⌈b.remaining (b.allow now w.state).2⌉ := by
    rw [hremaining, allow_of_lt_one hlt]
    exact if_neg hrate.ne'
  have hpos : 0 < b.remaining (b.allow now w.state).2 := by
    rw [hremaining]
    apply div_pos _ hrate
    linarith
  have hle : b.remaining (b.allow now w.state).2 ≤ 1000000 := by
    rw [hremaining, div_le_iff₀ hrate]
    linarith
  refine ⟨_, hretry, retryAfterHeader_eq hretry (Int.one_le_ceil_iff.mpr hpos) (Int.ceil_le.mpr hle), ?_, ?_⟩
  · intro es w' later hrun hnone hlater hafter
    rw [admitted_after_denied_iff hcapacity hconfigured hrate hlife hsound hstep hdenied hrun hnone hlater]
    have hceil := Int.le_ceil (b.remaining (b.allow now w.state).2)
    linarith
  · intro n hsuffices
    by_contra hless
    have hn : (n : ℚ) < b.remaining (b.allow now w.state).2 := Int.lt_ceil.mp (not_le.mp hless)
    have hnow : denied.clock ≤ max now (now + n) := by
      rw [hworld]
      exact le_max_left _ _
    have hadmitted := hsuffices [] denied _ .start rfl hnow (le_max_right _ _)
    rw [admitted_after_denied_iff hcapacity hconfigured hrate hlife hsound hstep hdenied .start rfl hnow,
      le_max_iff] at hadmitted
    obtain hearly | hearly := hadmitted
    · linarith
    · linarith

/-- The request after a denial at `now`, with nothing admitted in between, is admitted from the time on at
which the bucket has gained the rest of a token, and `retry_after` is the least number of whole seconds
after which every such request is. -/
theorem retryAfter_least (hcapacity : 1 ≤ capacity) (hrate : 0 < sixDecimals refillPerSecond)
    {b : RedisTokenBucket} (hb : b = newRedisTokenBucket capacity refillPerSecond)
    {clock now : ℚ} {es : List Event} {w denied : World}
    (hrun : Run (Steps b.next) (World.initial clock) es w)
    (hstep : b.next w (.allow now) = some denied) (hdenied : (b.allow now w.state).1.allowed = 0) :
    (∀ es' w' later, Run (Steps b.next) denied es' w' → w'.admitted = denied.admitted →
      w'.clock ≤ later → ((b.allow later w'.state).1.allowed = 1 ↔
        now + (1 - (b.allow now w.state).2.tokens) / sixDecimals refillPerSecond ≤ later)) ∧
    ∃ r : ℤ, (b.allow now w.state).1.retryAfter = some r ∧
      retryAfterHeader (b.allow now w.state).1 = some r ∧ IsLeast {n | b.Suffices denied now n} r := by
  obtain ⟨hconfigured, -, hsixth⟩ := le_sixDecimals hrate
  have hlife := capacity_le_sixDecimals_ttl hcapacity hrate
  have hcapacity' : 1 ≤ b.capacity := hb ▸ hcapacity
  have hconfigured' : 0 ≤ b.refillPerSecond := hb ▸ hconfigured.le
  have hsix : sixDecimals b.refillPerSecond = sixDecimals refillPerSecond := by rw [hb]; rfl
  have hlife' : (b.capacity : ℚ) ≤ sixDecimals b.refillPerSecond * b.ttl := by
    rw [hb]
    exact hlife
  have hsound : Sound b w :=
    hrun.invariant _ (Sound.vanished b clock []) fun _ _ _ hsound hnext =>
      hsound.next (by omega) hconfigured' hnext
  constructor
  · intro es' w' later hrun' hnone hlater
    rw [admitted_after_denied_iff hcapacity' hconfigured' (hsix ▸ hrate) hlife' hsound hstep hdenied hrun'
      hnone hlater, remaining, hsix]
  · exact retry_after_denied hcapacity' hconfigured' (hsix ▸ hsixth) hlife' hsound hstep hdenied

/-- A bucket of one token that is asked twice at once. -/
theorem retryAfter_least_emptied : ∃ denied,
    Run (Steps (newRedisTokenBucket 1 1).next) (World.initial 0) [.allow 0, .allow 0] denied ∧
      IsLeast {n | (newRedisTokenBucket 1 1).Suffices denied 0 n} 1 := by
  have hrun : ∃ w denied, (newRedisTokenBucket 1 1).next (World.initial 0) (.allow 0) = some w ∧
      (newRedisTokenBucket 1 1).next w (.allow 0) = some denied ∧
      ((newRedisTokenBucket 1 1).allow 0 w.state).1 = ⟨0, 0, some 1⟩ :=
    ⟨_, _, rfl, rfl, by decide +kernel⟩
  obtain ⟨w, denied, hadmitted, hstep, hreply⟩ := hrun
  obtain ⟨-, r, hretry, -, hleast⟩ := retryAfter_least (by decide)
    (by norm_num [sixDecimals, roundHalfEven]) (rfl : newRedisTokenBucket 1 1 = newRedisTokenBucket 1 1)
    (Run.single hadmitted) hstep (by rw [hreply])
  rw [hreply] at hretry
  obtain rfl := Option.some.inj hretry
  exact ⟨denied, (Run.single hadmitted).snoc hstep, hleast⟩

end Denied

end RedisTokenBucket

end CoreMesh.Gateway
