import Mathlib.Algebra.Order.Floor.Ring
import Mathlib.Data.Rat.Floor
import Mathlib.Tactic.NormNum
import CoreMesh.Lib.Bucket

/-!
# The Redis token bucket

`NewRedisTokenBucket`, `Allow` and the script it runs, in exact arithmetic. The bucket of one key is
the fields the script stores; the key may vanish once it has outlived its time to live. A reading of
`TIME` is a rational number of seconds.

`Allow` passes the rate as a text with six decimals, and the script refills at that rate.
-/

namespace CoreMesh.Gateway

open Transition

/-- To the nearest integer, from the middle to the even one. -/
def roundHalfEven (x : ℚ) : ℤ :=
  let fraction := x - ⌊x⌋
  if fraction < 1 / 2 ∨ fraction = 1 / 2 ∧ ⌊x⌋ % 2 = 0 then ⌊x⌋ else ⌊x⌋ + 1

/-- The number that `strconv.FormatFloat` writes with six decimals. -/
def sixDecimals (x : ℚ) : ℚ := roundHalfEven (x * 1000000) / 1000000

def rateLimitRedisMinimumTTL : ℤ := 60

structure RedisTokenBucket where
  capacity : ℤ
  refillPerSecond : ℚ
  /-- In seconds. -/
  ttl : ℤ
  deriving DecidableEq

def newRedisTokenBucket (capacity : ℤ) (refillPerSecond : ℚ) : RedisTokenBucket :=
  let ttl := ⌈capacity / refillPerSecond⌉ * 2
  { capacity
    refillPerSecond
    ttl := if ttl < rateLimitRedisMinimumTTL then rateLimitRedisMinimumTTL else ttl }

/-- The fields of a key, and when it runs out. -/
structure Stored where
  tokens : ℚ
  updatedAt : ℚ
  expiresAt : ℚ
  deriving DecidableEq

/-- What the script returns. -/
structure Reply where
  allowed : ℤ
  remaining : ℤ
  /-- None where the script divides by a rate of zero. -/
  retryAfter : Option ℤ
  deriving DecidableEq

def tokenBucketScript (capacity : ℤ) (refillRate : ℚ) (ttl : ℤ) (now : ℚ) (state : Option Stored) :
    Reply × Stored :=
  let tokens : ℚ := (state.map Stored.tokens).getD capacity
  let updatedAt : ℚ := (state.map Stored.updatedAt).getD now
  let elapsed := max 0 (now - updatedAt)
  let tokens := min (capacity : ℚ) (tokens + elapsed * refillRate)
  if 1 ≤ tokens then
    (⟨1, ⌊tokens - 1⌋, some 0⟩, ⟨tokens - 1, now, now + ttl⟩)
  else
    (⟨0, ⌊tokens⌋, if refillRate = 0 then none else some ⌈(1 - tokens) / refillRate⌉⟩,
      ⟨tokens, now, now + ttl⟩)

namespace RedisTokenBucket

/-- The script as `Allow` runs it. -/
def allow (b : RedisTokenBucket) (now : ℚ) (state : Option Stored) : Reply × Stored :=
  tokenBucketScript b.capacity (sixDecimals b.refillPerSecond) b.ttl now state

/-- The key of one identity, the last reading of the clock, and when requests were allowed. -/
structure World where
  state : Option Stored
  clock : ℚ
  admitted : List ℚ
  deriving DecidableEq

def World.initial (clock : ℚ) : World := ⟨none, clock, []⟩

inductive Event where
  | allow (now : ℚ)
  | vanish (now : ℚ)
  deriving DecidableEq

/-- The clock does not go back, and a key vanishes only when it has run out. -/
def next (b : RedisTokenBucket) (w : World) : Event → Option World
  | .allow now =>
      if w.clock ≤ now then
        let (reply, stored) := b.allow now w.state
        some ⟨some stored, now, if reply.allowed = 1 then w.admitted ++ [now] else w.admitted⟩
      else none
  | .vanish now =>
      match w.state with
      | none => none
      | some stored =>
          if w.clock ≤ now ∧ stored.expiresAt ≤ now then some ⟨none, now, w.admitted⟩ else none

/-! ### The script is a bucket -/

/-- The bucket the key stands for; one that is not there is full. -/
def bucket (b : RedisTokenBucket) (w : World) : Bucket.State ℚ where
  level := (w.state.map Stored.tokens).getD b.capacity
  time := (w.state.map Stored.updatedAt).getD w.clock
  admitted := w.admitted

theorem sixDecimals_nonneg {x : ℚ} (hx : 0 ≤ x) : 0 ≤ sixDecimals x := by
  have hfloor : 0 ≤ ⌊x * 1000000⌋ := Int.floor_nonneg.mpr (by positivity)
  have hround : 0 ≤ roundHalfEven (x * 1000000) := by
    unfold roundHalfEven
    dsimp only
    split <;> omega
  unfold sixDecimals
  positivity

/-- The tokens the script finds in the bucket. -/
def refilled (b : RedisTokenBucket) (now : ℚ) (state : Option Stored) : ℚ :=
  min (b.capacity : ℚ) ((state.map Stored.tokens).getD b.capacity +
    max 0 (now - (state.map Stored.updatedAt).getD now) * sixDecimals b.refillPerSecond)

theorem allow_of_one_le {b : RedisTokenBucket} {now : ℚ} {state : Option Stored}
    (hone : 1 ≤ b.refilled now state) : b.allow now state =
      (⟨1, ⌊b.refilled now state - 1⌋, some 0⟩, ⟨b.refilled now state - 1, now, now + b.ttl⟩) :=
  if_pos hone

theorem allow_of_lt_one {b : RedisTokenBucket} {now : ℚ} {state : Option Stored}
    (hnone : b.refilled now state < 1) : b.allow now state =
      (⟨0, ⌊b.refilled now state⌋,
        if sixDecimals b.refillPerSecond = 0 then none
        else some ⌈(1 - b.refilled now state) / sixDecimals b.refillPerSecond⌉⟩,
        ⟨b.refilled now state, now, now + b.ttl⟩) :=
  if_neg (not_le.mpr hnone)

theorem next_admits {b : RedisTokenBucket} {w : World} {now : ℚ} (hclock : w.clock ≤ now)
    (hone : 1 ≤ b.refilled now w.state) :
    b.next w (.allow now) =
      some ⟨some ⟨b.refilled now w.state - 1, now, now + b.ttl⟩, now, w.admitted ++ [now]⟩ := by
  simp only [next]
  rw [if_pos hclock, allow_of_one_le hone]
  rfl

/-- What a step did. `next` is not unfolded past this lemma. -/
theorem next_cases {b : RedisTokenBucket} {w w' : World} {e : Event} (hstep : b.next w e = some w') :
    (∃ now, e = .allow now ∧ w.clock ≤ now ∧ 1 ≤ b.refilled now w.state ∧
      w' = ⟨some ⟨b.refilled now w.state - 1, now, now + b.ttl⟩, now, w.admitted ++ [now]⟩) ∨
    (∃ now, e = .allow now ∧ w.clock ≤ now ∧ b.refilled now w.state < 1 ∧
      w' = ⟨some ⟨b.refilled now w.state, now, now + b.ttl⟩, now, w.admitted⟩) ∨
    (∃ now stored, e = .vanish now ∧ w.state = some stored ∧ w.clock ≤ now ∧
      stored.expiresAt ≤ now ∧ w' = ⟨none, now, w.admitted⟩) := by
  cases e with
  | allow now =>
      by_cases hclock : w.clock ≤ now
      · rcases le_or_gt 1 (b.refilled now w.state) with hone | hnone
        · rw [next_admits hclock hone] at hstep
          exact .inl ⟨now, rfl, hclock, hone, (Option.some.inj hstep).symm⟩
        · simp only [next, if_pos hclock] at hstep
          obtain rfl := Option.some.inj hstep
          exact .inr (.inl ⟨now, rfl, hclock, hnone, by rw [allow_of_lt_one hnone]; rfl⟩)
      · simp only [next, if_neg hclock] at hstep
        cases hstep
  | vanish now =>
      simp only [next] at hstep
      split at hstep
      · cases hstep
      · rename_i stored hstate
        split at hstep
        · rename_i hgone
          exact .inr (.inr ⟨now, stored, rfl, hstate, hgone.1, hgone.2, (Option.some.inj hstep).symm⟩)
        · cases hstep

/-- What a stored state is like. -/
structure Sound (b : RedisTokenBucket) (w : World) : Prop where
  range : ∀ stored, w.state = some stored → 0 ≤ stored.tokens ∧ stored.tokens ≤ b.capacity
  past : ∀ stored, w.state = some stored → stored.updatedAt ≤ w.clock
  expires : ∀ stored, w.state = some stored → stored.expiresAt = stored.updatedAt + b.ttl

theorem Sound.vanished (b : RedisTokenBucket) (clock : ℚ) (admitted : List ℚ) :
    Sound b ⟨none, clock, admitted⟩ where
  range := fun _ hsome => by cases hsome
  past := fun _ hsome => by cases hsome
  expires := fun _ hsome => by cases hsome

theorem Sound.level {b : RedisTokenBucket} {w : World} (hsound : Sound b w)
    (hcapacity : 0 ≤ b.capacity) : 0 ≤ (bucket b w).level ∧ (bucket b w).level ≤ b.capacity := by
  have hfull : (0 : ℚ) ≤ b.capacity := by exact_mod_cast hcapacity
  cases hstate : w.state with
  | none => simp [bucket, hstate, hfull]
  | some stored => simpa [bucket, hstate] using hsound.range stored hstate

theorem Sound.refilled_nonneg {b : RedisTokenBucket} {w : World} (hsound : Sound b w)
    (hcapacity : 0 ≤ b.capacity) (hrate : 0 ≤ b.refillPerSecond) (now : ℚ) :
    0 ≤ b.refilled now w.state := by
  have hfull : (0 : ℚ) ≤ b.capacity := by exact_mod_cast hcapacity
  have hrefill := mul_nonneg (le_max_left 0 (now - (w.state.map Stored.updatedAt).getD now))
    (sixDecimals_nonneg hrate)
  exact le_min hfull (add_nonneg (hsound.level hcapacity).1 hrefill)

theorem Sound.next {b : RedisTokenBucket} {w w' : World} {e : Event} (hsound : Sound b w)
    (hcapacity : 0 ≤ b.capacity) (hrate : 0 ≤ b.refillPerSecond) (hstep : b.next w e = some w') :
    Sound b w' := by
  have hlow := hsound.refilled_nonneg hcapacity hrate
  rcases next_cases hstep with ⟨now, -, -, hone, rfl⟩ | ⟨now, -, -, -, rfl⟩ | ⟨now, -, -, -, -, -, rfl⟩
  · have hhigh : b.refilled now w.state ≤ b.capacity := min_le_left _ _
    refine ⟨?_, ?_, ?_⟩ <;> rintro stored ⟨⟩
    · exact ⟨by linarith, by linarith⟩
    · exact le_rfl
    · rfl
  · have hhigh : b.refilled now w.state ≤ b.capacity := min_le_left _ _
    refine ⟨?_, ?_, ?_⟩ <;> rintro stored ⟨⟩
    · exact ⟨hlow now, hhigh⟩
    · exact le_rfl
    · rfl
  · exact Sound.vanished b now w.admitted

/-- The time to live is twice what an empty bucket takes to fill up, at least. -/
theorem two_mul_le_ttl (capacity : ℤ) (refillPerSecond : ℚ) :
    2 * ((capacity : ℚ) / refillPerSecond) ≤ (newRedisTokenBucket capacity refillPerSecond).ttl := by
  have hceil := Int.le_ceil ((capacity : ℚ) / refillPerSecond)
  have httl : ⌈(capacity : ℚ) / refillPerSecond⌉ * 2 ≤
      (newRedisTokenBucket capacity refillPerSecond).ttl := by
    unfold newRedisTokenBucket
    dsimp only
    split <;> omega
  have hcast : (⌈(capacity : ℚ) / refillPerSecond⌉ * 2 : ℚ) ≤
      (newRedisTokenBucket capacity refillPerSecond).ttl := by exact_mod_cast httl
  linarith

theorem capacity_le_ttl {capacity : ℤ} {refillPerSecond : ℚ} (hcapacity : 1 ≤ capacity)
    (hrate : 0 < refillPerSecond) :
    (capacity : ℚ) ≤ refillPerSecond * (newRedisTokenBucket capacity refillPerSecond).ttl := by
  have hpos : (0 : ℚ) < capacity := by exact_mod_cast hcapacity
  have hwait : 0 < (capacity : ℚ) / refillPerSecond := div_pos hpos hrate
  have httl := two_mul_le_ttl capacity refillPerSecond
  calc
    (capacity : ℚ) = refillPerSecond * (capacity / refillPerSecond) := (mul_div_cancel₀ _ hrate.ne').symm
    _ ≤ refillPerSecond * (newRedisTokenBucket capacity refillPerSecond).ttl := by
      apply mul_le_mul_of_nonneg_left _ hrate.le
      linarith

/-- A script that refills no faster than the configured rate finds no more than a bucket has. -/
theorem refilled_le_available {b : RedisTokenBucket} {w : World} {now : ℚ} (hsound : Sound b w)
    (hrate : 0 ≤ b.refillPerSecond) (hsix : sixDecimals b.refillPerSecond ≤ b.refillPerSecond)
    (hclock : w.clock ≤ now) :
    (bucket b w).time ≤ now ∧
      b.refilled now w.state ≤ Bucket.available (b.capacity : ℚ) b.refillPerSecond (bucket b w) now := by
  cases hstate : w.state with
  | none =>
      have hwait : 0 ≤ b.refillPerSecond * (now - w.clock) := mul_nonneg hrate (sub_nonneg.mpr hclock)
      simp only [refilled, Bucket.available, bucket, hstate, Option.map_none, Option.getD_none]
      exact ⟨hclock, le_min (min_le_left _ _) (le_trans (min_le_left _ _) (by linarith))⟩
  | some stored =>
      have hpast : stored.updatedAt ≤ now := le_trans (hsound.past stored hstate) hclock
      have helapsed : 0 ≤ now - stored.updatedAt := sub_nonneg.mpr hpast
      have hslow := mul_le_mul_of_nonneg_left hsix helapsed
      simp only [refilled, Bucket.available, bucket, hstate, Option.map_some, Option.getD_some,
        max_eq_right helapsed]
      exact ⟨hpast, min_le_min_left _ (by linarith)⟩

/-- Then each step is one of a bucket; a key that vanishes has been idle until it was full. -/
theorem bucket_step {capacity : ℤ} {refillPerSecond : ℚ} (hcapacity : 1 ≤ capacity)
    (hrate : 0 < refillPerSecond) (hsix : sixDecimals refillPerSecond ≤ refillPerSecond) {w w' : World}
    {e : Event} (hsound : Sound (newRedisTokenBucket capacity refillPerSecond) w)
    (hstep : (newRedisTokenBucket capacity refillPerSecond).next w e = some w') :
    ∃ now, Bucket.Step (capacity : ℚ) refillPerSecond
      (bucket (newRedisTokenBucket capacity refillPerSecond) w) now
      (bucket (newRedisTokenBucket capacity refillPerSecond) w') := by
  have hcapacity' : 0 ≤ (newRedisTokenBucket capacity refillPerSecond).capacity := by
    show 0 ≤ capacity
    omega
  have hlow := hsound.refilled_nonneg hcapacity' hrate.le
  rcases next_cases hstep with ⟨now, -, hclock, hone, rfl⟩ | ⟨now, -, hclock, -, rfl⟩ |
    ⟨now, stored, -, hstate, hclock, hexpired, rfl⟩
  · obtain ⟨hlater, hle⟩ := refilled_le_available hsound hrate.le hsix hclock
    refine ⟨now, Bucket.Step.admitted hlater (sub_nonneg.mpr hone) ?_⟩
    show (newRedisTokenBucket capacity refillPerSecond).refilled now w.state - 1 + 1 ≤ _
    rw [sub_add_cancel]
    exact hle
  · obtain ⟨hlater, hle⟩ := refilled_le_available hsound hrate.le hsix hclock
    exact ⟨now, Bucket.Step.wait hlater (hlow now) hle⟩
  · obtain ⟨htokens, -⟩ := hsound.range stored hstate
    have hexpires := hsound.expires stored hstate
    have hlife := capacity_le_ttl hcapacity hrate
    have hidle : refillPerSecond * (newRedisTokenBucket capacity refillPerSecond).ttl ≤
        refillPerSecond * (now - stored.updatedAt) :=
      mul_le_mul_of_nonneg_left (by linarith) hrate.le
    have hfull : (0 : ℚ) ≤ capacity := by exact_mod_cast hcapacity'
    refine ⟨now, Bucket.Step.wait ?_ hfull (le_min le_rfl ?_)⟩
    · simpa [bucket, hstate] using le_trans (hsound.past stored hstate) hclock
    · simp only [bucket, hstate, Option.map_some, Option.getD_some]
      show (capacity : ℚ) ≤ _
      linarith

/-! ### The admission bound -/

/-- In every run the tokens are in range, and no interval sees more requests allowed than the capacity
and the refill at the configured rate. -/
def Bounded (b : RedisTokenBucket) : Prop :=
  ∀ clock events w, Run (Steps b.next) (World.initial clock) events w →
    (∀ stored, w.state = some stored → 0 ≤ stored.tokens ∧ stored.tokens ≤ b.capacity) ∧
      ∀ t₁ t₂, t₁ ≤ t₂ → ((Bucket.within w.admitted t₁ t₂).length : ℚ) ≤
        b.capacity + b.refillPerSecond * (t₂ - t₁)

theorem bounded_of_le {capacity : ℤ} {refillPerSecond : ℚ} (hcapacity : 1 ≤ capacity)
    (hrate : 0 < refillPerSecond) (hsix : sixDecimals refillPerSecond ≤ refillPerSecond) :
    (newRedisTokenBucket capacity refillPerSecond).Bounded := by
  intro clock events w hrun
  have hcapacity' : 0 ≤ (newRedisTokenBucket capacity refillPerSecond).capacity := by
    show 0 ≤ capacity
    omega
  have hfull : (0 : ℚ) ≤ capacity := by exact_mod_cast hcapacity'
  obtain ⟨hsound, times, hbucket⟩ := hrun.invariant
    (fun w => Sound (newRedisTokenBucket capacity refillPerSecond) w ∧
      ∃ times, Run (Bucket.Step (capacity : ℚ) refillPerSecond)
        (bucket (newRedisTokenBucket capacity refillPerSecond) (World.initial clock)) times
        (bucket (newRedisTokenBucket capacity refillPerSecond) w))
    ⟨Sound.vanished _ clock [], [], .start⟩
    (by
      rintro w e w' ⟨hsound, times, hbucket⟩ hstep
      obtain ⟨now, hstep'⟩ := bucket_step hcapacity hrate hsix hsound hstep
      exact ⟨hsound.next hcapacity' hrate.le hstep, times ++ [now], .snoc hbucket hstep'⟩)
  refine ⟨hsound.range, fun t₁ t₂ hinterval => ?_⟩
  exact Bucket.admissions_le hfull hrate.le rfl hfull le_rfl hbucket hinterval

theorem drain {b : RedisTokenBucket} (n : Nat) (hn : (n : ℤ) ≤ b.capacity) :
    ∃ w, Run (Steps b.next) (World.initial 0) (List.replicate n (.allow 0)) w ∧
      w.clock = 0 ∧ w.admitted = List.replicate n 0 ∧
      (w.state.map Stored.tokens).getD b.capacity = b.capacity - n ∧
      ∀ stored, w.state = some stored → stored.updatedAt = 0 := by
  induction n with
  | zero => exact ⟨World.initial 0, .start, rfl, rfl, by simp [World.initial], by simp [World.initial]⟩
  | succ n ih =>
      obtain ⟨w, hrun, hclock, hadmitted, htokens, hupdated⟩ := ih (by push_cast at hn; omega)
      have hroom : (n : ℚ) + 1 ≤ b.capacity := by exact_mod_cast hn
      have helapsed : max 0 ((0 : ℚ) - (w.state.map Stored.updatedAt).getD 0) = 0 := by
        cases hstate : w.state with
        | none => simp
        | some stored => simp [hupdated stored hstate]
      have hrefilled : b.refilled 0 w.state = b.capacity - n := by
        rw [refilled, htokens, helapsed, zero_mul, add_zero]
        exact min_eq_right (by linarith [Nat.cast_nonneg (α := ℚ) n])
      have hone : 1 ≤ b.refilled 0 w.state := by
        rw [hrefilled]
        linarith
      have hstep := next_admits hclock.le hone
      rw [hadmitted, ← List.replicate_succ'] at hstep
      refine ⟨⟨some ⟨b.refilled 0 w.state - 1, 0, 0 + b.ttl⟩, 0, List.replicate (n + 1) 0⟩, ?_, rfl, rfl,
        ?_, ?_⟩
      · rw [List.replicate_succ' (a := Event.allow 0)]
        exact hrun.snoc hstep
      · show b.refilled 0 w.state - 1 = _
        rw [hrefilled]
        push_cast
        ring
      · rintro stored ⟨⟩
        rfl

/-- A script that refills faster allows the next request before the configured rate does. -/
theorem not_bounded_of_lt {capacity : ℤ} {refillPerSecond : ℚ} (hcapacity : 1 ≤ capacity)
    (hrate : 0 < refillPerSecond) (hsix : refillPerSecond < sixDecimals refillPerSecond) :
    ¬ (newRedisTokenBucket capacity refillPerSecond).Bounded := by
  intro hbounded
  obtain ⟨n, rfl⟩ := Int.eq_ofNat_of_zero_le (by omega : 0 ≤ capacity)
  obtain ⟨w, hrun, hclock, hadmitted, htokens, hupdated⟩ :=
    drain (b := newRedisTokenBucket n refillPerSecond) n le_rfl
  have hfast : 0 < sixDecimals refillPerSecond := lt_trans hrate hsix
  have hnext : 0 ≤ (sixDecimals refillPerSecond)⁻¹ := inv_nonneg.mpr hfast.le
  have hroom : (1 : ℚ) ≤ n := by exact_mod_cast hcapacity
  -- The emptied bucket holds one token again after the reciprocal of the rounded rate.
  have hrefilled : (newRedisTokenBucket n refillPerSecond).refilled (sixDecimals refillPerSecond)⁻¹
      w.state = 1 := by
    cases hstate : w.state with
    | none =>
        have hempty : (n : ℚ) = n - n := by simpa [hstate, newRedisTokenBucket] using htokens
        linarith
    | some stored =>
        have hempty : stored.tokens = 0 := by simpa [hstate, newRedisTokenBucket] using htokens
        simp [refilled, newRedisTokenBucket, hempty, hupdated stored hstate, hfast.le, hfast.ne', hroom]
  have hstep := next_admits (hclock.trans_le hnext) hrefilled.ge
  obtain ⟨-, hbound⟩ := hbounded 0 _ _ (hrun.snoc hstep)
  have hlength := hbound 0 _ hnext
  have hall : Bucket.within (w.admitted ++ [(sixDecimals refillPerSecond)⁻¹]) 0
      (sixDecimals refillPerSecond)⁻¹ = w.admitted ++ [(sixDecimals refillPerSecond)⁻¹] := by
    apply List.filter_eq_self.mpr
    intro t ht
    rw [hadmitted] at ht
    rcases List.mem_append.mp ht with ht | ht
    · rw [List.eq_of_mem_replicate ht]
      simp [hnext]
    · rw [List.mem_singleton.mp ht]
      simp [hnext]
  rw [hall, hadmitted, List.length_append, List.length_replicate, List.length_singleton, sub_zero]
    at hlength
  -- Meanwhile the configured rate has not made up for it.
  have hslow : refillPerSecond * (sixDecimals refillPerSecond)⁻¹ < 1 := by
    rw [← div_eq_mul_inv, div_lt_one hfast]
    exact hsix
  simp only [newRedisTokenBucket] at hlength
  push_cast at hlength
  linarith

/-- The bucket admits no more than its capacity and the refill at the configured rate exactly if the
rate is not rounded up. -/
theorem bounded_iff (capacity : ℤ) (refillPerSecond : ℚ) (hcapacity : 1 ≤ capacity)
    (hrate : 0 < refillPerSecond) :
    (newRedisTokenBucket capacity refillPerSecond).Bounded ↔
      sixDecimals refillPerSecond ≤ refillPerSecond := by
  constructor
  · intro hbounded
    by_contra hfast
    exact not_bounded_of_lt hcapacity hrate (not_le.mp hfast) hbounded
  · exact bounded_of_le hcapacity hrate

/-- The default configuration. -/
theorem bounded_iff_default :
    (newRedisTokenBucket 100 20).Bounded ↔ sixDecimals 20 ≤ 20 :=
  bounded_iff 100 20 (by decide) (by norm_num)

/-- One request in some twelve days, of which the script makes one in some eleven and a half. -/
theorem not_bounded_of_small_rate :
    ∃ w, Run (Steps (newRedisTokenBucket 1 (1 / 1048576)).next) (World.initial 0)
        [.allow 0, .allow 1000000] w ∧
      (Bucket.within w.admitted 0 1000000).length = 2 ∧
      ¬ ((2 : ℚ) ≤ 1 + 1 / 1048576 * (1000000 - 0)) := by
  refine ⟨_, run_iff_foldlM.mpr rfl, ?_, by norm_num⟩
  decide +kernel

end RedisTokenBucket

end CoreMesh.Gateway
