import CoreMesh.Gateway.TokenBucket
import CoreMesh.Lib.Variation

/-!
# A clock that steps back

Calls of `Allow` on one key that does not expire, at readings of `TIME` that need not be in order. The
script takes a negative time that has passed for none, but stores the earlier reading, so the next calls
are credited with the way back up.
-/

namespace CoreMesh.Gateway.RedisTokenBucket

open Variation

/-- `elapsed * refill_rate`. -/
def credit (b : RedisTokenBucket) (now : ℚ) (state : Option Stored) : ℚ :=
  max 0 (now - (state.map Stored.updatedAt).getD now) * sixDecimals b.refillPerSecond

/-- What calls at these readings are credited with. -/
def credited (b : RedisTokenBucket) : Option Stored → List ℚ → ℚ
  | _, [] => 0
  | state, now :: later => b.credit now state + credited b (some (b.allow now state).2) later

/-- What the bucket gains from it, up to its capacity. -/
def gained (b : RedisTokenBucket) : Option Stored → List ℚ → ℚ
  | _, [] => 0
  | state, now :: later =>
      b.refilled now state - (state.map Stored.tokens).getD b.capacity +
        gained b (some (b.allow now state).2) later

theorem refilled_eq (b : RedisTokenBucket) (now : ℚ) (state : Option Stored) :
    b.refilled now state =
      min (b.capacity : ℚ) ((state.map Stored.tokens).getD b.capacity + b.credit now state) := rfl

theorem allow_updatedAt (b : RedisTokenBucket) (now : ℚ) (state : Option Stored) :
    (b.allow now state).2.updatedAt = now := by
  unfold allow tokenBucketScript
  dsimp only
  split
  · rfl
  · rfl

theorem credited_some (b : RedisTokenBucket) (stored : Stored) (readings : List ℚ) :
    b.credited (some stored) readings = sixDecimals b.refillPerSecond * rise stored.updatedAt readings := by
  induction readings generalizing stored with
  | nil => simp [credited, rise]
  | cons now later ih =>
      unfold credited rise credit
      rw [ih, allow_updatedAt, Option.map_some, Option.getD_some]
      ring

/-- From a key that was not there, the calls are credited with the rise of the readings. -/
theorem credited_none (b : RedisTokenBucket) (first : ℚ) (later : List ℚ) :
    b.credited none (first :: later) = sixDecimals b.refillPerSecond * rise first later := by
  unfold credited credit
  rw [credited_some, allow_updatedAt]
  simp

theorem gained_le_credited (b : RedisTokenBucket) (state : Option Stored) (readings : List ℚ) :
    b.gained state readings ≤ b.credited state readings := by
  induction readings generalizing state with
  | nil => exact le_rfl
  | cons now later ih =>
      unfold gained credited
      apply add_le_add
      · rw [refilled_eq, sub_le_iff_le_add']
        exact min_le_right _ _
      · exact ih _

/-- The credit is that of the way from the first reading to the highest exactly if the readings do not
step forward again after a step back, unless there is no refill at all. -/
theorem credited_le_iff (b : RedisTokenBucket) (hrate : 0 ≤ b.refillPerSecond) (first : ℚ)
    (later : List ℚ) :
    b.credited none (first :: later) ≤ sixDecimals b.refillPerSecond * (peak first later - first) ↔
      sixDecimals b.refillPerSecond = 0 ∨ RisesThenFalls (first :: later) := by
  have hsix := sixDecimals_nonneg hrate
  rw [credited_none, ← rise_le_iff]
  obtain hzero | hpos := hsix.eq_or_lt
  · simp [← hzero]
  · rw [mul_le_mul_iff_of_pos_left hpos]
    constructor
    · exact .inr
    · rintro (hzero | h)
      · exact absurd hzero hpos.ne'
      · exact h

theorem gained_le {b : RedisTokenBucket} (hrate : 0 ≤ b.refillPerSecond) {first : ℚ} {later : List ℚ}
    (hreadings : RisesThenFalls (first :: later)) :
    b.gained none (first :: later) ≤ sixDecimals b.refillPerSecond * (peak first later - first) := by
  calc
    b.gained none (first :: later) ≤ b.credited none (first :: later) := gained_le_credited _ _ _
    _ = sixDecimals b.refillPerSecond * rise first later := credited_none _ _ _
    _ ≤ _ := mul_le_mul_of_nonneg_left ((rise_le_iff _ _).mpr hreadings) (sixDecimals_nonneg hrate)

/-- A clock that goes forward only: the credit is that of the way, and the bucket gains no more. -/
theorem credited_le_iff_forward :
    ((newRedisTokenBucket 100 20).credited none [0, 3, 5] ≤ sixDecimals 20 * (peak 0 [3, 5] - 0) ↔
      sixDecimals 20 = 0 ∨ RisesThenFalls [(0 : ℚ), 3, 5]) ∧
    (newRedisTokenBucket 100 20).credited none [0, 3, 5] ≤ sixDecimals 20 * (peak 0 [3, 5] - 0) ∧
    (newRedisTokenBucket 100 20).gained none [0, 3, 5] ≤ sixDecimals 20 * (peak 0 [3, 5] - 0) := by
  have hrate : 0 ≤ (newRedisTokenBucket 100 20).refillPerSecond := by norm_num [newRedisTokenBucket]
  have hiff := credited_le_iff (newRedisTokenBucket 100 20) hrate 0 [3, 5]
  have hreadings : RisesThenFalls [(0 : ℚ), 3, 5] := ⟨[0, 3, 5], [], rfl, by decide, List.Pairwise.nil⟩
  exact ⟨hiff, hiff.mpr (.inr hreadings), gained_le hrate hreadings⟩

/-- A clock that is set back by a hundred seconds and forward again: no time has passed since the first
reading, and the emptied bucket is full. -/
theorem credited_after_regression :
    ¬ (newRedisTokenBucket 1 1).credited none [100, 0, 100] ≤ sixDecimals 1 * (peak 100 [0, 100] - 100) ∧
    ¬ (newRedisTokenBucket 1 1).gained none [100, 0, 100] ≤ sixDecimals 1 * (peak 100 [0, 100] - 100) := by
  decide +kernel

end CoreMesh.Gateway.RedisTokenBucket
