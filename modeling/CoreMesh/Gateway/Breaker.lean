import Mathlib.Tactic.Common

/-!
# The circuit breaker

`CircuitBreaker` of the gateway: a rolling window of failures, three states, and one slot for the
probe a half-open circuit sends to the primary upstream. Every method runs under the breaker's mutex,
so a method here is a function from the state before it to the state after.

Times and durations are integers counting nanoseconds, a time from the zero `time.Time`. `Time.Sub` saturates some 292 years out, which no
comparison below can tell from the exact difference, so the difference is exact here.
-/

namespace CoreMesh.Gateway

def second : Int := 1000000000

/-- `Time.IsZero`. -/
def isZero (t : Int) : Bool := t == 0

inductive CircuitState where
  | circuitClosed
  | circuitOpen
  | circuitHalfOpen
  deriving DecidableEq, Repr

/-- The string the state is in the source, as headers and diagnostics show it. -/
def CircuitState.text : CircuitState → String
  | .circuitClosed => "closed"
  | .circuitOpen => "open"
  | .circuitHalfOpen => "half-open"

structure RouteDecision where
  useFallback : Bool := false
  state : CircuitState
  deriving DecidableEq, Repr

/-- The decision sends the request to primary as the probe of a half-open circuit. -/
def RouteDecision.admitsProbe (decision : RouteDecision) : Bool :=
  !decision.useFallback && decision.state == .circuitHalfOpen

def defaultHalfOpenProbeTimeout : Int := 30 * second

structure CircuitBreaker where
  state : CircuitState
  failureThreshold : Int
  failureWindow : Int
  openDuration : Int
  halfOpenProbeTimeout : Int
  failures : List Int
  openedAt : Int
  halfOpenInFlight : Bool
  halfOpenStartedAt : Int
  deriving DecidableEq, Repr

def newCircuitBreaker (threshold failureWindow openDuration : Int) : CircuitBreaker where
  state := .circuitClosed
  failureThreshold := threshold
  failureWindow := failureWindow
  openDuration := openDuration
  halfOpenProbeTimeout := defaultHalfOpenProbeTimeout
  failures := []
  openedAt := 0
  halfOpenInFlight := false
  halfOpenStartedAt := 0

/-- Drops failures from the front while they are before the window; the slice is in record order. -/
def pruneFailures (failures : List Int) (now : Int) (window : Int) : List Int :=
  failures.dropWhile fun failure => failure < now - window

namespace CircuitBreaker

def expireHalfOpenProbeIfStale (b : CircuitBreaker) (now : Int) : CircuitBreaker :=
  if !b.halfOpenInFlight || isZero b.halfOpenStartedAt then b
  else if now - b.halfOpenStartedAt < b.halfOpenProbeTimeout then b
  else { b with halfOpenInFlight := false, halfOpenStartedAt := 0 }

/-- The update both admitting branches of `Route` make: the circuit is half-open and its slot is
taken from `now` on. -/
def startProbe (b : CircuitBreaker) (now : Int) : CircuitBreaker :=
  { b with state := .circuitHalfOpen, halfOpenInFlight := true, halfOpenStartedAt := now }

def route (b : CircuitBreaker) (now : Int) : RouteDecision × CircuitBreaker :=
  match b.state with
  | .circuitOpen =>
      if now - b.openedAt ≥ b.openDuration ∧ b.halfOpenInFlight = false then
        ({ state := .circuitHalfOpen }, b.startProbe now)
      else ({ useFallback := true, state := b.state }, b)
  | .circuitHalfOpen =>
      let b := b.expireHalfOpenProbeIfStale now
      if b.halfOpenInFlight then ({ useFallback := true, state := b.state }, b)
      else ({ state := b.state }, b.startProbe now)
  | .circuitClosed => ({ state := b.state }, b)

/-- `open` of the source. -/
def openCircuit (b : CircuitBreaker) (now : Int) : CircuitBreaker :=
  { b with state := .circuitOpen, openedAt := now, halfOpenInFlight := false, halfOpenStartedAt := 0 }

def recordSuccess (b : CircuitBreaker) (now : Int) : CircuitBreaker :=
  if b.state = .circuitHalfOpen then
    { b with state := .circuitClosed, failures := [], halfOpenInFlight := false, halfOpenStartedAt := 0 }
  else { b with failures := pruneFailures b.failures now b.failureWindow }

def recordFailure (b : CircuitBreaker) (now : Int) : CircuitBreaker :=
  let b := { b with failures := pruneFailures b.failures now b.failureWindow ++ [now] }
  if b.state = .circuitHalfOpen then b.openCircuit now
  else if b.state = .circuitClosed ∧ b.failureThreshold ≤ b.failures.length then b.openCircuit now
  else b

def useFallbackAfterPrimaryError (b : CircuitBreaker) : Bool := b.state == .circuitOpen

/-! ### What one call can do

`Route` either passes a closed circuit through, admits a probe, or refuses without touching the
breaker. The invariants below are read off this one lemma. -/

/-- When `Route` may hand the slot to the caller. -/
def ProbeDue (b : CircuitBreaker) (now : Int) : Prop :=
  (b.state = .circuitOpen ∧ b.openedAt + b.openDuration ≤ now ∧ b.halfOpenInFlight = false) ∨
    (b.state = .circuitHalfOpen ∧ (b.halfOpenInFlight = false ∨
      (b.halfOpenStartedAt ≠ 0 ∧ b.halfOpenStartedAt + b.halfOpenProbeTimeout ≤ now)))

theorem expire_eq (b : CircuitBreaker) (now : Int) :
    b.expireHalfOpenProbeIfStale now = b ∨
      (b.halfOpenInFlight = true ∧ b.halfOpenStartedAt ≠ 0 ∧
        b.halfOpenStartedAt + b.halfOpenProbeTimeout ≤ now ∧
        b.expireHalfOpenProbeIfStale now
          = { b with halfOpenInFlight := false, halfOpenStartedAt := 0 }) := by
  unfold expireHalfOpenProbeIfStale
  split
  · exact .inl rfl
  · rename_i hlive
    simp only [isZero, Bool.or_eq_true, Bool.not_eq_true', beq_iff_eq, not_or, Bool.not_eq_false]
      at hlive
    split
    · exact .inl rfl
    · exact .inr ⟨hlive.1, hlive.2, by omega, rfl⟩

theorem route_cases (b : CircuitBreaker) (now : Int) :
    (b.state = .circuitClosed ∧ b.route now = ({ state := .circuitClosed }, b)) ∨
    (b.ProbeDue now ∧ b.route now = ({ state := .circuitHalfOpen }, b.startProbe now)) ∨
    (b.state ≠ .circuitClosed ∧ b.route now = ({ useFallback := true, state := b.state }, b)) := by
  rcases hstate : b.state with _ | _ | _
  · exact .inl ⟨rfl, by simp only [route, hstate]⟩
  · by_cases hdue : now - b.openedAt ≥ b.openDuration ∧ b.halfOpenInFlight = false
    · refine .inr (.inl ⟨.inl ⟨hstate, by omega, hdue.2⟩, ?_⟩)
      simp only [route, hstate, if_pos hdue]
    · refine .inr (.inr ⟨by simp, ?_⟩)
      simp only [route, hstate, if_neg hdue]
  · rcases expire_eq b now with hsame | ⟨_, hstarted, hstale, hexpired⟩
    · cases hflight : b.halfOpenInFlight with
      | true =>
          refine .inr (.inr ⟨by simp, ?_⟩)
          simp [route, hstate, hsame, hflight]
      | false =>
          refine .inr (.inl ⟨.inr ⟨hstate, .inl hflight⟩, ?_⟩)
          simp [route, hstate, hsame, hflight]
    · refine .inr (.inl ⟨.inr ⟨hstate, .inr ⟨hstarted, hstale⟩⟩, ?_⟩)
      simp [route, hstate, hexpired, startProbe]

/-- `Route` admits a probe exactly when the slot is due, and then takes it. -/
theorem probeDue_of_admits {b : CircuitBreaker} {now : Int}
    (hadmits : (b.route now).1.admitsProbe = true) :
    b.ProbeDue now ∧ b.route now = ({ state := .circuitHalfOpen }, b.startProbe now) := by
  rcases route_cases b now with ⟨_, hroute⟩ | hgrant | ⟨_, hroute⟩
  · simp [hroute, RouteDecision.admitsProbe] at hadmits
  · exact hgrant
  · simp [hroute, RouteDecision.admitsProbe] at hadmits

theorem route_eq_of_not_admits {b : CircuitBreaker} {now : Int}
    (hrefuses : (b.route now).1.admitsProbe = false) : (b.route now).2 = b := by
  rcases route_cases b now with ⟨_, hroute⟩ | ⟨_, hroute⟩ | ⟨_, hroute⟩
  · rw [hroute]
  · simp [hroute, RouteDecision.admitsProbe] at hrefuses
  · rw [hroute]

/-- Outside a closed circuit, the only way to primary is as a probe. -/
theorem admits_of_primary {b : CircuitBreaker} {now : Int} (hstate : b.state ≠ .circuitClosed)
    (hprimary : (b.route now).1.useFallback = false) : (b.route now).1.admitsProbe = true := by
  rcases route_cases b now with ⟨hclosed, _⟩ | ⟨_, hroute⟩ | ⟨_, hroute⟩
  · exact absurd hclosed hstate
  · simp [hroute, RouteDecision.admitsProbe]
  · simp [hroute] at hprimary

theorem recordSuccess_state (b : CircuitBreaker) (now : Int) :
    (b.recordSuccess now).state
      = if b.state = .circuitHalfOpen then .circuitClosed else b.state := by
  unfold recordSuccess
  split <;> rfl

/-- `RecordFailure` leaves the state alone or opens the circuit at its own time. -/
theorem recordFailure_cases (b : CircuitBreaker) (now : Int) :
    (b.state ≠ .circuitHalfOpen ∧ b.recordFailure now
        = { b with failures := pruneFailures b.failures now b.failureWindow ++ [now] }) ∨
    (b.state ≠ .circuitOpen ∧ (b.recordFailure now).state = .circuitOpen ∧
      (b.recordFailure now).openedAt = now ∧ (b.recordFailure now).halfOpenInFlight = false) := by
  unfold recordFailure openCircuit
  by_cases hhalf : b.state = .circuitHalfOpen
  · exact .inr (by simp [hhalf])
  · by_cases hcross : b.state = .circuitClosed ∧
        b.failureThreshold ≤ (pruneFailures b.failures now b.failureWindow ++ [now]).length
    · exact .inr (by simp only [if_neg hhalf, if_pos hcross]; simp [hcross.1])
    · exact .inl ⟨hhalf, by simp only [if_neg hhalf, if_neg hcross]⟩

/-! ### The slot is only taken in a half-open circuit -/

def SlotIdle (b : CircuitBreaker) : Prop :=
  b.state ≠ .circuitHalfOpen → b.halfOpenInFlight = false

theorem newCircuitBreaker_slotIdle (threshold failureWindow openDuration : Int) :
    (newCircuitBreaker threshold failureWindow openDuration).SlotIdle := fun _ => rfl

theorem SlotIdle.route {b : CircuitBreaker} (hidle : b.SlotIdle) (now : Int) :
    (b.route now).2.SlotIdle := by
  rcases route_cases b now with ⟨_, hroute⟩ | ⟨_, hroute⟩ | ⟨_, hroute⟩ <;> rw [hroute]
  · exact hidle
  · exact fun hstate => absurd rfl hstate
  · exact hidle

theorem SlotIdle.recordSuccess_free {b : CircuitBreaker} (hidle : b.SlotIdle) (now : Int) :
    (b.recordSuccess now).halfOpenInFlight = false := by
  unfold CircuitBreaker.recordSuccess
  split
  · rfl
  · rename_i hstate
    exact hidle hstate

theorem SlotIdle.recordFailure_free {b : CircuitBreaker} (hidle : b.SlotIdle) (now : Int) :
    (b.recordFailure now).halfOpenInFlight = false := by
  rcases recordFailure_cases b now with ⟨hstate, heq⟩ | ⟨_, _, _, hfree⟩
  · rw [heq]
    exact hidle hstate
  · exact hfree

/-! ### The configuration never changes -/

/-- The four configured values of a breaker. -/
def settings (b : CircuitBreaker) : Int × Int × Int × Int :=
  (b.failureThreshold, b.failureWindow, b.openDuration, b.halfOpenProbeTimeout)

@[simp] theorem settings_route (b : CircuitBreaker) (now : Int) :
    (b.route now).2.settings = b.settings := by
  rcases route_cases b now with ⟨_, hroute⟩ | ⟨_, hroute⟩ | ⟨_, hroute⟩
  · rw [hroute]
  · rw [hroute]
    rfl
  · rw [hroute]

@[simp] theorem settings_recordSuccess (b : CircuitBreaker) (now : Int) :
    (b.recordSuccess now).settings = b.settings := by
  unfold recordSuccess
  split <;> rfl

@[simp] theorem settings_recordFailure (b : CircuitBreaker) (now : Int) :
    (b.recordFailure now).settings = b.settings := by
  unfold recordFailure openCircuit
  dsimp only
  split
  · rfl
  · split <;> rfl

end CircuitBreaker

end CoreMesh.Gateway
