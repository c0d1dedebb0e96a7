import CoreMesh.Gateway.Attempts
import CoreMesh.Http.Header

/-!
# Concurrent `ServeHTTP` calls

Many calls run `Proxy.ServeHTTP` against one breaker. A call is cut where another one can get in
between: at the limiter, at each breaker method, while the request body is read, and while an upstream
answers. The reverse proxy reports the primary's answer through `ModifyResponse` and a failed round
trip through `ErrorHandler`, which is where outcomes reach the breaker.

`records` and `probeOwner` are bookkeeping: how often a call recorded an outcome, and whose half-open
slot is in flight.
-/

namespace CoreMesh.Gateway

open Transition CoreMesh.Http

def rateLimitHeaderRemaining : String := "x-ratelimit-remaining"

def coremeshRouteHeader : String := "x-coremesh-route"

def coremeshCircuitStateHeader : String := "x-coremesh-circuit-state"

structure LimitResult where
  allowed : Bool
  remaining : Int
  retryAfter : Int
  deriving DecidableEq, Repr

/-- A duration in whole seconds, rounded up and never below one. -/
def retryAfterSeconds (d : Int) : Int :=
  if d ≤ 0 then 1 else max 1 (-(-d / second))

/-- What a call wrote to its client by the time it returned. -/
inductive Answer where
  /-- `http.Error` with this message and status. -/
  | error (message : String) (statusCode : Nat)
  /-- The primary's response, passed on. -/
  | primary (statusCode : Nat)
  /-- Whatever the fallback proxy answered. -/
  | fallback
  deriving DecidableEq, Repr

def bodyUnreadable : Answer := .error "failed to read request body" 400

/-- `primaryFailureError.Error`. -/
def primaryFailureMessage (statusCode : Nat) : String :=
  "primary upstream returned " ++ toString statusCode

/-- The answer of `ErrorHandler` when it does not replay; a transport error has no status code. -/
def primaryErrorAnswer : Option Nat → Answer
  | some statusCode => .error (primaryFailureMessage statusCode) statusCode
  | none => .error "primary upstream unavailable" 502

inductive Phase where
  /-- About to ask the limiter. -/
  | limiting
  /-- Admitted, about to call `Route`. -/
  | routing
  /-- In `cloneWithReplayableBody`. -/
  | reading
  /-- In the primary's round trip. -/
  | forwarding
  /-- In `ErrorHandler` with the failure recorded, about to read the circuit state. -/
  | recovering (primaryErr : Option Nat)
  /-- Copying the primary's response. -/
  | relaying (statusCode : Nat)
  /-- In `fallbackProxy.ServeHTTP`. -/
  | onFallback
  | returned (answer : Answer)
  deriving DecidableEq, Repr

structure Call where
  phase : Phase := .limiting
  header : Header := .empty
  route : Option RouteDecision := none
  records : Nat := 0

/-- `Route` sent the call to primary. -/
def Call.ChosePrimary (c : Call) : Prop :=
  ∃ decision, c.route = some decision ∧ decision.useFallback = false

structure Proxy where
  breaker : CircuitBreaker
  calls : RequestId → Call
  probeOwner : Option RequestId

inductive ProxyEvent where
  | allow (call : RequestId) (limit : Except String LimitResult)
  | route (call : RequestId) (now : Int)
  | cloneBody (call : RequestId) (readable : Bool)
  | modifyResponse (call : RequestId) (statusCode : Nat) (now : Int)
  | transportError (call : RequestId) (now : Int)
  | decideFallback (call : RequestId)
  | finish (call : RequestId)

namespace Proxy

def initial (breaker : CircuitBreaker) : Proxy where
  breaker := breaker
  calls := fun _ => {}
  probeOwner := none

def setCall (s : Proxy) (i : RequestId) (c : Call) : Proxy :=
  { s with calls := fun j => if j = i then c else s.calls j }

/-- The limiter's answer: unavailable, denied or admitted. -/
def allow (c : Call) : Except String LimitResult → Call
  | .error _ => { c with phase := .returned (.error "rate limiter unavailable" 503) }
  | .ok limit =>
      let header := c.header.set rateLimitHeaderRemaining (toString limit.remaining)
      if !limit.allowed then
        { c with
          phase := .returned (.error "too many requests" 429)
          header := header.set "Retry-After" (toString (retryAfterSeconds limit.retryAfter)) }
      else { c with phase := .routing, header := header }

def route (s : Proxy) (i : RequestId) (now : Int) : Proxy :=
  let (decision, breaker) := s.breaker.route now
  let c := s.calls i
  { s with
    breaker := breaker
    probeOwner := if decision.admitsProbe then some i else s.probeOwner }.setCall i
    { c with
      phase := if decision.useFallback then .onFallback else .reading
      header := c.header.set coremeshCircuitStateHeader decision.state.text
      route := some decision }

/-- An outcome call `i` records: the breaker it leaves, and the slot's owner if it is still taken. -/
def record (s : Proxy) (i : RequestId) (breaker : CircuitBreaker) (c : Call) : Proxy :=
  { s with
    breaker := breaker
    probeOwner := if breaker.halfOpenInFlight then s.probeOwner else none }.setCall i
    { c with records := c.records + 1 }

/-- `ModifyResponse` of the primary proxy: a server error is a failure and goes on to `ErrorHandler`,
which does not record it again. -/
def modifyResponse (s : Proxy) (i : RequestId) (statusCode : Nat) (now : Int) : Proxy :=
  let c := s.calls i
  if statusCode ≥ 500 then
    s.record i (s.breaker.recordFailure now) { c with phase := .recovering (some statusCode) }
  else
    s.record i (s.breaker.recordSuccess now)
      { c with
        phase := .relaying statusCode
        header := c.header.add coremeshRouteHeader "primary" }

/-- `ErrorHandler` on an error other than the primary's own server error. -/
def transportError (s : Proxy) (i : RequestId) (now : Int) : Proxy :=
  s.record i (s.breaker.recordFailure now) { s.calls i with phase := .recovering none }

def next (s : Proxy) : ProxyEvent → Option Proxy
  | .allow i limit =>
      if (s.calls i).phase = .limiting then some (s.setCall i (allow (s.calls i) limit)) else none
  | .route i now =>
      if (s.calls i).phase = .routing then some (s.route i now) else none
  | .cloneBody i readable =>
      if (s.calls i).phase = .reading then
        some (s.setCall i { s.calls i with
          phase := if readable then .forwarding else .returned bodyUnreadable })
      else none
  | .modifyResponse i statusCode now =>
      if (s.calls i).phase = .forwarding then some (s.modifyResponse i statusCode now) else none
  | .transportError i now =>
      if (s.calls i).phase = .forwarding then some (s.transportError i now) else none
  | .decideFallback i =>
      match (s.calls i).phase with
      | .recovering primaryErr =>
          some (s.setCall i { s.calls i with
            phase := if s.breaker.useFallbackAfterPrimaryError then .onFallback
              else .returned (primaryErrorAnswer primaryErr) })
      | _ => none
  | .finish i =>
      match (s.calls i).phase with
      | .relaying statusCode =>
          some (s.setCall i { s.calls i with phase := .returned (.primary statusCode) })
      | .onFallback => some (s.setCall i { s.calls i with phase := .returned .fallback })
      | _ => none

@[simp] theorem setCall_breaker (s : Proxy) (i : RequestId) (c : Call) :
    (s.setCall i c).breaker = s.breaker := rfl

@[simp] theorem setCall_probeOwner (s : Proxy) (i : RequestId) (c : Call) :
    (s.setCall i c).probeOwner = s.probeOwner := rfl

@[simp] theorem setCall_self (s : Proxy) (i : RequestId) (c : Call) :
    (s.setCall i c).calls i = c := if_pos rfl

theorem setCall_of_ne (s : Proxy) {i j : RequestId} (c : Call) (hne : j ≠ i) :
    (s.setCall i c).calls j = s.calls j := if_neg hne

end Proxy

end CoreMesh.Gateway
