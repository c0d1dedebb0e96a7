import CoreMesh.Autopilot.Router
import CoreMesh.Cache.Middleware
import CoreMesh.Gateway.Metrics

/-!
# The whole gateway

What `NewHandler` builds: the application handler answers preflights and the observability route itself and passes
all else to the counters, which wrap the autopilot, which wraps the cache, which wraps the proxy. Many requests are
on their way at once, and the one proxy serves them all.

An upstream is taken to answer with one final response. The increments of one `record` are made in one step, and
a read of the counters changes nothing; how the increments and the loads of many calls mix is in the module on the
counters.
-/

namespace CoreMesh.Gateway

open Transition CoreMesh.Http CoreMesh.Cache

def observabilityPath : String := "/v1/observability"

def exposedGatewayHeaders : List String :=
  ["Retry-After", "X-RateLimit-Remaining", "X-CoreMesh-Cache", "X-CoreMesh-Circuit-State", "X-CoreMesh-Route",
    "X-CoreMesh-Autopilot-Tier", "X-CoreMesh-Routed-Model", "X-CoreMesh-Autopilot-Reason",
    "X-CoreMesh-Experiment-Variant", "X-CoreMesh-Prompt-Version"]

/-- What `http.Error` does to the header. -/
def httpError (w : Header) : Header :=
  ((w.del "Content-Length").set "Content-Type" "text/plain; charset=utf-8").set "X-Content-Type-Options" "nosniff"

/-- The headers of a header map after those that are there. -/
def copyHeader (dst src : Header) : Header := fun key => dst key ++ src key

section Cors

variable {Text : Type} (allowedOrigins : List String) (r : Http.Request Text) (w : Header)

/-- The header as it is left, and the status of a preflight, which is answered here. -/
def applyCORS : Header × Option Int :=
  let origin := trimSpace (r.header.get "Origin")
  let allowed := origin ≠ "" ∧ origin ∈ allowedOrigins
  let w := if allowed then
      ((w.set "Access-Control-Allow-Origin" origin).set "Access-Control-Expose-Headers"
        (", ".intercalate exposedGatewayHeaders)).add "Vary" "Origin"
    else w
  if r.method ≠ "OPTIONS" ∨ trimSpace (r.header.get "Access-Control-Request-Method") = "" then (w, none)
  else if ¬allowed then (httpError w, some 403)
  else
    (((((w.set "Access-Control-Allow-Methods" "GET, POST, OPTIONS").set "Access-Control-Allow-Headers"
      "Accept, Content-Type, X-Team-ID, X-API-Key, X-CoreMesh-Cache-Policy").set
      "Access-Control-Max-Age" "600").add "Vary" "Access-Control-Request-Method").add
      "Vary" "Access-Control-Request-Headers", some 204)

end Cors

/-- The value of the cache's header in the response. -/
def cacheMark : Handling → String
  | .bypass | .lookupFailed => "bypass"
  | .hit _ => "hit"
  | .miss _ => "miss"

/-- What the cache does to the header on a hit. -/
def hitHeader (w : Header) (hit : LookupResult) : Header :=
  let header := if hit.contentType ≠ "" then w.set "Content-Type" hit.contentType else w
  (header.set headerCache "hit").set "Content-Length" (toString hit.body.toList.length)

def hitStatus (hit : LookupResult) : Int := if hit.statusCode = 0 then 200 else hit.statusCode

example (outer : OuterHeader) (hit : LookupResult) :
    (replay outer hit).header = hitHeader outer.header hit ∧ (replay outer hit).status = hitStatus hit := ⟨rfl, rfl⟩

/-- How a request came to its answer behind the application handler. The header is the one of the upstream's
response; the status that of the fallback's, if it was reached. -/
inductive Outcome where
  | routingFailed
  | hit (hit : LookupResult)
  | proxied (handling : Handling) (answer : Answer) (upstream : Header) (fallback : Option Nat)

inductive Stage where
  | unseen
  /-- Answered by the application handler. -/
  | served (statusCode : Int) (header : Header)
  | proxying (handling : Handling)
  /-- Answered, and about to be recorded. -/
  | answered (outcome : Outcome) (call : RecordCall)
  | recorded (outcome : Outcome)

/-- What the parts of the gateway are built of. -/
structure Handler where
  allowedOrigins : List String
  autopilot : Autopilot.Config
  cacheEnabled : Bool
  sha : Sha256
  floats : Autopilot.Float64
  codec : JsonCodec

namespace Handler

variable (handler : Handler)

/-- A request up to the proxy: its stage, and the header of its response as the proxy gets it. -/
def enter (lookup : Autopilot.ExperimentLookup) (backends : Backends) (r : Http.Request handler.codec.Text) :
    Stage × Header :=
  match applyCORS handler.allowedOrigins r .empty with
  | (w, some statusCode) => (.served statusCode w, w)
  | (w, none) =>
      if r.url.path = observabilityPath then
        if r.method ≠ "GET" then (.served 405 (httpError (w.set "Allow" "GET")), w)
        else (.served 200 ((w.set "Cache-Control" "no-store").set "Content-Type" "application/json"), w)
      else
        match Autopilot.middleware handler.sha handler.floats handler.codec handler.autopilot lookup w r with
        | none => (.answered .routingFailed ⟨400, httpError w⟩, w)
        | some (w, r) =>
            match (Cache.middleware handler.sha handler.floats.toFloatCodec handler.codec.toJsonReader
              handler.cacheEnabled backends r).1 with
            | .hit hit => (.answered (.hit hit) ⟨hitStatus hit, hitHeader w hit⟩, w)
            | handling => (.proxying handling,
                if handler.cacheEnabled then w.set headerCache (cacheMark handling) else w)

end Handler

/-- What is recorded of an answer of the proxy. -/
def recordCall (header : Header) (answer : Answer) (upstream : Header) (fallback : Option Nat) : RecordCall :=
  match answer, fallback with
  | .error _ statusCode, _ => ⟨statusCode, httpError header⟩
  | .primary statusCode, _ => ⟨statusCode, copyHeader header (upstream.del coremeshRouteHeader)⟩
  | .fallback, some statusCode => ⟨statusCode, copyHeader header (upstream.set coremeshRouteHeader "fallback")⟩
  | .fallback, none => ⟨502, httpError header⟩

def ProxyEvent.request : ProxyEvent → RequestId
  | .allow i _ | .route i _ | .cloneBody i _ | .modifyResponse i _ _ | .transportError i _ | .decideFallback i
  | .finish i => i

structure Application where
  proxy : Proxy
  stage : RequestId → Stage
  counters : Counter → UInt64
  /-- The requests that were recorded, the last one first. -/
  log : List (RequestId × Outcome)

inductive ApplicationEvent (Text : Type) where
  | enter (request : RequestId) (lookup : Autopilot.ExperimentLookup) (backends : Backends)
      (r : Http.Request Text)
  | proxy (event : ProxyEvent)
  | answer (request : RequestId) (upstream : Header) (fallback : Option Nat)
  | record (request : RequestId)

namespace Application

def initial (breaker : CircuitBreaker) : Application where
  proxy := .initial breaker
  stage _ := .unseen
  counters _ := 0
  log := []

def setStage (s : Application) (i : RequestId) (stage : Stage) : Application :=
  { s with stage := Function.update s.stage i stage }

variable (handler : Handler)

def enter (s : Application) (i : RequestId) (entered : Stage × Header) : Application :=
  let s := s.setStage i entered.1
  match entered.1 with
  | .proxying _ => { s with proxy := s.proxy.setCall i { header := entered.2 } }
  | _ => s

def next (s : Application) : ApplicationEvent handler.codec.Text → Option Application
  | .enter i lookup backends r =>
      match s.stage i with
      | .unseen => some (s.enter i (handler.enter lookup backends r))
      | _ => none
  | .proxy event =>
      match s.stage event.request with
      | .proxying _ => (s.proxy.next event).map fun proxy => { s with proxy := proxy }
      | _ => none
  | .answer i upstream fallback =>
      match s.stage i, (s.proxy.calls i).phase with
      | .proxying handling, .returned answer =>
          some (s.setStage i (.answered (.proxied handling answer upstream fallback)
            (recordCall (s.proxy.calls i).header answer upstream fallback)))
      | _, _ => none
  | .record i =>
      match s.stage i with
      | .answered outcome call =>
          some { s.setStage i (.recorded outcome) with
            counters := fun k => s.counters k + UInt64.ofNat ((record call).count k)
            log := (i, outcome) :: s.log }
      | _ => none

end Application

end CoreMesh.Gateway
