import CoreMesh.Autopilot.CachePolicy
import CoreMesh.Gateway.Application
import CoreMesh.Gateway.ProbeSlot

/-!
# What the counters count

The counters are read off the header and the status of each response. They are shown to count what happened:
the header that the gateway built says which way the request went, whatever the client, the upstreams and the
other requests do.
-/

namespace CoreMesh.Http.Header

variable (h : Header) {key other : String} (value : String)

theorem values_add_self : (h.add key value).values key = h.values key ++ [value] := if_pos rfl

theorem values_add_of_ne (hne : canonicalHeaderKey other ≠ canonicalHeaderKey key) :
    (h.add key value).values other = h.values other := if_neg hne

theorem values_del_self : (h.del key).values key = [] := if_pos rfl

theorem values_del_of_ne (hne : canonicalHeaderKey other ≠ canonicalHeaderKey key) :
    (h.del key).values other = h.values other := if_neg hne

end CoreMesh.Http.Header

namespace CoreMesh.Gateway

open Transition CoreMesh.Http CoreMesh.Cache

/-! ### Headers that are not read -/

/-- The other headers that the gateway writes. -/
def otherHeaders : List String :=
  ["Access-Control-Allow-Origin", "Access-Control-Expose-Headers", "Vary", "Access-Control-Allow-Methods",
    "Access-Control-Allow-Headers", "Access-Control-Max-Age", "Content-Length", "Content-Type",
    "X-Content-Type-Options", rateLimitHeaderRemaining, "Retry-After", coremeshCircuitStateHeader] ++
    Autopilot.decisionHeaders

/-- A header that the counters are read from. -/
def IsRead (key : String) : Prop :=
  ∀ name ∈ otherHeaders, canonicalHeaderKey key ≠ canonicalHeaderKey name

theorem isRead_headerCache : IsRead headerCache := by
  unfold IsRead
  decide +kernel

theorem isRead_route : IsRead coremeshRouteHeader := by
  unfold IsRead
  decide +kernel

theorem route_ne_cache : canonicalHeaderKey coremeshRouteHeader ≠ canonicalHeaderKey headerCache := by
  decide +kernel

section Layers

variable {key : String} (w : Header)

theorem values_httpError (hkey : IsRead key) : (httpError w).values key = w.values key := by
  rw [httpError, Header.values_set_of_ne _ _ (hkey _ (by decide)), Header.values_set_of_ne _ _ (hkey _ (by decide)),
    Header.values_del_of_ne _ (hkey _ (by decide))]

theorem values_copyHeader (src : Header) : (copyHeader w src).values key = w.values key ++ src.values key := rfl

theorem values_applyCORS {Text : Type} (allowedOrigins : List String) (r : Http.Request Text) (hkey : IsRead key) :
    (applyCORS allowedOrigins r w).1.values key = w.values key := by
  have hallow : ∀ (allowed : Prop) [Decidable allowed] (origin : String),
      (if allowed then ((w.set "Access-Control-Allow-Origin" origin).set "Access-Control-Expose-Headers"
        (", ".intercalate exposedGatewayHeaders)).add "Vary" "Origin" else w).values key = w.values key := by
    intro allowed _ origin
    split
    · rw [Header.values_add_of_ne _ _ (hkey _ (by decide)), Header.values_set_of_ne _ _ (hkey _ (by decide)),
        Header.values_set_of_ne _ _ (hkey _ (by decide))]
    · rfl
  unfold applyCORS
  dsimp only
  split
  · exact hallow _ _
  · split
    · exact values_httpError w hkey
    · rw [Header.values_add_of_ne _ _ (hkey _ (by decide)), Header.values_add_of_ne _ _ (hkey _ (by decide)),
        Header.values_set_of_ne _ _ (hkey _ (by decide)), Header.values_set_of_ne _ _ (hkey _ (by decide)),
        Header.values_set_of_ne _ _ (hkey _ (by decide))]
      exact hallow _ _

theorem values_applyDecisionHeaders (decision : Autopilot.Decision) (hkey : IsRead key) :
    (Autopilot.applyDecisionHeaders w decision).values key = w.values key := by
  unfold Autopilot.applyDecisionHeaders
  rw [Header.values_ite_set_of_ne _ _ (hkey _ (by decide)), Header.values_ite_set_of_ne _ _ (hkey _ (by decide)),
    Header.values_ite_set_of_ne _ _ (hkey _ (by decide)), Header.values_set_of_ne _ _ (hkey _ (by decide)),
    Header.values_set_of_ne _ _ (hkey _ (by decide)), Header.values_set_of_ne _ _ (hkey _ (by decide)),
    Header.values_set_of_ne _ _ (hkey _ (by decide))]

theorem values_autopilot {sha : Sha256} {floats : Autopilot.Float64} {codec : JsonCodec} {cfg : Autopilot.Config}
    {lookup : Autopilot.ExperimentLookup} {w w' : Header} {r r' : Http.Request codec.Text}
    (hrouted : Autopilot.middleware sha floats codec cfg lookup w r = some (w', r')) (hkey : IsRead key) :
    w'.values key = w.values key := by
  unfold Autopilot.middleware at hrouted
  split at hrouted
  · obtain ⟨rfl, -⟩ := Prod.mk.inj (Option.some.inj hrouted)
    rfl
  · split at hrouted
    · cases hrouted
    · obtain ⟨rfl, -⟩ := Prod.mk.inj (Option.some.inj hrouted)
      rfl
    · obtain ⟨rfl, -⟩ := Prod.mk.inj (Option.some.inj hrouted)
      exact values_applyDecisionHeaders w _ hkey

end Layers

/-! ### What happened -/

def statusOutcome (statusCode : Int) : List Counter :=
  (if statusCode = 429 then [.rateLimited] else []) ++ if statusCode ≥ 500 then [.upstreamErrors] else []

/-- The counter of a request that the cache passes on, or of a hit. -/
def handlingOutcome : Handling → List Counter
  | .bypass | .lookupFailed => [.cacheBypasses]
  | .hit _ => [.cacheHits]
  | .miss _ => [.cacheMisses]

/-- The status of an answer of the proxy. -/
def proxyStatus : Answer → Option Nat → Int
  | .error _ statusCode, _ => statusCode
  | .primary statusCode, _ => statusCode
  | .fallback, some statusCode => statusCode
  | .fallback, none => 502

/-- The upstream whose response is passed on. -/
def answeredBy : Answer → Option Nat → List Counter
  | .error _ _, _ => []
  | .primary _, _ => [.primary]
  | .fallback, some _ => [.fallback]
  | .fallback, none => []

/-- Without a cache the header of the upstream's response is taken for the cache's. -/
def cacheCounters (cacheEnabled : Bool) (handling : Handling) (answer : Answer) (upstream : Header)
    (fallback : Option Nat) : List Counter :=
  if cacheEnabled then handlingOutcome handling
  else if answeredBy answer fallback = [] then []
  else cacheOutcome (toLower (trimSpace (upstream.get headerCache)))

/-- What a request adds to the counters, told by how it came to its answer. -/
def Outcome.counters (cacheEnabled : Bool) : Outcome → List Counter
  | .routingFailed => [.requests]
  | .hit found => .requests :: .cacheHits :: statusOutcome (hitStatus found)
  | .proxied handling answer upstream fallback =>
      .requests :: (cacheCounters cacheEnabled handling answer upstream fallback ++ answeredBy answer fallback ++
        statusOutcome (proxyStatus answer fallback))

theorem record_of_values {call : RecordCall} {cache route : List String}
    (hcache : call.header.values headerCache = cache) (hroute : call.header.values coremeshRouteHeader = route) :
    record call = .requests :: (cacheOutcome (toLower (trimSpace (cache.headD ""))) ++
      routeOutcome (toLower (trimSpace (route.headD ""))) ++ statusOutcome call.statusCode) := by
  rw [record, RecordCall.outcomes, Header.get, Header.get, hcache, hroute, statusOutcome, List.append_assoc,
    List.append_assoc]

theorem cacheOutcome_mark (handling : Handling) :
    cacheOutcome (toLower (trimSpace (cacheMark handling))) = handlingOutcome handling := by
  have hbypass : cacheOutcome (toLower (trimSpace "bypass")) = [.cacheBypasses] := by decide +kernel
  have hhit : cacheOutcome (toLower (trimSpace "hit")) = [.cacheHits] := by decide +kernel
  have hmiss : cacheOutcome (toLower (trimSpace "miss")) = [.cacheMisses] := by decide +kernel
  cases handling with
  | bypass => exact hbypass
  | lookupFailed => exact hbypass
  | hit found => exact hhit
  | miss c => exact hmiss

/-! ### The header of a call on its way through the proxy -/

namespace Call

/-- The primary's response is being passed on. -/
def Relays (c : Call) : Prop :=
  ∃ statusCode, c.phase = .relaying statusCode ∨ c.phase = .returned (.primary statusCode)

/-- The header tells what the cache did and whether the primary answered. -/
structure Told (mark : List String) (c : Call) : Prop where
  cache : c.header.values headerCache = mark
  relayed : c.Relays → c.header.values coremeshRouteHeader = ["primary"]
  silent : ¬ c.Relays → c.header.values coremeshRouteHeader = []

variable {mark : List String} {c : Call}

theorem Told.move (htold : c.Told mark) {c' : Call}
    (hvalues : ∀ key, IsRead key → c'.header.values key = c.header.values key)
    (hrelays : c'.Relays ↔ c.Relays) : c'.Told mark where
  cache := (hvalues _ isRead_headerCache).trans htold.cache
  relayed := fun h => (hvalues _ isRead_route).trans (htold.relayed (hrelays.mp h))
  silent := fun h => (hvalues _ isRead_route).trans (htold.silent fun hrelayed => h (hrelays.mpr hrelayed))

theorem not_relays {phase : Phase} (hphase : c.phase = phase)
    (hother : ∀ statusCode, phase ≠ .relaying statusCode ∧ phase ≠ .returned (.primary statusCode)) :
    ¬ c.Relays := by
  intro ⟨statusCode, hrelayed⟩
  rw [hphase] at hrelayed
  exact hrelayed.elim (hother statusCode).1 (hother statusCode).2

end Call

namespace Proxy

theorem primaryErrorAnswer_ne (primaryErr : Option Nat) (statusCode : Nat) :
    primaryErrorAnswer primaryErr ≠ .primary statusCode := by
  cases primaryErr <;> simp [primaryErrorAnswer]

theorem values_allow (c : Call) (limit : Except String LimitResult) {key : String} (hkey : IsRead key) :
    (allow c limit).header.values key = c.header.values key := by
  cases limit with
  | error err => rfl
  | ok limit =>
      unfold allow
      dsimp only
      split
      · rw [Header.values_set_of_ne _ _ (hkey _ (by decide)), Header.values_set_of_ne _ _ (hkey _ (by decide))]
      · exact Header.values_set_of_ne _ _ (hkey _ (by decide))

theorem not_relays_allow (c : Call) (limit : Except String LimitResult) : ¬ (allow c limit).Relays := by
  cases limit with
  | error err =>
      unfold allow
      exact Call.not_relays rfl (by simp)
  | ok limit =>
      unfold allow
      dsimp only
      split
      · exact Call.not_relays rfl (by simp)
      · exact Call.not_relays rfl (by simp)

/-- A step keeps the header of its call in line with what has happened to the call. -/
theorem next_told {s s' : Proxy} {event : ProxyEvent} {mark : List String} (hstep : s.next event = some s')
    (htold : (s.calls event.request).Told mark) : (s'.calls event.request).Told mark := by
  have hquiet : ∀ (c' : Call), (∀ key, IsRead key → c'.header.values key = (s.calls event.request).header.values key) →
      ¬ (s.calls event.request).Relays → ¬ c'.Relays → c'.Told mark := fun c' hvalues hbefore hafter =>
    htold.move hvalues (iff_of_false hafter hbefore)
  cases event with
  | allow i limit =>
      simp only [next, Option.ite_none_right_eq_some] at hstep
      obtain ⟨hphase, heq⟩ := hstep
      obtain rfl := Option.some.inj heq
      rw [ProxyEvent.request, setCall_self]
      exact hquiet _ (fun key hkey => values_allow _ limit hkey) (Call.not_relays hphase (by simp))
        (not_relays_allow _ limit)
  | route i now =>
      simp only [next, Option.ite_none_right_eq_some] at hstep
      obtain ⟨hphase, heq⟩ := hstep
      obtain rfl := Option.some.inj heq
      rw [ProxyEvent.request, route, setCall_self]
      refine hquiet _ (fun key hkey => Header.values_set_of_ne _ _ (hkey _ (by decide)))
        (Call.not_relays hphase (by simp)) (Call.not_relays rfl fun statusCode => ?_)
      split <;> simp
  | cloneBody i readable =>
      simp only [next, Option.ite_none_right_eq_some] at hstep
      obtain ⟨hphase, heq⟩ := hstep
      obtain rfl := Option.some.inj heq
      rw [ProxyEvent.request, setCall_self]
      refine hquiet _ (fun key hkey => rfl) (Call.not_relays hphase (by simp))
        (Call.not_relays rfl fun statusCode => ?_)
      cases readable <;> simp [bodyUnreadable]
  | modifyResponse i statusCode now =>
      simp only [next, Option.ite_none_right_eq_some] at hstep
      obtain ⟨hphase, heq⟩ := hstep
      obtain rfl := Option.some.inj heq
      have hbefore : ¬ (s.calls i).Relays := Call.not_relays hphase (by simp)
      rw [ProxyEvent.request, modifyResponse]
      split
      · rw [record, setCall_self]
        exact hquiet _ (fun key hkey => rfl) hbefore (Call.not_relays rfl (by simp))
      · rw [record, setCall_self]
        refine ⟨(Header.values_add_of_ne _ _ route_ne_cache.symm).trans htold.cache, fun _ => ?_, fun hnot => ?_⟩
        · rw [Header.values_add_self]
          exact congrArg (· ++ ["primary"]) (htold.silent hbefore)
        · exact absurd ⟨statusCode, .inl rfl⟩ hnot
  | transportError i now =>
      simp only [next, Option.ite_none_right_eq_some] at hstep
      obtain ⟨hphase, heq⟩ := hstep
      obtain rfl := Option.some.inj heq
      rw [ProxyEvent.request, transportError, record, setCall_self]
      exact hquiet _ (fun key hkey => rfl) (Call.not_relays hphase (by simp)) (Call.not_relays rfl (by simp))
  | decideFallback i =>
      simp only [next] at hstep
      split at hstep
      · next primaryErr hphase =>
          obtain rfl := Option.some.inj hstep
          rw [ProxyEvent.request, setCall_self]
          refine hquiet _ (fun key hkey => rfl) (Call.not_relays hphase (by simp))
            (Call.not_relays rfl fun statusCode => ?_)
          split
          · simp
          · simp [primaryErrorAnswer_ne]
      · cases hstep
  | finish i =>
      simp only [next] at hstep
      split at hstep
      · next statusCode hphase =>
          obtain rfl := Option.some.inj hstep
          rw [ProxyEvent.request, setCall_self]
          exact htold.move (fun key hkey => rfl)
            (iff_of_true ⟨statusCode, .inr rfl⟩ ⟨statusCode, .inl hphase⟩)
      · next hphase =>
          obtain rfl := Option.some.inj hstep
          rw [ProxyEvent.request, setCall_self]
          exact hquiet _ (fun key hkey => rfl) (Call.not_relays hphase (by simp)) (Call.not_relays rfl (by simp))
      · cases hstep

theorem next_frame {s s' : Proxy} {event : ProxyEvent} (hstep : s.next event = some s') {j : RequestId}
    (hne : j ≠ event.request) : s'.calls j = s.calls j := by
  obtain ⟨i, phase, header, hmove, rfl⟩ | ⟨i, now, rfl, -, rfl⟩ | ⟨i, statusCode, now, rfl, -, rfl⟩ |
    ⟨i, now, rfl, -, rfl⟩ := next_cases hstep
  · have hsame : event.request = i := by
      generalize (s.calls i).phase = old at hmove
      cases hmove <;> rfl
    exact setCall_of_ne s _ (hsame ▸ hne)
  · exact setCall_of_ne _ _ hne
  · unfold modifyResponse
    dsimp only
    split
    · exact setCall_of_ne _ _ hne
    · exact setCall_of_ne _ _ hne
  · exact setCall_of_ne _ _ hne

end Proxy

/-! ### What is recorded -/

/-- What the response's header holds of the cache when the proxy gets it. -/
def marks (cacheEnabled : Bool) (handling : Handling) : List String :=
  if cacheEnabled then [cacheMark handling] else []

theorem routeOutcome_silent : routeOutcome (toLower (trimSpace "")) = [] := by decide +kernel

theorem cacheOutcome_silent : cacheOutcome (toLower (trimSpace "")) = [] := by decide +kernel

theorem routeOutcome_primary : routeOutcome (toLower (trimSpace "primary")) = [.primary] := by decide +kernel

theorem routeOutcome_fallback : routeOutcome (toLower (trimSpace "fallback")) = [.fallback] := by decide +kernel

/-- Without an upstream's response only the cache is told of. -/
theorem cacheOutcome_marks (cacheEnabled : Bool) (handling : Handling) :
    cacheOutcome (toLower (trimSpace ((marks cacheEnabled handling).headD ""))) =
      if cacheEnabled then handlingOutcome handling else [] := by
  cases cacheEnabled with
  | false =>
      rw [marks, if_neg Bool.false_ne_true, if_neg Bool.false_ne_true, List.headD_nil, cacheOutcome_silent]
  | true => exact cacheOutcome_mark handling

theorem cacheOutcome_marks_append (cacheEnabled : Bool) (handling : Handling) (upstream : Header) :
    cacheOutcome (toLower (trimSpace ((marks cacheEnabled handling ++ upstream.values headerCache).headD ""))) =
      if cacheEnabled then handlingOutcome handling
      else cacheOutcome (toLower (trimSpace (upstream.get headerCache))) := by
  cases cacheEnabled with
  | false =>
      rw [marks, if_neg Bool.false_ne_true, if_neg Bool.false_ne_true, List.nil_append, Header.get]
  | true => exact cacheOutcome_mark handling

theorem record_recordCall {cacheEnabled : Bool} {handling : Handling} {c : Call} {answer : Answer}
    (htold : c.Told (marks cacheEnabled handling)) (hphase : c.phase = .returned answer) (upstream : Header)
    (fallback : Option Nat) :
    record (recordCall c.header answer upstream fallback) =
      (Outcome.proxied handling answer upstream fallback).counters cacheEnabled := by
  have hsilent : (∀ statusCode, answer ≠ .primary statusCode) → c.header.values coremeshRouteHeader = [] :=
    fun hother => htold.silent (Call.not_relays hphase (by simpa using hother))
  unfold Outcome.counters cacheCounters
  cases answer with
  | error message statusCode =>
      rw [record_of_values ((values_httpError _ isRead_headerCache).trans htold.cache)
        ((values_httpError _ isRead_route).trans (hsilent (by simp))), cacheOutcome_marks, List.headD_nil,
        routeOutcome_silent]
      simp only [recordCall, answeredBy, proxyStatus, if_true]
  | primary statusCode =>
      have hroute : (recordCall c.header (.primary statusCode) upstream fallback).header.values coremeshRouteHeader =
          ["primary"] := by
        refine (values_copyHeader _ _).trans ?_
        rw [Header.values_del_self, htold.relayed ⟨statusCode, .inr hphase⟩]
        rfl
      have hcache : (recordCall c.header (.primary statusCode) upstream fallback).header.values headerCache =
          marks cacheEnabled handling ++ upstream.values headerCache := by
        refine (values_copyHeader _ _).trans ?_
        rw [Header.values_del_of_ne _ route_ne_cache.symm, htold.cache]
      rw [record_of_values hcache hroute, cacheOutcome_marks_append, List.headD_cons, routeOutcome_primary]
      simp only [recordCall, answeredBy, proxyStatus, reduceCtorEq, if_false]
  | fallback =>
      cases fallback with
      | none =>
          rw [record_of_values ((values_httpError _ isRead_headerCache).trans htold.cache)
            ((values_httpError _ isRead_route).trans (hsilent (by simp))), cacheOutcome_marks, List.headD_nil,
            routeOutcome_silent]
          simp only [recordCall, answeredBy, proxyStatus, if_true]
      | some statusCode =>
          have hroute : (recordCall c.header .fallback upstream (some statusCode)).header.values
              coremeshRouteHeader = ["fallback"] := by
            refine (values_copyHeader _ _).trans ?_
            rw [Header.values_set_self, hsilent (by simp)]
            rfl
          have hcache : (recordCall c.header .fallback upstream (some statusCode)).header.values headerCache =
              marks cacheEnabled handling ++ upstream.values headerCache := by
            refine (values_copyHeader _ _).trans ?_
            rw [Header.values_set_of_ne _ _ route_ne_cache.symm, htold.cache]
          rw [record_of_values hcache hroute, cacheOutcome_marks_append, List.headD_cons, routeOutcome_fallback]
          simp only [recordCall, answeredBy, proxyStatus, reduceCtorEq, if_false]

section Enter

variable (handler : Handler) (lookup : Autopilot.ExperimentLookup) (backends : Backends)
  (r : Http.Request handler.codec.Text)

/-- What becomes of a request before the proxy, and the header that the proxy is given. -/
theorem enter_cases :
    (∃ statusCode header, (handler.enter lookup backends r).1 = .served statusCode header) ∨
    (∃ outcome call, (handler.enter lookup backends r).1 = .answered outcome call ∧
      (∀ handling answer upstream fallback, outcome ≠ .proxied handling answer upstream fallback) ∧
      record call = outcome.counters handler.cacheEnabled) ∨
    ∃ handling header, handler.enter lookup backends r = (.proxying handling, header) ∧
      (∀ found, handling ≠ .hit found) ∧ Call.Told (marks handler.cacheEnabled handling) { header := header } := by
  have hread : ∀ key, IsRead key → (applyCORS handler.allowedOrigins r .empty).1.values key = [] := fun key hkey =>
    values_applyCORS .empty handler.allowedOrigins r hkey
  unfold Handler.enter
  generalize applyCORS handler.allowedOrigins r .empty = cors at hread
  obtain ⟨w, preflight⟩ := cors
  cases preflight with
  | some statusCode => exact .inl ⟨statusCode, w, rfl⟩
  | none =>
      dsimp only at hread ⊢
      by_cases hpath : r.url.path = observabilityPath
      · rw [if_pos hpath]
        split
        · exact .inl ⟨_, _, rfl⟩
        · exact .inl ⟨_, _, rfl⟩
      · rw [if_neg hpath]
        cases hrouted : Autopilot.middleware handler.sha handler.floats handler.codec handler.autopilot lookup w r with
        | none =>
            refine .inr (.inl ⟨.routingFailed, ⟨400, httpError w⟩, rfl, by simp, ?_⟩)
            rw [record_of_values ((values_httpError w isRead_headerCache).trans (hread _ isRead_headerCache))
              ((values_httpError w isRead_route).trans (hread _ isRead_route)), List.headD_nil, cacheOutcome_silent,
              routeOutcome_silent]
            rfl
        | some routed =>
            obtain ⟨w', r'⟩ := routed
            have hvalues : ∀ key, IsRead key → w'.values key = [] := fun key hkey =>
              (values_autopilot hrouted hkey).trans (hread key hkey)
            dsimp only
            split
            · next found hfound =>
                refine .inr (.inl ⟨.hit found, _, rfl, by simp, ?_⟩)
                have hroute : (hitHeader w' found).values coremeshRouteHeader = [] := by
                  rw [hitHeader, Header.values_set_of_ne _ _ (isRead_route _ (by decide)),
                    Header.values_set_of_ne _ _ route_ne_cache,
                    Header.values_ite_set_of_ne _ _ (isRead_route _ (by decide))]
                  exact hvalues _ isRead_route
                have hcache : (hitHeader w' found).values headerCache = ["hit"] := by
                  rw [hitHeader, Header.values_set_of_ne _ _ (isRead_headerCache _ (by decide)), Header.values_set_self]
                rw [record_of_values hcache hroute, List.headD_cons, List.headD_nil, routeOutcome_silent,
                  show cacheOutcome (toLower (trimSpace "hit")) = [.cacheHits] from cacheOutcome_mark (.hit found)]
                rfl
            · next handling hpassed =>
                have hlimiting : ∀ header : Header, ¬ Call.Relays { header := header } := fun header =>
                  Call.not_relays rfl (by simp)
                refine .inr (.inr ⟨_, _, rfl, hpassed, ?_, fun hrelays => absurd hrelays (hlimiting _), fun _ => ?_⟩)
                · unfold marks
                  split
                  · exact Header.values_set_self _ _ _
                  · exact hvalues _ isRead_headerCache
                · rw [Header.values_ite_set_of_ne _ _ route_ne_cache]
                  exact hvalues _ isRead_route

end Enter

/-! ### Runs -/

namespace Stage

/-- The request was passed on to the proxy. -/
def Proxied : Stage → Prop
  | proxying _ => True
  | answered (.proxied ..) _ => True
  | recorded (.proxied ..) => True
  | _ => False

/-- How the request came to its answer, once it has. -/
def outcome : Stage → Option Outcome
  | answered outcome _ => some outcome
  | recorded outcome => some outcome
  | _ => none

end Stage

def Outcome.isRoutingFailed : Outcome → Bool
  | .routingFailed => true
  | _ => false

/-- The call of the proxy is as the outcome has it: returned with the answer, or never begun. -/
def Outcome.CameAbout (c : Call) : Outcome → Prop
  | .proxied handling answer _ _ => c.phase = .returned answer ∧ ∀ found, handling ≠ .hit found
  | _ => c = {}

namespace Application

/-- How often the requests on the log add to a counter. -/
def total (cacheEnabled : Bool) (s : Application) (k : Counter) : Nat :=
  (s.log.flatMap fun entry => entry.2.counters cacheEnabled).count k

structure Inv (cacheEnabled : Bool) (s : Application) : Prop where
  counted : ∀ k, s.counters k = UInt64.ofNat (s.total cacheEnabled k)
  once : (s.log.map Prod.fst).Nodup
  logged : ∀ i outcome, (i, outcome) ∈ s.log → s.stage i = .recorded outcome
  untouched : ∀ i, ¬ (s.stage i).Proxied → s.proxy.calls i = {}
  passed : ∀ i handling, s.stage i = .proxying handling → ∀ found, handling ≠ .hit found
  told : ∀ i handling, s.stage i = .proxying handling → (s.proxy.calls i).Told (marks cacheEnabled handling)
  recording : ∀ i outcome call, s.stage i = .answered outcome call → record call = outcome.counters cacheEnabled
  cameAbout : ∀ i outcome, (s.stage i).outcome = some outcome → outcome.CameAbout (s.proxy.calls i)

theorem Inv.initial (cacheEnabled : Bool) (breaker : CircuitBreaker) : Inv cacheEnabled (initial breaker) where
  counted _ := rfl
  once := List.nodup_nil
  logged _ _ := nofun
  untouched _ _ := rfl
  passed _ _ := nofun
  told _ _ := nofun
  recording _ _ _ := nofun
  cameAbout _ _ := nofun

variable {handler : Handler} {s s' : Application}

/-- A request that is not logged can be moved to a stage that its call agrees with. -/
theorem Inv.setStage {cacheEnabled : Bool} (hinv : Inv cacheEnabled s) {i : RequestId} {stage : Stage}
    (hnew : ∀ outcome, s.stage i ≠ .recorded outcome) {proxy : Proxy}
    (hframe : ∀ j, j ≠ i → proxy.calls j = s.proxy.calls j) (huntouched : ¬ stage.Proxied → proxy.calls i = {})
    (hpassed : ∀ handling, stage = .proxying handling → ∀ found, handling ≠ .hit found)
    (htold : ∀ handling, stage = .proxying handling → (proxy.calls i).Told (marks cacheEnabled handling))
    (hrecording : ∀ outcome call, stage = .answered outcome call → record call = outcome.counters cacheEnabled)
    (hcame : ∀ outcome, stage.outcome = some outcome → outcome.CameAbout (proxy.calls i)) :
    Inv cacheEnabled { s.setStage i stage with proxy := proxy } where
  counted := hinv.counted
  once := hinv.once
  logged j outcome hmem := by
    have hold := hinv.logged j outcome hmem
    have hne : j ≠ i := fun heq => hnew outcome (heq ▸ hold)
    exact (Function.update_of_ne hne stage s.stage).trans hold
  untouched j hnot := by
    by_cases heq : j = i
    · subst heq
      exact huntouched (by simpa [Application.setStage] using hnot)
    · rw [hframe j heq]
      exact hinv.untouched j (by simpa [Application.setStage, heq] using hnot)
  passed j handling hproxying := by
    by_cases heq : j = i
    · subst heq
      exact hpassed handling (by simpa [Application.setStage] using hproxying)
    · exact hinv.passed j handling (by simpa [Application.setStage, heq] using hproxying)
  told j handling hproxying := by
    by_cases heq : j = i
    · subst heq
      exact htold handling (by simpa [Application.setStage] using hproxying)
    · rw [hframe j heq]
      exact hinv.told j handling (by simpa [Application.setStage, heq] using hproxying)
  recording j outcome call hanswered := by
    by_cases heq : j = i
    · subst heq
      exact hrecording outcome call (by simpa [Application.setStage] using hanswered)
    · exact hinv.recording j outcome call (by simpa [Application.setStage, heq] using hanswered)
  cameAbout j outcome houtcome := by
    by_cases heq : j = i
    · subst heq
      exact hcame outcome (by simpa [Application.setStage] using houtcome)
    · rw [hframe j heq]
      exact hinv.cameAbout j outcome (by simpa [Application.setStage, heq] using houtcome)

theorem proxied_recorded (outcome : Outcome) (call : RecordCall) :
    (Stage.recorded outcome).Proxied ↔ (Stage.answered outcome call).Proxied := by
  cases outcome <;> rfl

/-- An answered request is counted by how it came to its answer. -/
theorem Inv.record {cacheEnabled : Bool} (hinv : Inv cacheEnabled s) {i : RequestId} {outcome : Outcome}
    {call : RecordCall} (hanswered : s.stage i = .answered outcome call) :
    Inv cacheEnabled { s.setStage i (.recorded outcome) with
      counters := fun k => s.counters k + UInt64.ofNat ((Gateway.record call).count k)
      log := (i, outcome) :: s.log } where
  counted k := by
    change s.counters k + UInt64.ofNat ((Gateway.record call).count k) =
      UInt64.ofNat (((outcome.counters cacheEnabled) ++
        s.log.flatMap fun entry => entry.2.counters cacheEnabled).count k)
    rw [hinv.recording i outcome call hanswered, hinv.counted k, List.count_append, UInt64.ofNat_add,
      UInt64.add_comm, Application.total]
  once := by
    rw [List.map_cons, List.nodup_cons]
    refine ⟨fun hmem => ?_, hinv.once⟩
    obtain ⟨entry, hentry, hid⟩ := List.mem_map.mp hmem
    have hrecorded := hinv.logged entry.1 entry.2 hentry
    rw [hid, hanswered] at hrecorded
    cases hrecorded
  logged j outcome' hmem := by
    obtain heq | hold := List.mem_cons.mp hmem
    · obtain ⟨rfl, rfl⟩ := Prod.mk.inj heq
      exact Function.update_self ..
    · have hne : j ≠ i := by
        intro heq
        have hrecorded := hinv.logged j outcome' hold
        rw [heq, hanswered] at hrecorded
        cases hrecorded
      exact (Function.update_of_ne hne _ s.stage).trans (hinv.logged j outcome' hold)
  untouched j hnot := by
    apply hinv.untouched j
    by_cases heq : j = i
    · subst heq
      rw [hanswered, ← proxied_recorded]
      simpa [Application.setStage] using hnot
    · simpa [Application.setStage, heq] using hnot
  passed j handling hproxying := by
    by_cases heq : j = i
    · subst heq
      simp [Application.setStage] at hproxying
    · exact hinv.passed j handling (by simpa [Application.setStage, heq] using hproxying)
  told j handling hproxying := by
    by_cases heq : j = i
    · subst heq
      simp [Application.setStage] at hproxying
    · exact hinv.told j handling (by simpa [Application.setStage, heq] using hproxying)
  recording j outcome' call' hstage := by
    by_cases heq : j = i
    · subst heq
      simp [Application.setStage] at hstage
    · exact hinv.recording j outcome' call' (by simpa [Application.setStage, heq] using hstage)
  cameAbout j outcome' houtcome := by
    apply hinv.cameAbout j outcome'
    by_cases heq : j = i
    · subst heq
      rw [hanswered]
      simpa [Application.setStage, Stage.outcome] using houtcome
    · simpa [Application.setStage, heq] using houtcome

theorem Inv.next (hinv : Inv handler.cacheEnabled s) {event : ApplicationEvent handler.codec.Text}
    (hstep : s.next handler event = some s') : Inv handler.cacheEnabled s' := by
  cases event with
  | enter i lookup backends r =>
      simp only [Application.next] at hstep
      split at hstep
      · next hunseen =>
          obtain rfl := Option.some.inj hstep
          have hcall : s.proxy.calls i = {} := hinv.untouched i (by simp [hunseen, Stage.Proxied])
          obtain ⟨statusCode, header, hserved⟩ | ⟨outcome, call, hanswered, hother, hrecord⟩ |
            ⟨handling, header, hproxying, hpassed, htold⟩ := enter_cases handler lookup backends r
          · rw [Application.enter, hserved]
            exact hinv.setStage (by simp [hunseen]) (fun _ _ => rfl) (fun _ => hcall) (by simp) (by simp)
              (by simp) (by simp [Stage.outcome])
          · rw [Application.enter, hanswered]
            refine hinv.setStage (by simp [hunseen]) (fun _ _ => rfl) (fun _ => hcall) (by simp) (by simp)
              ?_ ?_
            · intro outcome' call' heq
              obtain ⟨rfl, rfl⟩ := Stage.answered.inj heq
              exact hrecord
            · intro outcome' heq
              obtain rfl := Option.some.inj heq
              cases outcome with
              | routingFailed => exact hcall
              | hit found => exact hcall
              | proxied handling answer upstream fallback => exact absurd rfl (hother _ _ _ _)
          · rw [Application.enter, hproxying]
            refine hinv.setStage (by simp [hunseen]) (fun j hne => Proxy.setCall_of_ne s.proxy _ hne)
              (fun hnot => absurd trivial hnot) ?_ ?_ (by simp) (by simp [Stage.outcome])
            · intro handling' heq
              obtain rfl := Stage.proxying.inj heq
              exact hpassed
            · intro handling' heq
              obtain rfl := Stage.proxying.inj heq
              rw [Proxy.setCall_self]
              exact htold
      · cases hstep
  | proxy event =>
      simp only [Application.next] at hstep
      split at hstep
      · next handling hproxying =>
          obtain ⟨proxy, hnext, rfl⟩ := Option.map_eq_some_iff.mp hstep
          have hsame : s.setStage event.request (.proxying handling) = s := by
            rw [Application.setStage, ← hproxying, Function.update_eq_self]
          have hmoved : Inv handler.cacheEnabled
              { s.setStage event.request (.proxying handling) with proxy := proxy } := hinv.setStage
            (by simp [hproxying]) (fun j hne => Proxy.next_frame hnext hne)
            (fun hnot => absurd trivial hnot)
            (fun handling' heq => by
              obtain rfl := Stage.proxying.inj heq
              exact hinv.passed _ _ hproxying)
            (fun handling' heq => by
              obtain rfl := Stage.proxying.inj heq
              exact Proxy.next_told hnext (hinv.told _ _ hproxying))
            (by simp) (by simp [Stage.outcome])
          rwa [hsame] at hmoved
      · cases hstep
  | answer i upstream fallback =>
      simp only [Application.next] at hstep
      split at hstep
      · next handling answer hproxying hphase =>
          obtain rfl := Option.some.inj hstep
          refine hinv.setStage (by simp [hproxying]) (fun _ _ => rfl) (fun hnot => absurd trivial hnot)
            (by simp) (by simp) ?_ ?_
          · intro outcome call heq
            obtain ⟨rfl, rfl⟩ := Stage.answered.inj heq
            exact record_recordCall (hinv.told i handling hproxying) hphase upstream fallback
          · intro outcome heq
            obtain rfl := Option.some.inj heq
            exact ⟨hphase, hinv.passed i handling hproxying⟩
      · cases hstep
  | record i =>
      simp only [Application.next] at hstep
      split at hstep
      · next outcome call hanswered =>
          obtain rfl := Option.some.inj hstep
          exact hinv.record hanswered
      · cases hstep

theorem count_statusOutcome (statusCode : Int) :
    ∀ k ∈ [Counter.requests, .cacheHits, .cacheMisses, .cacheBypasses, .primary, .fallback],
      (statusOutcome statusCode).count k = 0 := by
  have hapart : ∀ k ∈ [Counter.requests, .cacheHits, .cacheMisses, .cacheBypasses, .primary, .fallback],
      k ≠ .rateLimited ∧ k ≠ .upstreamErrors := by decide
  intro k hk
  obtain ⟨hlimited, herrors⟩ := hapart k hk
  rw [List.count_eq_zero]
  unfold statusOutcome
  split_ifs <;> simp [hlimited, herrors]

theorem count_answeredBy (answer : Answer) (fallback : Option Nat) :
    (answeredBy answer fallback).count .primary + (answeredBy answer fallback).count .fallback ≤ 1 ∧
      ∀ k, k ≠ .primary → k ≠ .fallback → (answeredBy answer fallback).count k = 0 := by
  have hone : ∀ k' : Counter, k' = .primary ∨ k' = .fallback →
      [k'].count .primary + [k'].count .fallback ≤ 1 ∧ ∀ k, k ≠ .primary → k ≠ .fallback → [k'].count k = 0 := by
    intro k' hk'
    obtain rfl | rfl := hk'
    · exact ⟨by decide, fun k hprimary _ => List.count_eq_zero.mpr (by simpa using hprimary)⟩
    · exact ⟨by decide, fun k _ hfallback => List.count_eq_zero.mpr (by simpa using hfallback)⟩
  have hnil : ([] : List Counter).count .primary + ([] : List Counter).count .fallback ≤ 1 ∧
      ∀ k : Counter, k ≠ .primary → k ≠ .fallback → ([] : List Counter).count k = 0 :=
    ⟨Nat.zero_le _, fun _ _ _ => rfl⟩
  cases answer with
  | error message statusCode => exact hnil
  | primary statusCode => exact hone .primary (.inl rfl)
  | fallback =>
      cases fallback with
      | none => exact hnil
      | some statusCode => exact hone .fallback (.inr rfl)

theorem counters_balanced {outcome : Outcome} {c : Call} (hcame : outcome.CameAbout c) :
    (outcome.counters true).count .requests = 1 ∧
    (outcome.counters true).count .cacheHits + (outcome.counters true).count .cacheMisses +
      (outcome.counters true).count .cacheBypasses + (if outcome.isRoutingFailed then 1 else 0) = 1 ∧
    (outcome.counters true).count .primary + (outcome.counters true).count .fallback ≤
      (outcome.counters true).count .cacheMisses + (outcome.counters true).count .cacheBypasses := by
  cases outcome with
  | routingFailed => decide
  | hit found =>
      have hstatus := count_statusOutcome (hitStatus found)
      simp only [List.forall_mem_cons, List.not_mem_nil, false_implies, implies_true, and_true] at hstatus
      obtain ⟨hrequests, hhits, hmisses, hbypasses, hprimary, hfallback⟩ := hstatus
      simp [Outcome.counters, Outcome.isRoutingFailed, hrequests, hhits, hmisses, hbypasses,
        hprimary, hfallback]
  | proxied handling answer upstream fallback =>
      obtain ⟨hupstream, hother⟩ := count_answeredBy answer fallback
      have hstatus := count_statusOutcome (proxyStatus answer fallback)
      simp only [List.forall_mem_cons, List.not_mem_nil, false_implies, implies_true, and_true] at hstatus
      obtain ⟨hrequests, hhits, hmisses, hbypasses, hprimary, hfallback⟩ := hstatus
      have hcounts : ∀ k, ((Outcome.proxied handling answer upstream fallback).counters true).count k =
          (handlingOutcome handling).count k + (answeredBy answer fallback).count k +
            (statusOutcome (proxyStatus answer fallback)).count k + if .requests == k then 1 else 0 := by
        intro k
        simp only [Outcome.counters, cacheCounters, if_true, List.count_cons, List.count_append]
      rw [hcounts, hcounts, hcounts, hcounts, hcounts, hcounts, hrequests, hhits, hmisses, hbypasses, hprimary,
        hfallback, hother .requests (by decide) (by decide), hother .cacheHits (by decide) (by decide),
        hother .cacheMisses (by decide) (by decide), hother .cacheBypasses (by decide) (by decide)]
      cases handling with
      | bypass => simpa [handlingOutcome, Outcome.isRoutingFailed] using hupstream
      | lookupFailed => simpa [handlingOutcome, Outcome.isRoutingFailed] using hupstream
      | hit found => exact absurd rfl (hcame.2 found)
      | miss c => simpa [handlingOutcome, Outcome.isRoutingFailed] using hupstream

theorem balanced_of_log {l : List (RequestId × Outcome)} {calls : RequestId → Call}
    (hcame : ∀ i outcome, (i, outcome) ∈ l → outcome.CameAbout (calls i)) :
    let count (k : Counter) : Nat := (l.flatMap fun entry => entry.2.counters true).count k
    count .requests = l.length ∧
      count .cacheHits + count .cacheMisses + count .cacheBypasses +
        l.countP (fun entry => entry.2.isRoutingFailed) = count .requests ∧
      count .primary + count .fallback ≤ count .cacheMisses + count .cacheBypasses := by
  induction l with
  | nil => exact ⟨rfl, rfl, Nat.le_refl _⟩
  | cons entry l ih =>
      obtain ⟨i, outcome⟩ := entry
      obtain ⟨hrequests, hcache, hupstream⟩ := counters_balanced (hcame i outcome List.mem_cons_self)
      obtain ⟨hrequests', hcache', hupstream'⟩ := ih fun j outcome hmem => hcame j outcome (List.mem_cons_of_mem _ hmem)
      simp only [List.flatMap_cons, List.count_append, List.length_cons, List.countP_cons] at *
      refine ⟨?_, ?_, ?_⟩
      · omega
      · omega
      · omega

end Application

/-- In every run, over whatever requests, clocks and upstreams: each counter holds how often it came to what it
counts; no request is counted twice; a request that was hit, or that could not be routed, has never asked the
limiter, and no preflight and no look at the counters has. With a cache the outcomes of the cache and the failures
to route add up to the requests, and no upstream has answered for a hit. -/
theorem traffic_accounted (handler : Handler) (breaker : CircuitBreaker)
    (es : List (ApplicationEvent handler.codec.Text)) (s : Application)
    (hrun : Run (Steps (Application.next handler)) (.initial breaker) es s) :
    (∀ k, s.counters k = UInt64.ofNat (s.total handler.cacheEnabled k)) ∧ (s.log.map Prod.fst).Nodup ∧
    (∀ i outcome, (i, outcome) ∈ s.log → outcome.CameAbout (s.proxy.calls i)) ∧
    (∀ i, (s.proxy.calls i).phase ≠ .limiting → (s.stage i).Proxied) ∧
    (handler.cacheEnabled = true →
      s.total true .requests = s.log.length ∧
      s.total true .cacheHits + s.total true .cacheMisses + s.total true .cacheBypasses +
        s.log.countP (fun entry => entry.2.isRoutingFailed) = s.total true .requests ∧
      s.total true .primary + s.total true .fallback ≤ s.total true .cacheMisses + s.total true .cacheBypasses) := by
  have hinv : Application.Inv handler.cacheEnabled s :=
    hrun.invariant _ (.initial handler.cacheEnabled breaker) fun s event s' hinv hstep => hinv.next hstep
  have hcame : ∀ i outcome, (i, outcome) ∈ s.log → outcome.CameAbout (s.proxy.calls i) := fun i outcome hmem =>
    hinv.cameAbout i outcome (by rw [hinv.logged i outcome hmem]; rfl)
  refine ⟨hinv.counted, hinv.once, hcame, fun i hphase => ?_, fun _ => Application.balanced_of_log hcame⟩
  by_contra hnot
  exact hphase (congrArg Call.phase (hinv.untouched i hnot))

def cachingHandler : Handler where
  allowedOrigins := ["http://localhost:5173"]
  autopilot := { enabled := false }
  cacheEnabled := true
  sha := hexSha
  floats := Autopilot.literalFloat64
  codec := parsedText

def browserRequest (method path : String) (header : Header) : Http.Request parsedText.Text where
  method := method
  url := { path := path }
  header := header.set "Origin" "http://localhost:5173"
  body := none
  contentLength := 0
  remoteAddr := "10.0.0.7:5000"

/-- A preflight, a request that the primary answers and one that is limited, while the first of these is on its way. -/
def busyEvents : List (ApplicationEvent parsedText.Text) :=
  [.enter 0 .noStore ⟨true, true, some none⟩
      (browserRequest "OPTIONS" "/v1/execute" (Header.empty.set "Access-Control-Request-Method" "POST")),
    .enter 1 .noStore ⟨true, true, some none⟩ (browserRequest "GET" "/v1/traces" .empty),
    .proxy (.allow 1 (.ok ⟨true, 99, 0⟩)), .proxy (.route 1 0),
    .enter 2 .noStore ⟨true, true, some none⟩ (browserRequest "GET" "/v1/traces" .empty),
    .proxy (.allow 2 (.ok ⟨false, 0, 1000000000⟩)), .proxy (.cloneBody 1 true),
    .answer 2 .empty none, .record 2, .proxy (.modifyResponse 1 200 1), .proxy (.finish 1),
    .answer 1 .empty none, .record 1]

theorem traffic_accounted_busy : ∃ s, Run (Steps (Application.next cachingHandler))
    (.initial (newCircuitBreaker 5 60 30)) busyEvents s ∧ s.counters .requests = 2 ∧ s.counters .cacheBypasses = 2 ∧
      s.counters .primary = 1 ∧ s.counters .rateLimited = 1 := by
  have hrun : Run (Steps (Application.next cachingHandler)) (.initial (newCircuitBreaker 5 60 30)) busyEvents _ :=
    run_iff_foldlM.mpr rfl
  obtain ⟨hcounters, -⟩ := traffic_accounted cachingHandler (newCircuitBreaker 5 60 30) busyEvents _ hrun
  refine ⟨_, hrun, ?_, ?_, ?_, ?_⟩
  · rw [hcounters]; rfl
  · rw [hcounters]; rfl
  · rw [hcounters]; rfl
  · rw [hcounters]; rfl

end CoreMesh.Gateway
