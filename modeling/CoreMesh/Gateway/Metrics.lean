import CoreMesh.Cache.Request
import CoreMesh.Gateway.ServeHTTP
import CoreMesh.Lib.AtomicCounters

/-!
# Request counters

`gatewayMetrics`: each answered request increments `requests` and then the counters of its outcome,
and a snapshot loads the counters one after the other. The cache counters are loaded before `requests`
and the outcomes of the traffic after it. The configuration, the circuit state and the times that a
snapshot also reports are left out.
-/

namespace CoreMesh.Gateway

open Transition AtomicCounters CoreMesh.Cache CoreMesh.Http

def headerCache : String := "x-coremesh-cache"

inductive Counter where
  | requests
  | cacheHits
  | cacheMisses
  | cacheBypasses
  | primary
  | fallback
  | rateLimited
  | upstreamErrors
  deriving DecidableEq, Repr

def cacheOutcome (outcome : String) : List Counter :=
  if outcome = "hit" then [.cacheHits]
  else if outcome = "miss" then [.cacheMisses]
  else if outcome = "bypass" then [.cacheBypasses]
  else []

def routeOutcome (route : String) : List Counter :=
  if route = "primary" then [.primary] else if route = "fallback" then [.fallback] else []

structure RecordCall where
  statusCode : Int
  header : Header

/-- The outcome counters `record` increments, after `requests`. -/
def RecordCall.outcomes (call : RecordCall) : List Counter :=
  cacheOutcome (toLower (trimSpace (call.header.get headerCache))) ++
    routeOutcome (toLower (trimSpace (call.header.get coremeshRouteHeader))) ++
    (if call.statusCode = 429 then [.rateLimited] else []) ++
    (if call.statusCode ≥ 500 then [.upstreamErrors] else [])

/-- `record`. -/
def record (call : RecordCall) : List Counter := .requests :: call.outcomes

/-- The loads of `snapshot`. -/
def snapshotLoads : List Counter :=
  [.cacheHits, .cacheMisses, .cacheBypasses, .requests, .primary, .fallback, .rateLimited,
    .upstreamErrors]

structure CacheSnapshot where
  enabled : Bool
  hits : UInt64
  misses : UInt64
  bypasses : UInt64
  /-- The two numbers that are divided, where there is a rate. -/
  hitRate : Option (UInt64 × UInt64)
  deriving DecidableEq, Repr

structure TrafficSnapshot where
  requests : UInt64
  primary : UInt64
  fallback : UInt64
  rateLimited : UInt64
  upstreamErrors : UInt64
  deriving DecidableEq, Repr

structure ObservabilitySnapshot where
  semanticCache : CacheSnapshot
  traffic : TrafficSnapshot
  deriving DecidableEq, Repr

/-- `snapshot`, of the values it has loaded. -/
def snapshotOf (cacheEnabled : Bool) : List UInt64 → Option ObservabilitySnapshot
  | [hits, misses, bypasses, requests, primary, fallback, rateLimited, upstreamErrors] =>
      let eligible := hits + misses
      some {
        semanticCache := {
          enabled := cacheEnabled
          hits := hits
          misses := misses
          bypasses := bypasses
          hitRate := if eligible > 0 then some (hits, eligible) else none }
        traffic := {
          requests := requests
          primary := primary
          fallback := fallback
          rateLimited := rateLimited
          upstreamErrors := upstreamErrors } }
  | _ => none

abbrev Metrics : Type := World Counter RecordCall

abbrev MetricsEvent : Type := Event Counter RecordCall

/-- A record call begins or makes its next increment, or a snapshot makes its next load. -/
abbrev Metrics.next : Metrics → MetricsEvent → Option Metrics := World.next record snapshotLoads

def Metrics.snapshot (m : Metrics) (cacheEnabled : Bool) (reader : Nat) : Option ObservabilitySnapshot :=
  snapshotOf cacheEnabled (m.loaded reader)

/-- A call counts itself before its outcomes, and no more than one outcome of a kind. -/
theorem record_counts (ks : List Counter) (hrequests : .requests ∉ ks)
    (hkind : ∀ call : RecordCall, (ks.map fun k => call.outcomes.count k).sum ≤ 1) (call : RecordCall)
    (made : Nat) :
    (ks.map fun k => ((record call).take made).count k).sum ≤ ((record call).take made).count .requests := by
  cases made with
  | zero => simp
  | succ made =>
      unfold record
      rw [List.take_succ_cons, List.count_cons_self]
      calc
        (ks.map fun k => (Counter.requests :: call.outcomes.take made).count k).sum ≤
            (ks.map fun k => call.outcomes.count k).sum := by
          apply List.sum_le_sum
          intro k hk
          rw [List.count_cons_of_ne]
          · exact (List.take_sublist made call.outcomes).count_le k
          · rintro rfl
            exact hrequests hk
        _ ≤ 1 := hkind call
        _ ≤ _ := Nat.le_add_left 1 _

theorem count_cacheOutcome (outcome : String) :
    (cacheOutcome outcome).count .cacheHits + (cacheOutcome outcome).count .cacheMisses +
        (cacheOutcome outcome).count .cacheBypasses ≤ 1 ∧
      ∀ k ∈ [.primary, .fallback, .rateLimited, .upstreamErrors], (cacheOutcome outcome).count k = 0 := by
  unfold cacheOutcome
  split_ifs <;> simp

theorem count_routeOutcome (route : String) :
    (routeOutcome route).count .primary + (routeOutcome route).count .fallback ≤ 1 ∧
      ∀ k ∈ [.cacheHits, .cacheMisses, .cacheBypasses, .rateLimited, .upstreamErrors],
        (routeOutcome route).count k = 0 := by
  unfold routeOutcome
  split_ifs <;> simp

theorem count_ite_singleton {p : Prop} [Decidable p] (k k' : Counter) :
    (if p then [k'] else []).count k = if k' = k ∧ p then 1 else 0 := by
  by_cases hp : p
  · simp [hp, List.count_singleton]
  · simp [hp]

theorem outcomes_kind (call : RecordCall) :
    call.outcomes.count .cacheHits + call.outcomes.count .cacheMisses +
        call.outcomes.count .cacheBypasses ≤ 1 ∧
      call.outcomes.count .primary + call.outcomes.count .fallback ≤ 1 ∧
      call.outcomes.count .rateLimited ≤ 1 ∧ call.outcomes.count .upstreamErrors ≤ 1 := by
  obtain ⟨hcache, hcacheOthers⟩ :=
    count_cacheOutcome (toLower (trimSpace (call.header.get headerCache)))
  obtain ⟨hroute, hrouteOthers⟩ :=
    count_routeOutcome (toLower (trimSpace (call.header.get coremeshRouteHeader)))
  unfold RecordCall.outcomes
  simp only [List.count_append, count_ite_singleton, reduceCtorEq, false_and, if_false, true_and,
    Nat.add_zero]
  simp only [List.forall_mem_cons, List.not_mem_nil, false_implies, implies_true, and_true]
    at hcacheOthers hrouteOthers
  obtain ⟨hprimary, hfallback, hlimited, herrors⟩ := hcacheOthers
  obtain ⟨hhits, hmisses, hbypasses, hlimited', herrors'⟩ := hrouteOthers
  refine ⟨?_, ?_, ?_, ?_⟩
  · omega
  · omega
  · split <;> omega
  · split <;> omega

section Snapshot

variable {es : List MetricsEvent} {m : Metrics} {cacheEnabled : Bool} {reader : Nat}
  {snap : ObservabilitySnapshot}

theorem snapshot_got (hsnap : m.snapshot cacheEnabled reader = some snap) :
    (m.loaded reader).length = snapshotLoads.length ∧
      snap.semanticCache.hits = m.got snapshotLoads reader .cacheHits ∧
      snap.semanticCache.misses = m.got snapshotLoads reader .cacheMisses ∧
      snap.semanticCache.bypasses = m.got snapshotLoads reader .cacheBypasses ∧
      snap.traffic.requests = m.got snapshotLoads reader .requests ∧
      snap.traffic.primary = m.got snapshotLoads reader .primary ∧
      snap.traffic.fallback = m.got snapshotLoads reader .fallback ∧
      snap.traffic.rateLimited = m.got snapshotLoads reader .rateLimited ∧
      snap.traffic.upstreamErrors = m.got snapshotLoads reader .upstreamErrors := by
  unfold Metrics.snapshot snapshotOf at hsnap
  split at hsnap
  · next hloaded =>
      obtain rfl := Option.some.inj hsnap
      simp only [World.got, hloaded]
      exact ⟨rfl, rfl, rfl, rfl, rfl, rfl, rfl, rfl, rfl⟩
  · cases hsnap

/-- In a run with fewer than `2 ^ 64` requests a snapshot reports no more cache outcomes than requests,
and more routed, limited or failed ones at most by the requests that were counted after it had loaded
`requests`. -/
theorem snapshot_consistent (hrun : Run (Steps Metrics.next) World.initial es m)
    (hfew : counted .requests es < 2 ^ 64) (hsnap : m.snapshot cacheEnabled reader = some snap) :
    snap.semanticCache.hits.toNat + snap.semanticCache.misses.toNat +
        snap.semanticCache.bypasses.toNat ≤ snap.traffic.requests.toNat ∧
    (∃ before between after,
      es = before ++ .load reader .requests :: (between ++ .load reader .fallback :: after) ∧
      snap.traffic.primary.toNat + snap.traffic.fallback.toNat ≤
        snap.traffic.requests.toNat + counted .requests between) ∧
    (∃ before between after,
      es = before ++ .load reader .requests :: (between ++ .load reader .rateLimited :: after) ∧
      snap.traffic.rateLimited.toNat ≤
        snap.traffic.requests.toNat + counted .requests between) ∧
    ∃ before between after,
      es = before ++ .load reader .requests :: (between ++ .load reader .upstreamErrors :: after) ∧
      snap.traffic.upstreamErrors.toNat ≤
        snap.traffic.requests.toNat + counted .requests between := by
  obtain ⟨hdone, hhits, hmisses, hbypasses, hrequests, hprimary, hfallback, hlimited, herrors⟩ :=
    snapshot_got hsnap
  rw [hhits, hmisses, hbypasses, hrequests, hprimary, hfallback, hlimited, herrors]
  refine ⟨?_, ?_, ?_, ?_⟩
  · have hcounts := record_counts [.cacheHits, .cacheMisses, .cacheBypasses] (by decide)
      fun call => by simpa [Nat.add_assoc] using (outcomes_kind call).1
    have hbound := World.early_bound hrun hdone hcounts (by decide) (by decide) hfew
    simpa [Nat.add_assoc] using hbound
  · have hcounts := record_counts [.primary, .fallback] (by decide)
      fun call => by simpa using (outcomes_kind call).2.1
    have hbound := World.late_bound hrun hdone hcounts .fallback (by decide) (by decide)
      (by decide) hfew
    simpa using hbound
  · have hcounts := record_counts [.rateLimited] (by decide)
      fun call => by simpa using (outcomes_kind call).2.2.1
    have hbound := World.late_bound hrun hdone hcounts .rateLimited (by decide) (by decide)
      (by decide) hfew
    simpa using hbound
  · have hcounts := record_counts [.upstreamErrors] (by decide)
      fun call => by simpa using (outcomes_kind call).2.2.2
    have hbound := World.late_bound hrun hdone hcounts .upstreamErrors (by decide) (by decide)
      (by decide) hfew
    simpa using hbound

end Snapshot

/-- A limited request on the primary route and a failed one on the fallback. -/
def limitedCall : RecordCall := ⟨429, Header.empty.set coremeshRouteHeader "primary"⟩

def failedCall : RecordCall := ⟨502, Header.empty.set coremeshRouteHeader "fallback"⟩

/-- Two requests that are counted while a snapshot is between its loads of `requests` and of the rest. -/
def overtakingEvents : List MetricsEvent :=
  [.load 0 .cacheHits, .load 0 .cacheMisses, .load 0 .cacheBypasses, .load 0 .requests,
    .call limitedCall, .increment 0 .requests, .increment 0 .primary, .increment 0 .rateLimited,
    .call failedCall, .increment 1 .requests, .increment 1 .fallback, .increment 1 .upstreamErrors,
    .load 0 .primary, .load 0 .fallback, .load 0 .rateLimited, .load 0 .upstreamErrors]

def overtakenSnapshot : ObservabilitySnapshot where
  semanticCache := { enabled := true, hits := 0, misses := 0, bypasses := 0, hitRate := none }
  traffic := { requests := 0, primary := 1, fallback := 1, rateLimited := 1, upstreamErrors := 1 }

theorem overtaking_run : ∃ m, Run (Steps Metrics.next) World.initial overtakingEvents m ∧
    m.snapshot true 0 = some overtakenSnapshot := by
  have hfold : (overtakingEvents.foldlM Metrics.next World.initial).bind
      (fun m => m.snapshot true 0) = some overtakenSnapshot := by decide +kernel
  obtain ⟨m, hm, hsnap⟩ := Option.bind_eq_some_iff.mp hfold
  exact ⟨m, run_iff_foldlM.mpr hm, hsnap⟩

/-- A snapshot that reports more routed, limited and failed requests than requests. -/
theorem snapshot_overtaken : ∃ m snap, Run (Steps Metrics.next) World.initial overtakingEvents m ∧
    m.snapshot true 0 = some snap ∧
    snap.traffic.requests.toNat < snap.traffic.primary.toNat + snap.traffic.fallback.toNat ∧
    snap.traffic.requests.toNat < snap.traffic.rateLimited.toNat ∧
    snap.traffic.requests.toNat < snap.traffic.upstreamErrors.toNat := by
  obtain ⟨m, hrun, hsnap⟩ := overtaking_run
  exact ⟨m, overtakenSnapshot, hrun, hsnap, by decide, by decide, by decide⟩

/-- Its two routed requests were both counted after the load of `requests`. -/
theorem snapshot_consistent_overtaken : ∃ before between after,
    overtakingEvents = before ++ .load 0 .requests :: (between ++ .load 0 .fallback :: after) ∧
    2 ≤ counted .requests between := by
  obtain ⟨m, hrun, hsnap⟩ := overtaking_run
  obtain ⟨before, between, after, hes, hbound⟩ :=
    (snapshot_consistent hrun (by decide) hsnap).2.1
  refine ⟨before, between, after, hes, ?_⟩
  simpa [overtakenSnapshot] using hbound

end CoreMesh.Gateway
