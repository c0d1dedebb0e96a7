import CoreMesh.Lib.Transition
import CoreMesh.Gateway.Breaker

/-!
# Attempts on the primary upstream

The breaker as its callers use it: each request makes one `Route` call and, when that chose primary,
one later `RecordSuccess` or `RecordFailure`. The outcome carries no trace of the `Route` it belongs
to, so the state here remembers what the breaker does not: which requests are still out, which one
holds the slot as the current probe, and which were already out when that probe was admitted.
-/

namespace CoreMesh.Gateway

open Transition

abbrev RequestId := Nat

inductive AttemptEvent where
  | route (request : RequestId) (now : Int)
  | recordSuccess (request : RequestId) (now : Int)
  | recordFailure (request : RequestId) (now : Int)
  deriving DecidableEq, Repr

def AttemptEvent.time : AttemptEvent → Int
  | .route _ now | .recordSuccess _ now | .recordFailure _ now => now

structure Attempts where
  breaker : CircuitBreaker
  /-- Requests that have made their `Route` call. -/
  routed : List RequestId
  /-- Requests routed to primary whose outcome is not recorded yet. -/
  outstanding : List RequestId
  /-- The request `Route` last admitted as a half-open probe. -/
  probe : Option RequestId
  /-- Requests that were outstanding when that probe was admitted. -/
  overtaken : List RequestId
  deriving DecidableEq, Repr

namespace Attempts

/-- No request has been routed yet. -/
def initial (breaker : CircuitBreaker) : Attempts where
  breaker := breaker
  routed := []
  outstanding := []
  probe := none
  overtaken := []

def route (s : Attempts) (request : RequestId) (now : Int) : Attempts :=
  let (decision, breaker) := s.breaker.route now
  { breaker := breaker
    routed := request :: s.routed
    outstanding := if decision.useFallback then s.outstanding else request :: s.outstanding
    probe := if decision.admitsProbe then some request else s.probe
    overtaken := if decision.admitsProbe then s.outstanding else s.overtaken }

/-- A request is routed once, and records an outcome only while it is outstanding. -/
def next (s : Attempts) : AttemptEvent → Option Attempts
  | .route request now => if request ∈ s.routed then none else some (s.route request now)
  | .recordSuccess request now =>
      if request ∈ s.outstanding then
        some { s with breaker := s.breaker.recordSuccess now
                      outstanding := s.outstanding.erase request }
      else none
  | .recordFailure request now =>
      if request ∈ s.outstanding then
        some { s with breaker := s.breaker.recordFailure now
                      outstanding := s.outstanding.erase request }
      else none

/-- What a step did. `next` is not unfolded past this lemma. -/
theorem next_cases {s s' : Attempts} {e : AttemptEvent} (hstep : s.next e = some s') :
    (∃ request now, e = .route request now ∧ request ∉ s.routed ∧ s' = s.route request now) ∨
    (∃ request now, e = .recordSuccess request now ∧ request ∈ s.outstanding ∧
      s' = { s with breaker := s.breaker.recordSuccess now
                    outstanding := s.outstanding.erase request }) ∨
    (∃ request now, e = .recordFailure request now ∧ request ∈ s.outstanding ∧
      s' = { s with breaker := s.breaker.recordFailure now
                    outstanding := s.outstanding.erase request }) := by
  cases e with
  | route request now =>
      simp only [next] at hstep
      split at hstep
      · cases hstep
      · rename_i hfresh
        exact .inl ⟨request, now, rfl, hfresh, (Option.some.inj hstep).symm⟩
  | recordSuccess request now =>
      simp only [next] at hstep
      split at hstep
      · rename_i hout
        exact .inr (.inl ⟨request, now, rfl, hout, (Option.some.inj hstep).symm⟩)
      · cases hstep
  | recordFailure request now =>
      simp only [next] at hstep
      split at hstep
      · rename_i hout
        exact .inr (.inr ⟨request, now, rfl, hout, (Option.some.inj hstep).symm⟩)
      · cases hstep

theorem route_cases (s : Attempts) (request : RequestId) (now : Int) :
    (s.breaker.state = .circuitClosed ∧ s.route request now =
      { s with routed := request :: s.routed, outstanding := request :: s.outstanding }) ∨
    (s.route request now =
      { breaker := s.breaker.startProbe now
        routed := request :: s.routed
        outstanding := request :: s.outstanding
        probe := some request
        overtaken := s.outstanding }) ∨
    (s.route request now = { s with routed := request :: s.routed }) := by
  rcases CircuitBreaker.route_cases s.breaker now with ⟨hclosed, hroute⟩ | ⟨_, hroute⟩ | ⟨_, hroute⟩
  · exact .inl ⟨hclosed, by simp [route, hroute, RouteDecision.admitsProbe]⟩
  · exact .inr (.inl (by simp [route, hroute, RouteDecision.admitsProbe]))
  · exact .inr (.inr (by simp [route, hroute, RouteDecision.admitsProbe]))

/-- In a half-open circuit every outstanding request is the current probe or was overtaken by it. -/
structure Inv (s : Attempts) : Prop where
  routed : ∀ r ∈ s.outstanding, r ∈ s.routed
  nodup : s.outstanding.Nodup
  overtaken : ∀ r ∈ s.overtaken, r ∈ s.routed ∧ s.probe ≠ some r
  halfOpen : s.breaker.state = .circuitHalfOpen →
    ∀ r ∈ s.outstanding, s.probe = some r ∨ r ∈ s.overtaken

theorem Inv.initial {breaker : CircuitBreaker} : (initial breaker).Inv where
  routed := by simp [Attempts.initial]
  nodup := by simp [Attempts.initial]
  overtaken := by simp [Attempts.initial]
  halfOpen := by simp [Attempts.initial]

theorem Inv.route {s : Attempts} (hinv : s.Inv) {request : RequestId} (now : Int)
    (hfresh : request ∉ s.routed) : (s.route request now).Inv := by
  have hnew : request ∉ s.outstanding := fun hout => hfresh (hinv.routed _ hout)
  rcases route_cases s request now with ⟨hclosed, heq⟩ | heq | heq <;> rw [heq]
  · refine ⟨?_, List.nodup_cons.mpr ⟨hnew, hinv.nodup⟩, ?_, ?_⟩
    · intro r hr
      exact (List.mem_cons.mp hr).elim (fun h => h ▸ List.mem_cons_self)
        (fun h => List.mem_cons_of_mem _ (hinv.routed r h))
    · exact fun r hr => ⟨List.mem_cons_of_mem _ (hinv.overtaken r hr).1, (hinv.overtaken r hr).2⟩
    · intro hhalf
      rw [hclosed] at hhalf
      cases hhalf
  · refine ⟨?_, List.nodup_cons.mpr ⟨hnew, hinv.nodup⟩, ?_, ?_⟩
    · intro r hr
      exact (List.mem_cons.mp hr).elim (fun h => h ▸ List.mem_cons_self)
        (fun h => List.mem_cons_of_mem _ (hinv.routed r h))
    · intro r hr
      refine ⟨List.mem_cons_of_mem _ (hinv.routed r hr), fun hprobe => hnew ?_⟩
      rwa [Option.some.inj hprobe]
    · exact fun _ r hr => (List.mem_cons.mp hr).imp (fun h => by rw [h]) id
  · exact ⟨fun r hr => List.mem_cons_of_mem _ (hinv.routed r hr), hinv.nodup,
      fun r hr => ⟨List.mem_cons_of_mem _ (hinv.overtaken r hr).1, (hinv.overtaken r hr).2⟩,
      hinv.halfOpen⟩

/-- Recording an outcome keeps the invariant: it cannot make the circuit half-open. -/
theorem Inv.record {s : Attempts} (hinv : s.Inv) (request : RequestId) (breaker : CircuitBreaker)
    (hstate : breaker.state = .circuitHalfOpen → s.breaker.state = .circuitHalfOpen) :
    { s with breaker := breaker, outstanding := s.outstanding.erase request }.Inv where
  routed := fun r hr => hinv.routed r (List.mem_of_mem_erase hr)
  nodup := hinv.nodup.erase request
  overtaken := hinv.overtaken
  halfOpen := fun hhalf r hr => hinv.halfOpen (hstate hhalf) r (List.mem_of_mem_erase hr)

theorem Inv.next {s s' : Attempts} {e : AttemptEvent} (hinv : s.Inv) (hstep : s.next e = some s') :
    s'.Inv := by
  rcases next_cases hstep with ⟨request, now, _, hfresh, rfl⟩ | ⟨request, now, _, _, rfl⟩ |
    ⟨request, now, _, _, rfl⟩
  · exact hinv.route now hfresh
  · refine hinv.record request _ fun hhalf => ?_
    rw [CircuitBreaker.recordSuccess_state] at hhalf
    split at hhalf
    · cases hhalf
    · exact hhalf
  · refine hinv.record request _ fun hhalf => ?_
    rcases CircuitBreaker.recordFailure_cases s.breaker now with ⟨_, heq⟩ | ⟨_, hopen, _⟩
    · rwa [heq] at hhalf
    · rw [hopen] at hhalf
      cases hhalf

theorem Inv.run {breaker : CircuitBreaker} {es : List AttemptEvent} {s : Attempts}
    (hrun : Run (Steps Attempts.next) (Attempts.initial breaker) es s) : s.Inv :=
  hrun.invariant Inv Inv.initial fun _ _ _ hinv hstep => hinv.next hstep

/-! ### Who closes a half-open circuit -/

/-- Along the events, every step from half-open to closed is the success of the current probe. -/
def ProbeAttributed (init : Attempts) (es : List AttemptEvent) : Prop :=
  ∀ before e rest s s', es = before ++ e :: rest → Run (Steps next) init before s →
    s.next e = some s' → s.breaker.state = .circuitHalfOpen → s'.breaker.state = .circuitClosed →
    ∃ request now, e = .recordSuccess request now ∧ s.probe = some request

/-- Along the events, no success recorded in a half-open circuit comes from a request that was
already outstanding when the current probe was admitted. -/
def NoLateSuccess (init : Attempts) (es : List AttemptEvent) : Prop :=
  ∀ before request now rest s, es = before ++ .recordSuccess request now :: rest →
    Run (Steps next) init before s → s.breaker.state = .circuitHalfOpen → request ∉ s.overtaken

theorem closed_of_halfOpen {s s' : Attempts} {e : AttemptEvent} (hstep : s.next e = some s')
    (hhalf : s.breaker.state = .circuitHalfOpen) (hclosed : s'.breaker.state = .circuitClosed) :
    ∃ request now, e = .recordSuccess request now ∧ request ∈ s.outstanding := by
  rcases next_cases hstep with ⟨request, now, _, _, rfl⟩ | ⟨request, now, he, hout, _⟩ |
    ⟨request, now, _, _, rfl⟩
  · rcases route_cases s request now with ⟨hstart, _⟩ | heq | heq
    · rw [hstart] at hhalf
      cases hhalf
    · rw [heq] at hclosed
      cases hclosed
    · rw [heq] at hclosed
      rw [hhalf] at hclosed
      cases hclosed
  · exact ⟨request, now, he, hout⟩
  · rcases CircuitBreaker.recordFailure_cases s.breaker now with ⟨hstate, _⟩ | ⟨_, hopen, _⟩
    · exact absurd hhalf hstate
    · rw [hopen] at hclosed
      cases hclosed

/-- The breaker closes a half-open circuit only on its current probe's success exactly when no
request the probe overtook reports a success while the circuit is half-open. -/
theorem probeAttributed_iff_noLateSuccess (breaker : CircuitBreaker) {es : List AttemptEvent}
    {s : Attempts} (hrun : Run (Steps next) (initial breaker) es s) :
    ProbeAttributed (initial breaker) es ↔ NoLateSuccess (initial breaker) es := by
  constructor
  · intro hattributed before request now rest s heq hbefore hhalf hlate
    rw [heq] at hrun
    obtain ⟨s₁, s₂, hbefore₁, hstep, _⟩ := hrun.at_event
    obtain rfl := hbefore.end_unique (fun _ _ _ _ h₁ h₂ => Option.some.inj (h₁.symm.trans h₂)) hbefore₁
    have hclosed : s₂.breaker.state = .circuitClosed := by
      rcases next_cases hstep with ⟨_, _, he, _⟩ | ⟨_, _, he, _, rfl⟩ | ⟨_, _, he, _⟩
      · cases he
      · simp only [CircuitBreaker.recordSuccess_state, if_pos hhalf]
      · cases he
    obtain ⟨_, _, he, hprobe⟩ := hattributed _ _ _ _ _ heq hbefore hstep hhalf hclosed
    cases he
    exact ((Inv.run hbefore).overtaken request hlate).2 hprobe
  · intro hnoLate before e rest s s' heq hbefore hstep hhalf hclosed
    obtain ⟨request, now, rfl, hout⟩ := closed_of_halfOpen hstep hhalf hclosed
    refine ⟨request, now, rfl, ?_⟩
    rcases (Inv.run hbefore).halfOpen hhalf request hout with hprobe | hlate
    · exact hprobe
    · exact absurd hlate (hnoLate _ _ _ _ _ heq hbefore hhalf)

/-- The circuit opens under request 0, which then closes it while request 2 is the probe. -/
theorem not_probeAttributed_of_late_success :
    ¬ ∀ (threshold failureWindow openDuration : Int) (es : List AttemptEvent) (s : Attempts),
      Run (Steps next) (initial (newCircuitBreaker threshold failureWindow openDuration)) es s →
      (es.map AttemptEvent.time).Pairwise (· ≤ ·) →
      ProbeAttributed (initial (newCircuitBreaker threshold failureWindow openDuration)) es := by
  intro hclaim
  obtain ⟨request, now, he, hprobe⟩ := hclaim 1 10 5
    [.route 0 1, .route 1 1, .recordFailure 1 2, .route 2 8, .recordSuccess 0 9] _
    (run_iff_foldlM.mpr rfl) (by decide)
    [.route 0 1, .route 1 1, .recordFailure 1 2, .route 2 8] (.recordSuccess 0 9) [] _ _ rfl
    (run_iff_foldlM.mpr rfl) rfl rfl rfl
  cases he
  exact absurd hprobe (by decide)

end Attempts

end CoreMesh.Gateway
