import CoreMesh.Gateway.ProbeSlot

/-!
# The request that opens the circuit

`ErrorHandler` records a failure and then asks whether the circuit is open. Between the two any other
call may get in, so a request that opened the circuit goes to the fallback exactly if the circuit is
open again by then, after every `Route` that found it open for the whole open duration.
-/

namespace CoreMesh.Gateway

open Transition

namespace Proxy

/-- An event by which a call records a failure. -/
inductive FailureOf (i : RequestId) : ProxyEvent → Prop where
  | serverError (statusCode : Nat) (now : Int) (herror : 500 ≤ statusCode) :
      FailureOf i (.modifyResponse i statusCode now)
  | transportError (now : Int) : FailureOf i (.transportError i now)

/-- The step takes the circuit to open. -/
structure Opens (s : Proxy) (e : ProxyEvent) (s' : Proxy) : Prop where
  step : s.next e = some s'
  before : s.breaker.state ≠ .circuitOpen
  after : s'.breaker.state = .circuitOpen

/-- A `Route` at this time finds the circuit open for as long as it is configured to be. -/
def Lapsed (s : Proxy) (now : Int) : Prop :=
  s.breaker.state = .circuitOpen ∧ s.breaker.openedAt + s.breaker.openDuration ≤ now

/-- Among the events, each `Route` that finds the circuit lapsed is followed by one that opens it. -/
def Reopened (init : Proxy) (es : List ProxyEvent) : Prop :=
  ∀ before i now rest s, es = before ++ .route i now :: rest → Run (Steps next) init before s →
    s.Lapsed now →
    ∃ between e after t t', rest = between ++ e :: after ∧
      Run (Steps next) s (.route i now :: between) t ∧ Opens t e t'

/-! ### Steps in an open circuit -/

/-- An open circuit stays open but for a `Route` that finds it lapsed. -/
theorem open_next_iff {s s' : Proxy} {e : ProxyEvent} (hslot : s.breaker.SlotIdle)
    (hstep : s.next e = some s') (hopen : s.breaker.state = .circuitOpen) :
    s'.breaker.state = .circuitOpen ↔ ∀ i now, e = .route i now → ¬ s.Lapsed now := by
  have hfailure : ∀ now, (s.breaker.recordFailure now).state = .circuitOpen := by
    intro now
    rcases CircuitBreaker.recordFailure_cases s.breaker now with ⟨-, heq⟩ | ⟨hne, -⟩
    · rw [heq]
      exact hopen
    · exact absurd hopen hne
  have hsuccess : ∀ now, (s.breaker.recordSuccess now).state = .circuitOpen := by
    intro now
    rw [CircuitBreaker.recordSuccess_state, if_neg (by simp [hopen])]
    exact hopen
  rcases next_cases hstep with ⟨i, phase, header, hmove, rfl⟩ | ⟨i, now, rfl, -, rfl⟩ |
    ⟨i, statusCode, now, rfl, -, rfl⟩ | ⟨i, now, rfl, -, rfl⟩
  · refine iff_of_true hopen ?_
    rintro j now rfl
    cases hmove
  · have hfree : s.breaker.halfOpenInFlight = false := hslot (by simp [hopen])
    have hbreaker : (s.route i now).breaker = (s.breaker.route now).2 := rfl
    rw [hbreaker]
    by_cases hdue : now - s.breaker.openedAt ≥ s.breaker.openDuration ∧
        s.breaker.halfOpenInFlight = false
    · have hroute : s.breaker.route now = ({ state := .circuitHalfOpen }, s.breaker.startProbe now) := by
        simp only [CircuitBreaker.route, hopen, if_pos hdue]
      rw [hroute]
      refine iff_of_false (by simp [CircuitBreaker.startProbe]) fun hnone => ?_
      exact hnone i now rfl ⟨hopen, by omega⟩
    · have hroute : (s.breaker.route now).2 = s.breaker := by
        simp only [CircuitBreaker.route, hopen, if_neg hdue]
      rw [hroute]
      refine iff_of_true hopen ?_
      rintro j now' heq ⟨-, hlapsed⟩
      obtain ⟨rfl, rfl⟩ := ProxyEvent.route.inj heq
      exact hdue ⟨by omega, hfree⟩
  · refine iff_of_true ?_ (by rintro j now' ⟨⟩)
    unfold modifyResponse
    dsimp only
    split
    · exact hfailure now
    · exact hsuccess now
  · exact iff_of_true (hfailure now) (by rintro j now' ⟨⟩)

theorem inv_run {init s : Proxy} {es : List ProxyEvent} (hinv : init.Inv)
    (hrun : Run (Steps next) init es s) : s.Inv :=
  hrun.invariant Inv hinv fun _ _ _ hinv hstep => hinv.next hstep

theorem run_unique {init s s' : Proxy} {es : List ProxyEvent} (hrun : Run (Steps next) init es s)
    (hrun' : Run (Steps next) init es s') : s = s' :=
  hrun.end_unique (fun _ _ _ _ h₁ h₂ => Option.some.inj (h₁.symm.trans h₂)) hrun'

/-- After events from an open circuit it is open exactly if it was opened again after each lapse. -/
theorem open_run_iff {init s : Proxy} {es : List ProxyEvent} (hinv : init.Inv)
    (hopen : init.breaker.state = .circuitOpen) (hrun : Run (Steps next) init es s) :
    s.breaker.state = .circuitOpen ↔ Reopened init es := by
  induction hrun with
  | start =>
      refine iff_of_true hopen ?_
      intro before i now rest s heq
      exact absurd heq.symm (by simp)
  | @snoc es s s' e hes hstep ih =>
      have hslot : s.breaker.SlotIdle := (inv_run hinv hes).slot
      constructor
      · intro hopen' before i now rest t heq hbefore hlapsed
        rcases snoc_eq_append_cons heq with ⟨rfl, rfl, rfl⟩ | ⟨rest, rfl, rfl⟩
        · -- The last event is a `Route` that leaves the circuit open.
          obtain rfl := run_unique hes hbefore
          exact absurd hlapsed ((open_next_iff hslot hstep hlapsed.1).mp hopen' i now rfl)
        · by_cases hwas : s.breaker.state = .circuitOpen
          · obtain ⟨between, e', after, u, u', rfl, hrun, hopens⟩ :=
              ih.mp hwas before i now rest t rfl hbefore hlapsed
            exact ⟨between, e', after ++ [e], u, u', by simp, hrun, hopens⟩
          · obtain ⟨t', ht', hrest⟩ := hes.split
            obtain rfl := run_unique hbefore ht'
            exact ⟨rest, e, [], s, s', by simp, hrest, hstep, hwas, hopen'⟩
      · intro hreopened
        by_contra hclosed
        by_cases hwas : s.breaker.state = .circuitOpen
        · have hroute := mt (open_next_iff hslot hstep hwas).mpr hclosed
          push Not at hroute
          obtain ⟨i, now, rfl, hlapsed⟩ := hroute
          obtain ⟨between, e', after, -, -, hnil, -⟩ := hreopened es i now [] s rfl hes hlapsed
          exact absurd hnil (by simp)
        · apply hwas
          apply ih.mpr
          intro before i now rest t heq hbefore hlapsed
          obtain ⟨between, e', after, u, u', hrest, hrun, hopens⟩ :=
            hreopened before i now (rest ++ [e]) t (by simp [heq]) hbefore hlapsed
          rcases snoc_eq_append_cons hrest with ⟨rfl, rfl, rfl⟩ | ⟨after, rfl, rfl⟩
          · -- The last event would have opened the circuit.
            have hall : Run (Steps next) init es u := by
              rw [heq]
              exact hbefore.append hrun
            obtain rfl := run_unique hes hall
            obtain rfl := Option.some.inj (hstep.symm.trans hopens.step)
            exact absurd hopens.after hclosed
          · exact ⟨between, e', after, u, u', rfl, hrun, hopens⟩

theorem decideFallback_iff {s s' : Proxy} {i : RequestId}
    (hstep : s.next (.decideFallback i) = some s') :
    (s'.calls i).phase = .onFallback ↔ s.breaker.state = .circuitOpen := by
  simp only [next] at hstep
  split at hstep
  · obtain rfl := Option.some.inj hstep
    rw [setCall_self]
    cases hstate : s.breaker.state <;>
      simp [CircuitBreaker.useFallbackAfterPrimaryError, hstate]
  · cases hstep

/-- A request whose failure opened the circuit is replayed on the fallback exactly if the circuit was
opened again after each lapse until the request looked. -/
theorem opener_replayed_iff (threshold failureWindow openDuration : Int) (i : RequestId)
    (before between : List ProxyEvent) (e : ProxyEvent) (s s₁ s₂ s₃ : Proxy)
    (hbefore : Run (Steps next) (initial (newCircuitBreaker threshold failureWindow openDuration))
      before s) (hfailure : FailureOf i e ∧ Opens s e s₁) (hbetween : Run (Steps next) s₁ between s₂)
    (hdecides : s₂.next (.decideFallback i) = some s₃) :
    (s₃.calls i).phase = .onFallback ↔ Reopened s₁ between := by
  have hinv : s₁.Inv :=
    (inv_run (Inv.initial (CircuitBreaker.newCircuitBreaker_slotIdle _ _ _) rfl) hbefore).next
      hfailure.2.step
  rw [decideFallback_iff hdecides]
  exact open_run_iff hinv hfailure.2.after hbetween

/-- While another request is only routed to the fallback, the opener is replayed. -/
theorem opener_replayed_iff_quick : ∃ s₁ s₃ : Proxy,
    ((s₃.calls 0).phase = .onFallback ↔
      Reopened s₁ [.allow 1 (.ok ⟨true, 8, 0⟩), .route 1 3]) := by
  obtain ⟨s, s₁, s₂, s₃, hbefore, hopens, hbetween, hdecides⟩ : ∃ s s₁ s₂ s₃ : Proxy,
      Run (Steps next) (initial (newCircuitBreaker 1 10 5))
        [.allow 0 (.ok ⟨true, 9, 0⟩), .route 0 1, .cloneBody 0 true] s ∧
      Opens s (.transportError 0 2) s₁ ∧
      Run (Steps next) s₁ [.allow 1 (.ok ⟨true, 8, 0⟩), .route 1 3] s₂ ∧
      s₂.next (.decideFallback 0) = some s₃ :=
    ⟨_, _, _, _, run_iff_foldlM.mpr rfl, ⟨rfl, by decide, rfl⟩, run_iff_foldlM.mpr rfl, rfl⟩
  exact ⟨s₁, s₃, opener_replayed_iff 1 10 5 0 _ _ _ s s₁ s₂ s₃ hbefore
    ⟨.transportError 2, hopens⟩ hbetween hdecides⟩

/-- Another request becomes the probe before the opener looks, which then answers an error. -/
theorem not_replayed_of_probe : ∃ s s₁ s₂ s₃ : Proxy,
    Run (Steps next) (initial (newCircuitBreaker 1 10 5))
      [.allow 0 (.ok ⟨true, 9, 0⟩), .route 0 1, .cloneBody 0 true, .allow 1 (.ok ⟨true, 8, 0⟩)] s ∧
    FailureOf 0 (.transportError 0 2) ∧ Opens s (.transportError 0 2) s₁ ∧
    Run (Steps next) s₁ [.route 1 8] s₂ ∧ s₂.next (.decideFallback 0) = some s₃ ∧
    (s₃.calls 0).phase = .returned (.error "primary upstream unavailable" 502) :=
  ⟨_, _, _, _, run_iff_foldlM.mpr rfl, .transportError 2, ⟨rfl, by decide, rfl⟩,
    run_iff_foldlM.mpr rfl, rfl, rfl⟩

end Proxy

end CoreMesh.Gateway
