import CoreMesh.Gateway.ServeHTTP

/-!
# Outcomes match routes, except after an unreadable body

Each call that `Route` sent to primary records one outcome, and an outcome frees the half-open slot
whatever the breaker's state. The one way out without an outcome is `ServeHTTP`'s return when
`cloneWithReplayableBody` fails, and then a probe's slot stays taken until its timeout.
-/

namespace CoreMesh.Gateway

open Transition

/-- Moves of a call that touch neither the breaker nor its own bookkeeping. -/
inductive QuietMove (i : RequestId) : ProxyEvent → Phase → Phase → Prop where
  | denied (limit : Except String LimitResult) (answer : Answer) :
      QuietMove i (.allow i limit) .limiting (.returned answer)
  | admitted (limit : Except String LimitResult) : QuietMove i (.allow i limit) .limiting .routing
  | readable : QuietMove i (.cloneBody i true) .reading .forwarding
  | unreadable : QuietMove i (.cloneBody i false) .reading (.returned bodyUnreadable)
  | replays (err : Option Nat) : QuietMove i (.decideFallback i) (.recovering err) .onFallback
  | givesUp (err : Option Nat) :
      QuietMove i (.decideFallback i) (.recovering err) (.returned (primaryErrorAnswer err))
  | relayed (statusCode : Nat) :
      QuietMove i (.finish i) (.relaying statusCode) (.returned (.primary statusCode))
  | fellBack : QuietMove i (.finish i) .onFallback (.returned .fallback)

namespace Call

/-- What a call has done by each point: it chose primary before it can record, and records once. -/
def Ok (c : Call) : Prop :=
  match c.phase with
  | .limiting | .routing => c.route = none ∧ c.records = 0
  | .reading | .forwarding => c.ChosePrimary ∧ c.records = 0
  | .recovering _ | .relaying _ => c.ChosePrimary ∧ c.records = 1
  | .onFallback => c.route ≠ none ∧ (c.ChosePrimary → c.records = 1)
  | .returned _ => c.ChosePrimary → c.records ≤ 1

/-- The call was sent to primary and returned without recording an outcome. -/
def Leaked (c : Call) : Prop :=
  (∃ answer, c.phase = .returned answer) ∧ c.ChosePrimary ∧ c.records = 0

theorem not_chosePrimary_of_none {c : Call} (hnone : c.route = none) : ¬ c.ChosePrimary := by
  rintro ⟨decision, hsome, _⟩
  rw [hnone] at hsome
  cases hsome

theorem Ok.move {c : Call} (hok : c.Ok) {i : RequestId} {e : ProxyEvent} {phase : Phase}
    (header : Http.Header) (hmove : QuietMove i e c.phase phase) :
    { c with phase := phase, header := header }.Ok := by
  have hphase : ∀ p, c.phase = p → { c with phase := p }.Ok := fun p h => by rwa [← h]
  generalize hold : c.phase = old at hmove
  cases hmove with
  | denied _ _ => exact fun hchose => absurd hchose (not_chosePrimary_of_none (hphase _ hold).1)
  | admitted _ => exact hphase _ hold
  | readable => exact hphase _ hold
  | unreadable => exact fun _ => (hphase _ hold).2 ▸ Nat.zero_le 1
  | replays _ =>
      obtain ⟨⟨decision, hroute, _⟩, hrecords⟩ := hphase _ hold
      exact ⟨by simp [show c.route = some decision from hroute], fun _ => hrecords⟩
  | givesUp _ => exact fun _ => Nat.le_of_eq (hphase _ hold).2
  | relayed _ => exact fun _ => Nat.le_of_eq (hphase _ hold).2
  | fellBack => exact fun hchose => Nat.le_of_eq ((hphase _ hold).2 hchose)

theorem not_leaked_of_phase {c : Call} (hphase : ∀ answer, c.phase ≠ .returned answer) :
    ¬ c.Leaked := fun hleaked => hleaked.1.elim hphase

/-- Among the quiet moves only the failed body read turns a call into a leaked one. -/
theorem leaked_move {c : Call} (hok : c.Ok) {i : RequestId} {e : ProxyEvent} {phase : Phase}
    (header : Http.Header) (hmove : QuietMove i e c.phase phase) :
    { c with phase := phase, header := header }.Leaked ↔ e = .cloneBody i false := by
  have hphase : ∀ p, c.phase = p → { c with phase := p }.Ok := fun p h => by rwa [← h]
  generalize hold : c.phase = old at hmove
  cases hmove with
  | denied _ _ =>
      have hnone : c.route = none := (hphase _ hold).1
      exact iff_of_false (fun hleaked => not_chosePrimary_of_none hnone hleaked.2.1) (by simp)
  | admitted _ => exact iff_of_false (not_leaked_of_phase (by simp)) (by simp)
  | readable => exact iff_of_false (not_leaked_of_phase (by simp)) (by simp)
  | unreadable => exact iff_of_true ⟨⟨_, rfl⟩, hphase _ hold⟩ rfl
  | replays _ => exact iff_of_false (not_leaked_of_phase (by simp)) (by simp)
  | givesUp _ =>
      have hrecords : c.records = 1 := (hphase _ hold).2
      exact iff_of_false (fun hleaked => by simpa [hrecords] using hleaked.2.2) (by simp)
  | relayed _ =>
      have hrecords : c.records = 1 := (hphase _ hold).2
      exact iff_of_false (fun hleaked => by simpa [hrecords] using hleaked.2.2) (by simp)
  | fellBack =>
      refine iff_of_false (fun hleaked => ?_) (by simp)
      have hrecords : c.records = 1 := (hphase _ hold).2 hleaked.2.1
      exact absurd hleaked.2.2 (by simp [hrecords])

end Call

theorem QuietMove.not_returned {i : RequestId} {e : ProxyEvent} {old phase : Phase}
    (hmove : QuietMove i e old phase) (answer : Answer) : old ≠ .returned answer := by
  cases hmove <;> simp

theorem QuietMove.call_eq {i j : RequestId} {readable : Bool} {old phase : Phase}
    (hmove : QuietMove i (.cloneBody j readable) old phase) : i = j := by
  cases hmove <;> rfl

namespace Proxy

/-- What a step did. `next` is not unfolded past this lemma. -/
theorem next_cases {s s' : Proxy} {e : ProxyEvent} (hstep : s.next e = some s') :
    (∃ i phase header, QuietMove i e (s.calls i).phase phase ∧
      s' = s.setCall i { s.calls i with phase := phase, header := header }) ∨
    (∃ i now, e = .route i now ∧ (s.calls i).phase = .routing ∧ s' = s.route i now) ∨
    (∃ i statusCode now, e = .modifyResponse i statusCode now ∧ (s.calls i).phase = .forwarding ∧
      s' = s.modifyResponse i statusCode now) ∨
    (∃ i now, e = .transportError i now ∧ (s.calls i).phase = .forwarding ∧
      s' = s.transportError i now) := by
  cases e with
  | allow i limit =>
      simp only [next] at hstep
      split at hstep
      · rename_i hphase
        obtain rfl := Option.some.inj hstep
        cases limit with
        | error err =>
            refine .inl ⟨i, .returned (.error "rate limiter unavailable" 503), _, ?_, rfl⟩
            exact hphase ▸ .denied _ _
        | ok limit =>
            simp only [allow]
            split
            · refine .inl ⟨i, .returned (.error "too many requests" 429), _, ?_, rfl⟩
              exact hphase ▸ .denied _ _
            · refine .inl ⟨i, .routing, _, ?_, rfl⟩
              exact hphase ▸ .admitted _
      · cases hstep
  | route i now =>
      simp only [next] at hstep
      split at hstep
      · rename_i hphase
        exact .inr (.inl ⟨i, now, rfl, hphase, (Option.some.inj hstep).symm⟩)
      · cases hstep
  | cloneBody i readable =>
      simp only [next] at hstep
      split at hstep
      · rename_i hphase
        obtain rfl := Option.some.inj hstep
        cases readable with
        | true => exact .inl ⟨i, _, _, hphase ▸ .readable, rfl⟩
        | false => exact .inl ⟨i, _, _, hphase ▸ .unreadable, rfl⟩
      · cases hstep
  | modifyResponse i statusCode now =>
      simp only [next] at hstep
      split at hstep
      · rename_i hphase
        exact .inr (.inr (.inl ⟨i, statusCode, now, rfl, hphase, (Option.some.inj hstep).symm⟩))
      · cases hstep
  | transportError i now =>
      simp only [next] at hstep
      split at hstep
      · rename_i hphase
        exact .inr (.inr (.inr ⟨i, now, rfl, hphase, (Option.some.inj hstep).symm⟩))
      · cases hstep
  | decideFallback i =>
      simp only [next] at hstep
      split at hstep
      · rename_i err hphase
        obtain rfl := Option.some.inj hstep
        cases hopen : s.breaker.useFallbackAfterPrimaryError with
        | true => exact .inl ⟨i, _, _, hphase ▸ .replays err, rfl⟩
        | false => exact .inl ⟨i, _, _, hphase ▸ .givesUp err, rfl⟩
      · cases hstep
  | finish i =>
      simp only [next] at hstep
      split at hstep
      · rename_i statusCode hphase
        exact .inl ⟨i, _, _, hphase ▸ .relayed statusCode, (Option.some.inj hstep).symm⟩
      · rename_i hphase
        exact .inl ⟨i, _, _, hphase ▸ .fellBack, (Option.some.inj hstep).symm⟩
      · cases hstep

theorem record_spec {s : Proxy} {i : RequestId} {breaker : CircuitBreaker} {c : Call}
    (hfree : breaker.halfOpenInFlight = false) (hrecords : c.records = 0)
    (hok : Call.Ok { c with records := c.records + 1 }) (hgoes : ∀ answer, c.phase ≠ .returned answer) :
    (s.record i breaker c).breaker.halfOpenInFlight = false ∧ (s.record i breaker c).probeOwner = none ∧
      ((s.record i breaker c).calls i).Ok ∧
      (∀ answer, ((s.record i breaker c).calls i).phase ≠ .returned answer) ∧
      ((s.record i breaker c).calls i).records = 1 ∧
      ∀ j, j ≠ i → (s.record i breaker c).calls j = s.calls j := by
  unfold record
  refine ⟨hfree, by simp [hfree], ?_, ?_, ?_, fun j hj => setCall_of_ne _ _ hj⟩
  · rw [setCall_self]
    exact hok
  · intro answer
    rw [setCall_self]
    exact hgoes answer
  · simp [hrecords]

/-- Both outcome steps record: they leave a free slot behind and count one more for their call. -/
theorem record_cases {s s' : Proxy} {i : RequestId} (hslot : s.breaker.SlotIdle)
    (hphase : (s.calls i).phase = .forwarding) (hok : (s.calls i).Ok)
    (hrecord : (∃ statusCode now, s' = s.modifyResponse i statusCode now) ∨
      (∃ now, s' = s.transportError i now)) :
    s'.breaker.halfOpenInFlight = false ∧ s'.probeOwner = none ∧ (s'.calls i).Ok ∧
      (∀ answer, (s'.calls i).phase ≠ .returned answer) ∧ (s'.calls i).records = 1 ∧
      ∀ j, j ≠ i → s'.calls j = s.calls j := by
  have hsuccess := fun now => hslot.recordSuccess_free now
  have hfailure := fun now => hslot.recordFailure_free now
  obtain ⟨hprimary, hrecords⟩ : (s.calls i).ChosePrimary ∧ (s.calls i).records = 0 := by
    simpa only [Call.Ok, hphase] using hok
  have hcounted : (s.calls i).records + 1 = 1 := by rw [hrecords]
  rcases hrecord with ⟨statusCode, now, rfl⟩ | ⟨now, rfl⟩
  · unfold modifyResponse
    split
    · exact record_spec (hfailure now) hrecords ⟨hprimary, hcounted⟩ (by simp)
    · exact record_spec (hsuccess now) hrecords ⟨hprimary, hcounted⟩ (by simp)
  · exact record_spec (hfailure now) hrecords ⟨hprimary, hcounted⟩ (by simp)

/-- The slot's owner chose primary and has not recorded yet, so recording and owning exclude each
other. -/
structure Inv (s : Proxy) : Prop where
  slot : s.breaker.SlotIdle
  call : ∀ i, (s.calls i).Ok
  owner : ∀ i, s.probeOwner = some i → (s.calls i).ChosePrimary ∧ (s.calls i).records = 0
  inFlight : s.breaker.halfOpenInFlight = true → s.probeOwner ≠ none

theorem Inv.initial {breaker : CircuitBreaker} (hslot : breaker.SlotIdle)
    (hfree : breaker.halfOpenInFlight = false) : (initial breaker).Inv where
  slot := hslot
  call := fun _ => ⟨rfl, rfl⟩
  owner := fun _ howner => by simp [Proxy.initial] at howner
  inFlight := fun hflight => by simp [Proxy.initial, hfree] at hflight

theorem Inv.quiet {s : Proxy} (hinv : s.Inv) {i : RequestId} {e : ProxyEvent} {phase : Phase}
    (header : Http.Header) (hmove : QuietMove i e (s.calls i).phase phase) :
    (s.setCall i { s.calls i with phase := phase, header := header }).Inv where
  slot := hinv.slot
  call := by
    intro j
    by_cases hj : j = i
    · subst j
      rw [setCall_self]
      exact (hinv.call i).move header hmove
    · rw [setCall_of_ne _ _ hj]
      exact hinv.call j
  owner := by
    intro j howner
    by_cases hj : j = i
    · subst j
      rw [setCall_self]
      exact hinv.owner i howner
    · rw [setCall_of_ne _ _ hj]
      exact hinv.owner j howner
  inFlight := hinv.inFlight

theorem Inv.route {s : Proxy} (hinv : s.Inv) {i : RequestId} (now : Int)
    (hphase : (s.calls i).phase = .routing) : (s.route i now).Inv := by
  have hbefore : (s.calls i).route = none ∧ (s.calls i).records = 0 := by
    simpa only [Call.Ok, hphase] using hinv.call i
  have hself : ((s.route i now).calls i).Ok ∧
      (((s.breaker.route now).1.useFallback = false → ((s.route i now).calls i).ChosePrimary) ∧
        ((s.route i now).calls i).records = 0) := by
    simp only [Proxy.route, setCall_self]
    refine ⟨?_, fun hprimary => ⟨_, rfl, hprimary⟩, hbefore.2⟩
    cases hfallback : (s.breaker.route now).1.useFallback with
    | true =>
        refine ⟨by simp, fun ⟨decision, hroute, hprimary⟩ => ?_⟩
        obtain rfl := Option.some.inj hroute
        rw [hfallback] at hprimary
        cases hprimary
    | false => exact ⟨⟨_, rfl, hfallback⟩, hbefore.2⟩
  have hothers : ∀ j, j ≠ i → (s.route i now).calls j = s.calls j := fun j hj =>
    setCall_of_ne _ _ hj
  have howner : (s.route i now).probeOwner
      = if (s.breaker.route now).1.admitsProbe then some i else s.probeOwner := rfl
  refine ⟨hinv.slot.route now, fun j => ?_, fun j hj => ?_, fun hflight => ?_⟩
  · by_cases hj : j = i
    · exact hj ▸ hself.1
    · rw [hothers j hj]
      exact hinv.call j
  · rw [howner] at hj
    split at hj
    · rename_i hadmits
      obtain rfl := Option.some.inj hj
      simp only [RouteDecision.admitsProbe, Bool.and_eq_true, Bool.not_eq_true'] at hadmits
      exact ⟨hself.2.1 hadmits.1, hself.2.2⟩
    · have hne : j ≠ i := by
        intro h
        subst h
        exact Call.not_chosePrimary_of_none hbefore.1 (hinv.owner _ hj).1
      rw [hothers j hne]
      exact hinv.owner j hj
  · rw [howner]
    cases hadmits : (s.breaker.route now).1.admitsProbe with
    | true => simp
    | false =>
        have hsame := CircuitBreaker.route_eq_of_not_admits hadmits
        refine hinv.inFlight ?_
        rw [← hsame]
        exact hflight

theorem Inv.record {s s' : Proxy} (hinv : s.Inv) {i : RequestId}
    (hphase : (s.calls i).phase = .forwarding)
    (hrecord : (∃ statusCode now, s' = s.modifyResponse i statusCode now) ∨
      (∃ now, s' = s.transportError i now)) : s'.Inv := by
  obtain ⟨hfree, hnone, hok, _, _, hothers⟩ :=
    record_cases hinv.slot hphase (hinv.call i) hrecord
  refine ⟨fun _ => hfree, fun j => ?_, fun j hj => ?_, fun hflight => ?_⟩
  · by_cases hj : j = i
    · exact hj ▸ hok
    · rw [hothers j hj]
      exact hinv.call j
  · rw [hnone] at hj
    cases hj
  · rw [hfree] at hflight
    cases hflight

theorem Inv.next {s s' : Proxy} {e : ProxyEvent} (hinv : s.Inv) (hstep : s.next e = some s') :
    s'.Inv := by
  rcases next_cases hstep with ⟨i, phase, header, hmove, rfl⟩ | ⟨i, now, _, hphase, rfl⟩ |
    ⟨i, statusCode, now, _, hphase, heq⟩ | ⟨i, now, _, hphase, heq⟩
  · exact hinv.quiet header hmove
  · exact hinv.route now hphase
  · exact hinv.record hphase (.inl ⟨statusCode, now, heq⟩)
  · exact hinv.record hphase (.inr ⟨now, heq⟩)

/-! ### Which calls leak -/

theorem leaked_next {s s' : Proxy} {e : ProxyEvent} (hinv : s.Inv) (hstep : s.next e = some s')
    (j : RequestId) :
    (s'.calls j).Leaked ↔ (s.calls j).Leaked ∨ .cloneBody j false = e := by
  -- A call other than the one that moved keeps its bookkeeping, and the event is not its own.
  have hother : s'.calls j = s.calls j → e ≠ .cloneBody j false →
      ((s'.calls j).Leaked ↔ (s.calls j).Leaked ∨ .cloneBody j false = e) := fun hsame hne => by
    simp [hsame, hne.symm]
  -- Neither before nor after a breaker method has the call that made it returned.
  have hinside : (∀ answer, (s.calls j).phase ≠ .returned answer) →
      (∀ answer, (s'.calls j).phase ≠ .returned answer) → e ≠ .cloneBody j false →
      ((s'.calls j).Leaked ↔ (s.calls j).Leaked ∨ .cloneBody j false = e) :=
    fun hbefore hafter hne => iff_of_false (Call.not_leaked_of_phase hafter)
      (not_or_intro (Call.not_leaked_of_phase hbefore) (fun h => hne h.symm))
  rcases next_cases hstep with ⟨i, phase, header, hmove, rfl⟩ | ⟨i, now, rfl, hphase, rfl⟩ |
    ⟨i, statusCode, now, rfl, hphase, heq⟩ | ⟨i, now, rfl, hphase, heq⟩
  · by_cases hj : j = i
    · subst j
      rw [setCall_self, Call.leaked_move (hinv.call i) header hmove]
      have hnot := Call.not_leaked_of_phase hmove.not_returned
      simp only [hnot, false_or, eq_comm]
    · refine hother (setCall_of_ne _ _ hj) fun h => hj ?_
      subst h
      exact hmove.call_eq.symm
  · by_cases hj : j = i
    · subst j
      refine hinside (by simp [hphase]) (fun answer => ?_) (by simp)
      simp only [Proxy.route, setCall_self]
      split <;> simp
    · exact hother (setCall_of_ne _ _ hj) (by simp)
  · obtain ⟨_, _, _, hafter, _, hothers⟩ :=
      record_cases hinv.slot hphase (hinv.call i) (.inl ⟨statusCode, now, heq⟩)
    by_cases hj : j = i
    · subst j
      exact hinside (by simp [hphase]) hafter (by simp)
    · exact hother (hothers j hj) (by simp)
  · obtain ⟨_, _, _, hafter, _, hothers⟩ :=
      record_cases hinv.slot hphase (hinv.call i) (.inr ⟨now, heq⟩)
    by_cases hj : j = i
    · subst j
      exact hinside (by simp [hphase]) hafter (by simp)
    · exact hother (hothers j hj) (by simp)

theorem leaked_iff_unreadable {breaker : CircuitBreaker} (hslot : breaker.SlotIdle)
    (hfree : breaker.halfOpenInFlight = false) {es : List ProxyEvent} {s : Proxy}
    (hrun : Run (Steps Proxy.next) (Proxy.initial breaker) es s) :
    s.Inv ∧ ∀ i, (s.calls i).Leaked ↔ .cloneBody i false ∈ es := by
  refine hrun.history_invariant
    (fun es s => s.Inv ∧ ∀ i, (s.calls i).Leaked ↔ .cloneBody i false ∈ es)
    ⟨Inv.initial hslot hfree, fun i => ?_⟩ fun es s e s' _ hist hstep => ?_
  · simp [Call.Leaked, Proxy.initial]
  · obtain ⟨hinv, hleaked⟩ := hist
    refine ⟨hinv.next hstep, fun j => ?_⟩
    rw [List.mem_append, ← hleaked j, List.mem_singleton]
    exact leaked_next hinv hstep j

/-- Every call that returned after choosing primary recorded one outcome and left no slot taken. -/
def OutcomesMatched (s : Proxy) : Prop :=
  ∀ i answer, (s.calls i).phase = .returned answer → (s.calls i).ChosePrimary →
    (s.calls i).records = 1 ∧ s.probeOwner ≠ some i

/-- Outcomes match routes in a run exactly when no body read failed in it. -/
theorem outcomesMatched_iff_bodies_readable (threshold failureWindow openDuration : Int)
    {es : List ProxyEvent} {s : Proxy}
    (hrun : Run (Steps Proxy.next)
      (Proxy.initial (newCircuitBreaker threshold failureWindow openDuration)) es s) :
    s.OutcomesMatched ↔ ∀ i, .cloneBody i false ∉ es := by
  obtain ⟨hinv, hleaked⟩ :=
    leaked_iff_unreadable (CircuitBreaker.newCircuitBreaker_slotIdle _ _ _) rfl hrun
  constructor
  · intro hmatched i hfailed
    obtain ⟨⟨answer, hphase⟩, hchose, hnone⟩ := (hleaked i).mpr hfailed
    have hone := (hmatched i answer hphase hchose).1
    omega
  · intro hreadable i answer hphase hchose
    have hle : (s.calls i).records ≤ 1 := by
      have hok := hinv.call i
      simp only [Call.Ok, hphase] at hok
      exact hok hchose
    have hne : (s.calls i).records ≠ 0 := fun hnone =>
      hreadable i ((hleaked i).mp ⟨⟨answer, hphase⟩, hchose, hnone⟩)
    exact ⟨by omega, fun howner => hne (hinv.owner i howner).2⟩

/-- A probe whose round trip fails reopens the circuit and is replayed on the fallback. -/
theorem outcomesMatched_iff_bodies_readable_replayed :
    ∃ s : Proxy, s.OutcomesMatched ∧ (s.calls 0).phase = .returned .fallback := by
  have hrun : ∃ s, Run (Steps Proxy.next) (Proxy.initial (newCircuitBreaker 1 10 5))
      [.allow 0 (.ok ⟨true, 9, 0⟩), .route 0 1, .cloneBody 0 true, .transportError 0 2,
        .decideFallback 0, .finish 0] s ∧ (s.calls 0).phase = .returned .fallback :=
    ⟨_, run_iff_foldlM.mpr rfl, rfl⟩
  obtain ⟨s, hrun, hanswer⟩ := hrun
  exact ⟨s, (outcomesMatched_iff_bodies_readable 1 10 5 hrun).mpr (by simp), hanswer⟩

/-- A half-open probe whose body cannot be read answers 400 and keeps the slot. -/
theorem not_outcomesMatched_of_unreadable_probe :
    ¬ ∀ (threshold failureWindow openDuration : Int) (es : List ProxyEvent) (s : Proxy),
      Run (Steps Proxy.next)
        (Proxy.initial (newCircuitBreaker threshold failureWindow openDuration)) es s →
      s.OutcomesMatched := by
  intro hclaim
  have hmatched := hclaim 1 10 5
    [.allow 0 (.ok ⟨true, 9, 0⟩), .route 0 1, .cloneBody 0 true, .transportError 0 2,
      .decideFallback 0, .finish 0, .allow 1 (.ok ⟨true, 8, 0⟩), .route 1 8, .cloneBody 1 false]
    _ (run_iff_foldlM.mpr rfl)
  have hslot := (hmatched 1 bodyUnreadable rfl ⟨_, rfl, rfl⟩).2
  exact hslot rfl

/-! ### The calls are attempts

Forgetting limiter answers, bodies and relaying, a run of `ServeHTTP` calls is a run of attempts on
the same breaker. A leaked call is an attempt that stays outstanding. -/

/-- The breaker method an event calls. -/
def attempt : ProxyEvent → Option AttemptEvent
  | .route i now => some (.route i now)
  | .modifyResponse i statusCode now =>
      some (if statusCode ≥ 500 then .recordFailure i now else .recordSuccess i now)
  | .transportError i now => some (.recordFailure i now)
  | _ => none

theorem attempt_quiet {i : RequestId} {e : ProxyEvent} {old phase : Phase}
    (hmove : QuietMove i e old phase) : attempt e = none := by
  cases hmove <;> rfl

structure Refines (s : Proxy) (a : Attempts) : Prop where
  inv : s.Inv
  attempts : a.Inv
  breaker : a.breaker = s.breaker
  routed : ∀ i, i ∈ a.routed ↔ (s.calls i).route ≠ none
  outstanding : ∀ i, i ∈ a.outstanding ↔ (s.calls i).ChosePrimary ∧ (s.calls i).records = 0

theorem Refines.initial {breaker : CircuitBreaker} (hslot : breaker.SlotIdle)
    (hfree : breaker.halfOpenInFlight = false) :
    Refines (initial breaker) (Attempts.initial breaker) where
  inv := .initial hslot hfree
  attempts := .initial
  breaker := rfl
  routed := fun _ => by simp [Proxy.initial, Attempts.initial]
  outstanding := fun _ => by simp [Proxy.initial, Attempts.initial, Call.ChosePrimary]

theorem Refines.quiet {s : Proxy} {a : Attempts} (hrel : Refines s a) {i : RequestId}
    {e : ProxyEvent} {phase : Phase} (header : Http.Header)
    (hmove : QuietMove i e (s.calls i).phase phase) :
    Refines (s.setCall i { s.calls i with phase := phase, header := header }) a := by
  refine ⟨hrel.inv.quiet header hmove, hrel.attempts, hrel.breaker, fun j => ?_, fun j => ?_⟩
  · rw [hrel.routed j]
    by_cases hj : j = i
    · rw [hj, setCall_self]
    · rw [setCall_of_ne _ _ hj]
  · rw [hrel.outstanding j]
    by_cases hj : j = i
    · rw [hj, setCall_self]
      rfl
    · rw [setCall_of_ne _ _ hj]

theorem Refines.route {s : Proxy} {a : Attempts} (hrel : Refines s a) {i : RequestId} (now : Int)
    (hphase : (s.calls i).phase = .routing) :
    a.next (.route i now) = some (a.route i now) ∧ Refines (s.route i now) (a.route i now) := by
  have hbefore : (s.calls i).route = none ∧ (s.calls i).records = 0 := by
    simpa only [Call.Ok, hphase] using hrel.inv.call i
  have hfresh : i ∉ a.routed := fun hmem => (hrel.routed i).mp hmem hbefore.1
  refine ⟨if_neg hfresh, hrel.inv.route now hphase, hrel.attempts.route now hfresh, ?_, ?_, ?_⟩
  · simp only [Attempts.route, Proxy.route, hrel.breaker]
    rfl
  · intro j
    have hcons : j ∈ (a.route i now).routed ↔ j = i ∨ j ∈ a.routed := by
      simp only [Attempts.route, List.mem_cons]
    rw [hcons, hrel.routed j]
    by_cases hj : j = i
    · subst j
      simp [Proxy.route]
    · have hsame : (s.route i now).calls j = s.calls j := setCall_of_ne _ _ hj
      simp [hj, hsame]
  · intro j
    have hout : j ∈ (a.route i now).outstanding ↔
        ((s.breaker.route now).1.useFallback = false ∧ j = i) ∨ j ∈ a.outstanding := by
      simp only [Attempts.route, hrel.breaker]
      cases (s.breaker.route now).1.useFallback <;> simp
    rw [hout, hrel.outstanding j]
    by_cases hj : j = i
    · subst j
      have hnot := Call.not_chosePrimary_of_none hbefore.1
      have hself : ((s.route i now).calls i).ChosePrimary ↔
          (s.breaker.route now).1.useFallback = false := by
        simp [Call.ChosePrimary, Proxy.route]
      have hrecords : ((s.route i now).calls i).records = 0 := by
        simp [Proxy.route, hbefore.2]
      simp [hself, hrecords, hnot]
    · have hsame : (s.route i now).calls j = s.calls j := setCall_of_ne _ _ hj
      simp [hj, hsame]

theorem Refines.record {s s' : Proxy} {a : Attempts} (hrel : Refines s a) {i : RequestId}
    (hphase : (s.calls i).phase = .forwarding)
    (hrecord : (∃ statusCode now, s' = s.modifyResponse i statusCode now) ∨
      (∃ now, s' = s.transportError i now)) (hroute : (s'.calls i).route = (s.calls i).route)
    {f : AttemptEvent} {a' : Attempts} (hnext : a.next f = some a')
    (ha' : a' = { a with breaker := s'.breaker, outstanding := a.outstanding.erase i }) :
    Refines s' a' := by
  obtain ⟨_, _, _, _, hone, hothers⟩ := record_cases hrel.inv.slot hphase (hrel.inv.call i) hrecord
  refine ⟨hrel.inv.record hphase hrecord, hrel.attempts.next hnext, by rw [ha'], fun j => ?_,
    fun j => ?_⟩
  · have hsame : (s'.calls j).route = (s.calls j).route := by
      by_cases hj : j = i
      · rw [hj, hroute]
      · rw [hothers j hj]
    rw [ha', hsame]
    exact hrel.routed j
  · rw [ha', show j ∈ a.outstanding.erase i ↔ j ≠ i ∧ j ∈ a.outstanding from
      hrel.attempts.nodup.mem_erase_iff, hrel.outstanding j]
    by_cases hj : j = i
    · subst j
      simp [hone]
    · simp [hj, hothers j hj]

theorem forwarding_outstanding {s : Proxy} {a : Attempts} (hrel : Refines s a) {i : RequestId}
    (hphase : (s.calls i).phase = .forwarding) : i ∈ a.outstanding := by
  refine (hrel.outstanding i).mpr ?_
  simpa only [Call.Ok, hphase] using hrel.inv.call i

theorem Refines.simulation :
    Simulation (Steps Proxy.next) (Steps Attempts.next) Refines attempt where
  stutter := by
    intro s a e s' hrel hstep hlabel
    rcases next_cases hstep with ⟨i, phase, header, hmove, rfl⟩ | ⟨i, now, rfl, _⟩ |
      ⟨i, statusCode, now, rfl, _⟩ | ⟨i, now, rfl, _⟩
    · exact hrel.quiet header hmove
    · cases hlabel
    · cases hlabel
    · cases hlabel
  follow := by
    intro s a e f s' hrel hstep hlabel
    rcases next_cases hstep with ⟨i, phase, header, hmove, rfl⟩ | ⟨i, now, rfl, hphase, rfl⟩ |
      ⟨i, statusCode, now, rfl, hphase, heq⟩ | ⟨i, now, rfl, hphase, heq⟩
    · rw [attempt_quiet hmove] at hlabel
      cases hlabel
    · obtain rfl := Option.some.inj hlabel
      exact ⟨_, hrel.route now hphase⟩
    · have hout := forwarding_outstanding hrel hphase
      obtain rfl := Option.some.inj hlabel
      refine ⟨{ a with breaker := s'.breaker, outstanding := a.outstanding.erase i }, ?_⟩
      have hnext : a.next (if statusCode ≥ 500 then .recordFailure i now else .recordSuccess i now)
          = some { a with breaker := s'.breaker, outstanding := a.outstanding.erase i } := by
        subst heq
        unfold modifyResponse Proxy.record
        split <;> simp [Attempts.next, hout, hrel.breaker]
      refine ⟨hnext, hrel.record hphase (.inl ⟨statusCode, now, heq⟩) ?_ hnext rfl⟩
      subst heq
      unfold modifyResponse Proxy.record
      split <;> simp
    · have hout := forwarding_outstanding hrel hphase
      obtain rfl := Option.some.inj hlabel
      refine ⟨{ a with breaker := s'.breaker, outstanding := a.outstanding.erase i }, ?_⟩
      have hnext : a.next (.recordFailure i now)
          = some { a with breaker := s'.breaker, outstanding := a.outstanding.erase i } := by
        subst heq
        simp [Attempts.next, hout, hrel.breaker, transportError, Proxy.record]
      refine ⟨hnext, hrel.record hphase (.inr ⟨now, heq⟩) ?_ hnext rfl⟩
      subst heq
      simp [transportError, Proxy.record]

/-- The breaker of any run of `ServeHTTP` calls is the breaker of its run of attempts. -/
theorem refines_attempts {breaker : CircuitBreaker} (hslot : breaker.SlotIdle)
    (hfree : breaker.halfOpenInFlight = false) {es : List ProxyEvent} {s : Proxy}
    (hrun : Run (Steps Proxy.next) (initial breaker) es s) :
    ∃ a, Run (Steps Attempts.next) (Attempts.initial breaker) (es.filterMap attempt) a ∧ Refines s a :=
  Refines.simulation.run (.initial hslot hfree) hrun

end Proxy

/-- Three calls of `ServeHTTP`: request 0 is overtaken by the probe of request 2, which is the one to
report. -/
theorem Attempts.probeAttributed_iff_noLateSuccess_overtaken :
    let es : List ProxyEvent :=
      [.allow 0 (.ok ⟨true, 9, 0⟩), .allow 1 (.ok ⟨true, 8, 0⟩), .route 0 1, .route 1 1,
        .cloneBody 0 true, .cloneBody 1 true, .transportError 1 2, .decideFallback 1, .finish 1,
        .allow 2 (.ok ⟨true, 7, 0⟩), .route 2 8, .cloneBody 2 true, .modifyResponse 2 200 9]
    (∃ s, Run (Steps Proxy.next) (Proxy.initial (newCircuitBreaker 1 10 5)) es s ∧
      s.breaker.state = .circuitClosed) ∧
    (Attempts.ProbeAttributed (initial (newCircuitBreaker 1 10 5)) (es.filterMap Proxy.attempt) ↔
      Attempts.NoLateSuccess (initial (newCircuitBreaker 1 10 5)) (es.filterMap Proxy.attempt)) := by
  intro es
  have hrun : ∃ s, Run (Steps Proxy.next) (Proxy.initial (newCircuitBreaker 1 10 5)) es s ∧
      s.breaker.state = .circuitClosed := ⟨_, run_iff_foldlM.mpr rfl, rfl⟩
  obtain ⟨s, hs, hclosed⟩ := hrun
  have hslot := CircuitBreaker.newCircuitBreaker_slotIdle 1 10 5
  obtain ⟨a, hattempts, _⟩ := Proxy.refines_attempts hslot rfl hs
  exact ⟨⟨s, hs, hclosed⟩, probeAttributed_iff_noLateSuccess _ hattempts⟩

end CoreMesh.Gateway
