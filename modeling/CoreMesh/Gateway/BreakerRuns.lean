import CoreMesh.Gateway.Breaker
import Mathlib.Data.List.Induction

/-!
# What holds over every sequence of breaker calls

Calls take effect one at a time, in the order they get the mutex, so a run is a list of calls and the
state after it is a fold. Two safety facts: an open circuit sends nothing to primary before its open
duration is over, counted from the failure that opened it; and half-open probes do not overlap until
the older one has timed out.
-/

namespace CoreMesh.Gateway

inductive BreakerCall where
  | route (now : Int)
  | recordSuccess (now : Int)
  | recordFailure (now : Int)
  deriving DecidableEq, Repr

namespace BreakerCall

def time : BreakerCall → Int
  | .route now | .recordSuccess now | .recordFailure now => now

/-- The call records an outcome of a primary attempt. -/
def isOutcome : BreakerCall → Bool
  | .route _ => false
  | .recordSuccess _ | .recordFailure _ => true

end BreakerCall

namespace CircuitBreaker

def call (b : CircuitBreaker) : BreakerCall → CircuitBreaker
  | .route now => (b.route now).2
  | .recordSuccess now => b.recordSuccess now
  | .recordFailure now => b.recordFailure now

/-- The breaker after the calls, oldest first. -/
def after (b : CircuitBreaker) (calls : List BreakerCall) : CircuitBreaker :=
  calls.foldl call b

@[simp] theorem after_nil (b : CircuitBreaker) : b.after [] = b := rfl

@[simp] theorem after_append (b : CircuitBreaker) (before calls : List BreakerCall) :
    b.after (before ++ calls) = (b.after before).after calls :=
  List.foldl_append

@[simp] theorem after_cons (b : CircuitBreaker) (c : BreakerCall) (calls : List BreakerCall) :
    b.after (c :: calls) = (b.call c).after calls := rfl

@[simp] theorem settings_call (b : CircuitBreaker) (c : BreakerCall) :
    (b.call c).settings = b.settings := by
  cases c <;> simp [call]

@[simp] theorem settings_after (b : CircuitBreaker) (calls : List BreakerCall) :
    (b.after calls).settings = b.settings := by
  induction calls generalizing b with
  | nil => rfl
  | cons c calls ih => rw [after_cons, ih, settings_call]

theorem openDuration_after (b : CircuitBreaker) (calls : List BreakerCall) :
    (b.after calls).openDuration = b.openDuration :=
  congrArg (fun values => values.2.2.1) (settings_after b calls)

theorem halfOpenProbeTimeout_after (b : CircuitBreaker) (calls : List BreakerCall) :
    (b.after calls).halfOpenProbeTimeout = b.halfOpenProbeTimeout :=
  congrArg (fun values => values.2.2.2) (settings_after b calls)

/-! ### While the circuit is open -/

/-- `OpenSince b calls t`: the failure recorded at `t` opened the circuit, which has been open after
every call since. -/
def OpenSince (b : CircuitBreaker) (calls : List BreakerCall) (t : Int) : Prop :=
  ∃ before since, calls = before ++ .recordFailure t :: since ∧
    (b.after before).state ≠ .circuitOpen ∧
    ∀ n ≤ since.length,
      (b.after (before ++ .recordFailure t :: since.take n)).state = .circuitOpen

/-- Only a recorded failure opens a circuit, and a call that leaves it open leaves `openedAt`. -/
theorem open_after_call {b : CircuitBreaker} {c : BreakerCall}
    (hopen : (b.call c).state = .circuitOpen) :
    (b.state = .circuitOpen ∧ (b.call c).openedAt = b.openedAt) ∨
      (b.state ≠ .circuitOpen ∧ c = .recordFailure (b.call c).openedAt) := by
  cases c with
  | route now =>
      simp only [call] at hopen ⊢
      rcases route_cases b now with ⟨_, hroute⟩ | ⟨_, hroute⟩ | ⟨_, hroute⟩ <;>
        rw [hroute] at hopen ⊢
      · exact .inl ⟨hopen, rfl⟩
      · exact absurd hopen (by simp [startProbe])
      · exact .inl ⟨hopen, rfl⟩
  | recordSuccess now =>
      simp only [call, recordSuccess] at hopen ⊢
      split at hopen
      · simp at hopen
      · rename_i hstate
        exact .inl ⟨hopen, by rw [if_neg hstate]⟩
  | recordFailure now =>
      simp only [call] at hopen ⊢
      rcases recordFailure_cases b now with ⟨_, heq⟩ | ⟨hstate, _, hat, _⟩
      · rw [heq] at hopen ⊢
        exact .inl ⟨hopen, rfl⟩
      · exact .inr ⟨hstate, by rw [hat]⟩

theorem openSince_openedAt {b : CircuitBreaker} (hclosed : b.state ≠ .circuitOpen)
    (calls : List BreakerCall) (hopen : (b.after calls).state = .circuitOpen) :
    b.OpenSince calls (b.after calls).openedAt := by
  induction calls using List.reverseRecOn with
  | nil => exact absurd hopen hclosed
  | append_singleton calls c ih =>
      simp only [after_append, after_cons, after_nil] at hopen ⊢
      rcases open_after_call hopen with ⟨hbefore, hat⟩ | ⟨hbefore, hcall⟩
      · obtain ⟨before, since, heq, hstart, hsince⟩ := ih hbefore
        rw [hat]
        have hall : before ++ .recordFailure (b.after calls).openedAt :: (since ++ [c])
            = calls ++ [c] := by
          rw [← List.cons_append, ← List.append_assoc, ← heq]
        refine ⟨before, since ++ [c], hall.symm, hstart, fun n hn => ?_⟩
        rcases Nat.lt_or_ge since.length n with hlong | hshort
        · rw [List.take_of_length_le (by simp; omega), hall]
          simpa using hopen
        · rw [List.take_append_of_le_length hshort]
          exact hsince n hshort
      · refine ⟨calls, [], by rw [← hcall], hbefore, fun n _ => ?_⟩
        rw [List.take_nil, ← hcall]
        simpa using hopen

/-! ### While a probe is out -/

/-- `Route(now)` after the calls admits a half-open probe. -/
def AdmitsAfter (b : CircuitBreaker) (calls : List BreakerCall) (now : Int) : Prop :=
  ((b.after calls).route now).1.admitsProbe = true

instance (b : CircuitBreaker) (calls : List BreakerCall) (now : Int) :
    Decidable (b.AdmitsAfter calls now) :=
  inferInstanceAs (Decidable (_ = true))

/-- The slot is taken, since `since`. -/
def ProbeHeld (b : CircuitBreaker) (since : Int) : Prop :=
  b.state = .circuitHalfOpen ∧ b.halfOpenInFlight = true ∧ b.halfOpenStartedAt = since

theorem probeHeld_of_admits {b : CircuitBreaker} {now : Int}
    (hadmits : (b.route now).1.admitsProbe = true) : (b.call (.route now)).ProbeHeld now := by
  obtain ⟨_, hroute⟩ := probeDue_of_admits hadmits
  simp only [call, hroute]
  exact ⟨rfl, rfl, rfl⟩

/-- A held slot is handed on only after the probe timeout. -/
theorem ProbeHeld.timed_out {b : CircuitBreaker} {since now : Int} (hheld : b.ProbeHeld since)
    (hadmits : (b.route now).1.admitsProbe = true) : since + b.halfOpenProbeTimeout ≤ now := by
  obtain ⟨hstate, hflight, hsince⟩ := hheld
  rcases (probeDue_of_admits hadmits).1 with ⟨hopen, _, _⟩ | ⟨_, hfree | ⟨_, hstale⟩⟩
  · rw [hstate] at hopen
    cases hopen
  · rw [hflight] at hfree
    cases hfree
  · rwa [hsince] at hstale

/-- While no outcome is recorded the slot stays taken, by the probe or by a later one. -/
theorem probeHeld_after (b : CircuitBreaker) (t : Int) (hheld : b.ProbeHeld t)
    (calls : List BreakerCall) (hquiet : ∀ c ∈ calls, c.isOutcome = false) :
    ∃ since, (b.after calls).ProbeHeld since ∧
      (since = t ∨ ∃ before rest, calls = before ++ .route since :: rest ∧
        b.AdmitsAfter before since) := by
  induction calls using List.reverseRecOn with
  | nil => exact ⟨t, hheld, .inl rfl⟩
  | append_singleton calls c ih =>
      obtain ⟨since, hslot, hcause⟩ := ih fun c hc => hquiet c (by simp [hc])
      cases c with
      | recordSuccess now => simpa [BreakerCall.isOutcome] using hquiet (.recordSuccess now) (by simp)
      | recordFailure now => simpa [BreakerCall.isOutcome] using hquiet (.recordFailure now) (by simp)
      | route now =>
          simp only [after_append, after_cons, after_nil]
          cases hadmits : ((b.after calls).route now).1.admitsProbe with
          | true =>
              exact ⟨now, probeHeld_of_admits hadmits, .inr ⟨calls, [], rfl, hadmits⟩⟩
          | false =>
              refine ⟨since, ?_, hcause.imp_right fun ⟨before, rest, heq, hcause⟩ =>
                ⟨before, rest ++ [.route now], by rw [heq]; simp, hcause⟩⟩
              rwa [call, route_eq_of_not_admits hadmits]

/-- A probe is live while no outcome was recorded since its admission and its timeout has not
elapsed. -/
def LiveProbe (b : CircuitBreaker) (before : List BreakerCall) (t : Int) (since : List BreakerCall)
    (now : Int) : Prop :=
  b.AdmitsAfter before t ∧ (∀ c ∈ since, c.isOutcome = false) ∧ now < t + b.halfOpenProbeTimeout

/-- Between two admissions with no outcome in between, the first one's timeout has elapsed. -/
theorem admissions_apart (b : CircuitBreaker) {before mid : List BreakerCall} {t₁ t₂ : Int}
    (hfirst : b.AdmitsAfter before t₁) (hquiet : ∀ c ∈ mid, c.isOutcome = false)
    (hsecond : b.AdmitsAfter (before ++ .route t₁ :: mid) t₂) :
    ∃ since, since + b.halfOpenProbeTimeout ≤ t₂ ∧
      (since = t₁ ∨ ∃ pre rest, mid = pre ++ .route since :: rest ∧
        b.AdmitsAfter (before ++ .route t₁ :: pre) since) := by
  obtain ⟨since, hslot, hcause⟩ :=
    probeHeld_after _ t₁ (probeHeld_of_admits hfirst) mid hquiet
  rw [AdmitsAfter, after_append, after_cons] at hsecond
  refine ⟨since, ?_, hcause.imp_right fun ⟨pre, rest, heq, hcause⟩ => ⟨pre, rest, heq, ?_⟩⟩
  · have htimeout := hslot.timed_out hsecond
    rwa [← after_cons, ← after_append, halfOpenProbeTimeout_after] at htimeout
  · rwa [AdmitsAfter, after_append, after_cons]

end CircuitBreaker

open CircuitBreaker

theorem live_probe_superseded {b : CircuitBreaker} {calls : List BreakerCall} {now : Int}
    (hclock : (calls.map BreakerCall.time ++ [now]).Pairwise (· ≤ ·))
    {before mid since₂ : List BreakerCall} {t₁ t₂ : Int} {since₁ : List BreakerCall}
    (hcalls : calls = before ++ .route t₁ :: since₁) (hsince : since₁ = mid ++ .route t₂ :: since₂)
    (hfirst : b.LiveProbe before t₁ since₁ now)
    (hsecond : b.LiveProbe (before ++ .route t₁ :: mid) t₂ since₂ now) :
    t₁ + b.halfOpenProbeTimeout ≤ now := by
  have hquiet : ∀ c ∈ mid, c.isOutcome = false := fun c hc =>
    hfirst.2.1 c (by rw [hsince]; exact List.mem_append_left _ hc)
  obtain ⟨since, hapart, hcause⟩ := admissions_apart b hfirst.1 hquiet hsecond.1
  have hordered : ∀ c ∈ since₁, t₁ ≤ c.time ∧ c.time ≤ now := by
    intro c hc
    rw [hcalls, List.map_append, List.append_assoc, List.pairwise_append] at hclock
    have htail := hclock.2.1
    rw [List.map_cons, List.cons_append, List.pairwise_cons] at htail
    refine ⟨htail.1 _ (by simp; exact .inl ⟨c, hc, rfl⟩), ?_⟩
    exact (List.pairwise_append.mp htail.2).2.2 _ (List.mem_map_of_mem hc) now (by simp)
  have hlast := (hordered (.route t₂) (by rw [hsince]; simp)).2
  rcases hcause with rfl | ⟨pre, rest, hmid, _⟩
  · exact Int.le_trans hapart hlast
  · have hlater := (hordered (.route since) (by rw [hsince, hmid]; simp)).1
    simp only [BreakerCall.time] at hlast hlater
    omega

theorem live_probe_not_followed {b : CircuitBreaker} {calls : List BreakerCall} {now : Int}
    (hclock : (calls.map BreakerCall.time ++ [now]).Pairwise (· ≤ ·))
    {before mid since₁ since₂ : List BreakerCall} {t₁ t₂ : Int}
    (hcalls : calls = before ++ .route t₁ :: since₁)
    (hsince : .route t₁ :: since₁ = mid ++ .route t₂ :: since₂)
    (hfirst : b.LiveProbe before t₁ since₁ now) (hsecond : b.LiveProbe (before ++ mid) t₂ since₂ now) :
    mid = [] := by
  cases mid with
  | nil => rfl
  | cons c mid =>
      obtain ⟨rfl, htail⟩ := List.cons.inj hsince
      have houtlived := live_probe_superseded hclock hcalls htail hfirst hsecond
      have hlive := hfirst.2.2
      omega

/-- Safety of a breaker over every run from its construction. An open circuit sends nothing to
primary within the open duration of the failure that opened it; consecutive half-open admissions are
separated by an outcome or by the probe timeout; and no two probes are live at once while the clock
does not go back. -/
theorem breaker_safe_over_runs (threshold failureWindow openDuration : Int)
    (calls : List BreakerCall) (now : Int)
    (hclock : (calls.map BreakerCall.time ++ [now]).Pairwise (· ≤ ·)) :
    let b := newCircuitBreaker threshold failureWindow openDuration
    ((b.after calls).state = .circuitOpen → ((b.after calls).route now).1.useFallback = false →
      ∃ t, b.OpenSince calls t ∧ t + openDuration ≤ now) ∧
    (∀ before mid t, calls = before ++ .route t :: mid → b.AdmitsAfter before t →
      (∀ pre t' rest, mid = pre ++ .route t' :: rest →
        ¬ b.AdmitsAfter (before ++ .route t :: pre) t') →
      b.AdmitsAfter calls now →
      (∃ c ∈ mid, c.isOutcome = true) ∨ t + defaultHalfOpenProbeTimeout ≤ now) ∧
    (∀ before₁ t₁ since₁ before₂ t₂ since₂,
      calls = before₁ ++ .route t₁ :: since₁ → calls = before₂ ++ .route t₂ :: since₂ →
      b.LiveProbe before₁ t₁ since₁ now → b.LiveProbe before₂ t₂ since₂ now →
      before₁ = before₂) := by
  intro b
  refine ⟨fun hopen hprimary => ?_, fun before mid t hcalls hfirst hnext hsecond => ?_,
    fun before₁ t₁ since₁ before₂ t₂ since₂ hcalls₁ hcalls₂ hlive₁ hlive₂ => ?_⟩
  · refine ⟨_, openSince_openedAt (by simp [b, newCircuitBreaker]) calls hopen, ?_⟩
    have hadmits := admits_of_primary (by rw [hopen]; decide) hprimary
    rcases (probeDue_of_admits hadmits).1 with ⟨_, hdue, _⟩ | ⟨hhalf, _⟩
    · rwa [openDuration_after] at hdue
    · rw [hopen] at hhalf
      cases hhalf
  · by_cases hquiet : ∀ c ∈ mid, c.isOutcome = false
    · rw [hcalls] at hsecond
      obtain ⟨since, hsince, rfl | ⟨pre, rest, hmid, hadmits⟩⟩ :=
        admissions_apart b hfirst hquiet hsecond
      · exact .inr hsince
      · exact absurd hadmits (hnext pre since rest hmid)
    · push Not at hquiet
      exact .inl (hquiet.imp fun c hc => ⟨hc.1, by simpa using hc.2⟩)
  · rcases List.append_eq_append_iff.mp (hcalls₁.symm.trans hcalls₂) with
      ⟨mid, rfl, hsince⟩ | ⟨mid, rfl, hsince⟩
    · rw [live_probe_not_followed hclock hcalls₁ hsince hlive₁ hlive₂, List.append_nil]
    · rw [live_probe_not_followed hclock hcalls₂ hsince hlive₂ hlive₁, List.append_nil]

/-- One failure opens the circuit; a probe goes out when its open duration is over, and a second one
when the first has timed out. -/
theorem breaker_safe_over_runs_opened :
    let b := newCircuitBreaker 1 10 5
    (∃ t, b.OpenSince [.route 1, .recordFailure 2] t ∧ t + 5 ≤ 7) ∧
    ((∃ c ∈ ([] : List BreakerCall), c.isOutcome = true) ∨
      7 + defaultHalfOpenProbeTimeout ≤ 40 * second) := by
  refine ⟨(breaker_safe_over_runs 1 10 5 [.route 1, .recordFailure 2] 7 (by decide)).1
    (by decide) (by decide), ?_⟩
  exact (breaker_safe_over_runs 1 10 5 [.route 1, .recordFailure 2, .route 7] (40 * second)
    (by decide)).2.1 [.route 1, .recordFailure 2] [] 7 rfl (by decide)
    (fun pre t' rest hnil => by simp at hnil) (by decide)

end CoreMesh.Gateway
