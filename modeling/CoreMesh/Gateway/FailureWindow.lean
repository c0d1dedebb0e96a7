import CoreMesh.Gateway.BreakerRuns
import Mathlib.Data.List.TakeWhile

/-!
# The rolling window of failures

A closed circuit opens on the number of failures that pruning has left, and pruning drops failures
from the front of the slice. That number is the number inside the window as long as the callers' clock
readings reach the mutex in an order that no window start tells apart from their own: a failure before
the start is not behind one after it, and one that an earlier call pruned is before the start as well.
-/

namespace CoreMesh.Gateway

def BreakerCall.isFailure : BreakerCall → Bool
  | .recordFailure _ => true
  | .route _ | .recordSuccess _ => false

/-- The times of the failures among the outcomes. -/
def failureTimes (outcomes : List BreakerCall) : List Int :=
  (outcomes.filter BreakerCall.isFailure).map BreakerCall.time

/-- The failures, with the one recorded now, whose times are not before the window. -/
def failuresInWindow (window : Int) (outcomes : List BreakerCall) (now : Int) : List Int :=
  (failureTimes outcomes ++ [now]).filter fun failure => now - window ≤ failure

/-- A later outcome does not keep a failure from before the cutoff in the slice, and does not prune
one from after it. -/
def Consistent (window cutoff : Int) (failure later : BreakerCall) : Prop :=
  failure.isFailure = true →
    (later.isFailure = true → failure.time < cutoff ∨ cutoff ≤ later.time) ∧
      (failure.time < later.time - window → failure.time < cutoff)

def WindowOrdered (window : Int) (outcomes : List BreakerCall) (now : Int) : Prop :=
  outcomes.Pairwise (Consistent window (now - window))

theorem failureTimes_append (before after : List BreakerCall) :
    failureTimes (before ++ after) = failureTimes before ++ failureTimes after := by
  rw [failureTimes, List.filter_append, List.map_append]
  rfl

theorem windowOrdered_of_sorted {window now : Int} {outcomes : List BreakerCall}
    (hsorted : (outcomes.map BreakerCall.time ++ [now]).Pairwise (· ≤ ·)) :
    WindowOrdered window outcomes now := by
  obtain ⟨hpairs, -, hlast⟩ := List.pairwise_append.mp hsorted
  rw [List.pairwise_map] at hpairs
  refine hpairs.imp_of_mem fun {failure later} _ hlater hle _ => ?_
  have hnow : later.time ≤ now := hlast _ (List.mem_map_of_mem hlater) now (by simp)
  constructor
  · intro _
    omega
  · intro hpruned
    omega

theorem dropWhile_eq_filter {p : Int → Bool} {l : List Int}
    (horder : l.Pairwise fun x y => p x = true ∨ p y = false) :
    l.dropWhile p = l.filter fun x => !p x := by
  induction l with
  | nil => rfl
  | cons x rest ih =>
      obtain ⟨hx, hrest⟩ := List.pairwise_cons.mp horder
      cases hp : p x with
      | true =>
          rw [List.dropWhile_cons_of_pos hp, ih hrest, List.filter_cons_of_neg (by simp [hp])]
      | false =>
          have hkept : ∀ y ∈ x :: rest, (!p y) = true := by
            intro y hy
            rcases List.mem_cons.mp hy with rfl | hy
            · rw [hp]
              rfl
            · rcases hx y hy with hpos | hneg
              · rw [hp] at hpos
                cases hpos
              · rw [hneg]
                rfl
          rw [List.dropWhile_cons_of_neg (by simp [hp]), List.filter_eq_self.mpr hkept]

namespace CircuitBreaker

/-- A call, and what it adds to the outcomes since the circuit was last closed by one. -/
def noteCall (s : CircuitBreaker × List BreakerCall) (call : BreakerCall) :
    CircuitBreaker × List BreakerCall :=
  (s.1.call call,
    match call with
    | .route _ => s.2
    | .recordSuccess _ => if s.1.state = .circuitHalfOpen then [] else s.2 ++ [call]
    | .recordFailure _ => s.2 ++ [call])

def outcomesSinceClose (b : CircuitBreaker) (calls : List BreakerCall) : List BreakerCall :=
  (calls.foldl noteCall (b, [])).2

/-! ### What pruning has dropped -/

/-- The breaker holds the failures of the outcomes but for some that are before every window the
outcomes are ordered for. -/
def Holds (b : CircuitBreaker) (outcomes : List BreakerCall) (failures : List Int) : Prop :=
  ∃ dropped, failureTimes outcomes = dropped ++ failures ∧
    ∀ now, WindowOrdered b.failureWindow outcomes now → ∀ t ∈ dropped, t < now - b.failureWindow

theorem Holds.prune {b : CircuitBreaker} {outcomes : List BreakerCall}
    (hholds : b.Holds outcomes b.failures) (o : BreakerCall) :
    ∃ dropped, failureTimes outcomes = dropped ++ pruneFailures b.failures o.time b.failureWindow ∧
      ∀ now, WindowOrdered b.failureWindow (outcomes ++ [o]) now →
        ∀ t ∈ dropped, t < now - b.failureWindow := by
  obtain ⟨dropped, hsplit, hbefore⟩ := hholds
  refine ⟨dropped ++ b.failures.takeWhile fun t => t < o.time - b.failureWindow, ?_, ?_⟩
  · rw [List.append_assoc, pruneFailures, List.takeWhile_append_dropWhile, hsplit]
  · intro now horder t ht
    obtain ⟨hearlier, -, hcross⟩ := List.pairwise_append.mp horder
    rcases List.mem_append.mp ht with hold | hnew
    · exact hbefore now hearlier t hold
    · have hfailure : t ∈ failureTimes outcomes := by
        rw [hsplit]
        exact List.mem_append_right _ ((List.takeWhile_sublist _).subset hnew)
      obtain ⟨failure, hmem, rfl⟩ := List.mem_map.mp hfailure
      obtain ⟨hin, hkind⟩ := List.mem_filter.mp hmem
      have hpruned := List.mem_takeWhile_imp hnew
      exact (hcross failure hin o (List.mem_singleton_self o) hkind).2 (of_decide_eq_true hpruned)

theorem failures_recordFailure (b : CircuitBreaker) (now : Int) :
    (b.recordFailure now).failures = pruneFailures b.failures now b.failureWindow ++ [now] := by
  unfold recordFailure openCircuit
  dsimp only
  split
  · rfl
  · split <;> rfl

theorem failureWindow_call (b : CircuitBreaker) (call : BreakerCall) :
    (b.call call).failureWindow = b.failureWindow :=
  congrArg (fun values => values.2.1) (settings_call b call)

theorem Holds.noteCall {s : CircuitBreaker × List BreakerCall} (hholds : s.1.Holds s.2 s.1.failures)
    (call : BreakerCall) :
    (noteCall s call).1.Holds (noteCall s call).2 (noteCall s call).1.failures := by
  have hwindow : (CircuitBreaker.noteCall s call).1.failureWindow = s.1.failureWindow :=
    failureWindow_call s.1 call
  unfold Holds
  rw [hwindow]
  cases call with
  | route now =>
      have hfailures : (s.1.route now).2.failures = s.1.failures := by
        rcases route_cases s.1 now with ⟨-, hroute⟩ | ⟨-, hroute⟩ | ⟨-, hroute⟩ <;> rw [hroute]
        rfl
      show ∃ dropped, failureTimes s.2 = dropped ++ (s.1.route now).2.failures ∧ _
      rw [hfailures]
      exact hholds
  | recordSuccess now =>
      by_cases hhalf : s.1.state = .circuitHalfOpen
      · simp only [CircuitBreaker.noteCall, CircuitBreaker.call, recordSuccess, if_pos hhalf]
        exact ⟨[], rfl, fun _ _ t ht => absurd ht List.not_mem_nil⟩
      · simp only [CircuitBreaker.noteCall, CircuitBreaker.call, recordSuccess, if_neg hhalf]
        obtain ⟨dropped, hsplit, hbefore⟩ := hholds.prune (.recordSuccess now)
        refine ⟨dropped, ?_, hbefore⟩
        rw [failureTimes_append, hsplit]
        exact List.append_nil _
  | recordFailure now =>
      show ∃ dropped, failureTimes (s.2 ++ [.recordFailure now]) =
        dropped ++ (s.1.recordFailure now).failures ∧ _
      obtain ⟨dropped, hsplit, hbefore⟩ := hholds.prune (.recordFailure now)
      refine ⟨dropped, ?_, hbefore⟩
      rw [failureTimes_append, hsplit, failures_recordFailure, List.append_assoc]
      rfl

theorem holds_outcomesSinceClose {b : CircuitBreaker} (hstart : b.failures = [])
    (calls : List BreakerCall) :
    (b.after calls).Holds (b.outcomesSinceClose calls) (b.after calls).failures := by
  have hfold : ∀ (s : CircuitBreaker × List BreakerCall), s.1.Holds s.2 s.1.failures →
      (calls.foldl CircuitBreaker.noteCall s).1 = s.1.after calls ∧
        (s.1.after calls).Holds (calls.foldl CircuitBreaker.noteCall s).2 (s.1.after calls).failures := by
    induction calls with
    | nil => exact fun s hs => ⟨rfl, hs⟩
    | cons call rest ih =>
        intro s hs
        exact ih (CircuitBreaker.noteCall s call) (hs.noteCall call)
  refine (hfold (b, []) ⟨[], ?_, fun _ _ t ht => absurd ht List.not_mem_nil⟩).2
  rw [hstart]
  rfl

/-! ### When a failure opens the circuit -/

theorem length_pruneFailures {b : CircuitBreaker} {outcomes : List BreakerCall} {now : Int}
    (hholds : b.Holds outcomes b.failures) (horder : WindowOrdered b.failureWindow outcomes now)
    (hwindow : 0 ≤ b.failureWindow) :
    (pruneFailures b.failures now b.failureWindow ++ [now]).length =
      (failuresInWindow b.failureWindow outcomes now).length := by
  obtain ⟨dropped, hsplit, hbefore⟩ := hholds
  have hpairs : (failureTimes outcomes).Pairwise fun x y =>
      decide (x < now - b.failureWindow) = true ∨ decide (y < now - b.failureWindow) = false := by
    rw [failureTimes, List.pairwise_map]
    refine (horder.sublist List.filter_sublist).imp_of_mem fun {failure later} hf hl h => ?_
    have hkind := (h (List.mem_filter.mp hf).2).1 (List.mem_filter.mp hl).2
    simp only [decide_eq_true_eq, decide_eq_false_iff_not]
    omega
  have hkept : pruneFailures b.failures now b.failureWindow =
      b.failures.filter fun t => !decide (t < now - b.failureWindow) := by
    rw [hsplit] at hpairs
    exact dropWhile_eq_filter (List.pairwise_append.mp hpairs).2.1
  have hgone : dropped.filter (fun t => decide (now - b.failureWindow ≤ t)) = [] := by
    rw [List.filter_eq_nil_iff]
    intro t ht
    have hlt := hbefore now horder t ht
    simp only [decide_eq_true_eq]
    omega
  have hsame : (fun t => !decide (t < now - b.failureWindow)) =
      fun t => decide (now - b.failureWindow ≤ t) := by
    funext t
    rw [← decide_not, decide_eq_decide]
    omega
  rw [hkept, hsame, failuresInWindow, hsplit, List.filter_append, List.filter_append, hgone,
    List.nil_append, List.length_append, List.length_append]
  have hself : [now].filter (fun t => decide (now - b.failureWindow ≤ t)) = [now] := by
    refine List.filter_eq_self.mpr fun t ht => ?_
    obtain rfl := List.mem_singleton.mp ht
    exact decide_eq_true (by omega)
  rw [hself]

theorem recordFailure_opens_iff {b : CircuitBreaker} (hclosed : b.state = .circuitClosed) (now : Int) :
    (b.recordFailure now).state = .circuitOpen ↔
      b.failureThreshold ≤ (pruneFailures b.failures now b.failureWindow ++ [now]).length := by
  unfold recordFailure openCircuit
  simp only [hclosed, true_and, reduceCtorEq, if_false]
  split
  · rename_i hcross
    exact iff_of_true rfl hcross
  · rename_i hcross
    exact iff_of_false (by simp) hcross

/-- After any calls, a failure opens a closed circuit exactly if enough failures since the last close
are in the window, provided that the outcomes reached the mutex in an order consistent with it. -/
theorem opens_iff_of_windowOrdered (threshold failureWindow openDuration : Int)
    (hwindow : 0 < failureWindow) (calls : List BreakerCall) (now : Int)
    (hclosed : ((newCircuitBreaker threshold failureWindow openDuration).after calls).state =
      .circuitClosed)
    (horder : WindowOrdered failureWindow
      ((newCircuitBreaker threshold failureWindow openDuration).outcomesSinceClose calls) now) :
    (((newCircuitBreaker threshold failureWindow openDuration).after calls).recordFailure now).state =
        .circuitOpen ↔
      threshold ≤ (failuresInWindow failureWindow
        ((newCircuitBreaker threshold failureWindow openDuration).outcomesSinceClose calls)
          now).length := by
  have hsettings :=
    settings_after (newCircuitBreaker threshold failureWindow openDuration) calls
  have hthreshold : ((newCircuitBreaker threshold failureWindow openDuration).after
      calls).failureThreshold = threshold := congrArg (fun values => values.1) hsettings
  have hwindow' : ((newCircuitBreaker threshold failureWindow openDuration).after
      calls).failureWindow = failureWindow := congrArg (fun values => values.2.1) hsettings
  have hholds := holds_outcomesSinceClose
    (b := newCircuitBreaker threshold failureWindow openDuration) rfl calls
  have hlength := length_pruneFailures hholds (by rw [hwindow']; exact horder) (by omega)
  rw [recordFailure_opens_iff hclosed now, hlength, hthreshold, hwindow']

/-- Three readings in order, of which the last two are in the window. -/
theorem opens_iff_of_windowOrdered_sorted :
    (((newCircuitBreaker 3 10 5).after [.recordFailure 100, .recordFailure 101]).recordFailure
        111).state = .circuitOpen ↔
      (3 : Int) ≤ (failuresInWindow 10
        ((newCircuitBreaker 3 10 5).outcomesSinceClose [.recordFailure 100, .recordFailure 101])
          111).length :=
  opens_iff_of_windowOrdered 3 10 5 (by decide) _ 111 rfl (windowOrdered_of_sorted (by decide))

/-- The reading 100 arrives behind 101, and still counts when the window starts at 101. -/
theorem not_opens_iff_of_overtaken :
    ¬ ((((newCircuitBreaker 3 10 5).after
        [.route 99, .route 99, .route 99, .recordFailure 101, .recordFailure 100]).recordFailure
          111).state = .circuitOpen ↔
      (3 : Int) ≤ (failuresInWindow 10
        ((newCircuitBreaker 3 10 5).outcomesSinceClose
          [.route 99, .route 99, .route 99, .recordFailure 101, .recordFailure 100]) 111).length) := by
  decide

end CircuitBreaker

end CoreMesh.Gateway
