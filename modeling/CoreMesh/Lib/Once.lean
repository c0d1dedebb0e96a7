import CoreMesh.Lib.Transition

/-!
# A value made once behind a lock

Any number of callers want one shared value. A caller may look at the cell before it takes the lock;
with the lock it looks again, and makes the value only when the cell is still empty. Making can fail,
and then the cell stays empty for the next caller.
-/

namespace Once

open Transition

universe u v

variable {I : Type u} {V : Type v}

inductive Phase (V : Type v) where
  | idle
  | waiting
  /-- Has the lock and has not looked yet. -/
  | holding
  /-- Has the lock and found the cell empty. -/
  | making
  | done (value : V)
  | failed

def Phase.Inside : Phase V → Prop
  | .holding | .making => True
  | _ => False

def Phase.Active : Phase V → Prop
  | .waiting | .holding | .making => True
  | _ => False

def Phase.Ended : Phase V → Prop
  | .done _ | .failed => True
  | _ => False

structure State (I : Type u) (V : Type v) where
  cell : Option V
  holder : Option I
  phase : I → Phase V

def State.start : State I V := ⟨none, none, fun _ => .idle⟩

inductive Event (I : Type u) (V : Type v) where
  /-- A look at the cell without the lock. -/
  | peek (i : I)
  /-- On to the lock without a look. -/
  | enter (i : I)
  | acquire (i : I)
  | look (i : I)
  | publish (i : I) (value : V)
  | fail (i : I)

def Event.caller : Event I V → I
  | .peek i | .enter i | .acquire i | .look i | .publish i _ | .fail i => i

section Step

variable [DecidableEq I]

def State.move (s : State I V) (i : I) (phase : Phase V) : State I V :=
  { s with phase := Function.update s.phase i phase }

/-- The caller leaves with the lock given back. -/
def State.leave (s : State I V) (i : I) (phase : Phase V) : State I V :=
  { s.move i phase with holder := none }

def next (s : State I V) : Event I V → Option (State I V)
  | .peek i =>
      match s.phase i, s.cell with
      | .idle, some value => some (s.move i (.done value))
      | .idle, none => some (s.move i .waiting)
      | _, _ => none
  | .enter i =>
      match s.phase i with
      | .idle => some (s.move i .waiting)
      | _ => none
  | .acquire i =>
      match s.phase i, s.holder with
      | .waiting, none => some { s.move i .holding with holder := some i }
      | _, _ => none
  | .look i =>
      match s.phase i, s.cell with
      | .holding, some value => some (s.leave i (.done value))
      | .holding, none => some (s.move i .making)
      | _, _ => none
  | .publish i value =>
      match s.phase i with
      | .making => some { s.leave i (.done value) with cell := some value }
      | _ => none
  | .fail i =>
      match s.phase i with
      | .making => some (s.leave i .failed)
      | _ => none

/-- Everything a step can do. -/
theorem next_cases {s s' : State I V} {e : Event I V} (hstep : next s e = some s') :
    (∃ i value, e = .peek i ∧ s.phase i = .idle ∧ s.cell = some value ∧ s' = s.move i (.done value)) ∨
    (∃ i, (e = .peek i ∧ s.cell = none ∨ e = .enter i) ∧ s.phase i = .idle ∧ s' = s.move i .waiting) ∨
    (∃ i, e = .acquire i ∧ s.phase i = .waiting ∧ s.holder = none ∧
      s' = { s.move i .holding with holder := some i }) ∨
    (∃ i value, e = .look i ∧ s.phase i = .holding ∧ s.cell = some value ∧
      s' = s.leave i (.done value)) ∨
    (∃ i, e = .look i ∧ s.phase i = .holding ∧ s.cell = none ∧ s' = s.move i .making) ∨
    (∃ i value, e = .publish i value ∧ s.phase i = .making ∧
      s' = { s.leave i (.done value) with cell := some value }) ∨
    (∃ i, e = .fail i ∧ s.phase i = .making ∧ s' = s.leave i .failed) := by
  cases e with
  | peek i =>
      simp only [next] at hstep
      split at hstep
      · exact .inl ⟨i, _, rfl, ‹_›, ‹_›, by simpa using hstep.symm⟩
      · exact .inr (.inl ⟨i, .inl ⟨rfl, ‹_›⟩, ‹_›, by simpa using hstep.symm⟩)
      · cases hstep
  | enter i =>
      simp only [next] at hstep
      split at hstep
      · exact .inr (.inl ⟨i, .inr rfl, ‹_›, by simpa using hstep.symm⟩)
      · cases hstep
  | acquire i =>
      simp only [next] at hstep
      split at hstep
      · exact .inr (.inr (.inl ⟨i, rfl, ‹_›, ‹_›, by simpa using hstep.symm⟩))
      · cases hstep
  | look i =>
      simp only [next] at hstep
      split at hstep
      · exact .inr (.inr (.inr (.inl ⟨i, _, rfl, ‹_›, ‹_›, by simpa using hstep.symm⟩)))
      · exact .inr (.inr (.inr (.inr (.inl ⟨i, rfl, ‹_›, ‹_›, by simpa using hstep.symm⟩))))
      · cases hstep
  | publish i value =>
      simp only [next] at hstep
      split at hstep
      · exact .inr (.inr (.inr (.inr (.inr (.inl ⟨i, value, rfl, ‹_›, by simpa using hstep.symm⟩)))))
      · cases hstep
  | fail i =>
      simp only [next] at hstep
      split at hstep
      · exact .inr (.inr (.inr (.inr (.inr (.inr ⟨i, rfl, ‹_›, by simpa using hstep.symm⟩)))))
      · cases hstep

/-- A step moves no other caller. -/
theorem phase_of_ne {s s' : State I V} {e : Event I V} (hstep : next s e = some s') {j : I}
    (hj : j ≠ e.caller) : s'.phase j = s.phase j := by
  rcases next_cases hstep with ⟨i, value, rfl, -, -, rfl⟩ | ⟨i, ⟨rfl, -⟩ | rfl, -, rfl⟩ |
    ⟨i, rfl, -, -, rfl⟩ | ⟨i, value, rfl, -, -, rfl⟩ | ⟨i, rfl, -, -, rfl⟩ |
    ⟨i, value, rfl, -, rfl⟩ | ⟨i, rfl, -, rfl⟩ <;>
    exact Function.update_of_ne hj _ _

/-! ### The invariant -/

structure Guarded (s : State I V) : Prop where
  /-- Whoever is inside has the lock, so no two are. -/
  inside_iff : ∀ i, (s.phase i).Inside ↔ s.holder = some i
  making : ∀ i, s.phase i = .making → s.cell = none
  done : ∀ i value, s.phase i = .done value → s.cell = some value

omit [DecidableEq I] in
theorem guarded_start : Guarded (State.start : State I V) where
  inside_iff i := by simp [State.start, Phase.Inside]
  making i := by simp [State.start]
  done i value := by simp [State.start]

theorem Guarded.move {s : State I V} (hguarded : Guarded s) {i : I} {phase : Phase V}
    (hinside : phase.Inside ↔ (s.phase i).Inside) (hmaking : phase = .making → s.cell = none)
    (hdone : ∀ value, phase = .done value → s.cell = some value) : Guarded (s.move i phase) where
  inside_iff j := by
    by_cases hj : j = i
    · subst hj
      simpa [State.move, hinside] using hguarded.inside_iff j
    · simpa [State.move, hj] using hguarded.inside_iff j
  making j := by
    by_cases hj : j = i
    · subst hj
      simpa [State.move] using hmaking
    · simpa [State.move, hj] using hguarded.making j
  done j value := by
    by_cases hj : j = i
    · subst hj
      simpa [State.move] using hdone value
    · simpa [State.move, hj] using hguarded.done j value

/-- The holder of the lock leaves, with the cell as it was or filled just now. -/
theorem Guarded.leave {s : State I V} (hguarded : Guarded s) {i : I} {phase : Phase V}
    (hinside : (s.phase i).Inside) {cell : Option V}
    (hcell : cell = s.cell ∨ s.cell = none) (houtside : ¬ phase.Inside)
    (hdone : ∀ value, phase = .done value → cell = some value) :
    Guarded { s.leave i phase with cell := cell } where
  inside_iff j := by
    have hholder := (hguarded.inside_iff i).mp hinside
    by_cases hj : j = i
    · subst hj
      simpa [State.leave, State.move] using houtside
    · have hnot : ¬ (s.phase j).Inside := by
        rw [hguarded.inside_iff j, hholder]
        simpa using fun hij : i = j => hj hij.symm
      simpa [State.leave, State.move, hj] using hnot
  making j := by
    intro hj
    have hne : j ≠ i := by
      rintro rfl
      apply houtside
      simp [State.leave, State.move] at hj
      simp [hj, Phase.Inside]
    have hholder := (hguarded.inside_iff i).mp hinside
    have hold : s.phase j = .making := by simpa [State.leave, State.move, hne] using hj
    have hother := (hguarded.inside_iff j).mp (by simp [hold, Phase.Inside])
    rw [hholder] at hother
    exact absurd (Option.some.inj hother).symm hne
  done j value := by
    intro hj
    by_cases hne : j = i
    · subst hne
      apply hdone
      simpa [State.leave, State.move] using hj
    · have hold := hguarded.done j value (by simpa [State.leave, State.move, hne] using hj)
      rcases hcell with hsame | hnone
      · simpa [hsame] using hold
      · rw [hnone] at hold
        cases hold

theorem Guarded.next {s s' : State I V} {e : Event I V} (hguarded : Guarded s)
    (hstep : Once.next s e = some s') : Guarded s' := by
  rcases next_cases hstep with ⟨i, value, -, hphase, hcell, rfl⟩ | ⟨i, -, hphase, rfl⟩ |
    ⟨i, -, hphase, hholder, rfl⟩ | ⟨i, value, -, hphase, hcell, rfl⟩ | ⟨i, -, hphase, hcell, rfl⟩ |
    ⟨i, value, -, hphase, rfl⟩ | ⟨i, -, hphase, rfl⟩
  · apply hguarded.move
    · simp [hphase, Phase.Inside]
    · simp
    · simp [hcell]
  · apply hguarded.move
    · simp [hphase, Phase.Inside]
    · simp
    · simp
  · refine ⟨fun j => ?_, fun j => ?_, fun j value => ?_⟩
    · have hfree := hguarded.inside_iff j
      rw [hholder] at hfree
      by_cases hj : j = i
      · subst hj
        simp [State.move, Phase.Inside]
      · have hij : i ≠ j := fun hij => hj hij.symm
        simpa [State.move, hj, hij] using hfree
    · by_cases hj : j = i
      · subst hj
        simp [State.move]
      · simpa [State.move, hj] using hguarded.making j
    · by_cases hj : j = i
      · subst hj
        simp [State.move]
      · simpa [State.move, hj] using hguarded.done j value
  · apply hguarded.leave (by simp [hphase, Phase.Inside]) (.inl rfl)
    · simp [Phase.Inside]
    · simp [hcell]
  · apply hguarded.move
    · simp [hphase, Phase.Inside]
    · simp [hcell]
    · simp
  · apply hguarded.leave (by simp [hphase, Phase.Inside]) (.inr (hguarded.making i hphase))
    · simp [Phase.Inside]
    · simp
  · apply hguarded.leave (by simp [hphase, Phase.Inside]) (.inl rfl)
    · simp [Phase.Inside]
    · simp

theorem guarded_run {es : List (Event I V)} {s : State I V}
    (hrun : Run (Steps Once.next) State.start es s) : Guarded s :=
  hrun.invariant Guarded guarded_start fun _ _ _ hguarded hstep => hguarded.next hstep

/-- A filled cell stays as it is. -/
theorem Guarded.cell_next {s s' : State I V} {e : Event I V} (hguarded : Guarded s)
    (hstep : Once.next s e = some s') {value : V} (hcell : s.cell = some value) :
    s'.cell = some value := by
  rcases next_cases hstep with ⟨i, _, -, -, -, rfl⟩ | ⟨i, -, -, rfl⟩ | ⟨i, -, -, -, rfl⟩ |
    ⟨i, _, -, -, -, rfl⟩ | ⟨i, -, -, -, rfl⟩ | ⟨i, _, -, hphase, rfl⟩ | ⟨i, -, -, rfl⟩
  case inr.inr.inr.inr.inr.inl =>
    rw [hguarded.making i hphase] at hcell
    cases hcell
  all_goals exact hcell

omit [DecidableEq I] in
/-- Two callers that are done have the same value. -/
theorem Guarded.agree {s : State I V} (hguarded : Guarded s) {i j : I} {a b : V}
    (hi : s.phase i = .done a) (hj : s.phase j = .done b) : a = b := by
  have ha := hguarded.done i a hi
  rw [hguarded.done j b hj] at ha
  exact (Option.some.inj ha).symm

/-! ### What has been published -/

/-- The values published along a run. -/
def published (es : List (Event I V)) : List V :=
  es.filterMap fun
    | .publish _ value => some value
    | _ => none

/-- The cell holds all that was ever published, so no run publishes twice. -/
theorem published_run {es : List (Event I V)} {s : State I V}
    (hrun : Run (Steps Once.next) State.start es s) : published es = s.cell.toList := by
  apply hrun.history_invariant (fun es s => published es = s.cell.toList)
  · rfl
  · intro es s e s' hbefore ih hstep
    have hguarded := guarded_run hbefore
    have happend : published (es ++ [e]) = s.cell.toList ++ published [e] := by
      rw [← ih]
      exact List.filterMap_append
    rw [happend]
    rcases next_cases hstep with ⟨i, value, rfl, -, -, rfl⟩ | ⟨i, ⟨rfl, -⟩ | rfl, -, rfl⟩ |
      ⟨i, rfl, -, -, rfl⟩ | ⟨i, value, rfl, -, -, rfl⟩ | ⟨i, rfl, -, -, rfl⟩ |
      ⟨i, value, rfl, hphase, rfl⟩ | ⟨i, rfl, -, rfl⟩
    case inr.inr.inr.inr.inr.inl => simp [published, hguarded.making i hphase]
    all_goals simp [published, State.move, State.leave]

/-! ### Progress -/

theorem active_of_acquire {s s' : State I V} {i : I} (hstep : Once.next s (.acquire i) = some s') :
    (s.phase i).Active := by
  simp only [Once.next] at hstep
  split at hstep
  · simp [*, Phase.Active]
  · cases hstep

theorem active_of_look {s s' : State I V} {i : I} (hstep : Once.next s (.look i) = some s') :
    (s.phase i).Active := by
  simp only [Once.next] at hstep
  split at hstep
  · simp [*, Phase.Active]
  · simp [*, Phase.Active]
  · cases hstep

theorem peek_of_idle {s : State I V} {i : I} (hidle : s.phase i = .idle) :
    ∃ s', Once.next s (.peek i) = some s' := by
  cases hcell : s.cell with
  | none => exact ⟨s.move i .waiting, by simp only [Once.next, hidle, hcell]⟩
  | some value => exact ⟨s.move i (.done value), by simp only [Once.next, hidle, hcell]⟩

/-- While a caller is under way, some caller under way can take a step. -/
theorem Guarded.progress {s : State I V} (hguarded : Guarded s) {i : I} (hactive : (s.phase i).Active) :
    ∃ j, (Once.next s (.acquire j)).isSome ∨ (Once.next s (.look j)).isSome ∨ s.phase j = .making := by
  cases hholder : s.holder with
  | none =>
      have houtside : ¬ (s.phase i).Inside := by
        rw [hguarded.inside_iff i, hholder]
        simp
      cases hphase : s.phase i with
      | waiting => exact ⟨i, .inl (by simp [Once.next, hphase, hholder])⟩
      | holding | making => simp [hphase, Phase.Inside] at houtside
      | idle | done | failed => simp [hphase, Phase.Active] at hactive
  | some j =>
      have hinside := (hguarded.inside_iff j).mpr hholder
      cases hphase : s.phase j with
      | holding =>
          have hlook : (Once.next s (.look j)).isSome := by
            cases hcell : s.cell <;> simp [Once.next, hphase, hcell]
          exact ⟨j, .inr (.inl hlook)⟩
      | making => exact ⟨j, .inr (.inr hphase)⟩
      | idle | waiting | done | failed => simp [hphase, Phase.Inside] at hinside

end Step

end Once
