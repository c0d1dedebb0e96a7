import CoreMesh.Cache.Request
import CoreMesh.Lib.Once

/-!
# The vector index is made once

`ensureIndex` of the semantic cache and the two Redis commands of `RedisStore.EnsureIndex`, for any
number of gateways that share one Redis, each with any number of requests at once. A gateway's mutex
is held across its commands, so what another gateway does comes in between. A command whose answer
is lost may have been carried out.
-/

namespace CoreMesh.Cache

open Transition Once

def isUnknownIndexError (message : String) : Bool :=
  let message := toLower message
  contains message "unknown index" || contains message "no such index" ||
    contains message "index does not exist"

def isIndexExistsError (message : String) : Bool :=
  let message := toLower message
  contains message "index already exists" || contains message "already exists"

namespace IndexSetup

/-- How far a request has got in `ensureIndex`. -/
inductive Phase where
  | arrived
  | waiting
  | locked
  /-- `FT.INFO` is to be sent. -/
  | asking
  /-- `FT.CREATE` is to be sent. -/
  | creating
  | returned (err : Option String)

structure SemanticCache where
  ensureDone : Bool
  ensureErr : Option String
  ensureMu : Option Nat
  request : Nat → Phase

def SemanticCache.new : SemanticCache := ⟨false, none, none, fun _ => .arrived⟩

def SemanticCache.move (c : SemanticCache) (i : Nat) (phase : Phase) : SemanticCache :=
  { c with request := Function.update c.request i phase }

/-- The deferred unlock. -/
def SemanticCache.unlock (c : SemanticCache) (i : Nat) (err : Option String) : SemanticCache :=
  { c.move i (.returned err) with ensureMu := none }

/-- `EnsureIndex` of the store has returned. -/
def SemanticCache.ensured (c : SemanticCache) (i : Nat) (err : Option String) : SemanticCache :=
  { c.unlock i err with ensureErr := err, ensureDone := err.isNone }

/-- The gateways by number, and the dimension the index in Redis was made with, if there is one. -/
structure Cluster where
  index : Option Nat
  cache : Nat → SemanticCache

def Cluster.start (index : Option Nat) : Cluster := ⟨index, fun _ => .new⟩

def Cluster.set (k : Cluster) (g : Nat) (c : SemanticCache) : Cluster :=
  { k with cache := Function.update k.cache g c }

inductive Event where
  | enter (g i : Nat)
  | lock (g i : Nat)
  | check (g i : Nat)
  /-- `FT.INFO` and its answer, an error if there is a message. -/
  | info (g i : Nat) (err : Option String)
  /-- `FT.CREATE`, whether Redis carried it out, and its answer. -/
  | create (g i : Nat) (applied : Bool) (err : Option String)

def Event.gateway : Event → Nat
  | .enter g _ | .lock g _ | .check g _ | .info g _ _ | .create g _ _ _ => g

/-- Redis knows an index that is there, and says of none that it already exists. -/
def truthful (index : Option Nat) : Event → Bool
  | .info _ _ none => index.isSome
  | .create _ _ true _ => index.isNone
  | .create _ _ false none => false
  | .create _ _ false (some message) => !isIndexExistsError message || index.isSome
  | _ => true

def next (dim : Nat → Nat) (k : Cluster) (e : Event) : Option Cluster :=
  if !truthful k.index e then none else
  match e with
  | .enter g i =>
      match (k.cache g).request i with
      | .arrived => some (k.set g ((k.cache g).move i .waiting))
      | _ => none
  | .lock g i =>
      match (k.cache g).request i, (k.cache g).ensureMu with
      | .waiting, none => some (k.set g { (k.cache g).move i .locked with ensureMu := some i })
      | _, _ => none
  | .check g i =>
      match (k.cache g).request i with
      | .locked =>
          if (k.cache g).ensureDone then some (k.set g ((k.cache g).unlock i (k.cache g).ensureErr))
          else some (k.set g ((k.cache g).move i .asking))
      | _ => none
  | .info g i err =>
      match (k.cache g).request i with
      | .asking =>
          match err with
          | none => some (k.set g ((k.cache g).ensured i none))
          | some message =>
              if isUnknownIndexError message then some (k.set g ((k.cache g).move i .creating))
              else some (k.set g ((k.cache g).ensured i (some message)))
      | _ => none
  | .create g i applied err =>
      match (k.cache g).request i with
      | .creating =>
          let err := err.filter fun message => !isIndexExistsError message
          let k := if applied then { k with index := some (dim g) } else k
          some (k.set g ((k.cache g).ensured i err))
      | _ => none

section Step

variable {dim : Nat → Nat} {k k' : Cluster}

/-- Everything a step can do. -/
theorem next_cases {e : Event} (hstep : next dim k e = some k') :
    (∃ g i, e = .enter g i ∧ (k.cache g).request i = .arrived ∧
      k' = k.set g ((k.cache g).move i .waiting)) ∨
    (∃ g i, e = .lock g i ∧ (k.cache g).request i = .waiting ∧ (k.cache g).ensureMu = none ∧
      k' = k.set g { (k.cache g).move i .locked with ensureMu := some i }) ∨
    (∃ g i, e = .check g i ∧ (k.cache g).request i = .locked ∧
      ((k.cache g).ensureDone = true ∧ k' = k.set g ((k.cache g).unlock i (k.cache g).ensureErr) ∨
        (k.cache g).ensureDone = false ∧ k' = k.set g ((k.cache g).move i .asking))) ∨
    (∃ g i err, e = .info g i err ∧ (k.cache g).request i = .asking ∧
      ((err = none → k.index.isSome) ∧ k' = k.set g ((k.cache g).ensured i err) ∨
        k' = k.set g ((k.cache g).move i .creating))) ∨
    (∃ g i applied err err', e = .create g i applied err ∧ (k.cache g).request i = .creating ∧
      (applied = true ∧ k.index = none ∧ k' = { k.set g ((k.cache g).ensured i err') with index := some (dim g) } ∨
        applied = false ∧ (err' = none → k.index.isSome) ∧ k' = k.set g ((k.cache g).ensured i err'))) := by
  unfold next at hstep
  split at hstep
  · cases hstep
  · rename_i htruthful
    simp only [Bool.not_eq_eq_eq_not, Bool.not_true, Bool.not_eq_false] at htruthful
    cases e with
    | enter g i =>
        dsimp only at hstep
        split at hstep
        · exact .inl ⟨g, i, rfl, ‹_›, by simpa using hstep.symm⟩
        · cases hstep
    | lock g i =>
        dsimp only at hstep
        split at hstep
        · exact .inr (.inl ⟨g, i, rfl, ‹_›, ‹_›, by simpa using hstep.symm⟩)
        · cases hstep
    | check g i =>
        dsimp only at hstep
        split at hstep
        · refine .inr (.inr (.inl ⟨g, i, rfl, ‹_›, ?_⟩))
          split at hstep
          · exact .inl ⟨‹_›, by simpa using hstep.symm⟩
          · exact .inr ⟨by simpa using ‹¬ (k.cache g).ensureDone = true›, by simpa using hstep.symm⟩
        · cases hstep
    | info g i err =>
        dsimp only at hstep
        split at hstep
        · refine .inr (.inr (.inr (.inl ⟨g, i, err, rfl, ‹_›, ?_⟩)))
          cases err with
          | none => exact .inl ⟨fun _ => htruthful, by simpa using hstep.symm⟩
          | some message =>
              dsimp only at hstep
              split at hstep
              · exact .inr (by simpa using hstep.symm)
              · exact .inl ⟨by simp, by simpa using hstep.symm⟩
        · cases hstep
    | create g i applied err =>
        dsimp only at hstep
        split at hstep
        · refine .inr (.inr (.inr (.inr ⟨g, i, applied, err,
            err.filter fun message => !isIndexExistsError message, rfl, ‹_›, ?_⟩)))
          cases applied with
          | true =>
              exact .inl ⟨rfl, by simpa [truthful] using htruthful, by simpa [Cluster.set] using hstep.symm⟩
          | false =>
              refine .inr ⟨rfl, fun hnone => ?_, by simpa using hstep.symm⟩
              cases err with
              | none => cases htruthful
              | some message =>
                  simp only [Option.filter, Bool.not_eq_eq_eq_not, Bool.not_true, ite_eq_right_iff,
                    reduceCtorEq, imp_false, Bool.not_eq_false] at hnone
                  simpa [truthful, hnone] using htruthful
        · cases hstep

end Step

/-! ### One gateway is a value made once -/

def Phase.once : Phase → Once.Phase Unit
  | .arrived => .idle
  | .waiting => .waiting
  | .locked => .holding
  | .asking | .creating => .making
  | .returned none => .done ()
  | .returned (some _) => .failed

def SemanticCache.once (c : SemanticCache) : Once.State Nat Unit where
  cell := if c.ensureDone then some () else none
  holder := c.ensureMu
  phase i := (c.request i).once

theorem SemanticCache.phase_update (c : SemanticCache) (i : Nat) (phase : Phase) :
    (fun j => (Function.update c.request i phase j).once) =
      Function.update c.once.phase i phase.once := by
  funext j
  by_cases hj : j = i
  · subst hj
    simp
  · simp [hj, SemanticCache.once]

structure SemanticCache.Sound (c : SemanticCache) : Prop where
  guarded : Guarded c.once
  clean : c.ensureDone = true → c.ensureErr = none

theorem SemanticCache.sound_new : SemanticCache.new.Sound where
  guarded := ⟨by simp [new, once, Phase.once, Once.Phase.Inside], by simp [new, once],
    by simp [new, once, Phase.once]⟩
  clean := by simp [new]

theorem SemanticCache.once_move (c : SemanticCache) (i : Nat) (phase : Phase) :
    (c.move i phase).once = c.once.move i phase.once := by
  rw [Once.State.move, ← c.phase_update]
  rfl

theorem SemanticCache.once_ensured (c : SemanticCache) (i : Nat) (err : Option String) :
    (c.ensured i err).once = { c.once.leave i (Phase.returned err).once with
      cell := if err.isNone then some () else none } := by
  rw [Once.State.leave, Once.State.move, ← c.phase_update]
  rfl

/-- A request that holds the lock and has not found the index done. -/
def Phase.Commands : Phase → Prop
  | .asking | .creating => True
  | _ => False

theorem Phase.once_eq_making_iff {phase : Phase} : phase.once = .making ↔ phase.Commands := by
  cases phase with
  | returned err => cases err <;> simp [once, Commands]
  | arrived | waiting | locked | asking | creating => simp [once, Commands]

theorem SemanticCache.Sound.not_done {c : SemanticCache} (hsound : c.Sound) {i : Nat}
    (hcommands : (c.request i).Commands) : c.ensureDone = false := by
  have hcell := hsound.guarded.making i (Phase.once_eq_making_iff.mpr hcommands)
  simpa [SemanticCache.once] using hcell

/-- `EnsureIndex` has answered a request: the value is published, or making it has failed. -/
theorem SemanticCache.Sound.ensured {c : SemanticCache} (hsound : c.Sound) {i : Nat}
    (hcommands : (c.request i).Commands) (err : Option String) : (c.ensured i err).Sound := by
  have hmaking : c.once.phase i = .making := Phase.once_eq_making_iff.mpr hcommands
  refine ⟨?_, ?_⟩
  · rw [c.once_ensured]
    cases err with
    | none =>
        apply hsound.guarded.next (e := .publish i ())
        simp [Once.next, hmaking, Phase.once]
    | some message =>
        apply hsound.guarded.next (e := .fail i)
        have hcell : none = c.once.cell := (hsound.guarded.making i hmaking).symm
        simp [Once.next, hmaking, Phase.once, hcell, Once.State.leave, Once.State.move]
  · simp [SemanticCache.ensured]

theorem SemanticCache.Sound.move {c : SemanticCache} (hsound : c.Sound) {i : Nat} {phase : Phase}
    (hinside : phase.once.Inside ↔ (c.request i).once.Inside)
    (hmaking : phase.Commands → c.ensureDone = false)
    (hdone : phase.once ≠ .done ()) : (c.move i phase).Sound := by
  refine ⟨?_, hsound.clean⟩
  rw [c.once_move]
  apply hsound.guarded.move hinside
  · intro hphase
    simp [SemanticCache.once, hmaking (Phase.once_eq_making_iff.mp hphase)]
  · exact fun _ hphase => absurd hphase hdone

def Cluster.Sound (k : Cluster) : Prop := ∀ g, (k.cache g).Sound

theorem Cluster.Sound.set {k : Cluster} (hsound : k.Sound) {g : Nat} {c : SemanticCache}
    (hc : c.Sound) : (k.set g c).Sound := by
  intro g'
  by_cases hg : g' = g
  · subst hg
    simpa [Cluster.set] using hc
  · simpa [Cluster.set, hg] using hsound g'

theorem Cluster.Sound.next {dim : Nat → Nat} {k k' : Cluster} {e : Event} (hsound : k.Sound)
    (hstep : IndexSetup.next dim k e = some k') : k'.Sound := by
  rcases next_cases hstep with ⟨g, i, -, hphase, rfl⟩ | ⟨g, i, -, hphase, hfree, rfl⟩ |
    ⟨g, i, -, hphase, ⟨hdone, rfl⟩ | ⟨hdone, rfl⟩⟩ | ⟨g, i, err, -, hphase, ⟨-, rfl⟩ | rfl⟩ |
    ⟨g, i, applied, err, err', -, hphase, ⟨-, -, rfl⟩ | ⟨-, -, rfl⟩⟩
  · apply hsound.set
    apply (hsound g).move <;> simp [hphase, Phase.once, Once.Phase.Inside, Phase.Commands]
  · apply hsound.set
    refine ⟨?_, (hsound g).clean⟩
    apply (hsound g).guarded.next (e := .acquire i)
    have hwaiting : (k.cache g).once.phase i = .waiting := by simp [SemanticCache.once, hphase, Phase.once]
    have hnobody : (k.cache g).once.holder = none := hfree
    simp only [Once.next, hwaiting, hnobody]
    rw [show Once.Phase.holding = Phase.once .locked from rfl, ← (k.cache g).once_move]
    rfl
  · apply hsound.set
    refine ⟨?_, (hsound g).clean⟩
    apply (hsound g).guarded.next (e := .look i)
    have hholding : (k.cache g).once.phase i = .holding := by simp [SemanticCache.once, hphase, Phase.once]
    have hcell : (k.cache g).once.cell = some () := by simp [SemanticCache.once, hdone]
    simp only [Once.next, hholding, hcell, (hsound g).clean hdone]
    rw [show Once.Phase.done () = Phase.once (.returned none) from rfl, Once.State.leave,
      ← (k.cache g).once_move]
    rfl
  · apply hsound.set
    apply (hsound g).move <;> simp [hphase, hdone, Phase.once, Once.Phase.Inside]
  · exact hsound.set ((hsound g).ensured (by simp [hphase, Phase.Commands]) err)
  · apply hsound.set
    have hdone := (hsound g).not_done (i := i) (by simp [hphase, Phase.Commands])
    apply (hsound g).move <;> simp [hphase, hdone, Phase.once, Once.Phase.Inside]
  · exact hsound.set ((hsound g).ensured (by simp [hphase, Phase.Commands]) err')
  · exact hsound.set ((hsound g).ensured (by simp [hphase, Phase.Commands]) err')

theorem sound_run {dim : Nat → Nat} {index : Option Nat} {es : List Event} {k : Cluster}
    (hrun : Run (Steps (next dim)) (Cluster.start index) es k) : k.Sound :=
  hrun.invariant Cluster.Sound (fun _ => SemanticCache.sound_new) fun _ _ _ hsound hstep =>
    hsound.next hstep

/-! ### The index -/

/-- The dimensions of the indexes Redis made along a run. -/
def created (dim : Nat → Nat) (es : List Event) : List Nat :=
  es.filterMap fun
    | .create g _ true _ => some (dim g)
    | _ => none

/-- Nothing else touches the index, and it is made only where there is none. -/
theorem created_run {dim : Nat → Nat} {index : Option Nat} {es : List Event} {k : Cluster}
    (hrun : Run (Steps (next dim)) (Cluster.start index) es k) :
    index.toList ++ created dim es = k.index.toList := by
  apply hrun.history_invariant (fun es k => index.toList ++ created dim es = k.index.toList)
  · simp [created, Cluster.start]
  · intro es k e k' _ ih hstep
    have happend : index.toList ++ created dim (es ++ [e]) = k.index.toList ++ created dim [e] := by
      rw [← ih, created, List.filterMap_append, ← List.append_assoc]
      rfl
    rw [happend]
    rcases next_cases hstep with ⟨g, i, rfl, -, rfl⟩ | ⟨g, i, rfl, -, -, rfl⟩ |
      ⟨g, i, rfl, -, ⟨-, rfl⟩ | ⟨-, rfl⟩⟩ | ⟨g, i, err, rfl, -, ⟨-, rfl⟩ | rfl⟩ |
      ⟨g, i, applied, err, err', rfl, -, ⟨rfl, hnone, rfl⟩ | ⟨rfl, -, rfl⟩⟩
    case inr.inr.inr.inr.inl => simp [created, hnone]
    all_goals simp [created, Cluster.set]

/-- No gateway thinks the index made when it is not. -/
theorem index_of_done {dim : Nat → Nat} {index : Option Nat} {es : List Event} {k : Cluster}
    (hrun : Run (Steps (next dim)) (Cluster.start index) es k) :
    ∀ g, (k.cache g).ensureDone = true → k.index.isSome := by
  apply hrun.invariant (fun k => ∀ g, (k.cache g).ensureDone = true → k.index.isSome)
  · simp [Cluster.start, SemanticCache.new]
  · intro k e k' ih hstep g'
    rcases next_cases hstep with ⟨g, i, -, -, rfl⟩ | ⟨g, i, -, -, -, rfl⟩ |
      ⟨g, i, -, -, ⟨-, rfl⟩ | ⟨-, rfl⟩⟩ | ⟨g, i, err, -, -, ⟨hfound, rfl⟩ | rfl⟩ |
      ⟨g, i, applied, err, err', -, -, ⟨-, -, rfl⟩ | ⟨-, hthere, rfl⟩⟩
    case inr.inr.inr.inl.inl =>
      by_cases hg : g' = g
      · subst hg
        simpa [Cluster.set, SemanticCache.ensured] using hfound
      · simpa [Cluster.set, hg] using ih g'
    case inr.inr.inr.inr.inl => simp
    case inr.inr.inr.inr.inr =>
      by_cases hg : g' = g
      · subst hg
        simpa [Cluster.set, SemanticCache.ensured] using hthere
      · simpa [Cluster.set, hg] using ih g'
    all_goals
      by_cases hg : g' = g
      · subst hg
        simpa [Cluster.set, SemanticCache.move, SemanticCache.unlock] using ih g'
      · simpa [Cluster.set, hg] using ih g'

theorem SemanticCache.Sound.done_of_returned {c : SemanticCache} (hsound : c.Sound) {i : Nat}
    (hreturned : c.request i = .returned none) : c.ensureDone = true := by
  have hcell := hsound.guarded.done i () (by simp [SemanticCache.once, hreturned, Phase.once])
  simpa [SemanticCache.once] using hcell

theorem SemanticCache.Sound.commands_unique {c : SemanticCache} (hsound : c.Sound) {i j : Nat}
    (hi : (c.request i).Commands) (hj : (c.request j).Commands) : i = j := by
  have hinside : ∀ i, (c.request i).Commands → c.once.holder = some i := by
    intro i hcommands
    have hmaking : c.once.phase i = .making := Phase.once_eq_making_iff.mpr hcommands
    exact (hsound.guarded.inside_iff i).mp (by simp [hmaking, Once.Phase.Inside])
  have heq := hinside i hi
  rw [hinside j hj] at heq
  exact (Option.some.inj heq).symm

/-- The event is a command to Redis. -/
def Event.Commands : Event → Prop
  | .info _ _ _ | .create _ _ _ _ => True
  | _ => False

theorem not_done_of_commands {dim : Nat → Nat} {k k' : Cluster} {e : Event} (hsound : k.Sound)
    (hstep : next dim k e = some k') (hcommands : e.Commands) :
    (k.cache e.gateway).ensureDone = false := by
  rcases next_cases hstep with ⟨g, i, rfl, -, -⟩ | ⟨g, i, rfl, -, -⟩ | ⟨g, i, rfl, -, -⟩ |
    ⟨g, i, err, rfl, hphase, -⟩ | ⟨g, i, applied, err, err', rfl, hphase, -⟩
  · exact hcommands.elim
  · exact hcommands.elim
  · exact hcommands.elim
  · exact (hsound g).not_done (i := i) (by simp [hphase, Phase.Commands])
  · exact (hsound g).not_done (i := i) (by simp [hphase, Phase.Commands])

/-- A request that gets the lock leaves it as the index is done, or asks Redis itself. -/
theorem goes_on {dim : Nat → Nat} {k : Cluster} {g i : Nat} (hsound : (k.cache g).Sound)
    (hwaiting : (k.cache g).request i = .waiting) (hfree : (k.cache g).ensureMu = none) :
    ∃ k', Run (Steps (next dim)) k [.lock g i, .check g i] k' ∧
      (k'.cache g).request i = if (k.cache g).ensureDone then .returned none else .asking := by
  have hlock : next dim k (.lock g i) =
      some (k.set g { (k.cache g).move i .locked with ensureMu := some i }) := by
    simp [next, truthful, hwaiting, hfree]
  generalize hlocked : { (k.cache g).move i .locked with ensureMu := some i } = locked at hlock
  have hphase : ((k.set g locked).cache g).request i = .locked := by
    simp [Cluster.set, ← hlocked, SemanticCache.move]
  have hsame : ((k.set g locked).cache g).ensureDone = (k.cache g).ensureDone := by
    simp [Cluster.set, ← hlocked, SemanticCache.move]
  cases hdone : (k.cache g).ensureDone with
  | false =>
      have hcheck : next dim (k.set g locked) (.check g i) =
          some ((k.set g locked).set g (((k.set g locked).cache g).move i .asking)) := by
        simp [next, truthful, hphase, hsame, hdone]
      exact ⟨_, .snoc (.single hlock) hcheck, by simp [Cluster.set, SemanticCache.move]⟩
  | true =>
      have hcheck : next dim (k.set g locked) (.check g i) = some ((k.set g locked).set g
          (((k.set g locked).cache g).unlock i ((k.set g locked).cache g).ensureErr)) := by
        simp [next, truthful, hphase, hsame, hdone]
      have herr : ((k.set g locked).cache g).ensureErr = none := by
        simpa [Cluster.set, ← hlocked, SemanticCache.move] using hsound.clean hdone
      refine ⟨_, .snoc (.single hlock) hcheck, ?_⟩
      simp [Cluster.set, SemanticCache.unlock, SemanticCache.move, ← herr]

/-- For any number of gateways and requests in any interleaving: Redis makes no more than one index;
when `ensureIndex` has returned without an error the index is there, and that gateway sends no
further command for it; no two requests of one gateway send commands at once; and a request that
waits while nobody has the lock goes on, whatever failed before. -/
theorem created_once (dim : Nat → Nat) (index : Option Nat) (es : List Event) (k : Cluster)
    (hrun : Run (Steps (next dim)) (Cluster.start index) es k) :
    index.toList ++ created dim es = k.index.toList ∧
    (∀ g i, (k.cache g).request i = .returned none → k.index.isSome ∧
      ∀ e k', next dim k e = some k' → e.Commands → e.gateway ≠ g) ∧
    (∀ g i j, ((k.cache g).request i).Commands → ((k.cache g).request j).Commands → i = j) ∧
    ∀ g i, (k.cache g).request i = .waiting → (k.cache g).ensureMu = none →
      ∃ k', Run (Steps (next dim)) k [.lock g i, .check g i] k' ∧
        (k'.cache g).request i =
          if (k.cache g).ensureDone then .returned none else .asking := by
  have hsound := sound_run hrun
  refine ⟨created_run hrun, fun g i hreturned => ?_, fun g i j hi hj => ?_, fun g i hwaiting hfree => ?_⟩
  · have hdone := (hsound g).done_of_returned hreturned
    refine ⟨index_of_done hrun g hdone, fun e k' hstep hcommands hgateway => ?_⟩
    have hnot := not_done_of_commands hsound hstep hcommands
    rw [hgateway, hdone] at hnot
    cases hnot
  · exact (hsound g).commands_unique hi hj
  · exact goes_on (hsound g) hwaiting hfree

/-- Two gateways find no index; the later of them is told that the other has made it. -/
def race : List Event :=
  [.enter 0 0, .enter 1 0, .lock 0 0, .lock 1 0, .check 0 0, .check 1 0,
    .info 0 0 (some "Unknown index name"), .info 1 0 (some "Unknown index name"),
    .create 0 0 true none, .create 1 0 false (some "Index already exists"), .enter 1 1]

theorem created_once_race : ∃ k : Cluster,
    Run (Steps (next fun _ => 1536)) (Cluster.start none) race k ∧
    (none : Option Nat).toList ++ created (fun _ => 1536) race = k.index.toList ∧
    (∀ g i, (k.cache g).request i = .returned none → k.index.isSome ∧
      ∀ e k', next (fun _ => 1536) k e = some k' → e.Commands → e.gateway ≠ g) ∧
    (∀ g i j, ((k.cache g).request i).Commands → ((k.cache g).request j).Commands → i = j) ∧
    ∀ g i, (k.cache g).request i = .waiting → (k.cache g).ensureMu = none →
      ∃ k', Run (Steps (next fun _ => 1536)) k [.lock g i, .check g i] k' ∧
        (k'.cache g).request i =
          if (k.cache g).ensureDone then .returned none else .asking := by
  have hends : (race.foldlM (next fun _ => 1536) (Cluster.start none)).isSome = true := by decide
  obtain ⟨k, hk⟩ := Option.isSome_iff_exists.mp hends
  have hrun := run_iff_foldlM.mpr hk
  exact ⟨k, hrun, created_once _ none race k hrun⟩

end IndexSetup

end CoreMesh.Cache
