import CoreMesh.Lib.Transition
import CoreMesh.Rag.Store

/-!
# Indexing and searching at once

The calls of a shared retriever, step by step. A call first makes sure that the sparse corpus has been
rebuilt from the dense points, by a check, a lock and the check again; an indexing call then writes to
the dense store, and after that to the sparse corpus.
-/

namespace CoreMesh.Rag

open OrderedDict (Distinct last?)
open Transition

/-! ### Calls -/

inductive Call where
  | index (chunks : List TextChunk)
  | search (topK : Int)

/-- A call that returns before it looks at the stores. -/
def Call.isIdle : Call → Bool
  | .index chunks => chunks.isEmpty
  | .search topK => decide (topK ≤ 0)

def Call.chunks : Call → List TextChunk
  | .index chunks => chunks
  | .search _ => []

/-- What a call does next. -/
inductive Phase where
  | start
  /-- The flag was not set, and the corpus is looked at, with the lock held or not. -/
  | checking (locked : Bool)
  | waiting
  | rechecking
  | loading
  | installing (chunks : List TextChunk)
  /-- The flag is set, and the lock released if it is held. -/
  | marking (locked : Bool)
  | releasing
  | ready
  | denseDone
  | sparseDone
  | done

/-- The retriever of a process, and how far each call has got. -/
structure Runtime (ids : Uuid5) where
  dense : DenseStore ids
  sparse : List TextChunk
  sparseHydrated : Bool
  /-- The call that holds the hydration lock. -/
  holder : Option Nat
  phase : Nat → Phase

variable {ids : Uuid5}

def Runtime.start (dense : DenseStore ids) : Runtime ids where
  dense := dense
  sparse := []
  sparseHydrated := false
  holder := none
  phase := fun _ => .start

def Runtime.move (s : Runtime ids) (i : Nat) (phase : Phase) : Runtime ids :=
  { s with phase := fun j => if j = i then phase else s.phase j }

inductive Event where
  /-- A step up to the return of `_ensure_sparse_hydrated`, but for the one below. -/
  | ensure (i : Nat)
  | install (i : Nat)
  | dense (i : Nat)
  | sparse (i : Nat)
  | finish (i : Nat)

/-- One step of a call. No call upserts while another one loads, so that all pages are read at once. -/
def next (calls : List Call) (s : Runtime ids) : Event → Option (Runtime ids)
  | .ensure i =>
      match calls[i]?, s.phase i with
      | some call, .start =>
          if call.isIdle then some (s.move i .done)
          else if s.sparseHydrated then some (s.move i (.marking false))
          else some (s.move i (.checking false))
      | some _, .checking locked =>
          if s.sparse.isEmpty then some (s.move i (if locked then .loading else .waiting))
          else some (s.move i (.marking locked))
      | some _, .waiting =>
          if s.holder.isNone then some ({ s with holder := some i }.move i .rechecking) else none
      | some _, .rechecking =>
          if s.sparseHydrated then some (s.move i (.marking true)) else some (s.move i (.checking true))
      | some _, .loading => some (s.move i (.installing s.dense.loadChunks))
      | some _, .marking locked =>
          some ({ s with sparseHydrated := true }.move i (if locked then .releasing else .ready))
      | some _, .releasing => some ({ s with holder := none }.move i .ready)
      | _, _ => none
  | .install i =>
      match s.phase i with
      | .installing chunks => some ({ s with sparse := chunks }.move i (.marking true))
      | _ => none
  | .dense i =>
      match calls[i]?, s.phase i with
      | some (.index chunks), .ready =>
          some ({ s with dense := s.dense.indexChunks chunks }.move i .denseDone)
      | _, _ => none
  | .sparse i =>
      match calls[i]?, s.phase i with
      | some (.index chunks), .denseDone =>
          some ({ s with sparse := upsertChunks s.sparse chunks }.move i .sparseDone)
      | _, _ => none
  | .finish i =>
      match calls[i]?, s.phase i with
      | some (.index _), .sparseDone => some ({ s with sparseHydrated := true }.move i .done)
      | some (.search _), .ready => some (s.move i .done)
      | _, _ => none

abbrev Reaches (calls : List Call) (dense : DenseStore ids) (events : List Event) (s : Runtime ids) :
    Prop :=
  Run (Steps (next calls)) (Runtime.start dense) events s

def Runtime.Completed (calls : List Call) (s : Runtime ids) : Prop :=
  ∀ i < calls.length, s.phase i = .done

/-! ### The lock -/

def Phase.holdsLock : Phase → Bool
  | .checking locked => locked
  | .rechecking => true
  | .loading => true
  | .installing _ => true
  | .marking locked => locked
  | .releasing => true
  | _ => false

/-- The call knows that the corpus has been rebuilt. -/
def Phase.isPast : Phase → Bool
  | .marking _ => true
  | .releasing => true
  | .ready => true
  | .denseDone => true
  | .sparseDone => true
  | _ => false

/-- What a step can do. -/
inductive Change (calls : List Call) (s : Runtime ids) : Event → Runtime ids → Prop where
  | returned {i : Nat} {call : Call} (hcall : calls[i]? = some call) (hphase : s.phase i = .start)
      (hidle : call.isIdle = true) : Change calls s (.ensure i) (s.move i .done)
  | found {i : Nat} {call : Call} (hcall : calls[i]? = some call) (hphase : s.phase i = .start)
      (hactive : call.isIdle = false) (hflag : s.sparseHydrated = true) :
      Change calls s (.ensure i) (s.move i (.marking false))
  | unset {i : Nat} {call : Call} (hcall : calls[i]? = some call) (hphase : s.phase i = .start)
      (hactive : call.isIdle = false) : Change calls s (.ensure i) (s.move i (.checking false))
  | empty {i : Nat} (hphase : s.phase i = .checking false) :
      Change calls s (.ensure i) (s.move i .waiting)
  | emptyAgain {i : Nat} (hphase : s.phase i = .checking true) :
      Change calls s (.ensure i) (s.move i .loading)
  | filled {i : Nat} {locked : Bool} (hphase : s.phase i = .checking locked) (hsparse : s.sparse ≠ []) :
      Change calls s (.ensure i) (s.move i (.marking locked))
  | acquired {i : Nat} (hphase : s.phase i = .waiting) (hfree : s.holder = none) :
      Change calls s (.ensure i) ({ s with holder := some i }.move i .rechecking)
  | foundAgain {i : Nat} (hphase : s.phase i = .rechecking) (hflag : s.sparseHydrated = true) :
      Change calls s (.ensure i) (s.move i (.marking true))
  | unsetAgain {i : Nat} (hphase : s.phase i = .rechecking) (hflag : s.sparseHydrated = false) :
      Change calls s (.ensure i) (s.move i (.checking true))
  | loaded {i : Nat} (hphase : s.phase i = .loading) :
      Change calls s (.ensure i) (s.move i (.installing s.dense.loadChunks))
  | marked {i : Nat} (hphase : s.phase i = .marking false) :
      Change calls s (.ensure i) ({ s with sparseHydrated := true }.move i .ready)
  | markedLocked {i : Nat} (hphase : s.phase i = .marking true) :
      Change calls s (.ensure i) ({ s with sparseHydrated := true }.move i .releasing)
  | released {i : Nat} (hphase : s.phase i = .releasing) :
      Change calls s (.ensure i) ({ s with holder := none }.move i .ready)
  | installed {i : Nat} {chunks : List TextChunk} (hphase : s.phase i = .installing chunks) :
      Change calls s (.install i) ({ s with sparse := chunks }.move i (.marking true))
  | dense {i : Nat} {chunks : List TextChunk} (hcall : calls[i]? = some (.index chunks))
      (hphase : s.phase i = .ready) :
      Change calls s (.dense i) ({ s with dense := s.dense.indexChunks chunks }.move i .denseDone)
  | sparse {i : Nat} {chunks : List TextChunk} (hcall : calls[i]? = some (.index chunks))
      (hphase : s.phase i = .denseDone) :
      Change calls s (.sparse i) ({ s with sparse := upsertChunks s.sparse chunks }.move i .sparseDone)
  | indexed {i : Nat} {chunks : List TextChunk} (hcall : calls[i]? = some (.index chunks))
      (hphase : s.phase i = .sparseDone) :
      Change calls s (.finish i) ({ s with sparseHydrated := true }.move i .done)
  | searched {i : Nat} {topK : Int} (hcall : calls[i]? = some (.search topK))
      (hphase : s.phase i = .ready) : Change calls s (.finish i) (s.move i .done)

theorem change_of_next {calls : List Call} {s s' : Runtime ids} {event : Event}
    (hstep : next calls s event = some s') : Change calls s event s' := by
  cases event with
  | ensure i =>
      rw [next] at hstep
      split at hstep
      · rename_i call hcall hphase
        split at hstep
        · obtain rfl := Option.some.inj hstep
          exact .returned hcall hphase ‹_›
        · rename_i hactive
          rw [Bool.not_eq_true] at hactive
          split at hstep
          · obtain rfl := Option.some.inj hstep
            exact .found hcall hphase hactive ‹_›
          · obtain rfl := Option.some.inj hstep
            exact .unset hcall hphase hactive
      · rename_i locked hcall hphase
        split at hstep
        · obtain rfl := Option.some.inj hstep
          cases locked with
          | false => exact .empty hphase
          | true => exact .emptyAgain hphase
        · rename_i hsparse
          obtain rfl := Option.some.inj hstep
          exact .filled hphase (by simpa using hsparse)
      · rename_i hphase
        split at hstep
        · rename_i hfree
          obtain rfl := Option.some.inj hstep
          exact .acquired hphase (Option.isNone_iff_eq_none.mp hfree)
        · cases hstep
      · rename_i hphase
        split at hstep
        · obtain rfl := Option.some.inj hstep
          exact .foundAgain hphase ‹_›
        · rename_i hflag
          obtain rfl := Option.some.inj hstep
          exact .unsetAgain hphase (by simpa using hflag)
      · rename_i hphase
        obtain rfl := Option.some.inj hstep
        exact .loaded hphase
      · rename_i locked hcall hphase
        obtain rfl := Option.some.inj hstep
        cases locked with
        | false => exact .marked hphase
        | true => exact .markedLocked hphase
      · rename_i hphase
        obtain rfl := Option.some.inj hstep
        exact .released hphase
      · cases hstep
  | install i =>
      rw [next] at hstep
      split at hstep
      · obtain rfl := Option.some.inj hstep
        exact .installed ‹_›
      · cases hstep
  | dense i =>
      rw [next] at hstep
      split at hstep
      · obtain rfl := Option.some.inj hstep
        exact .dense ‹_› ‹_›
      · cases hstep
  | sparse i =>
      rw [next] at hstep
      split at hstep
      · obtain rfl := Option.some.inj hstep
        exact .sparse ‹_› ‹_›
      · cases hstep
  | finish i =>
      rw [next] at hstep
      split at hstep
      · obtain rfl := Option.some.inj hstep
        exact .indexed ‹_› ‹_›
      · obtain rfl := Option.some.inj hstep
        exact .searched ‹_› ‹_›
      · cases hstep

/-! ### Before and after the corpus is rebuilt -/

section Stages

variable {calls : List Call} {s s' : Runtime ids} {event : Event}

/-- The lock is held by the call that is behind it. -/
def Runtime.Locked (s : Runtime ids) : Prop :=
  ∀ i, (s.phase i).holdsLock = true → s.holder = some i

theorem Runtime.Locked.step (hlocked : s.Locked) (hchange : Change calls s event s') : s'.Locked := by
  intro j hj
  cases hchange <;> simp only [Runtime.move, Runtime.Locked] at * <;> grind [Phase.holdsLock]

/-- A call that is under way is one that does not return at once. -/
def Runtime.Active (calls : List Call) (s : Runtime ids) : Prop :=
  ∀ i, s.phase i ≠ .start → s.phase i ≠ .done → ∃ call, calls[i]? = some call ∧ call.isIdle = false

theorem Runtime.Active.step (hactive : s.Active calls) (hchange : Change calls s event s') :
    s'.Active calls := by
  intro j hstart hdone
  have hstarted := hactive j
  cases hchange <;> simp only [Runtime.move] at * <;> grind

/-- Nothing has been rebuilt or written yet. -/
structure Early (calls : List Call) (stored : DenseStore ids) (s : Runtime ids) : Prop where
  dense : s.dense = stored
  sparse : s.sparse = []
  flag : s.sparseHydrated = false
  behind : ∀ i, (s.phase i).isPast = false
  done : ∀ i, s.phase i = .done → ∃ call, calls[i]? = some call ∧ call.isIdle = true
  loaded : ∀ i chunks, s.phase i = .installing chunks → chunks = stored.loadChunks

theorem Early.step {stored : DenseStore ids} (hearly : Early calls stored s)
    (hchange : Change calls s event s') (hinstall : ∀ i, event ≠ .install i) :
    Early calls stored s' := by
  obtain ⟨hdense, hsparse, hflag, hbehind, hdone, hloaded⟩ := hearly
  cases hchange
  case installed i _ _ => exact absurd rfl (hinstall i)
  all_goals
    refine ⟨?_, ?_, ?_, fun j => ?_, fun j => ?_, fun j chunks => ?_⟩ <;>
      simp only [Runtime.move] at * <;> grind [Phase.isPast]

/-- The corpus has been rebuilt, and no call will rebuild it. -/
structure Late (s : Runtime ids) : Prop where
  behind : ∀ i, s.phase i ≠ .loading ∧ s.phase i ≠ .checking true ∧
    ∀ chunks, s.phase i ≠ .installing chunks
  flag : s.sparseHydrated = true ∨ ∃ i, s.phase i = .marking true

theorem Late.of_install {i : Nat} (hlocked : s.Locked) (hchange : Change calls s (.install i) s') :
    Late s' := by
  cases hchange with
  | installed hphase =>
      refine ⟨fun j => ?_, .inr ⟨i, if_pos rfl⟩⟩
      have hi := hlocked i (by rw [hphase]; rfl)
      have hj := hlocked j
      simp only [Runtime.move]
      grind [Phase.holdsLock]

theorem Late.step (hlocked : s.Locked) (hlate : Late s) (hchange : Change calls s event s') :
    Late s' := by
  obtain ⟨hbehind, hflag⟩ := hlate
  have hheld : ∀ i, s.phase i = .rechecking → s.sparseHydrated = true := by
    -- The call that has rebuilt the corpus sets the flag before it releases the lock.
    intro i hi
    obtain hflag | ⟨j, hj⟩ := hflag
    · exact hflag
    · have hsame := (hlocked i (by rw [hi]; rfl)).symm.trans (hlocked j (by rw [hj]; rfl))
      obtain rfl := Option.some.inj hsame
      rw [hi] at hj
      cases hj
  cases hchange <;> refine ⟨fun j => ?_, ?_⟩ <;> simp only [Runtime.move] at * <;> grind

end Stages

/-! ### What has been written -/

def chunksOf (calls : List Call) (i : Nat) : List TextChunk := (calls[i]?).elim [] Call.chunks

theorem chunksOf_eq {calls : List Call} {i : Nat} {call : Call} (hcall : calls[i]? = some call) :
    chunksOf calls i = call.chunks := by
  rw [chunksOf, hcall]
  rfl

def Event.denseChunks (calls : List Call) : Event → List TextChunk
  | .dense i => chunksOf calls i
  | _ => []

def Event.sparseChunks (calls : List Call) : Event → List TextChunk
  | .sparse i => chunksOf calls i
  | _ => []

/-- What has been written to the dense store, in the order in which it was. -/
def denseWrites (calls : List Call) (events : List Event) : List TextChunk :=
  events.flatMap (Event.denseChunks calls)

/-- What has been written to the sparse corpus, in the order in which it was. -/
def sparseWrites (calls : List Call) (events : List Event) : List TextChunk :=
  events.flatMap (Event.sparseChunks calls)

section Writes

variable {calls : List Call} {stored : DenseStore ids} {events : List Event} {s s' : Runtime ids}
  {event : Event}

theorem denseWrites_concat : denseWrites calls (events ++ [event]) =
    denseWrites calls events ++ event.denseChunks calls := by
  rw [denseWrites, List.flatMap_append, List.flatMap_singleton]
  rfl

theorem sparseWrites_concat : sparseWrites calls (events ++ [event]) =
    sparseWrites calls events ++ event.sparseChunks calls := by
  rw [sparseWrites, List.flatMap_append, List.flatMap_singleton]
  rfl

/-- The dense store has what was in it and what has been written. -/
def DenseWritten (calls : List Call) (stored : DenseStore ids) (events : List Event)
    (s : Runtime ids) : Prop :=
  ∀ id, s.dense.get? id =
    (last? TextChunk.chunkId (denseWrites calls events) id).or (stored.get? id)

theorem DenseWritten.step (hwritten : DenseWritten calls stored events s)
    (hchange : Change calls s event s') : DenseWritten calls stored (events ++ [event]) s' := by
  intro id
  rw [denseWrites_concat, OrderedDict.last?_append]
  cases hchange
  case dense i chunks hcall hphase =>
    show (s.dense.indexChunks chunks).get? id = _
    rw [DenseStore.get?_indexChunks, hwritten, Event.denseChunks, chunksOf_eq hcall, Option.or_assoc]
    rfl
  all_goals exact hwritten id

/-- The sparse corpus has what was loaded and what has been written. -/
structure SparseWritten (calls : List Call) (stored : DenseStore ids) (events : List Event)
    (s : Runtime ids) : Prop where
  distinct : Distinct TextChunk.chunkId s.sparse
  get? : ∀ id, OrderedDict.get? TextChunk.chunkId s.sparse id =
    (last? TextChunk.chunkId (sparseWrites calls events) id).or (stored.get? id)

theorem SparseWritten.step (hwritten : SparseWritten calls stored events s)
    (hchange : Change calls s event s') (hinstall : ∀ i, event ≠ .install i) :
    SparseWritten calls stored (events ++ [event]) s' := by
  have hwrites : ∀ id, last? TextChunk.chunkId (sparseWrites calls (events ++ [event])) id =
      (last? TextChunk.chunkId (event.sparseChunks calls) id).or
        (last? TextChunk.chunkId (sparseWrites calls events) id) := by
    intro id
    rw [sparseWrites_concat, OrderedDict.last?_append]
  cases hchange
  case installed i _ _ => exact absurd rfl (hinstall i)
  case sparse i chunks hcall hphase =>
    have hupsert := upsertChunks_eq hwritten.distinct chunks
    refine ⟨?_, fun id => ?_⟩
    · show Distinct TextChunk.chunkId (upsertChunks s.sparse chunks)
      rw [hupsert]
      exact hwritten.distinct.insertAll chunks
    · show OrderedDict.get? TextChunk.chunkId (upsertChunks s.sparse chunks) id = _
      rw [hwrites, hupsert, OrderedDict.get?_insertAll, hwritten.get?, Event.sparseChunks,
        chunksOf_eq hcall, Option.or_assoc]
      rfl
  all_goals exact ⟨hwritten.distinct, fun id => by rw [hwrites]; exact hwritten.get? id⟩

/-- Each store has been written by the calls that are past that write. -/
structure Writers (calls : List Call) (events : List Event) (s : Runtime ids) : Prop where
  dense : ∀ chunk, chunk ∈ denseWrites calls events ↔ ∃ i, chunk ∈ chunksOf calls i ∧
    (s.phase i = .denseDone ∨ s.phase i = .sparseDone ∨ s.phase i = .done)
  sparse : ∀ chunk, chunk ∈ sparseWrites calls events ↔ ∃ i, chunk ∈ chunksOf calls i ∧
    (s.phase i = .sparseDone ∨ s.phase i = .done)

theorem chunks_of_isIdle {call : Call} (hidle : call.isIdle = true) : call.chunks = [] := by
  cases call with
  | index chunks => exact List.isEmpty_iff.mp hidle
  | search topK => rfl

theorem Writers.step (hwriters : Writers calls events s) (hchange : Change calls s event s') :
    Writers calls (events ++ [event]) s' := by
  obtain ⟨hdense, hsparse⟩ := hwriters
  have hnone : ∀ {i call}, calls[i]? = some call → call.chunks = [] → ∀ chunk, chunk ∉ chunksOf calls i := by
    intro i call hcall hchunks chunk
    rw [chunksOf_eq hcall, hchunks]
    exact List.not_mem_nil
  refine ⟨fun chunk => ?_, fun chunk => ?_⟩
  · rw [denseWrites_concat, List.mem_append, hdense]
    cases hchange
    case returned hcall hphase hidle =>
      have hempty := hnone hcall (chunks_of_isIdle hidle)
      simp only [Runtime.move, Event.denseChunks]
      grind
    case searched hcall hphase =>
      have hempty := hnone hcall rfl
      simp only [Runtime.move, Event.denseChunks]
      grind
    all_goals
      simp only [Runtime.move, Event.denseChunks]
      grind
  · rw [sparseWrites_concat, List.mem_append, hsparse]
    cases hchange
    case returned hcall hphase hidle =>
      have hempty := hnone hcall (chunks_of_isIdle hidle)
      simp only [Runtime.move, Event.sparseChunks]
      grind
    case searched hcall hphase =>
      have hempty := hnone hcall rfl
      simp only [Runtime.move, Event.sparseChunks]
      grind
    all_goals
      simp only [Runtime.move, Event.sparseChunks]
      grind

end Writes

/-! ### Runs -/

section Runs

variable {calls : List Call} {stored : DenseStore ids} {events : List Event} {s s' : Runtime ids}

/-- Either nothing has happened to the stores, or the corpus has been rebuilt. -/
inductive Stage (calls : List Call) (stored : DenseStore ids) (events : List Event) (s : Runtime ids) :
    Prop where
  | early (hearly : Early calls stored s)
  | late (hlate : Late s) (hcall : ∃ call ∈ calls, call.isIdle = false)
      (hwritten : SparseWritten calls stored events s)

structure Inv (calls : List Call) (stored : DenseStore ids) (events : List Event) (s : Runtime ids) :
    Prop where
  locked : s.Locked
  active : s.Active calls
  dense : DenseWritten calls stored events s
  writers : Writers calls events s
  stage : Stage calls stored events s

theorem Inv.start (calls : List Call) (stored : DenseStore ids) :
    Inv calls stored [] (Runtime.start stored) where
  locked := fun _ hheld => by cases hheld
  active := fun _ hphase => absurd rfl hphase
  dense := fun _ => rfl
  writers := ⟨by simp [denseWrites, Runtime.start], by simp [sparseWrites, Runtime.start]⟩
  stage := .early {
    dense := rfl
    sparse := rfl
    flag := rfl
    behind := fun _ => rfl
    done := fun _ hdone => Phase.noConfusion hdone
    loaded := fun _ _ hloaded => Phase.noConfusion hloaded }

/-- The corpus is rebuilt before anything is written. -/
theorem sparseWritten_of_install {i : Nat} (hearly : Early calls stored s)
    (hwriters : Writers calls events s) (hchange : Change calls s (.install i) s') :
    SparseWritten calls stored (events ++ [.install i]) s' := by
  have hwrites : sparseWrites calls events = [] := by
    rw [List.eq_nil_iff_forall_not_mem]
    intro chunk hchunk
    obtain ⟨j, hj, hphase | hphase⟩ := (hwriters.sparse chunk).mp hchunk
    · have hbehind := hearly.behind j
      rw [hphase] at hbehind
      cases hbehind
    · obtain ⟨call, hcall, hidle⟩ := hearly.done j hphase
      rw [chunksOf_eq hcall, chunks_of_isIdle hidle] at hj
      cases hj
  have hnothing : sparseWrites calls (events ++ [.install i]) = [] := by
    rw [sparseWrites_concat, hwrites]
    rfl
  cases hchange with
  | installed hphase =>
      obtain rfl := hearly.loaded i _ hphase
      refine ⟨stored.distinct_loadChunks, fun id => ?_⟩
      rw [hnothing]
      exact stored.get?_loadChunks id

theorem Inv.step (hinv : Inv calls stored events s) {event : Event}
    (hstep : Steps (next calls) s event s') : Inv calls stored (events ++ [event]) s' := by
  obtain ⟨hlocked, hactive, hdense, hwriters, hstage⟩ := hinv
  have hchange := change_of_next hstep
  refine ⟨hlocked.step hchange, hactive.step hchange, hdense.step hchange, hwriters.step hchange, ?_⟩
  cases hstage with
  | early hearly =>
      by_cases hinstall : ∃ i, event = .install i
      · obtain ⟨i, rfl⟩ := hinstall
        refine .late (.of_install hlocked hchange) ?_ (sparseWritten_of_install hearly hwriters hchange)
        cases hchange with
        | installed hphase =>
            obtain ⟨call, hcall, hidle⟩ := hactive i (by simp [hphase]) (by simp [hphase])
            exact ⟨call, List.mem_of_getElem? hcall, hidle⟩
      · exact .early (hearly.step hchange fun i heq => hinstall ⟨i, heq⟩)
  | late hlate hcall hwritten =>
      refine .late (hlate.step hlocked hchange) hcall (hwritten.step hchange ?_)
      rintro i rfl
      cases hchange with
      | installed hphase => exact (hlate.behind i).2.2 _ hphase

theorem inv_of_reaches (hrun : Reaches calls stored events s) : Inv calls stored events s :=
  hrun.history_invariant (Inv calls stored) (Inv.start calls stored)
    fun _ _ _ _ _ hinv hstep => hinv.step hstep

/-- Once all calls have been completed, both stores have been written by the same calls. -/
theorem writes_of_completed (hwriters : Writers calls events s) (hcompleted : s.Completed calls)
    (chunk : TextChunk) :
    chunk ∈ denseWrites calls events ↔ chunk ∈ sparseWrites calls events := by
  have hdone : ∀ i, chunk ∈ chunksOf calls i → s.phase i = .done := by
    intro i hchunk
    refine hcompleted i ?_
    by_contra hbeyond
    rw [chunksOf, List.getElem?_eq_none (not_lt.mp hbeyond)] at hchunk
    cases hchunk
  rw [hwriters.dense, hwriters.sparse]
  constructor
  · rintro ⟨i, hchunk, -⟩
    exact ⟨i, hchunk, .inr (hdone i hchunk)⟩
  · rintro ⟨i, hchunk, -⟩
    exact ⟨i, hchunk, .inr (.inr (hdone i hchunk))⟩

/-- The sparse corpus has the chunks of the dense store, each of them once. -/
def Runtime.Agrees (s : Runtime ids) : Prop := s.sparse.Perm s.dense.chunks

/-- Whatever chunk with an identifier was written last to the dense store was written last to the sparse
corpus. -/
def SameLast (calls : List Call) (events : List Event) : Prop :=
  ∀ id, last? TextChunk.chunkId (denseWrites calls events) id =
    last? TextChunk.chunkId (sparseWrites calls events) id

/-- Once all calls have been completed, the stores agree exactly if for each identifier the same chunk was
written last to both, and there was a call to rebuild the corpus if there was anything to rebuild. -/
theorem agrees_iff (hrun : Reaches calls stored events s) (hcompleted : s.Completed calls) :
    s.Agrees ↔ SameLast calls events ∧
      ((∃ call ∈ calls, call.isIdle = false) ∨ stored.points = []) := by
  obtain ⟨-, -, hdense, hwriters, hstage⟩ := inv_of_reaches hrun
  have hwrites := writes_of_completed hwriters hcompleted
  cases hstage with
  | early hearly =>
      have hidle : ∀ call ∈ calls, call.isIdle = true := by
        intro call hcall
        obtain ⟨i, hi, rfl⟩ := List.mem_iff_getElem.mp hcall
        obtain ⟨call, hcall, hidle⟩ := hearly.done i (hcompleted i hi)
        rw [List.getElem?_eq_getElem hi] at hcall
        rwa [Option.some.inj hcall]
      have hnothing : denseWrites calls events = [] := by
        rw [List.eq_nil_iff_forall_not_mem]
        intro chunk hchunk
        obtain ⟨i, hi, -⟩ := (hwriters.dense chunk).mp hchunk
        cases hcall : calls[i]? with
        | none =>
            rw [chunksOf, hcall] at hi
            cases hi
        | some call =>
            rw [chunksOf_eq hcall, chunks_of_isIdle (hidle call (List.mem_of_getElem? hcall))] at hi
            cases hi
      have hnothing' : sparseWrites calls events = [] := by
        rw [List.eq_nil_iff_forall_not_mem]
        intro chunk hchunk
        rw [← hwrites, hnothing] at hchunk
        cases hchunk
      have hsame : SameLast calls events := fun id => by rw [hnothing, hnothing']
      have hagrees : s.Agrees ↔ stored.points = [] := by
        rw [Runtime.Agrees, hearly.sparse, hearly.dense, List.nil_perm, DenseStore.chunks, List.map_eq_nil_iff]
      rw [hagrees]
      constructor
      · exact fun hempty => ⟨hsame, .inr hempty⟩
      · rintro ⟨-, ⟨call, hcall, hactive⟩ | hempty⟩
        · rw [hidle call hcall] at hactive
          cases hactive
        · exact hempty
  | late hlate hcall hwritten =>
      rw [Runtime.Agrees, hwritten.distinct.perm_iff s.dense.distinct_chunks,
        and_iff_left (.inl hcall)]
      refine forall_congr' fun id => ?_
      rw [← s.dense.get?_eq, hwritten.get?, hdense]
      have hboth : last? TextChunk.chunkId (denseWrites calls events) id = none ↔
          last? TextChunk.chunkId (sparseWrites calls events) id = none := by
        rw [OrderedDict.last?_eq_none_iff, OrderedDict.last?_eq_none_iff]
        exact forall_congr' fun chunk => by rw [hwrites]
      cases hlast : last? TextChunk.chunkId (denseWrites calls events) id with
      | none => simp [hboth.mp hlast]
      | some chunk =>
          obtain ⟨chunk', hlast'⟩ := Option.ne_none_iff_exists'.mp fun hnone =>
            Option.some_ne_none chunk (hlast.symm.trans (hboth.mpr hnone))
          rw [hlast', Option.some_or, Option.some_or]
          exact eq_comm

end Runs

/-! ### Two calls -/

def nameIds : Uuid5 := ⟨id, Function.injective_id⟩

def page (text : String) : TextChunk := ⟨"manual:page:1", text, "manual.pdf", []⟩

/-- The same identifier, with different texts. -/
def revisions : List Call := [.index [page "old"], .index [page "new"]]

/-- The first call rebuilds the corpus, and the second one finds it rebuilt. -/
def hydrated : List Event :=
  List.replicate 6 (.ensure 0) ++ [.install 0] ++ List.replicate 2 (.ensure 0) ++
    List.replicate 2 (.ensure 1)

def inTurn : List Event :=
  hydrated ++ [.dense 0, .sparse 0, .finish 0, .dense 1, .sparse 1, .finish 1]

def crossed : List Event :=
  hydrated ++ [.dense 0, .dense 1, .sparse 1, .sparse 0, .finish 0, .finish 1]

theorem completed_revisions {s : Runtime nameIds} (hdone : s.phase 0 = .done ∧ s.phase 1 = .done) :
    s.Completed revisions := by
  intro i hi
  obtain rfl | rfl : i = 0 ∨ i = 1 := by
    simp only [revisions, List.length_cons, List.length_nil] at hi
    omega
  · exact hdone.1
  · exact hdone.2

theorem agrees_iff_inTurn : ∃ s : Runtime nameIds,
    Reaches revisions (DenseStore.empty nameIds) inTurn s ∧ s.Completed revisions ∧ s.Agrees := by
  obtain ⟨s, hend, hdone⟩ : ∃ s : Runtime nameIds,
      inTurn.foldlM (next revisions) (Runtime.start (DenseStore.empty nameIds)) = some s ∧
        (s.phase 0 = .done ∧ s.phase 1 = .done) := ⟨_, rfl, rfl, rfl⟩
  have hrun := run_iff_foldlM.mpr hend
  exact ⟨s, hrun, completed_revisions hdone, (agrees_iff hrun (completed_revisions hdone)).mpr
    ⟨fun _ => rfl, .inl ⟨.index [page "old"], List.mem_cons_self, rfl⟩⟩⟩

/-- The call that writes to the dense store first writes to the sparse corpus last, and its old text stays
there. -/
theorem not_agrees_of_crossed : ∃ s : Runtime nameIds,
    Reaches revisions (DenseStore.empty nameIds) crossed s ∧ s.Completed revisions ∧
      s.dense.chunks = [page "new"] ∧ s.sparse = [page "old"] ∧ ¬ s.Agrees := by
  obtain ⟨s, hend, hdone, hdense, hsparse⟩ : ∃ s : Runtime nameIds,
      crossed.foldlM (next revisions) (Runtime.start (DenseStore.empty nameIds)) = some s ∧
        (s.phase 0 = .done ∧ s.phase 1 = .done) ∧
        s.dense.chunks = [page "new"] ∧ s.sparse = [page "old"] := ⟨_, rfl, ⟨rfl, rfl⟩, rfl, rfl⟩
  refine ⟨s, run_iff_foldlM.mpr hend, completed_revisions hdone, hdense, hsparse, fun hagrees => ?_⟩
  rw [Runtime.Agrees, hdense, hsparse, List.singleton_perm_singleton] at hagrees
  exact absurd (congrArg TextChunk.text hagrees) (by decide)

end CoreMesh.Rag
