import CoreMesh.Lib.Once

/-!
# What the runtime's requests share

`get_rag_retriever` and `get_orchestrator_dependencies` of the HTTP service, called by any number of
requests at once. Each looks at `app.state`, takes its lock, looks again and only then makes the
object. The dependencies are made with `_DEPENDENCY_LOCK` held, and their RAG tool asks for the
retriever meanwhile.
-/

namespace CoreMesh.Runtime

open Transition Once

/-- A call of `get_rag_retriever` from an ingestion, or a call of `get_orchestrator_dependencies`. -/
inductive Call where
  | ingest (n : Nat)
  | execute (n : Nat)
  deriving DecidableEq

/-- An `OrchestratorDependencies` by its identity and by the retriever of its `rag_tool`. -/
structure Dependencies where
  identity : Nat
  retriever : Nat
  deriving DecidableEq

/-- `app.state` with both locks. An object is known by the number it was made under. -/
structure App where
  ragRetriever : Once.State Call Nat
  orchestratorDependencies : Once.State Nat Dependencies
  made : Nat

def App.start : App := ⟨State.start, State.start, 0⟩

inductive Event where
  | retriever (e : Once.Event Call Nat)
  | dependencies (e : Once.Event Nat Dependencies)

/-- A request is within `get_rag_retriever`: an ingestion calls it directly, an execution while it
makes the dependencies. -/
def App.Asks (a : App) : Call → Prop
  | .ingest _ => True
  | .execute n => a.orchestratorDependencies.phase n = .making

/-- What the code can come to. Nobody takes a lock without a look before; `HybridRetriever()` and
`OrchestratorDependencies(rag_tool=HybridRAGSearchTool(retriever=get_rag_retriever()))` return new
objects, the latter with the retriever its own call was given. -/
def App.Allows (a : App) : Event → Prop
  | .retriever (.enter _) => False
  | .retriever (.publish c retriever) => a.Asks c ∧ retriever = a.made
  | .retriever e => a.Asks e.caller
  | .dependencies (.enter _) => False
  | .dependencies (.publish n d) =>
      d.identity = a.made ∧ a.ragRetriever.phase (.execute n) = .done d.retriever
  | .dependencies (.fail n) => (a.ragRetriever.phase (.execute n)).Ended
  | .dependencies _ => True

inductive Step (a : App) : Event → App → Prop where
  | retriever {e : Once.Event Call Nat} {s : Once.State Call Nat} (hallows : a.Allows (.retriever e))
      (hstep : Once.next a.ragRetriever e = some s) :
      Step a (.retriever e) { a with ragRetriever := s, made := a.made + (published [e]).length }
  | dependencies {e : Once.Event Nat Dependencies} {s : Once.State Nat Dependencies}
      (hallows : a.Allows (.dependencies e))
      (hstep : Once.next a.orchestratorDependencies e = some s) :
      Step a (.dependencies e)
        { a with orchestratorDependencies := s, made := a.made + (published [e]).length }

/-! ### The invariant -/

structure App.Shared (a : App) : Prop where
  retriever : Guarded a.ragRetriever
  dependencies : Guarded a.orchestratorDependencies
  /-- An execution is under way in `get_rag_retriever` only while it makes the dependencies. -/
  nested : ∀ n, (a.ragRetriever.phase (.execute n)).Active →
    a.orchestratorDependencies.phase n = .making
  built : ∀ d, a.orchestratorDependencies.cell = some d → a.ragRetriever.cell = some d.retriever

theorem shared_start : App.start.Shared where
  retriever := guarded_start
  dependencies := guarded_start
  nested n := by simp [App.start, State.start, Phase.Active]
  built d := by simp [App.start, State.start]

theorem App.Asks.of_allows {a : App} {e : Once.Event Call Nat} (hallows : a.Allows (.retriever e)) :
    a.Asks e.caller := by
  cases e with
  | enter => exact hallows.elim
  | publish => exact hallows.1
  | peek | acquire | look | fail => exact hallows

/-- Whoever leaves the phase in which the dependencies are made is through with the retriever. -/
theorem ended_of_allows {a : App} {e : Once.Event Nat Dependencies}
    {s : Once.State Nat Dependencies} (hallows : a.Allows (.dependencies e))
    (hstep : Once.next a.orchestratorDependencies e = some s)
    (hmaking : a.orchestratorDependencies.phase e.caller = .making) :
    (a.ragRetriever.phase (.execute e.caller)).Ended := by
  cases e with
  | enter => exact hallows.elim
  | publish n d =>
      rw [show Once.Event.caller (.publish n d) = n from rfl, hallows.2]
      trivial
  | fail => exact hallows
  | peek n | acquire n | look n =>
      simp only [Event.caller] at hmaking
      simp [Once.next, hmaking] at hstep

theorem App.Shared.step {a a' : App} {e : Event} (hshared : a.Shared) (hstep : Step a e a') :
    a'.Shared := by
  cases hstep with
  | @retriever e s hallows hstep =>
      refine ⟨hshared.retriever.next hstep, hshared.dependencies, fun n hactive => ?_, fun d hd => ?_⟩
      · by_cases hn : Call.execute n = e.caller
        · have hasks := App.Asks.of_allows hallows
          rwa [← hn] at hasks
        · apply hshared.nested n
          rwa [phase_of_ne hstep hn] at hactive
      · exact hshared.retriever.cell_next hstep (hshared.built d hd)
  | @dependencies e s hallows hstep =>
      refine ⟨hshared.retriever, hshared.dependencies.next hstep, fun n hactive => ?_, fun d hd => ?_⟩
      · have hmaking := hshared.nested n hactive
        by_cases hn : n = e.caller
        · rw [hn] at hmaking hactive
          have hended := ended_of_allows hallows hstep hmaking
          cases hphase : a.ragRetriever.phase (.execute e.caller) <;>
            simp [hphase, Phase.Active, Phase.Ended] at hactive hended
        · change s.phase n = _
          rwa [phase_of_ne hstep hn]
      · rcases next_cases hstep with ⟨i, _, -, -, -, rfl⟩ | ⟨i, -, -, rfl⟩ | ⟨i, -, -, -, rfl⟩ |
          ⟨i, _, -, -, -, rfl⟩ | ⟨i, -, -, -, rfl⟩ | ⟨i, made, rfl, -, rfl⟩ | ⟨i, -, -, rfl⟩
        case inr.inr.inr.inr.inr.inl =>
          obtain rfl := Option.some.inj hd
          exact hshared.retriever.done _ _ hallows.2
        all_goals exact hshared.built d hd

theorem shared_run {es : List Event} {a : App} (hrun : Run Step App.start es a) : a.Shared :=
  hrun.invariant App.Shared shared_start fun _ _ _ hshared hstep => hshared.step hstep

/-! ### One retriever -/

/-- The objects `HybridRetriever()` returned along a run. -/
def retrieversMade (es : List Event) : List Nat :=
  published (es.filterMap fun
    | .retriever e => some e
    | .dependencies _ => none)

/-- The objects `OrchestratorDependencies(…)` returned along a run. -/
def dependenciesMade (es : List Event) : List Dependencies :=
  published (es.filterMap fun
    | .retriever _ => none
    | .dependencies e => some e)

theorem retriever_run {es : List Event} {a : App} (hrun : Run Step App.start es a) :
    Run (Steps Once.next) State.start (es.filterMap fun
      | .retriever e => some e
      | .dependencies _ => none) a.ragRetriever := by
  induction hrun with
  | start => exact .start
  | snoc _ hstep ih =>
      rw [List.filterMap_append]
      cases hstep with
      | retriever _ hstep => exact .snoc ih hstep
      | dependencies => simpa using ih

theorem dependencies_run {es : List Event} {a : App} (hrun : Run Step App.start es a) :
    Run (Steps Once.next) State.start (es.filterMap fun
      | .retriever _ => none
      | .dependencies e => some e) a.orchestratorDependencies := by
  induction hrun with
  | start => exact .start
  | snoc _ hstep ih =>
      rw [List.filterMap_append]
      cases hstep with
      | retriever => simpa using ih
      | dependencies _ hstep => exact .snoc ih hstep

/-- In every interleaving at most one retriever and one dependency graph are made, and every
ingestion and every execution that has been given one works on the same retriever. -/
theorem one_retriever (es : List Event) (a : App) (hrun : Run Step App.start es a) :
    (retrieversMade es).length ≤ 1 ∧ (dependenciesMade es).length ≤ 1 ∧
    (∀ c c' r r', a.ragRetriever.phase c = .done r → a.ragRetriever.phase c' = .done r' → r = r') ∧
    (∀ n n' d d', a.orchestratorDependencies.phase n = .done d →
      a.orchestratorDependencies.phase n' = .done d' → d = d') ∧
    ∀ n c d r, a.orchestratorDependencies.phase n = .done d → a.ragRetriever.phase c = .done r →
      d.retriever = r := by
  have hshared := shared_run hrun
  refine ⟨?_, ?_, ?_, ?_, ?_⟩
  · rw [retrieversMade, published_run (retriever_run hrun)]
    cases a.ragRetriever.cell <;> simp
  · rw [dependenciesMade, published_run (dependencies_run hrun)]
    cases a.orchestratorDependencies.cell <;> simp
  · intro c c' r r' hr hr'
    exact hshared.retriever.agree hr hr'
  · intro n n' d d' hd hd'
    exact hshared.dependencies.agree hd hd'
  · intro n c d r hd hr
    have hcell := hshared.built d (hshared.dependencies.done n d hd)
    rw [hshared.retriever.done c r hr] at hcell
    exact (Option.some.inj hcell).symm

/-- An ingestion makes the retriever while an execution waits for it and another one for the dependencies,
and then all three come to their ends. -/
theorem reaches_both : ∃ es held es' a,
    (Run Step App.start es held ∧ held.ragRetriever.holder = some (.ingest 0) ∧
      held.ragRetriever.phase (.ingest 0) = .holding ∧ held.ragRetriever.phase (.execute 0) = .waiting ∧
      held.orchestratorDependencies.phase 0 = .making) ∧
    Run Step App.start es' a ∧ a.ragRetriever.phase (.ingest 0) = .done 0 ∧
      a.ragRetriever.phase (.execute 0) = .done 0 ∧
      a.orchestratorDependencies.phase 0 = .done ⟨1, 0⟩ ∧
      a.orchestratorDependencies.phase 1 = .done ⟨1, 0⟩ := by
  have hstart : Run Step App.start [] App.start := .start
  have hpeek := hstart.snoc (.retriever (e := .peek (.ingest 0)) trivial rfl)
  have hexecute := hpeek.snoc (.dependencies (e := .peek 0) trivial rfl)
  have hsecond := hexecute.snoc (.dependencies (e := .peek 1) trivial rfl)
  have hlocked := hsecond.snoc (.dependencies (e := .acquire 0) trivial rfl)
  have hmaking := hlocked.snoc (.dependencies (e := .look 0) trivial rfl)
  have hnested := hmaking.snoc (.retriever (e := .peek (.execute 0)) rfl rfl)
  have hingest := hnested.snoc (.retriever (e := .acquire (.ingest 0)) trivial rfl)
  have hlook := hingest.snoc (.retriever (e := .look (.ingest 0)) trivial rfl)
  have hmade := hlook.snoc (.retriever (e := .publish (.ingest 0) 0) ⟨trivial, rfl⟩ rfl)
  have hfree := hmade.snoc (.retriever (e := .acquire (.execute 0)) rfl rfl)
  have hgiven := hfree.snoc (.retriever (e := .look (.execute 0)) rfl rfl)
  have hbuilt := hgiven.snoc (.dependencies (e := .publish 0 ⟨1, 0⟩) ⟨rfl, rfl⟩ rfl)
  have hunlocked := hbuilt.snoc (.dependencies (e := .acquire 1) trivial rfl)
  have hshared := hunlocked.snoc (.dependencies (e := .look 1) trivial rfl)
  exact ⟨_, _, _, _, ⟨hingest, rfl, rfl, rfl, rfl⟩, hshared, rfl, rfl, rfl, rfl⟩

theorem one_retriever_both : ∃ (es : List Event) (a : App),
    (a.ragRetriever.phase (.ingest 0) = .done 0 ∧ a.ragRetriever.phase (.execute 0) = .done 0 ∧
      a.orchestratorDependencies.phase 0 = .done ⟨1, 0⟩ ∧
      a.orchestratorDependencies.phase 1 = .done ⟨1, 0⟩) ∧
    (retrieversMade es).length ≤ 1 ∧ (dependenciesMade es).length ≤ 1 ∧
    (∀ c c' r r', a.ragRetriever.phase c = .done r → a.ragRetriever.phase c' = .done r' → r = r') ∧
    (∀ n n' d d', a.orchestratorDependencies.phase n = .done d →
      a.orchestratorDependencies.phase n' = .done d' → d = d') ∧
    ∀ n c d r, a.orchestratorDependencies.phase n = .done d → a.ragRetriever.phase c = .done r →
      d.retriever = r := by
  obtain ⟨-, -, es, a, -, hrun, hdone⟩ := reaches_both
  exact ⟨es, a, hdone, one_retriever es a hrun⟩

/-! ### No deadlock -/

/-- A request is in one of the two functions. -/
def App.UnderWay (a : App) : Call → Prop
  | .ingest n => (a.ragRetriever.phase (.ingest n)).Active
  | .execute n => (a.orchestratorDependencies.phase n).Active

def Event.call : Event → Call
  | .retriever e => e.caller
  | .dependencies e => .execute e.caller

/-- A request that is under way and within `get_rag_retriever` can go on, or another one there. -/
theorem App.Shared.progress_retriever {a : App} (hshared : a.Shared) {c : Call}
    (hactive : (a.ragRetriever.phase c).Active) :
    ∃ e a', Step a e a' ∧ a.UnderWay e.call := by
  have hunder : ∀ c, (a.ragRetriever.phase c).Active → a.Asks c ∧ a.UnderWay c := by
    intro c hactive
    cases c with
    | ingest n => exact ⟨trivial, hactive⟩
    | execute n =>
        have hmaking := hshared.nested n hactive
        exact ⟨hmaking, by simp [App.UnderWay, hmaking, Phase.Active]⟩
  obtain ⟨j, hacquire | hlook | hmaking⟩ := hshared.retriever.progress hactive
  · obtain ⟨s, hs⟩ := Option.isSome_iff_exists.mp hacquire
    obtain ⟨hasks, hway⟩ := hunder j (active_of_acquire hs)
    exact ⟨_, _, .retriever (e := .acquire j) hasks hs, hway⟩
  · obtain ⟨s, hs⟩ := Option.isSome_iff_exists.mp hlook
    obtain ⟨hasks, hway⟩ := hunder j (active_of_look hs)
    exact ⟨_, _, .retriever (e := .look j) hasks hs, hway⟩
  · obtain ⟨hasks, hway⟩ := hunder j (by simp [hmaking, Phase.Active])
    have hpublish : Once.next a.ragRetriever (.publish j a.made) =
        some { a.ragRetriever.leave j (.done a.made) with cell := some a.made } := by
      simp only [Once.next, hmaking]
    exact ⟨_, _, .retriever (e := .publish j a.made) ⟨hasks, rfl⟩ hpublish, hway⟩

/-- While a request is in one of the two functions, some such request can take a step: the two locks
are never waited for in a circle. -/
theorem no_deadlock (es : List Event) (a : App) (c : Call) (hrun : Run Step App.start es a)
    (hway : a.UnderWay c) : ∃ e a', Step a e a' ∧ a.UnderWay e.call := by
  have hshared := shared_run hrun
  cases c with
  | ingest n => exact hshared.progress_retriever hway
  | execute n =>
      obtain ⟨j, hacquire | hlook | hmaking⟩ := hshared.dependencies.progress hway
      · obtain ⟨s, hs⟩ := Option.isSome_iff_exists.mp hacquire
        exact ⟨_, _, .dependencies (e := .acquire j) trivial hs, active_of_acquire hs⟩
      · obtain ⟨s, hs⟩ := Option.isSome_iff_exists.mp hlook
        exact ⟨_, _, .dependencies (e := .look j) trivial hs, active_of_look hs⟩
      · have hunder : a.UnderWay (.execute j) := by simp [App.UnderWay, hmaking, Phase.Active]
        -- The one that makes the dependencies is before, within or behind `get_rag_retriever`.
        cases hphase : a.ragRetriever.phase (.execute j) with
        | idle =>
            obtain ⟨s, hs⟩ := peek_of_idle hphase
            exact ⟨_, _, .retriever (e := .peek (.execute j)) hmaking hs, hunder⟩
        | waiting | holding | making =>
            exact hshared.progress_retriever (c := .execute j) (by simp [hphase, Phase.Active])
        | done r =>
            have hpublish : Once.next a.orchestratorDependencies (.publish j ⟨a.made, r⟩) =
                some { a.orchestratorDependencies.leave j (.done ⟨a.made, r⟩) with
                  cell := some ⟨a.made, r⟩ } := by
              simp only [Once.next, hmaking]
            exact ⟨_, _, .dependencies (e := .publish j ⟨a.made, r⟩) ⟨rfl, hphase⟩ hpublish, hunder⟩
        | failed =>
            have hfail : Once.next a.orchestratorDependencies (.fail j) =
                some (a.orchestratorDependencies.leave j .failed) := by
              simp only [Once.next, hmaking]
            have hended : (a.ragRetriever.phase (.execute j)).Ended := by simp [hphase, Phase.Ended]
            exact ⟨_, _, .dependencies (e := .fail j) hended hfail, hunder⟩

/-- The execution waits for the lock that the ingestion holds. -/
theorem no_deadlock_both : ∃ a : App,
    (a.ragRetriever.holder = some (.ingest 0) ∧ a.ragRetriever.phase (.execute 0) = .waiting) ∧
    a.UnderWay (.execute 0) ∧ ∃ e a', Step a e a' ∧ a.UnderWay e.call := by
  obtain ⟨es, a, -, -, ⟨hrun, hholder, -, hwaiting, hmaking⟩, -⟩ := reaches_both
  have hway : a.UnderWay (.execute 0) := by simp [App.UnderWay, hmaking, Phase.Active]
  exact ⟨a, ⟨hholder, hwaiting⟩, hway, no_deadlock es a (.execute 0) hrun hway⟩

end CoreMesh.Runtime
