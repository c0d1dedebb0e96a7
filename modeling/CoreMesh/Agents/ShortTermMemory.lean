import CoreMesh.Agents.SupervisorRuns

/-!
# Working memory

What the nodes write to the short-term memory, and that nothing of a run is read from it. A visit of the supervisor
to a state that it has saved changes nothing, so a run that is taken up again from any saved state ends as it would
have ended. The backend for tests keeps all that it is given.
-/

namespace CoreMesh.Agents

variable {World World' : Type} (python : Python)

/-! ### Runs without their memory -/

/-- The same collaborators with another memory. -/
def OrchestratorDependencies.withMemory (deps : OrchestratorDependencies World)
    (memory : ShortTermMemory World') : OrchestratorDependencies World' where
  ragTool := deps.ragTool
  documentTool := deps.documentTool
  sqlTool := deps.sqlTool
  shortTermMemory := memory
  retrieveSimilar := deps.retrieveSimilar

/-- What a node returns to the graph. -/
def outcome (result : Except Raised (World × GraphState)) : Except Raised GraphState := result.map Prod.snd

variable (deps : OrchestratorDependencies World) (memory : ShortTermMemory World')

theorem tool_withMemory (specialist : SpecialistName) :
    (deps.withMemory memory).tool specialist = deps.tool specialist := by
  cases specialist <;> rfl

theorem observe_withMemory (specialist : SpecialistName) (request : ExecutionRequestPayload) (step : PlanStep)
    (observations : List ToolObservation) :
    observe python (deps.withMemory memory) specialist request step observations =
      observe python deps specialist request step observations := by
  rw [observe, observe, runTool, runTool, tool_withMemory]

theorem outcome_supervisorNode (world : World) (world' : World') (graph : GraphState) :
    outcome (supervisorNode python (deps.withMemory memory) world' graph) =
      outcome (supervisorNode python deps world graph) := by
  unfold supervisorNode
  cases hvalid : SupervisorState.modelValidate graph with
  | error raised => rfl
  | ok state =>
      have hplan : ensurePlan python (deps.withMemory memory) state = ensurePlan python deps state := rfl
      simp only [bind, Except.bind, hplan]
      generalize ensurePlan python deps state = state
      cases state.plan[state.currentStepIndex]? with
      | some current => rfl
      | none =>
          simp only
          cases synthesizeResponse python { state with dispatchNext := none } with
          | error raised => rfl
          | ok response => rfl

theorem outcome_specialistNode (specialist : SpecialistName) (world : World) (world' : World')
    (graph : GraphState) :
    outcome (specialistNode python (deps.withMemory memory) specialist world' graph) =
      outcome (specialistNode python deps specialist world graph) := by
  unfold specialistNode
  cases hvalid : SupervisorState.modelValidate graph with
  | error raised => rfl
  | ok state =>
      simp only [bind, Except.bind, observe_withMemory]
      cases state.plan[state.currentStepIndex]? with
      | none => rfl
      | some step => rfl

theorem ok_of_outcome_eq {result : Except Raised (World × GraphState)}
    {result' : Except Raised (World' × GraphState)} (houtcome : outcome result' = outcome result) :
    (∃ raised, result = .error raised ∧ result' = .error raised) ∨
      ∃ world world' graph, result = .ok (world, graph) ∧ result' = .ok (world', graph) := by
  cases result with
  | error raised =>
      cases result' with
      | error raised' =>
          obtain rfl := Except.error.inj houtcome
          exact .inl ⟨_, rfl, rfl⟩
      | ok value => cases houtcome
  | ok value =>
      cases result' with
      | error raised' => cases houtcome
      | ok value' =>
          have hgraph : value'.2 = value.2 := Except.ok.inj houtcome
          exact .inr ⟨value.1, value'.1, value.2, rfl, by rw [← hgraph]⟩

theorem nodes_withMemory (name : String) :
    (nodes python deps name = none ∧ nodes python (deps.withMemory memory) name = none) ∨
      ∃ node node', nodes python deps name = some node ∧
        nodes python (deps.withMemory memory) name = some node' ∧
        ∀ world world' graph, outcome (node' world' graph) = outcome (node world graph) := by
  unfold nodes
  by_cases hsupervisor : name = "supervisor"
  · rw [if_pos hsupervisor, if_pos hsupervisor]
    exact .inr ⟨_, _, rfl, rfl, outcome_supervisorNode python deps memory⟩
  · rw [if_neg hsupervisor, if_neg hsupervisor]
    cases SpecialistName.ofValue? name with
    | none => exact .inl ⟨rfl, rfl⟩
    | some specialist => exact .inr ⟨_, _, rfl, rfl, outcome_specialistNode python deps memory specialist⟩

/-- No answer of the memory, an exception or none, has a part in what a run comes to. -/
theorem outcome_invoke (rounds : ℕ) (world : World) (world' : World') (graph : GraphState) :
    (invoke python (deps.withMemory memory) rounds world' graph).map outcome =
      (invoke python deps rounds world graph).map outcome := by
  induction rounds generalizing world world' graph with
  | zero => rfl
  | succ rounds ih =>
      rw [invoke, invoke]
      obtain ⟨raised, hnode, hnode'⟩ | ⟨after, after', next, hnode, hnode'⟩ :=
        ok_of_outcome_eq (outcome_supervisorNode python deps memory world world' graph)
      · rw [hnode, hnode']
        rfl
      · rw [hnode, hnode']
        dsimp only
        by_cases hend : routeNextNode next = "END"
        · rw [if_pos hend, if_pos hend]
          rfl
        · rw [if_neg hend, if_neg hend]
          obtain ⟨hnone, hnone'⟩ | ⟨node, node', hsome, hsome', hsame⟩ :=
            nodes_withMemory python deps memory (routeNextNode next)
          · rw [hnone, hnone']
            rfl
          · rw [hsome, hsome']
            dsimp only
            obtain ⟨raised, hrun, hrun'⟩ | ⟨later, later', last, hrun, hrun'⟩ :=
              ok_of_outcome_eq (hsame after after' next)
            · rw [hrun, hrun']
              rfl
            · rw [hrun, hrun']
              exact ih later later' last

/-! ### Taking a run up again -/

section Resumption

variable {python deps} {memory : ShortTermMemory World'} {state : SupervisorState} {world after : World}
  {graph final : GraphState}

theorem stateToGraphDict_jsonReady (state : SupervisorState) :
    stateToGraphDict state.jsonReady = stateToGraphDict state := by
  unfold stateToGraphDict SupervisorState.jsonReady ExecutionRequestPayload.jsonReady Observation.jsonReady
  simp [PyValue.jsonReadyEntries_jsonReadyEntries, Function.comp_def]

theorem ensurePlan_of_plan (hplan : state.plan ≠ []) : ensurePlan python deps state = state :=
  if_neg (by simpa using hplan)

theorem ensurePlan_plan_ne (state : SupervisorState) : (ensurePlan python deps state).plan ≠ [] := by
  unfold ensurePlan
  split
  · exact (createPlan_planned python state.request _).2
  · next hplan => simpa using hplan

variable (python deps) in
theorem ensurePlan_kept (state : SupervisorState) :
    (ensurePlan python deps state).request = state.request ∧
      (ensurePlan python deps state).observations = state.observations ∧
      (ensurePlan python deps state).sessionId = state.sessionId ∧
      (ensurePlan python deps state).currentStepIndex = state.currentStepIndex := by
  unfold ensurePlan
  split
  · exact ⟨rfl, rfl, rfl, rfl⟩
  · exact ⟨rfl, rfl, rfl, rfl⟩

variable (python) in
theorem synthesizeResponse_congr {state' : SupervisorState} (hquery : state'.request = state.request)
    (hobservations : state'.observations = state.observations) :
    synthesizeResponse python state' = synthesizeResponse python state := by
  unfold synthesizeResponse
  rw [hobservations, hquery]

/-- The step as the supervisor hands it on. -/
def started (current : PlanStep) : PlanStep :=
  if current.status = "pending" then { current with status := "running" } else current

/-- The state that the supervisor hands to a specialist. -/
def dispatched (ready : SupervisorState) (current : PlanStep) : SupervisorState :=
  { ready with
    plan := ready.plan.set ready.currentStepIndex (started current)
    dispatchNext := some (started current).specialist }

/-- The state with which the supervisor ends the run. -/
def completed (ready : SupervisorState) (response : String) : SupervisorState :=
  { ready with
    dispatchNext := none
    finalResponse := some response
    status := completionStatus ready.observations }

/-- The state that a specialist leaves. -/
def observed (ready : SupervisorState) (step : PlanStep) (observation : ToolObservation) : SupervisorState :=
  { ready with
    observations := ready.observations ++ [observation]
    plan := ready.plan.set ready.currentStepIndex { step with status := planStatus observation.status }
    currentStepIndex := ready.currentStepIndex + 1
    dispatchNext := none }

/-- What a visit of the supervisor can do, apart from an exception. -/
theorem supervisorNode_cases {ready : SupervisorState} (hready : ensurePlan python deps state.jsonReady = ready)
    (hnode : supervisorNode python deps world (stateToGraphDict state) = .ok (after, graph)) :
    (∃ current, ready.plan[ready.currentStepIndex]? = some current ∧
      graph = stateToGraphDict (dispatched ready current) ∧
      after = persistShortTerm deps world (dispatched ready current) "workflow_dispatched") ∨
    (ready.plan[ready.currentStepIndex]? = none ∧ ∃ response, synthesizeResponse python ready = .ok response ∧
      graph = stateToGraphDict (completed ready response) ∧
      after = persistShortTerm deps world (completed ready response) "workflow_completed") := by
  unfold supervisorNode at hnode
  simp only [modelValidate_stateToGraphDict, bind, Except.bind, pure, Except.pure, hready] at hnode
  cases hcurrent : ready.plan[ready.currentStepIndex]? with
  | some current =>
      rw [hcurrent] at hnode
      obtain ⟨rfl, rfl⟩ := Prod.mk.inj (Except.ok.inj hnode)
      exact .inl ⟨current, rfl, rfl, rfl⟩
  | none =>
      rw [hcurrent] at hnode
      dsimp only at hnode
      have hsame : synthesizeResponse python { ready with dispatchNext := none } =
          synthesizeResponse python ready := synthesizeResponse_congr python rfl rfl
      rw [hsame] at hnode
      cases hresponse : synthesizeResponse python ready with
      | error raised =>
          rw [hresponse] at hnode
          cases hnode
      | ok response =>
          rw [hresponse] at hnode
          obtain ⟨rfl, rfl⟩ := Prod.mk.inj (Except.ok.inj hnode)
          exact .inr ⟨rfl, response, rfl, rfl, rfl⟩

theorem specialistNode_cases {specialist : SpecialistName}
    (hnode : specialistNode python deps specialist world (stateToGraphDict state) = .ok (after, graph)) :
    ∃ step, state.jsonReady.plan[state.jsonReady.currentStepIndex]? = some step ∧
      let next := observed state.jsonReady step
        (observe python deps specialist state.jsonReady.request step state.jsonReady.observations)
      graph = stateToGraphDict next ∧ after = persistShortTerm deps world next (specialist.value ++ "_completed") := by
  unfold specialistNode at hnode
  simp only [modelValidate_stateToGraphDict, bind, Except.bind, pure, Except.pure] at hnode
  cases hstep : state.jsonReady.plan[state.jsonReady.currentStepIndex]? with
  | none =>
      rw [hstep] at hnode
      cases hnode
  | some step =>
      rw [hstep] at hnode
      obtain ⟨rfl, rfl⟩ := Prod.mk.inj (Except.ok.inj hnode)
      exact ⟨step, rfl, rfl, rfl⟩

theorem supervisorNode_dispatched {ready : SupervisorState} {current : PlanStep}
    (hready : ensurePlan python deps state.jsonReady = ready)
    (hcurrent : ready.plan[ready.currentStepIndex]? = some current) :
    supervisorNode python deps world (stateToGraphDict state) =
      .ok (persistShortTerm deps world (dispatched ready current) "workflow_dispatched",
        stateToGraphDict (dispatched ready current)) := by
  unfold supervisorNode
  simp only [modelValidate_stateToGraphDict, bind, Except.bind, pure, Except.pure, hready, hcurrent]
  rfl

theorem supervisorNode_completed {ready : SupervisorState} {response : String}
    (hready : ensurePlan python deps state.jsonReady = ready)
    (hend : ready.plan[ready.currentStepIndex]? = none)
    (hresponse : synthesizeResponse python ready = .ok response) :
    supervisorNode python deps world (stateToGraphDict state) =
      .ok (persistShortTerm deps world (completed ready response) "workflow_completed",
        stateToGraphDict (completed ready response)) := by
  have hsame : synthesizeResponse python { ready with dispatchNext := none } = .ok response :=
    (synthesizeResponse_congr python rfl rfl).trans hresponse
  unfold supervisorNode
  simp only [modelValidate_stateToGraphDict, bind, Except.bind, pure, Except.pure, hready, hend, hsame]
  rfl

theorem started_started (current : PlanStep) : started (started current) = started current := by
  by_cases hpending : current.status = "pending"
  · have hstarted : started current = { current with status := "running" } := if_pos hpending
    rw [hstarted]
    exact if_neg (show ¬"running" = "pending" by decide)
  · have hstarted : started current = current := if_neg hpending
    rw [hstarted, hstarted]

theorem dispatched_again {ready : SupervisorState} {current : PlanStep}
    (hcurrent : ready.plan[ready.currentStepIndex]? = some current) :
    (dispatched ready current).jsonReady.plan[(dispatched ready current).jsonReady.currentStepIndex]? =
        some (started current) ∧
      dispatched (dispatched ready current).jsonReady (started current) = (dispatched ready current).jsonReady := by
  obtain ⟨hlt, -⟩ := List.getElem?_eq_some_iff.mp hcurrent
  refine ⟨List.getElem?_set_self hlt, ?_⟩
  unfold dispatched SupervisorState.jsonReady
  simp only [started_started, List.set_set]

/-- The supervisor leaves a state alone that it has been through already. -/
theorem supervisorNode_again
    (hnode : supervisorNode python deps world (stateToGraphDict state) = .ok (after, graph)) (world' : World) :
    ∃ after', supervisorNode python deps world' graph = .ok (after', graph) := by
  generalize hready : ensurePlan python deps state.jsonReady = ready at *
  have hplan : ready.plan ≠ [] := hready ▸ ensurePlan_plan_ne state.jsonReady
  have hkept := ensurePlan_kept python deps state.jsonReady
  rw [hready] at hkept
  obtain ⟨hrequest, hobservations, -, -⟩ := hkept
  obtain ⟨current, hcurrent, rfl, -⟩ | ⟨hend, response, hresponse, rfl, -⟩ := supervisorNode_cases hready hnode
  · obtain ⟨hagain, hsame⟩ := dispatched_again hcurrent
    have hensure : ensurePlan python deps (dispatched ready current).jsonReady =
        (dispatched ready current).jsonReady := by
      apply ensurePlan_of_plan
      intro hnil
      rw [hnil] at hagain
      cases hagain
    rw [supervisorNode_dispatched hensure hagain, hsame, stateToGraphDict_jsonReady]
    exact ⟨_, rfl⟩
  · have hensure : ensurePlan python deps (completed ready response).jsonReady =
        (completed ready response).jsonReady := ensurePlan_of_plan hplan
    have hrequest' : (completed ready response).jsonReady.request = ready.request := by
      change ready.request.jsonReady = ready.request
      rw [hrequest]
      exact congrArg SupervisorState.request (SupervisorState.jsonReady_jsonReady state)
    have hobservations' : (completed ready response).jsonReady.observations = ready.observations := by
      have hready' : ready.jsonReady.observations = state.jsonReady.jsonReady.observations :=
        congrArg (List.map _) hobservations
      rw [SupervisorState.jsonReady_jsonReady, ← hobservations] at hready'
      exact hready'
    have hresponse' := (synthesizeResponse_congr python hrequest' hobservations').trans hresponse
    have hsame : completed (completed ready response).jsonReady response = (completed ready response).jsonReady :=
      congrArg (fun status => { (completed ready response).jsonReady with status })
        (congrArg completionStatus hobservations')
    rw [supervisorNode_completed hensure hend hresponse', hsame, stateToGraphDict_jsonReady]
    exact ⟨_, rfl⟩

/-- A run that returns has one round or goes on after its first. -/
theorem invoke_succ_iff {rounds : ℕ} :
    invoke python deps (rounds + 1) world graph = some (.ok (after, final)) ↔
      (supervisorNode python deps world graph = .ok (after, final) ∧ routeNextNode final = "END") ∨
      ∃ between graph' node later next, supervisorNode python deps world graph = .ok (between, graph') ∧
        routeNextNode graph' ≠ "END" ∧ nodes python deps (routeNextNode graph') = some node ∧
        node between graph' = .ok (later, next) ∧
        invoke python deps rounds later next = some (.ok (after, final)) := by
  apply Iff.intro
  · intro hrun
    rw [invoke] at hrun
    cases hnode : supervisorNode python deps world graph with
    | error raised =>
        rw [hnode] at hrun
        cases Option.some.inj hrun
    | ok value =>
        obtain ⟨between, graph'⟩ := value
        rw [hnode] at hrun
        dsimp only at hrun
        by_cases hend : routeNextNode graph' = "END"
        · rw [if_pos hend] at hrun
          obtain ⟨rfl, rfl⟩ := Prod.mk.inj (Except.ok.inj (Option.some.inj hrun))
          exact .inl ⟨rfl, hend⟩
        · rw [if_neg hend] at hrun
          cases hname : nodes python deps (routeNextNode graph') with
          | none =>
              rw [hname] at hrun
              cases Option.some.inj hrun
          | some node =>
              rw [hname] at hrun
              dsimp only at hrun
              cases hok : node between graph' with
              | error raised =>
                  rw [hok] at hrun
                  cases Option.some.inj hrun
              | ok value =>
                  rw [hok] at hrun
                  exact .inr ⟨between, graph', node, value.1, value.2, rfl, hend, hname, hok, hrun⟩
  · intro hround
    obtain ⟨hnode, hend⟩ | ⟨between, graph', node, later, next, hnode, hgo, hname, hok, hrun⟩ := hround
    · simp only [invoke, hnode, hend, if_true]
    · simp only [invoke, hnode, hgo, if_false, hname, hok, hrun]

theorem invoke_mono {rounds more : ℕ} (hle : rounds ≤ more)
    (hrun : invoke python deps rounds world graph = some (.ok (after, final))) :
    invoke python deps more world graph = some (.ok (after, final)) := by
  induction rounds generalizing more world graph with
  | zero => cases hrun
  | succ rounds ih =>
      obtain ⟨more, rfl⟩ : ∃ more', more = more' + 1 := ⟨more - 1, by omega⟩
      obtain hround | ⟨between, graph', node, later, next, hnode, hgo, hname, hok, hrest⟩ := invoke_succ_iff.mp hrun
      · exact invoke_succ_iff.mpr (.inl hround)
      · exact invoke_succ_iff.mpr
          (.inr ⟨between, graph', node, later, next, hnode, hgo, hname, hok, ih (by omega) hrest⟩)

@[simp] theorem nodes_value (specialist : SpecialistName) :
    nodes python deps specialist.value = some (specialistNode python deps specialist) := by
  unfold nodes
  rw [SpecialistName.ofValue?_value]
  cases specialist <;> rfl

theorem routeNextNode_dispatched (ready : SupervisorState) (current : PlanStep) :
    routeNextNode (stateToGraphDict (dispatched ready current)) = (started current).specialist.value := by
  simp only [routeNextNode, stateToGraphDict, dispatched, Option.map_some]
  cases (started current).specialist <;> decide

theorem value_ne_end (specialist : SpecialistName) : specialist.value ≠ "END" := by
  cases specialist <;> decide

/-- What the state is after a round that is not the last. -/
def afterRound (python : Python) (deps : OrchestratorDependencies World) (ready : SupervisorState)
    (current : PlanStep) : SupervisorState :=
  let given := (dispatched ready current).jsonReady
  observed given (started current)
    (observe python deps (started current).specialist given.request (started current) given.observations)

/-- A round of a run that returns. -/
theorem invoke_succ_cases {rounds : ℕ} {ready : SupervisorState}
    (hready : ensurePlan python deps state.jsonReady = ready)
    (hrun : invoke python deps (rounds + 1) world (stateToGraphDict state) = some (.ok (after, final))) :
    (ready.plan[ready.currentStepIndex]? = none ∧ ∃ response, synthesizeResponse python ready = .ok response ∧
      final = stateToGraphDict (completed ready response) ∧
      after = persistShortTerm deps world (completed ready response) "workflow_completed") ∨
    ∃ current, ready.plan[ready.currentStepIndex]? = some current ∧
      supervisorNode python deps world (stateToGraphDict state) =
        .ok (persistShortTerm deps world (dispatched ready current) "workflow_dispatched",
          stateToGraphDict (dispatched ready current)) ∧
      specialistNode python deps (started current).specialist
          (persistShortTerm deps world (dispatched ready current) "workflow_dispatched")
          (stateToGraphDict (dispatched ready current)) =
        .ok (persistShortTerm deps (persistShortTerm deps world (dispatched ready current) "workflow_dispatched")
            (afterRound python deps ready current) ((started current).specialist.value ++ "_completed"),
          stateToGraphDict (afterRound python deps ready current)) ∧
      invoke python deps rounds
        (persistShortTerm deps (persistShortTerm deps world (dispatched ready current) "workflow_dispatched")
          (afterRound python deps ready current) ((started current).specialist.value ++ "_completed"))
        (stateToGraphDict (afterRound python deps ready current)) = some (.ok (after, final)) := by
  obtain ⟨hnode, hend⟩ | ⟨between, graph', node, later, next, hnode, hgo, hname, hok, hrest⟩ :=
    invoke_succ_iff.mp hrun
  · obtain ⟨current, -, rfl, -⟩ | ⟨hnone, response, hresponse, hfinal, hafter⟩ := supervisorNode_cases hready hnode
    · rw [routeNextNode_dispatched] at hend
      exact absurd hend (value_ne_end _)
    · exact .inl ⟨hnone, response, hresponse, hfinal, hafter⟩
  · obtain ⟨current, hcurrent, rfl, rfl⟩ | ⟨-, response, -, rfl, -⟩ := supervisorNode_cases hready hnode
    · rw [routeNextNode_dispatched, nodes_value] at hname
      obtain rfl := Option.some.inj hname
      obtain ⟨step, hstep, rfl, rfl⟩ := specialistNode_cases hok
      rw [(dispatched_again hcurrent).1] at hstep
      obtain rfl := Option.some.inj hstep
      exact .inr ⟨current, hcurrent, hnode, hok, hrest⟩
    · exact absurd rfl hgo

end Resumption

/-! ### The memory of the tests -/

def GraphState.jsonReady (graph : GraphState) : GraphState :=
  { graph with
    request := graph.request.jsonReady
    observations := graph.observations.map fun observation =>
      { observation with
        inputPayload := PyValue.jsonReadyEntries observation.inputPayload
        output := PyValue.jsonReadyEntries observation.output }
    retrievedMemories := graph.retrievedMemories.map PyValue.jsonReadyEntries }

structure InMemory where
  states : List (String × GraphState) := []
  events : List (String × Event) := []

def inMemoryShortTermMemory : ShortTermMemory InMemory where
  saveState memory sessionId state :=
    (.ok (), { memory with states := memory.states ++ [(sessionId, state.jsonReady)] })
  appendEvent memory sessionId event :=
    (.ok (), { memory with events := memory.events ++ [(sessionId, event)] })

theorem jsonReady_stateToGraphDict (state : SupervisorState) :
    (stateToGraphDict state).jsonReady = stateToGraphDict state := by
  unfold GraphState.jsonReady stateToGraphDict ExecutionRequestPayload.jsonReady Observation.jsonReady
  simp [PyValue.jsonReadyEntries_jsonReadyEntries, Function.comp_def]

/-- The event under which a state is saved. -/
def eventOf (graph : GraphState) (eventType : String) : Event where
  eventType := eventType
  status := graph.status
  currentStepIndex := graph.currentStepIndex
  dispatchNext := graph.dispatchNext
  observationCount := graph.observations.length

section Journal

variable {python deps memory} {journal after : InMemory} {state : SupervisorState} {final : GraphState}

theorem persistShortTerm_inMemory (journal : InMemory) (state : SupervisorState) (eventType : String) :
    persistShortTerm (deps.withMemory inMemoryShortTermMemory) journal state eventType =
      { states := journal.states ++ [(state.sessionId, stateToGraphDict state)]
        events := journal.events ++ [(state.sessionId, eventOf (stateToGraphDict state) eventType)] } := by
  unfold persistShortTerm
  simp only [OrchestratorDependencies.withMemory, inMemoryShortTermMemory, jsonReady_stateToGraphDict]
  simp only [eventOf, stateToGraphDict, List.length_map]

theorem ok_of_outcome {result : Except Raised (World × GraphState)} {result' : Except Raised (World' × GraphState)}
    {world : World} {graph : GraphState} (houtcome : outcome result' = outcome result)
    (hok : result = .ok (world, graph)) : ∃ world', result' = .ok (world', graph) := by
  obtain ⟨raised, herror, -⟩ | ⟨_, world', graph', hok', hresult'⟩ := ok_of_outcome_eq houtcome
  · rw [hok] at herror
    cases herror
  · rw [hok] at hok'
    obtain ⟨-, rfl⟩ := Prod.mk.inj (Except.ok.inj hok')
    exact ⟨world', hresult'⟩

variable (memory) in
/-- A run that returns can be had with another memory. -/
theorem invoke_elsewhere {rounds : ℕ} {world between : World} {graph : GraphState}
    (hrun : invoke python deps rounds world graph = some (.ok (between, final))) (world' : World') :
    ∃ after', invoke python (deps.withMemory memory) rounds world' graph = some (.ok (after', final)) := by
  have houtcome := outcome_invoke python deps memory rounds world world' graph
  rw [hrun] at houtcome
  obtain ⟨result, hresult, hsame⟩ := Option.map_eq_some_iff.mp houtcome
  obtain ⟨after', hafter⟩ := ok_of_outcome hsame rfl
  exact ⟨after', by rw [hresult, hafter]⟩

/-- The states that a run saves, and that the rest of the run can be had from each. -/
theorem invoke_saved {rounds : ℕ}
    (hrun : invoke python (deps.withMemory inMemoryShortTermMemory) rounds journal (stateToGraphDict state) =
      some (.ok (after, final))) :
    ∃ saved, after.states = journal.states ++ saved ∧ ∀ entry ∈ saved, ∃ journal' after',
      invoke python (deps.withMemory inMemoryShortTermMemory) rounds journal' entry.2 =
        some (.ok (after', final)) := by
  induction rounds generalizing journal state with
  | zero => cases hrun
  | succ rounds ih =>
      generalize hready : ensurePlan python (deps.withMemory inMemoryShortTermMemory) state.jsonReady = ready
      obtain ⟨hend, response, hresponse, rfl, rfl⟩ | ⟨current, hcurrent, hnode, hok, hrest⟩ :=
        invoke_succ_cases hready hrun
      · refine ⟨[((completed ready response).sessionId, stateToGraphDict (completed ready response))], ?_, fun entry hentry => ?_⟩
        · rw [persistShortTerm_inMemory]
        · obtain rfl := List.mem_singleton.mp hentry
          have hdone : supervisorNode python (deps.withMemory inMemoryShortTermMemory) journal
              (stateToGraphDict state) = .ok (_, _) := supervisorNode_completed hready hend hresponse
          obtain ⟨after', hagain⟩ := supervisorNode_again hdone journal
          exact ⟨journal, after', invoke_succ_iff.mpr (.inl ⟨hagain, rfl⟩)⟩
      · obtain ⟨saved, hsaved, hresume⟩ := ih hrest
        simp only [persistShortTerm_inMemory] at hsaved
        refine ⟨((dispatched ready current).sessionId, stateToGraphDict (dispatched ready current)) ::
          ((afterRound python (deps.withMemory inMemoryShortTermMemory) ready current).sessionId,
            stateToGraphDict (afterRound python (deps.withMemory inMemoryShortTermMemory) ready current)) :: saved,
          ?_, ?_⟩
        · rw [hsaved]
          simp only [List.append_assoc, List.cons_append, List.nil_append]
        · rw [List.forall_mem_cons, List.forall_mem_cons]
          refine ⟨?_, ⟨_, after, invoke_mono (Nat.le_succ rounds) hrest⟩, fun entry hentry => ?_⟩
          · obtain ⟨between, hagain⟩ := supervisorNode_again hnode journal
            obtain ⟨later, hlater⟩ := ok_of_outcome
              (outcome_specialistNode python (deps.withMemory inMemoryShortTermMemory) inMemoryShortTermMemory
                (started current).specialist _ between _) hok
            obtain ⟨after', hafter⟩ := invoke_elsewhere inMemoryShortTermMemory hrest later
            refine ⟨journal, after', invoke_succ_iff.mpr (.inr ⟨between, _, _, later, _, hagain, ?_, ?_, hlater, hafter⟩)⟩
            · rw [routeNextNode_dispatched]
              exact value_ne_end _
            · rw [routeNextNode_dispatched]
              exact nodes_value _
          · obtain ⟨journal', after', hagain⟩ := hresume entry hentry
            exact ⟨journal', after', invoke_mono (Nat.le_succ rounds) hagain⟩

/-- The events of a run over the specialists of a plan, of which the last has the status at the end. -/
def journalFrom (status : String) : ℕ → List SpecialistName → List Event
  | index, [] => [⟨"workflow_completed", status, index, none, index⟩]
  | index, specialist :: rest =>
      ⟨"workflow_dispatched", "running", index, some specialist.value, index⟩ ::
        ⟨specialist.value ++ "_completed", "running", index + 1, none, index + 1⟩ ::
          journalFrom status (index + 1) rest

theorem length_journalFrom (status : String) (index : ℕ) (specialists : List SpecialistName) :
    (journalFrom status index specialists).length = 2 * specialists.length + 1 := by
  induction specialists generalizing index with
  | nil => rfl
  | cons specialist rest ih =>
      rw [journalFrom, List.length_cons, List.length_cons, ih, List.length_cons]
      omega

theorem started_specialist (current : PlanStep) : (started current).specialist = current.specialist := by
  unfold started
  split <;> rfl

variable (python deps) in
/-- After a round the state is at the start of the rest of the plan. -/
theorem afterRound_next {ready : SupervisorState} {current : PlanStep}
    (hcurrent : ready.plan[ready.currentStepIndex]? = some current) :
    let next := (afterRound python deps ready current).jsonReady
    ensurePlan python deps next = next ∧ next.status = ready.status ∧ next.sessionId = ready.sessionId ∧
      next.observations.length = ready.observations.length + 1 ∧
      next.currentStepIndex = ready.currentStepIndex + 1 ∧
      ready.plan.drop ready.currentStepIndex = current :: next.plan.drop next.currentStepIndex := by
  intro next
  obtain ⟨hlt, hget⟩ := List.getElem?_eq_some_iff.mp hcurrent
  have hplan : next.plan.length = ready.plan.length := by
    simp only [next, afterRound, observed, dispatched, SupervisorState.jsonReady, List.length_set]
  refine ⟨ensurePlan_of_plan fun hnil => ?_, rfl, rfl, ?_, rfl, ?_⟩
  · rw [hnil, List.length_nil] at hplan
    omega
  · simp only [next, afterRound, observed, dispatched, SupervisorState.jsonReady, List.length_map,
      List.length_append, List.length_singleton]
  · rw [List.drop_eq_getElem_cons hlt, hget]
    simp only [next, afterRound, observed, dispatched, SupervisorState.jsonReady, List.set_set]
    rw [List.drop_set_of_lt (Nat.lt_succ_self _)]

theorem invoke_journal {rounds : ℕ} {ready : SupervisorState}
    (hready : ensurePlan python (deps.withMemory inMemoryShortTermMemory) state.jsonReady = ready)
    (hstatus : ready.status = "running") (hcount : ready.observations.length = ready.currentStepIndex)
    (hrun : invoke python (deps.withMemory inMemoryShortTermMemory) rounds journal (stateToGraphDict state) =
      some (.ok (after, final))) :
    ∃ saved : List GraphState, after.states = journal.states ++ saved.map (ready.sessionId, ·) ∧
      after.events = journal.events ++ (journalFrom final.status ready.currentStepIndex
        ((ready.plan.drop ready.currentStepIndex).map Step.specialist)).map (ready.sessionId, ·) ∧
      List.Forall₂ (fun graph event => event = eventOf graph event.eventType) saved
        (journalFrom final.status ready.currentStepIndex
          ((ready.plan.drop ready.currentStepIndex).map Step.specialist)) ∧
      saved.getLast? = some final := by
  induction rounds generalizing journal state ready with
  | zero => cases hrun
  | succ rounds ih =>
      obtain ⟨hend, response, hresponse, rfl, rfl⟩ | ⟨current, hcurrent, -, -, hrest⟩ :=
        invoke_succ_cases hready hrun
      · rw [List.drop_eq_nil_of_le (List.getElem?_eq_none_iff.mp hend), List.map_nil, journalFrom]
        refine ⟨[stateToGraphDict (completed ready response)], ?_, ?_, .cons ?_ .nil, rfl⟩
        · rw [persistShortTerm_inMemory]
          rfl
        · rw [persistShortTerm_inMemory]
          simp only [eventOf, stateToGraphDict, completed, List.length_map, hcount, Option.map_none, List.map_cons,
            List.map_nil]
        · simp only [eventOf, stateToGraphDict, completed, List.length_map, hcount, Option.map_none]
      · obtain ⟨hensure, hstatus', hsession, hcount', hindex, hdrop⟩ :=
          afterRound_next python (deps.withMemory inMemoryShortTermMemory) hcurrent
        obtain ⟨saved, hstates, hevents, hsummary, hlast⟩ := ih hensure (hstatus'.trans hstatus)
          (by rw [hcount', hindex, hcount]) hrest
        simp only [persistShortTerm_inMemory] at hstates hevents
        have hdispatched : eventOf (stateToGraphDict (dispatched ready current)) "workflow_dispatched" =
            ⟨"workflow_dispatched", "running", ready.currentStepIndex, some current.specialist.value,
              ready.currentStepIndex⟩ := by
          simp only [eventOf, stateToGraphDict, dispatched, List.length_map, hcount, hstatus, Option.map_some,
            started_specialist]
        have hcompleted : eventOf
            (stateToGraphDict (afterRound python (deps.withMemory inMemoryShortTermMemory) ready current))
            ((started current).specialist.value ++ "_completed") =
            ⟨current.specialist.value ++ "_completed", "running", ready.currentStepIndex + 1, none,
              ready.currentStepIndex + 1⟩ := by
          simp only [eventOf, stateToGraphDict, afterRound, observed, dispatched, SupervisorState.jsonReady,
            List.length_map, List.length_append, List.length_singleton, hcount, hstatus, Option.map_none,
            started_specialist]
        rw [hdrop, List.map_cons, journalFrom, ← hindex]
        rw [← hindex] at hcompleted
        refine ⟨stateToGraphDict (dispatched ready current) ::
          stateToGraphDict (afterRound python (deps.withMemory inMemoryShortTermMemory) ready current) :: saved,
          ?_, ?_, .cons ?_ (.cons ?_ hsummary), ?_⟩
        · rw [hstates, hsession]
          simp only [List.append_assoc, List.map_cons, List.cons_append, List.nil_append]
          rfl
        · rw [hevents, hsession, hdispatched, hcompleted]
          simp only [List.append_assoc, List.map_cons, List.cons_append, List.nil_append]
          rfl
        · exact hdispatched.symm
        · rw [← hcompleted]
          rfl
        · rw [List.getLast?_cons_cons]
          exact (List.getLast?_cons (l := saved)).trans (by rw [hlast]; rfl)

end Journal

/-- What is left in the memory is enough: from every state that a run saves, the graph comes to the end that the
run came to, also over another memory and after a failure of this one. -/
theorem resume_saved (python : Python) (deps : OrchestratorDependencies World) (rounds : ℕ)
    (journal after : InMemory) (state : SupervisorState) (final : GraphState)
    (hrun : invoke python (deps.withMemory inMemoryShortTermMemory) rounds journal (stateToGraphDict state) =
      some (.ok (after, final))) :
    ∃ saved, after.states = journal.states ++ saved ∧ ∀ entry ∈ saved, ∃ enough, ∀ more, enough ≤ more →
      ∀ world, ∃ after', invoke python deps more world entry.2 = some (.ok (after', final)) := by
  obtain ⟨saved, hsaved, hresume⟩ := invoke_saved hrun
  refine ⟨saved, hsaved, fun entry hentry => ?_⟩
  obtain ⟨journal', after', hagain⟩ := hresume entry hentry
  refine ⟨rounds, fun more hmore world => ?_⟩
  obtain ⟨after'', hmemory⟩ := invoke_elsewhere deps.shortTermMemory (invoke_mono hmore hagain) world
  exact ⟨after'', hmemory⟩

/-- A run leaves two saves and two events for each step of the plan and one of each at the end, in the order of the
plan; each event tells of the state that was saved with it, and the last state is the one that the run returns. -/
theorem run_journal (python : Python) (deps : OrchestratorDependencies World) (request : ExecutionRequestPayload)
    (sessionId : String) (rounds : ℕ) (journal after : InMemory) (final : GraphState)
    (hrun : invoke python (deps.withMemory inMemoryShortTermMemory) rounds journal
      (stateToGraphDict { request, sessionId }) = some (.ok (after, final))) :
    let plan := createPlan python request.jsonReady (retrieveMemories deps request.jsonReady)
    let events := journalFrom final.status 0 (plan.map Step.specialist)
    ∃ saved : List GraphState, after.states = journal.states ++ saved.map (sessionId, ·) ∧
      after.events = journal.events ++ events.map (sessionId, ·) ∧
      List.Forall₂ (fun graph event => event = eventOf graph event.eventType) saved events ∧
      saved.getLast? = some final :=
  invoke_journal rfl rfl rfl hrun

section

variable {deps}

/-- With tools that keep to their formats a run over the memory of the tests returns. -/
theorem invoke_returns
    (hshaped : ∀ specialist request step observations value,
      deps.tool specialist request step observations = .ok value →
        Shaped specialist (normalizeToolOutput value))
    (request : ExecutionRequestPayload) (sessionId : String) :
    ∃ rounds after final, invoke python (deps.withMemory inMemoryShortTermMemory) rounds {}
      (stateToGraphDict { request, sessionId }) = some (.ok (after, final)) := by
  have hrequest : request.jsonReady.jsonReady = request.jsonReady :=
    congrArg SupervisorState.request (SupervisorState.jsonReady_jsonReady { request, sessionId })
  obtain ⟨hplanned, -⟩ := createPlan_planned python request.jsonReady (retrieveMemories deps request.jsonReady)
  generalize hplan : createPlan python request.jsonReady (retrieveMemories deps request.jsonReady) = plan at hplanned
  have hbetween : Between python (deps.withMemory inMemoryShortTermMemory) request.jsonReady plan [] plan
      (ensurePlan python (deps.withMemory inMemoryShortTermMemory)
        ({ request, sessionId } : SupervisorState).jsonReady) :=
    { request_eq := rfl
      plan_eq := hplan
      outline_eq := rfl
      index_eq := rfl
      executed := .nil }
  obtain ⟨after, final, -, -, -, hrun⟩ := invoke_finished hrequest
    (fun specialist request step observations value hvalue => hshaped specialist request step observations value
      (by rwa [tool_withMemory] at hvalue))
    hplanned.depends hplanned.pending {} hbetween
  exact ⟨_, after, final, hrun _ (Nat.lt_succ_self _)⟩

end

theorem resume_saved_degraded :
    ∃ rounds after final, invoke asciiPython (degradedDependencies.withMemory inMemoryShortTermMemory) rounds {}
        (stateToGraphDict ⟨⟨"ada", "general", "search the invoice database", none⟩, "session", [], [], [], 0,
          none, none, "planning"⟩) = some (.ok (after, final)) ∧
      ∃ saved, after.states = [] ++ saved ∧ ∀ entry ∈ saved, ∃ enough, ∀ more, enough ≤ more → ∀ world,
        ∃ after', invoke asciiPython degradedDependencies more world entry.2 = some (.ok (after', final)) := by
  obtain ⟨rounds, after, final, hrun⟩ := invoke_returns asciiPython degradedDependencies_shaped
    ⟨"ada", "general", "search the invoice database", none⟩ "session"
  exact ⟨rounds, after, final, hrun,
    resume_saved asciiPython degradedDependencies rounds {} after _ final hrun⟩

theorem run_journal_degraded :
    ∃ rounds after final, invoke asciiPython (degradedDependencies.withMemory inMemoryShortTermMemory) rounds {}
        (stateToGraphDict ⟨⟨"ada", "general", "search the invoice database", none⟩, "session", [], [], [], 0,
          none, none, "planning"⟩) = some (.ok (after, final)) ∧
      after.events.length = 7 := by
  obtain ⟨rounds, after, final, hrun⟩ := invoke_returns asciiPython degradedDependencies_shaped
    ⟨"ada", "general", "search the invoice database", none⟩ "session"
  obtain ⟨saved, -, hevents, -, -⟩ := run_journal asciiPython degradedDependencies
    ⟨"ada", "general", "search the invoice database", none⟩ "session" rounds {} after final hrun
  refine ⟨rounds, after, final, hrun, ?_⟩
  rw [hevents, List.length_append, List.length_map, length_journalFrom]
  decide +kernel

end CoreMesh.Agents
