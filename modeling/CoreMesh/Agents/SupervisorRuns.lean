import Mathlib.Data.List.Forall2
import CoreMesh.Lib.Transition
import CoreMesh.Agents.Supervisor

/-!
# Runs of the supervisor graph

Before each visit of the supervisor the plan is a part that is done, which the observations match step by
step, and a part that is pending. The supervisor hands the first pending step to its specialist, whose
observation moves it to the done part, whatever the tool and the memory do. So the graph ends after as
many rounds as the plan has steps.
-/

namespace CoreMesh.Agents

open PyValue (Dict get getOr truthy)

/-! ### Passing the state on -/

/-- The state as the next node validates it: its values are plain data. -/
def SupervisorState.jsonReady (state : SupervisorState) : SupervisorState :=
  { state with
    request := state.request.jsonReady
    observations := state.observations.map fun observation =>
      { observation with
        inputPayload := PyValue.jsonReadyEntries observation.inputPayload
        output := PyValue.jsonReadyEntries observation.output }
    retrievedMemories := state.retrievedMemories.map PyValue.jsonReadyEntries }

theorem Step.modelValidate_jsonReady (step : PlanStep) :
    Step.modelValidate step.jsonReady = .ok step := by
  unfold Step.modelValidate Step.jsonReady
  rw [SpecialistName.ofValue?_value]

theorem Observation.modelValidate_jsonReady (observation : ToolObservation) :
    Observation.modelValidate observation.jsonReady =
      .ok { observation with
        inputPayload := PyValue.jsonReadyEntries observation.inputPayload
        output := PyValue.jsonReadyEntries observation.output } := by
  unfold Observation.modelValidate Observation.jsonReady
  rw [SpecialistName.ofValue?_value, ObservationStatus.ofValue?_value]

theorem mapM_map_eq_ok {α β γ : Type} {dump : α → β} {parse : β → Except Raised γ} {f : α → γ}
    (hparse : ∀ a, parse (dump a) = .ok (f a)) (l : List α) :
    (l.map dump).mapM parse = .ok (l.map f) := by
  rw [List.mapM_map]
  exact Outcome.mapM_eq_ok fun a _ => hparse a

/-- What one node hands on, the next one reads, up to the rendering as plain data. -/
theorem modelValidate_stateToGraphDict (state : SupervisorState) :
    SupervisorState.modelValidate (stateToGraphDict state) = .ok state.jsonReady := by
  have hplan : (state.plan.map Step.jsonReady).mapM Step.modelValidate = .ok (state.plan.map id) :=
    mapM_map_eq_ok Step.modelValidate_jsonReady state.plan
  have hobservations := mapM_map_eq_ok Observation.modelValidate_jsonReady state.observations
  unfold SupervisorState.modelValidate stateToGraphDict
  simp only [hplan, hobservations, bind, Except.bind, List.map_id]
  cases hdispatch : state.dispatchNext with
  | none =>
      simp only [Option.map_none, pure, Except.pure, SupervisorState.jsonReady, hdispatch]
  | some specialist =>
      simp only [Option.map_some, SpecialistName.ofValue?_value, pure, Except.pure,
        SupervisorState.jsonReady, hdispatch]

theorem SupervisorState.jsonReady_jsonReady (state : SupervisorState) :
    state.jsonReady.jsonReady = state.jsonReady := by
  unfold SupervisorState.jsonReady ExecutionRequestPayload.jsonReady
  simp [PyValue.jsonReadyEntries_jsonReadyEntries, Function.comp_def]

/-! ### The plan -/

/-- Each step depends on steps before it only. -/
def DependsEarlier (plan : List PlanStep) : Prop :=
  ∀ before step after, plan = before ++ step :: after →
    ∀ id ∈ step.dependsOn, id ∈ before.map Step.stepId

/-- What of a plan its execution leaves as it is. -/
def outline (plan : List PlanStep) : List (String × SpecialistName × List String) :=
  plan.map fun step => (step.stepId, step.specialist, step.dependsOn)

/-- A plan before its execution. -/
structure Planned (plan : List PlanStep) : Prop where
  depends : DependsEarlier plan
  pending : ∀ step ∈ plan, step.status = "pending"

theorem DependsEarlier.of_outline {plan plan' : List PlanStep} (hplan : DependsEarlier plan)
    (houtline : outline plan = outline plan') : DependsEarlier plan' := by
  rintro before step after rfl
  unfold outline at houtline
  rw [List.map_append, List.map_cons, List.map_eq_append_iff] at houtline
  obtain ⟨before', rest, rfl, hbefore, hrest⟩ := houtline
  obtain ⟨step', after', rfl, hstep, -⟩ := List.map_eq_cons_iff.mp hrest
  have hids : before'.map Step.stepId = before.map Step.stepId := by
    have hfirst := congrArg (List.map Prod.fst) hbefore
    simpa [Function.comp_def] using hfirst
  have hdepends : step'.dependsOn = step.dependsOn := congrArg (·.2.2) hstep
  intro id hid
  rw [← hids]
  exact hplan before' step' after' rfl id (by rwa [hdepends])

theorem Planned.nil : Planned [] where
  depends := by
    intro before step after hplan
    cases before <;> cases hplan
  pending := by simp

theorem Planned.concat {plan : List PlanStep} (hplan : Planned plan) {step : PlanStep}
    (hdepends : ∀ id ∈ step.dependsOn, id ∈ plan.map Step.stepId) (hpending : step.status = "pending") :
    Planned (plan ++ [step]) where
  depends := by
    intro before step' after heq
    obtain ⟨-, rfl, rfl⟩ | ⟨after', -, rfl⟩ := Transition.snoc_eq_append_cons heq
    · exact hdepends
    · exact hplan.depends before step' after' rfl
  pending := by
    intro step' hstep'
    rw [List.mem_append, List.mem_singleton] at hstep'
    obtain hold | rfl := hstep'
    · exact hplan.pending step' hold
    · exact hpending

theorem Planned.modifyHead {plan : List PlanStep} (hplan : Planned plan) {f : PlanStep → PlanStep}
    (hf : ∀ step, (f step).stepId = step.stepId ∧ (f step).specialist = step.specialist ∧
      (f step).dependsOn = step.dependsOn ∧ (f step).status = step.status) :
    Planned (plan.modifyHead f) := by
  cases plan with
  | nil => exact hplan
  | cons step rest =>
      obtain ⟨hid, hspecialist, hdepends, hstatus⟩ := hf step
      constructor
      · apply hplan.depends.of_outline
        simp only [outline, List.modifyHead_cons, List.map_cons, hid, hspecialist, hdepends]
      · intro step' hstep'
        rw [List.modifyHead_cons, List.mem_cons] at hstep'
        obtain rfl | hrest := hstep'
        · rw [hstatus]
          exact hplan.pending step List.mem_cons_self
        · exact hplan.pending step' (List.mem_cons_of_mem step hrest)

theorem createPlan_planned (python : Python) (request : ExecutionRequestPayload) (memories : List Dict) :
    Planned (createPlan python request memories) ∧ createPlan python request memories ≠ [] := by
  unfold createPlan
  extract_lets query context present featureScope
  split
  extract_lets ragSteps documentSteps sqlSteps steps
  have hrag : Planned ragSteps := by
    unfold ragSteps
    split
    · exact Planned.nil.concat (fun id hid => hid) rfl
    · exact .nil
  have hdocument : Planned documentSteps := by
    unfold documentSteps
    split
    · exact hrag.concat (fun id hid => hid) rfl
    · exact hrag
  have hsql : Planned sqlSteps := by
    unfold sqlSteps
    split
    · exact hdocument.concat (fun id hid => hid) rfl
    · exact hdocument
  have hsteps : Planned steps ∧ steps ≠ [] := by
    unfold steps
    split
    · exact ⟨Planned.nil.concat (fun id hid => hid) rfl, List.cons_ne_nil _ _⟩
    · next hempty => exact ⟨hsql, fun hnil => hempty (List.isEmpty_iff.mpr hnil)⟩
  split
  · exact hsteps
  · refine ⟨hsteps.1.modifyHead fun step => ⟨rfl, rfl, rfl, rfl⟩, ?_⟩
    intro hnil
    exact hsteps.2 (List.modifyHead_eq_nil_iff.mp hnil)

/-! ### Execution -/

section

variable {World : Type} (python : Python) (deps : OrchestratorDependencies World)

/-- An output has what the response is made of in the form the adapter of the specialist gives it. -/
def Shaped (specialist : SpecialistName) (output : Dict) : Prop :=
  match specialist with
  | .ragSearch => ∀ value, get output "results" = some value →
      value = .none ∨ ∃ items, value = .list items
  | .documentExtraction => ∀ value, get output "extraction" = some value →
      value = .none ∨ ∃ entries, value = .dict entries
  | .sqlGeneration => True

/-- The steps were run in turn, each with the observations before it, and have the statuses that follow
from what was observed. -/
inductive Executed (request : ExecutionRequestPayload) : List PlanStep → List ToolObservation → Prop where
  | nil : Executed request [] []
  | concat {done : List PlanStep} {observations : List ToolObservation} {step : PlanStep}
      {observation : ToolObservation} (hdone : Executed request done observations)
      (hobservation : observation = observe python deps step.specialist request step observations) :
      Executed request (done ++ [{ step with status := planStatus observation.status }])
        (observations ++ [observation])

/-- The observation is of the step, whose status is the one that follows from it. -/
structure Matches (step : PlanStep) (observation : ToolObservation) : Prop where
  stepId : observation.stepId = step.stepId
  specialist : observation.specialist = step.specialist
  status : step.status = planStatus observation.status

variable {request : ExecutionRequestPayload} {observations : List ToolObservation}

/-- A call that does not fail has the output of the tool. -/
theorem runTool_cases (specialist : SpecialistName) (step : PlanStep) :
    (∃ value, deps.tool specialist request step observations = .ok value ∧
      (runTool python deps specialist request step observations).2.1 = normalizeToolOutput value) ∨
    runTool python deps specialist request step observations =
      (.error, [], (runTool python deps specialist request step observations).2.2) := by
  unfold runTool
  cases htool : deps.tool specialist request step observations with
  | error raised => exact .inr rfl
  | ok value =>
      simp only [bind, Except.bind]
      cases hquality : recordToolQuality python specialist value with
      | error raised => exact .inr rfl
      | ok =>
          refine .inl ⟨value, rfl, ?_⟩
          simp only [pure, Except.pure]
          split <;> rfl

variable {python deps} {done : List PlanStep}

theorem Executed.forall₂ (hexecuted : Executed python deps request done observations) :
    List.Forall₂ Matches done observations := by
  induction hexecuted with
  | nil => exact .nil
  | concat _ hobservation ih =>
      subst hobservation
      exact List.rel_append ih (.cons ⟨rfl, rfl, rfl⟩ .nil)

theorem normalizeToolOutput_ready (value : PyValue) :
    PyValue.jsonReadyEntries (normalizeToolOutput value) = normalizeToolOutput value := by
  have hready := PyValue.jsonReady_jsonReady value
  unfold normalizeToolOutput
  split
  · next entries hentries =>
      rw [hentries, PyValue.jsonReady] at hready
      exact PyValue.dict.inj hready
  · rw [PyValue.jsonReadyEntries, PyValue.jsonReadyEntries, hready]

theorem jsonReadyItems_map_str (texts : List String) :
    PyValue.jsonReadyItems (texts.map .str) = texts.map .str := by
  induction texts with
  | nil => rfl
  | cons text rest ih => rw [List.map_cons, PyValue.jsonReadyItems, ih, PyValue.jsonReady]

/-- What is observed is plain data already. -/
theorem Executed.ready (hexecuted : Executed python deps request done observations) :
    ∀ observation ∈ observations,
      PyValue.jsonReadyEntries observation.inputPayload = observation.inputPayload ∧
        PyValue.jsonReadyEntries observation.output = observation.output := by
  induction hexecuted with
  | nil => simp
  | concat _ hobservation ih =>
      intro observation' hmem
      rw [List.mem_append, List.mem_singleton] at hmem
      obtain hold | rfl := hmem
      · exact ih observation' hold
      · subst hobservation
        constructor
        · simp only [observe, inputPayload, PyValue.jsonReadyEntries, PyValue.jsonReady,
            jsonReadyItems_map_str]
        · simp only [observe]
          obtain ⟨value, -, houtput⟩ | herror := runTool_cases python deps _ _
          · rw [houtput, normalizeToolOutput_ready]
          · rw [herror]
            rfl

theorem Executed.shaped
    (hshaped : ∀ specialist request step observations value,
      deps.tool specialist request step observations = .ok value →
        Shaped specialist (normalizeToolOutput value))
    (hexecuted : Executed python deps request done observations) :
    ∀ observation ∈ observations, observation.status = .success →
      Shaped observation.specialist observation.output := by
  induction hexecuted with
  | nil => simp
  | concat _ hobservation ih =>
      intro observation' hmem hstatus
      rw [List.mem_append, List.mem_singleton] at hmem
      obtain hold | rfl := hmem
      · exact ih observation' hold hstatus
      · subst hobservation
        simp only [observe] at hstatus ⊢
        obtain ⟨value, hvalue, houtput⟩ | herror := runTool_cases python deps _ _
        · rw [houtput]
          exact hshaped _ _ _ _ value hvalue
        · rw [herror] at hstatus
          cases hstatus

/-! ### The response and the final status -/

theorem getOr_of_shaped {output : Dict} {key : String} (default : PyValue) {P : PyValue → Prop}
    (hdefault : P default)
    (hvalue : ∀ value, get output key = some value → value = .none ∨ P value) :
    P (getOr output key default) := by
  unfold getOr
  split
  · next value hget =>
      split
      · next htruthy =>
          obtain rfl | hP := hvalue value hget
          · cases htruthy
          · exact hP
      · exact hdefault
  · exact hdefault

theorem synthesizeLine_ok (python : Python) {observation : ToolObservation}
    (hshaped : observation.status = .success → Shaped observation.specialist observation.output) :
    ∃ line, synthesizeLine python observation = .ok line := by
  unfold synthesizeLine
  cases hstatus : observation.status with
  | error => exact ⟨_, rfl⟩
  | skipped => exact ⟨_, rfl⟩
  | success =>
      have hshape := hshaped hstatus
      cases hspecialist : observation.specialist with
      | sqlGeneration => exact ⟨_, rfl⟩
      | ragSearch =>
          rw [hspecialist] at hshape
          obtain ⟨items, hitems⟩ := getOr_of_shaped (.list [])
            (P := fun value => ∃ items, value = .list items) ⟨[], rfl⟩ hshape
          simp only [hitems]
          exact ⟨_, rfl⟩
      | documentExtraction =>
          rw [hspecialist] at hshape
          obtain ⟨entries, hentries⟩ := getOr_of_shaped (.dict [])
            (P := fun value => ∃ entries, value = .dict entries) ⟨[], rfl⟩ hshape
          simp only [hentries]
          exact ⟨_, rfl⟩

theorem synthesizeResponse_ok (python : Python) (state : SupervisorState)
    (hshaped : ∀ observation ∈ state.observations, observation.status = .success →
      Shaped observation.specialist observation.output) :
    ∃ response, synthesizeResponse python state = .ok response := by
  obtain ⟨lines, hlines⟩ := Outcome.exists_mapM_eq_ok_iff.mpr fun observation hmem =>
    synthesizeLine_ok python (hshaped observation hmem)
  simp only [synthesizeResponse, hlines, bind, Except.bind]
  exact ⟨_, rfl⟩

/-- The final status is the one of the worst observation. -/
theorem completionStatus_spec (observations : List ToolObservation) :
    (completionStatus observations = "completed_with_errors" ↔
      ∃ observation ∈ observations, observation.status = .error) ∧
    (completionStatus observations = "completed_with_gaps" ↔
      (∀ observation ∈ observations, observation.status ≠ .error) ∧
        ∃ observation ∈ observations, observation.status = .skipped) ∧
    (completionStatus observations = "completed" ↔
      ∀ observation ∈ observations, observation.status = .success) := by
  by_cases herror : ∃ observation ∈ observations, observation.status = .error
  · have hstatus : completionStatus observations = "completed_with_errors" :=
      if_pos (by simpa using herror)
    obtain ⟨observation, hmem, hobservation⟩ := herror
    rw [hstatus]
    refine ⟨⟨fun _ => ⟨observation, hmem, hobservation⟩, fun _ => rfl⟩,
      ⟨fun h => absurd h (by decide), fun h => absurd hobservation (h.1 observation hmem)⟩,
      ⟨fun h => absurd h (by decide), fun h => ?_⟩⟩
    rw [h observation hmem] at hobservation
    cases hobservation
  have hnone : ∀ observation ∈ observations, observation.status ≠ .error := fun observation hmem h =>
    herror ⟨observation, hmem, h⟩
  by_cases hskipped : ∃ observation ∈ observations, observation.status = .skipped
  · have hstatus : completionStatus observations = "completed_with_gaps" :=
      (if_neg (by simpa using hnone)).trans (if_pos (by simpa using hskipped))
    rw [hstatus]
    refine ⟨⟨fun h => absurd h (by decide), fun h => absurd h herror⟩,
      ⟨fun _ => ⟨hnone, hskipped⟩, fun _ => rfl⟩, ⟨fun h => absurd h (by decide), fun h => ?_⟩⟩
    obtain ⟨observation, hmem, hobservation⟩ := hskipped
    rw [h observation hmem] at hobservation
    cases hobservation
  · have hstatus : completionStatus observations = "completed" :=
      (if_neg (by simpa using hnone)).trans (if_neg (by simpa using hskipped))
    rw [hstatus]
    refine ⟨⟨fun h => absurd h (by decide), fun h => absurd h herror⟩,
      ⟨fun h => absurd h (by decide), fun h => absurd h.2 hskipped⟩,
      ⟨fun _ observation hmem => ?_, fun _ => rfl⟩⟩
    cases hobservation : observation.status with
    | success => rfl
    | error => exact absurd hobservation (hnone observation hmem)
    | skipped => exact absurd ⟨observation, hmem, hobservation⟩ hskipped

/-! ### Rounds -/

variable (python deps)

/-- A part of the plan is executed, and the state is at the start of the rest. -/
structure Between (request : ExecutionRequestPayload) (plan done rest : List PlanStep)
    (state : SupervisorState) : Prop where
  request_eq : state.request = request
  plan_eq : state.plan = done ++ rest
  outline_eq : outline (done ++ rest) = outline plan
  index_eq : state.currentStepIndex = done.length
  executed : Executed python deps request done state.observations

variable {python deps} {plan rest : List PlanStep} {state : SupervisorState}

theorem jsonReady_observations (hexecuted : Executed python deps request done state.observations) :
    state.jsonReady.observations = state.observations := by
  refine (List.map_congr_left fun observation hmem => ?_).trans (List.map_id _)
  obtain ⟨hinput, houtput⟩ := hexecuted.ready observation hmem
  rw [hinput, houtput, id]

theorem Between.jsonReady (hbetween : Between python deps request plan done rest state)
    (hrequest : request.jsonReady = request) :
    Between python deps request plan done rest state.jsonReady where
  request_eq := (congrArg ExecutionRequestPayload.jsonReady hbetween.request_eq).trans hrequest
  plan_eq := hbetween.plan_eq
  outline_eq := hbetween.outline_eq
  index_eq := hbetween.index_eq
  executed := by
    rw [jsonReady_observations hbetween.executed]
    exact hbetween.executed

theorem getElem?_length_append (done : List PlanStep) (current : PlanStep) (rest : List PlanStep) :
    (done ++ current :: rest)[done.length]? = some current := by
  simp

theorem set_length_append (done : List PlanStep) (current step : PlanStep) (rest : List PlanStep) :
    (done ++ current :: rest).set done.length step = done ++ step :: rest := by
  simp

/-- The supervisor marks the first pending step as running and hands it to its specialist. -/
theorem supervisorNode_dispatch {current : PlanStep} (world : World)
    (hbetween : Between python deps request plan done (current :: rest)
      (ensurePlan python deps state.jsonReady)) (hpending : current.status = "pending") :
    ∃ world' state', supervisorNode python deps world (stateToGraphDict state) =
        .ok (world', stateToGraphDict state') ∧
      state'.dispatchNext = some current.specialist ∧
      Between python deps request plan done ({ current with status := "running" } :: rest) state' := by
  have hcurrent : (ensurePlan python deps state.jsonReady).plan[
      (ensurePlan python deps state.jsonReady).currentStepIndex]? = some current := by
    rw [hbetween.plan_eq, hbetween.index_eq, getElem?_length_append]
  unfold supervisorNode
  simp only [modelValidate_stateToGraphDict, bind, Except.bind, hcurrent, hpending, if_true, pure,
    Except.pure]
  refine ⟨_, _, rfl, rfl, ?_⟩
  exact
    { request_eq := hbetween.request_eq
      plan_eq := by simp only [hbetween.plan_eq, hbetween.index_eq, set_length_append]
      outline_eq := by
        rw [← hbetween.outline_eq]
        simp only [outline, List.map_append, List.map_cons]
      index_eq := hbetween.index_eq
      executed := hbetween.executed }

/-- The specialist moves its step to the part that is done. -/
theorem specialistNode_done {current : PlanStep} (world : World) (hrequest : request.jsonReady = request)
    (hbetween : Between python deps request plan done (current :: rest) state) :
    ∃ world' state' step,
      specialistNode python deps current.specialist world (stateToGraphDict state) =
        .ok (world', stateToGraphDict state') ∧
      Between python deps request plan (done ++ [step]) rest state' := by
  have hready := hbetween.jsonReady hrequest
  have hcurrent : state.jsonReady.plan[state.jsonReady.currentStepIndex]? = some current := by
    rw [hready.plan_eq, hready.index_eq, getElem?_length_append]
  unfold specialistNode
  simp only [modelValidate_stateToGraphDict, bind, Except.bind, hcurrent, pure, Except.pure]
  refine ⟨_, _, { current with
    status := planStatus (observe python deps current.specialist request current
      state.jsonReady.observations).status }, rfl, ?_⟩
  exact
    { request_eq := hready.request_eq
      plan_eq := by
        simp only [hready.plan_eq, hready.index_eq, set_length_append, hready.request_eq,
          List.append_assoc, List.singleton_append]
      outline_eq := by
        rw [← hbetween.outline_eq]
        simp only [outline, List.map_append, List.map_cons, List.append_assoc, List.singleton_append]
      index_eq := by
        rw [List.length_append, List.length_singleton]
        exact congrArg (· + 1) hready.index_eq
      executed := by
        simp only [hready.request_eq]
        exact hready.executed.concat rfl }

variable (python deps)

/-- The end of a run: each step of the plan has its observation and its status. -/
structure Finished (request : ExecutionRequestPayload) (plan : List PlanStep) (state : SupervisorState) :
    Prop where
  outline_eq : outline state.plan = outline plan
  executed : Executed python deps request state.plan state.observations
  observed : List.Forall₂ Matches state.plan state.observations
  settled : ∀ step ∈ state.plan, step.status ≠ "pending" ∧ step.status ≠ "running"
  depends : DependsEarlier state.plan
  withErrors : state.status = "completed_with_errors" ↔
    ∃ observation ∈ state.observations, observation.status = .error
  withGaps : state.status = "completed_with_gaps" ↔
    (∀ observation ∈ state.observations, observation.status ≠ .error) ∧
      ∃ observation ∈ state.observations, observation.status = .skipped
  completed : state.status = "completed" ↔
    ∀ observation ∈ state.observations, observation.status = .success

variable {python deps}

theorem planStatus_settled (status : ObservationStatus) :
    planStatus status ≠ "pending" ∧ planStatus status ≠ "running" := by
  cases status <;> decide

theorem Matches.settled {steps : List PlanStep} (hmatches : List.Forall₂ Matches steps observations) :
    ∀ step ∈ steps, step.status ≠ "pending" ∧ step.status ≠ "running" := by
  induction hmatches with
  | nil => simp
  | cons hstep _ ih =>
      rw [List.forall_mem_cons]
      refine ⟨?_, ih⟩
      rw [hstep.status]
      exact planStatus_settled _

theorem finished_of_executed (hexecuted : Executed python deps request state.plan state.observations)
    (houtline : outline state.plan = outline plan) (hplan : DependsEarlier plan)
    (hstatus : state.status = completionStatus state.observations) :
    Finished python deps request plan state := by
  obtain ⟨herrors, hgaps, hcompleted⟩ := completionStatus_spec state.observations
  rw [← hstatus] at herrors hgaps hcompleted
  exact
    { outline_eq := houtline
      executed := hexecuted
      observed := hexecuted.forall₂
      settled := Matches.settled hexecuted.forall₂
      depends := hplan.of_outline houtline.symm
      withErrors := herrors
      withGaps := hgaps
      completed := hcompleted }

variable (request plan) in
theorem executed_done (hbetween : Between python deps request plan done [] state) :
    Executed python deps request state.plan state.observations ∧ outline state.plan = outline plan := by
  rw [hbetween.plan_eq]
  refine ⟨?_, hbetween.outline_eq⟩
  rw [List.append_nil]
  exact hbetween.executed

/-- With nothing left to do the supervisor ends the run. -/
theorem supervisorNode_finished (world : World) (hrequest : request.jsonReady = request)
    (hshaped : ∀ specialist request step observations value,
      deps.tool specialist request step observations = .ok value →
        Shaped specialist (normalizeToolOutput value))
    (hplan : DependsEarlier plan)
    (hbetween : Between python deps request plan done [] (ensurePlan python deps state.jsonReady)) :
    ∃ world' graph state', supervisorNode python deps world (stateToGraphDict state) =
        .ok (world', graph) ∧ routeNextNode graph = "END" ∧
      SupervisorState.modelValidate graph = .ok state' ∧
      Finished python deps request plan state' := by
  have hend : (ensurePlan python deps state.jsonReady).plan[
      (ensurePlan python deps state.jsonReady).currentStepIndex]? = none := by
    rw [hbetween.plan_eq, hbetween.index_eq, List.append_nil]
    exact List.getElem?_eq_none le_rfl
  obtain ⟨response, hresponse⟩ := synthesizeResponse_ok python
    { ensurePlan python deps state.jsonReady with dispatchNext := none }
    (hbetween.executed.shaped hshaped)
  unfold supervisorNode
  simp only [modelValidate_stateToGraphDict, bind, Except.bind, hend, hresponse, pure, Except.pure]
  refine ⟨_, _, _, rfl, rfl, modelValidate_stateToGraphDict _, ?_⟩
  generalize ensurePlan python deps state.jsonReady = last at hbetween
  have hlast : Between python deps request plan done []
      { last with
        dispatchNext := none
        finalResponse := some response
        status := completionStatus last.observations } :=
    ⟨hbetween.request_eq, hbetween.plan_eq, hbetween.outline_eq, hbetween.index_eq, hbetween.executed⟩
  have hready := hlast.jsonReady hrequest
  obtain ⟨hexecuted, houtline⟩ := executed_done request plan hready
  apply finished_of_executed hexecuted houtline hplan
  rw [jsonReady_observations hlast.executed]
  rfl

/-- The graph ends within one round more than the steps that are left. -/
theorem invoke_finished (hrequest : request.jsonReady = request)
    (hshaped : ∀ specialist request step observations value,
      deps.tool specialist request step observations = .ok value →
        Shaped specialist (normalizeToolOutput value))
    (hplan : DependsEarlier plan) (hpending : ∀ step ∈ rest, step.status = "pending") (world : World)
    (hbetween : Between python deps request plan done rest (ensurePlan python deps state.jsonReady)) :
    ∃ world' graph state', SupervisorState.modelValidate graph = .ok state' ∧
      Finished python deps request plan state' ∧
      ∀ rounds, rest.length < rounds →
        invoke python deps rounds world (stateToGraphDict state) = some (.ok (world', graph)) := by
  induction rest generalizing done state world with
  | nil =>
      obtain ⟨world', graph, state', hnode, hroute, hvalid, hfinished⟩ :=
        supervisorNode_finished world hrequest hshaped hplan hbetween
      refine ⟨world', graph, state', hvalid, hfinished, fun rounds hrounds => ?_⟩
      cases rounds with
      | zero => exact absurd hrounds (Nat.not_lt_zero _)
      | succ rounds => simp only [invoke, hnode, hroute, if_true]
  | cons current rest ih =>
      rw [List.forall_mem_cons] at hpending
      obtain ⟨world₁, state₁, hnode, hdispatch, hbetween₁⟩ :=
        supervisorNode_dispatch world hbetween hpending.1
      obtain ⟨world₂, state₂, step, hspecialist, hbetween₂⟩ :=
        specialistNode_done world₁ hrequest hbetween₁
      have hensure : ensurePlan python deps state₂.jsonReady = state₂.jsonReady := by
        apply if_neg
        rw [(hbetween₂.jsonReady hrequest).plan_eq]
        simp
      obtain ⟨world', graph, state', hvalid, hfinished, hrun⟩ := ih hpending.2 world₂
        (hensure ▸ hbetween₂.jsonReady hrequest)
      refine ⟨world', graph, state', hvalid, hfinished, fun rounds hrounds => ?_⟩
      cases rounds with
      | zero => exact absurd hrounds (Nat.not_lt_zero _)
      | succ rounds =>
          have hroute : routeNextNode (stateToGraphDict state₁) = current.specialist.value := by
            simp only [routeNextNode, stateToGraphDict, hdispatch, Option.map_some]
            cases current.specialist <;> decide
          have hnodes : nodes python deps current.specialist.value =
              some (specialistNode python deps current.specialist) := by
            unfold nodes
            rw [SpecialistName.ofValue?_value]
            cases current.specialist <;> rfl
          have hnext : current.specialist.value ≠ "END" := by cases current.specialist <;> decide
          simp only [invoke, hnode, hroute, hnext, if_false, hnodes, hspecialist]
          exact hrun rounds (Nat.lt_of_succ_lt_succ hrounds)

/-- Whatever the tools and the memories do, the sequential graph ends with the whole plan executed. -/
theorem invoke_supervised (python : Python) (deps : OrchestratorDependencies World)
    (hshaped : ∀ specialist request step observations value,
      deps.tool specialist request step observations = .ok value →
        Shaped specialist (normalizeToolOutput value))
    (request : ExecutionRequestPayload) (sessionId : String) (world : World) :
    ∃ enough world' graph state, SupervisorState.modelValidate graph = .ok state ∧
      Finished python deps request.jsonReady
        (createPlan python request.jsonReady (retrieveMemories deps request.jsonReady)) state ∧
      ∀ rounds, enough ≤ rounds →
        invoke python deps rounds world (stateToGraphDict { request, sessionId }) =
          some (.ok (world', graph)) := by
  have hrequest : request.jsonReady.jsonReady = request.jsonReady :=
    congrArg SupervisorState.request (SupervisorState.jsonReady_jsonReady { request, sessionId })
  generalize hplan : createPlan python request.jsonReady (retrieveMemories deps request.jsonReady) = plan
  obtain ⟨hplanned, -⟩ := createPlan_planned python request.jsonReady
    (retrieveMemories deps request.jsonReady)
  rw [hplan] at hplanned
  have hbetween : Between python deps request.jsonReady plan [] plan
      (ensurePlan python deps ({ request, sessionId } : SupervisorState).jsonReady) :=
    { request_eq := rfl
      plan_eq := hplan
      outline_eq := rfl
      index_eq := rfl
      executed := .nil }
  obtain ⟨world', graph, state, hvalid, hfinished, hrun⟩ :=
    invoke_finished hrequest hshaped hplanned.depends hplanned.pending world hbetween
  exact ⟨plan.length + 1, world', graph, state, hvalid, hfinished, hrun⟩

end

def asciiPython : Python where
  lower text := text.map Char.toLower
  strip text := String.ofList
    (((text.toList.dropWhile (· == ' ')).reverse.dropWhile (· == ' ')).reverse)
  str
    | .none => "None"
    | .int value => toString value
    | .str value => value
    | .list [] => "[]"
    | _ => ""
  repr text := "'" ++ text ++ "'"
  parseInt := String.toInt?

/-- Retrieval is down, there is no document, and nothing can be stored. -/
def degradedDependencies : OrchestratorDependencies Unit where
  ragTool _ _ _ := .error ⟨"ConnectionError", "index unavailable"⟩
  documentTool _ _ _ := .ok (.dict [("status", .str "skipped"), ("reason", .str "no document")])
  sqlTool _ _ _ := .ok (.dict [("sql", .str "SELECT 1 AS result"), ("rows", .list []), ("row_count", .int 0)])
  shortTermMemory :=
    { saveState := fun _ _ _ => (.error ⟨"ConnectionError", "redis unavailable"⟩, ())
      appendEvent := fun _ _ _ => (.error ⟨"ConnectionError", "redis unavailable"⟩, ()) }
  retrieveSimilar _ _ _ := .error ⟨"ConnectionError", "chroma unavailable"⟩

theorem degradedDependencies_shaped (specialist : SpecialistName) (request : ExecutionRequestPayload)
    (step : PlanStep) (observations : List ToolObservation) (value : PyValue)
    (hvalue : degradedDependencies.tool specialist request step observations = .ok value) :
    Shaped specialist (normalizeToolOutput value) := by
  cases specialist with
  | ragSearch => cases hvalue
  | documentExtraction =>
      obtain rfl := Except.ok.inj hvalue
      intro value hget
      simp [normalizeToolOutput, PyValue.jsonReady, PyValue.jsonReadyEntries, PyValue.get] at hget
  | sqlGeneration => trivial

/-- A run in which one specialist fails and another has nothing to do. -/
theorem invoke_supervised_degraded :
    ∃ enough world' graph state, SupervisorState.modelValidate graph = .ok state ∧
      Finished asciiPython degradedDependencies
        (⟨"ada", "general", "search the invoice database", none⟩ : ExecutionRequestPayload).jsonReady
        (createPlan asciiPython
          (⟨"ada", "general", "search the invoice database", none⟩ : ExecutionRequestPayload).jsonReady
          (retrieveMemories degradedDependencies
            (⟨"ada", "general", "search the invoice database", none⟩ :
              ExecutionRequestPayload).jsonReady)) state ∧
      ∀ rounds, enough ≤ rounds →
        invoke asciiPython degradedDependencies rounds ()
          (stateToGraphDict
            { request := ⟨"ada", "general", "search the invoice database", none⟩
              sessionId := "session" }) = some (.ok (world', graph)) :=
  invoke_supervised asciiPython degradedDependencies degradedDependencies_shaped
    ⟨"ada", "general", "search the invoice database", none⟩ "session" ()

end CoreMesh.Agents
