import CoreMesh.FineTuner.RunTraining

/-!
# The directory of a run

A run that comes to the `try` leaves its directory with one manifest, and with an adapter only beside that of
a completed run. An exception on the way there leaves the directory with none.
-/

namespace CoreMesh.FineTuner

open Effect (Ensures Keeps Returns)

variable {config : FineTuningConfig} {world : World} {lineage startedAt : Json}

/-- One manifest, and an adapter only beside that of a completed run. -/
structure Sealed (dir : RunDir) : Prop where
  one : dir.manifest.isSome = !dir.failedManifest.isSome
  adapter : dir.adapter.isSome = true → dir.manifest.isSome = true

instance (dir : RunDir) : Decidable (Sealed dir) :=
  decidable_of_iff (dir.manifest.isSome = (!dir.failedManifest.isSome) ∧
      (dir.adapter.isSome = true → dir.manifest.isSome = true))
    ⟨fun h => ⟨h.1, h.2⟩, fun h => ⟨h.one, h.adapter⟩⟩

/-- Without a manifest of either kind. -/
structure Unmarked (dir : RunDir) : Prop where
  manifest : dir.manifest = none
  failedManifest : dir.failedManifest = none

theorem Unmarked.not_sealed {dir : RunDir} (hunmarked : Unmarked dir) : ¬Sealed dir := by
  intro hsealed
  have hone := hsealed.one
  rw [hunmarked.manifest, hunmarked.failedManifest] at hone
  cases hone

/-! ### Calls -/

section Calls

variable {P : RunDir → Prop}

theorem keeps_call (step : Step) : Keeps P (call world step) := by
  rw [call]
  split
  · exact Effect.keeps_fail _
  · exact Effect.keeps_pure _

theorem keeps_raise {α : Type} {kind : FailureKind} {typeName message : String} :
    Keeps P (raise kind typeName message : Run α) := Effect.keeps_fail _

theorem returns_call_iff (step : Step) (dir : RunDir) :
    Returns (call world step) dir ↔ world.raises step = none := by
  rw [call]
  split
  · rename_i failure hraises
    rw [hraises]
    exact iff_of_false (Effect.not_returns_fail _ _) (Option.some_ne_none _)
  · rename_i hraises
    exact iff_of_true (Effect.returns_pure _ _) hraises

theorem keeps_atomicWriteJson {write replace : Step} {name : String} {place : RunDir → RunDir}
    (hplace : ∀ dir, Unmarked dir → Unmarked (place dir)) :
    Keeps Unmarked (atomicWriteJson world write replace name place) := by
  apply (keeps_call write).bind
  intro _
  apply Keeps.bind (Effect.keeps_update fun dir hdir => ⟨hdir.manifest, hdir.failedManifest⟩)
  intro _
  apply (keeps_call replace).bind
  intro _
  exact Effect.keeps_update fun dir hdir => hplace _ ⟨hdir.manifest, hdir.failedManifest⟩

/-- A call before what returns or not whatever it gives. -/
theorem returns_call_bind_iff {α : Type} {step : Step} {f : Json → Run α} {dir : RunDir} {B : Prop}
    (hf : ∀ value dir', Returns (f value) dir' ↔ B) :
    Returns (call world step >>= f) dir ↔ world.raises step = none ∧ B :=
  Effect.returns_bind_iff (returns_call_iff step dir) hf

theorem returns_call_last_iff {α : Type} {step : Step} {f : Json → Run α} {dir : RunDir}
    (hf : ∀ value dir', Returns (f value) dir') :
    Returns (call world step >>= f) dir ↔ world.raises step = none := by
  rw [returns_call_bind_iff fun value dir' => iff_true_intro (hf value dir'), and_true]

theorem returns_atomicWriteJson_iff {write replace : Step} {name : String} {place : RunDir → RunDir}
    (dir : RunDir) : Returns (atomicWriteJson world write replace name place) dir ↔
      world.raises write = none ∧ world.raises replace = none := by
  apply returns_call_bind_iff
  intro _ dir'
  exact returns_call_last_iff fun _ _ => ⟨⟨⟩, rfl⟩

end Calls

/-! ### Before the `try` -/

/-- The calls between the directory and the `try`. -/
def setupSteps (config : FineTuningConfig) (world : World) : List Step :=
  [.makeCheckpointsDir, .writeResolvedConfig, .replaceResolvedConfig] ++
    (if config.wandbMode = .disabled then [] else [.importWandb, .setWandbEnvironment]) ++
    [.startClock, .isCudaAvailable] ++ if world.cudaAvailable then [.resetPeakMemoryStats] else []

theorem keeps_configureWandbForTrainer {P : RunDir → Prop} :
    Keeps P (configureWandbForTrainer config world) := by
  rw [configureWandbForTrainer]
  split
  · exact Effect.keeps_pure _
  · apply Keeps.bind
    · apply (keeps_call _).attempt
      intro failure
      split
      · exact keeps_raise
      · exact Effect.keeps_fail _
    · intro _
      apply (keeps_call _).bind
      intro _
      exact Effect.keeps_pure _

theorem keeps_setUp : Keeps Unmarked (setUp config world) := by
  apply (keeps_call _).bind
  intro _
  apply Keeps.bind (Effect.keeps_update fun dir hdir => ⟨hdir.manifest, hdir.failedManifest⟩)
  intro _
  apply Keeps.bind
  · exact keeps_atomicWriteJson fun dir hdir => ⟨hdir.manifest, hdir.failedManifest⟩
  intro _
  apply keeps_configureWandbForTrainer.bind
  intro _
  apply (keeps_call _).bind
  intro _
  apply (keeps_call _).bind
  intro _
  split
  · apply (keeps_call _).bind
    intro _
    exact Effect.keeps_pure _
  · exact Effect.keeps_pure _

theorem returns_importWandb_iff (dir : RunDir) :
    Returns (Effect.attempt (call world .importWandb) fun failure =>
      if failure.kind = .importError then
        raise .fineTunerError "FineTunerPreflightError"
          "Weights & Biases logging requires wandb from requirements-fine-tuner.txt"
      else Effect.fail failure) dir ↔ world.raises .importWandb = none := by
  have hraises := @returns_call_iff world .importWandb dir
  rw [← hraises]
  unfold Effect.attempt Returns
  dsimp only
  generalize call world .importWandb dir = outcome
  obtain ⟨result, dir'⟩ := outcome
  cases result with
  | ok value => exact Iff.rfl
  | error failure =>
      dsimp only
      split
      · exact iff_of_false (Effect.not_returns_fail _ dir') (Effect.not_returns_fail failure dir')
      · exact Iff.rfl

theorem returns_configureWandbForTrainer_iff (dir : RunDir) :
    Returns (configureWandbForTrainer config world) dir ↔
      ∀ step ∈ (if config.wandbMode = .disabled then [] else [Step.importWandb, .setWandbEnvironment]),
        world.raises step = none := by
  rw [configureWandbForTrainer]
  split
  · exact iff_of_true (Effect.returns_pure _ _) (List.forall_mem_nil _)
  · rw [List.forall_mem_cons, List.forall_mem_singleton]
    apply Effect.returns_bind_iff (returns_importWandb_iff dir)
    intro _ dir'
    exact returns_call_last_iff fun _ _ => Effect.returns_pure _ _

theorem returns_setUp_iff (dir : RunDir) : Returns (setUp config world) dir ↔
    ∀ step ∈ setupSteps config world, world.raises step = none := by
  rw [setupSteps, List.forall_mem_append, List.forall_mem_append, List.forall_mem_append,
    List.forall_mem_cons, List.forall_mem_cons, List.forall_mem_singleton, List.forall_mem_cons,
    List.forall_mem_singleton, and_assoc, and_assoc, and_assoc, and_assoc]
  apply returns_call_bind_iff
  intro _ dir
  rw [← and_assoc]
  apply Effect.returns_bind_iff (returns_atomicWriteJson_iff _)
  intro _ dir
  apply Effect.returns_bind_iff (returns_configureWandbForTrainer_iff dir)
  intro _ dir
  rw [and_assoc]
  apply returns_call_bind_iff
  intro _ dir
  apply returns_call_bind_iff
  intro _ dir
  split
  · rw [List.forall_mem_singleton]
    exact returns_call_last_iff fun _ _ => Effect.returns_pure _ _
  · exact iff_of_true (Effect.returns_pure _ _) (List.forall_mem_nil _)

/-! ### In the `try` -/

theorem keeps_loadTokenizer {P : RunDir → Prop} : Keeps P (loadTokenizer world) := by
  apply (keeps_call _).bind
  intro _
  apply (keeps_call _).bind
  intro _
  split
  · exact keeps_raise
  · apply (keeps_call _).bind
    intro _
    exact Effect.keeps_pure _

theorem keeps_loadModel {P : RunDir → Prop} : Keeps P (loadModel config world) := by
  have hrest : Keeps P (do
      let _ ← call world .loadModel
      if config.quantizationEnabled || config.gradientCheckpointing then
        let _ ← call world .prepareModel
      return ⟨⟩ : Run PUnit) := by
    apply (keeps_call _).bind
    intro _
    split
    · apply (keeps_call _).bind
      intro _
      exact Effect.keeps_pure _
    · exact Effect.keeps_pure _
  rw [loadModel]
  split
  · apply (keeps_call _).bind
    intro _
    exact hrest
  · exact hrest

theorem keeps_wrapModel {P : RunDir → Prop} : Keeps P (wrapModel world) := by
  apply (keeps_call _).bind
  intro _
  apply (keeps_call _).bind
  intro _
  apply (keeps_call _).bind
  intro _
  split
  · exact keeps_raise
  · dsimp only
    split
    · exact keeps_raise
    · exact Effect.keeps_pure _

theorem keeps_trainModel {P : RunDir → Prop} : Keeps P (trainModel world) := by
  apply (keeps_call _).bind
  intro _
  apply (keeps_call _).bind
  intro _
  apply (keeps_call _).bind
  intro _
  apply (keeps_call _).bind
  intro _
  apply (keeps_call _).bind
  intro _
  apply (keeps_call _).bind
  intro _
  exact keeps_call _

theorem keeps_exportAdapter : Keeps Unmarked (exportAdapter world) := by
  apply (keeps_call _).bind
  intro _
  apply Keeps.bind (Effect.keeps_update fun dir hdir => ⟨hdir.manifest, hdir.failedManifest⟩)
  intro _
  apply (keeps_call _).bind
  intro _
  apply (keeps_call _).bind
  intro _
  apply Keeps.bind (Effect.keeps_update fun dir hdir => ⟨hdir.manifest, hdir.failedManifest⟩)
  intro _
  apply (keeps_call _).bind
  intro _
  apply Keeps.bind (Effect.keeps_update fun dir hdir => ⟨hdir.manifest, hdir.failedManifest⟩)
  intro _
  apply (keeps_call _).bind
  intro _
  apply Keeps.bind Effect.keeps_read
  intro dir
  split
  · exact Effect.keeps_pure _
  · exact keeps_raise

theorem keeps_wandbIdentity {P : RunDir → Prop} : Keeps P (wandbIdentity config world) := by
  apply (keeps_call _).bind
  intro _
  split
  · apply (keeps_call _).bind
    intro _
    exact Effect.keeps_pure _
  · exact Effect.keeps_pure _

theorem keeps_buildManifest {P : RunDir → Prop} {metrics : Json} :
    Keeps P (buildManifest config world lineage startedAt metrics) := by
  apply (keeps_call _).bind
  intro _
  apply (keeps_call _).bind
  intro _
  apply (keeps_call _).bind
  intro _
  apply keeps_wandbIdentity.bind
  intro _
  apply (keeps_call _).bind
  intro _
  apply (keeps_call _).bind
  intro _
  apply (keeps_call _).bind
  intro _
  apply (keeps_call _).bind
  intro _
  apply (keeps_call _).bind
  intro _
  exact Effect.keeps_pure _

theorem keeps_trainAndExport : Keeps Unmarked (trainAndExport config world lineage startedAt) := by
  apply keeps_loadTokenizer.bind
  intro _
  apply keeps_loadModel.bind
  intro _
  apply keeps_wrapModel.bind
  intro _
  apply keeps_trainModel.bind
  intro _
  apply keeps_exportAdapter.bind
  intro _
  exact keeps_buildManifest

/-- The `try` leaves a sealed directory, or after an exception one without a manifest. -/
theorem ensures_complete : Ensures Unmarked (complete config world lineage startedAt)
    (Effect.either (fun _ => Sealed) fun _ => Unmarked) := by
  refine Keeps.bind_ensures keeps_trainAndExport (fun _ _ hdir => hdir) fun manifest => ?_
  refine Effect.ensures_bind (R := fun _ => Sealed) ?_ fun _ dir hsealed => hsealed
  refine Keeps.bind_ensures (keeps_call _) (fun _ _ hdir => hdir) fun _ => ?_
  refine Keeps.bind_ensures (Effect.keeps_update fun dir hdir => ⟨hdir.manifest, hdir.failedManifest⟩)
    (fun _ _ hdir => hdir) fun _ => ?_
  refine Keeps.bind_ensures (keeps_call _) (fun _ _ hdir => hdir) fun _ => ?_
  intro dir hdir
  refine ⟨?_, fun _ => rfl⟩
  show true = !dir.failedManifest.isSome
  rw [hdir.failedManifest]
  rfl

/-! ### After an exception -/

section Report

variable (hreport : ∀ step, step.phase = .report → world.raises step = none)
include hreport

theorem call_report {step : Step} (hstep : step.phase = .report) :
    call world step = pure (world.value step) := by
  rw [call, hreport step hstep]

/-- Without a manifest and without an adapter. -/
structure Cleared (dir : RunDir) : Prop extends Unmarked dir where
  adapter : dir.adapter = none

theorem ensures_removeAdapter : Ensures Unmarked (removeAdapter world) fun result dir =>
    result = .ok ⟨⟩ ∧ Cleared dir := by
  intro dir hdir
  rw [removeAdapter, @call_report world hreport .adapterExists rfl,
    @call_report world hreport .removeAdapter rfl]
  obtain ⟨checkpoints, resolvedConfig, adapter, manifest, failedManifest, temporaries⟩ := dir
  cases adapter with
  | none => exact ⟨rfl, ⟨hdir.manifest, hdir.failedManifest⟩, rfl⟩
  | some files => exact ⟨rfl, ⟨hdir.manifest, hdir.failedManifest⟩, rfl⟩

theorem ensures_failureManifest {failure : Failure} :
    Ensures Cleared (failureManifest config world lineage startedAt failure) fun result dir =>
      (∃ manifest, result = .ok manifest) ∧ Cleared dir := by
  intro dir hdir
  rw [failureManifest, @call_report world hreport .failureClock rfl,
    @call_report world hreport .failureElapsed rfl, @call_report world hreport .failureMemory rfl,
    @call_report world hreport .failurePackages rfl, @call_report world hreport .failureHardware rfl,
    @call_report world hreport .failureGit rfl]
  exact ⟨⟨_, rfl⟩, hdir⟩

theorem ensures_writeFailedManifest {manifest : Json} :
    Ensures Cleared (atomicWriteJson world .writeFailedManifest .replaceFailedManifest "manifest.failed.json"
      fun dir => { dir with failedManifest := some manifest }) fun result dir =>
        result = .ok ⟨⟩ ∧ Sealed dir := by
  intro dir hdir
  rw [atomicWriteJson, @call_report world hreport .writeFailedManifest rfl,
    @call_report world hreport .replaceFailedManifest rfl]
  refine ⟨rfl, ?_, ?_⟩
  · show dir.manifest.isSome = false
    rw [hdir.manifest]
    rfl
  · intro hadapter
    have hnone : dir.adapter.isSome = true := hadapter
    rw [hdir.adapter] at hnone
    cases hnone

/-- The report of an exception leaves the directory sealed. -/
theorem ensures_report {failure : Failure} :
    Ensures Unmarked (report config world lineage startedAt failure) fun _ dir => Sealed dir := by
  refine Effect.ensures_bind (R := fun _ => Cleared) ?_ fun _ => ?_
  · intro dir hdir
    obtain ⟨hok, hcleared⟩ := ensures_removeAdapter hreport dir hdir
    rw [hok]
    exact hcleared
  refine Effect.ensures_bind (R := fun _ => Cleared) ?_ fun manifest => ?_
  · intro dir hdir
    obtain ⟨⟨manifest, hok⟩, hcleared⟩ :=
      @ensures_failureManifest config world lineage startedAt hreport failure dir hdir
    rw [hok]
    exact hcleared
  refine Effect.ensures_bind (R := fun _ => Sealed) ?_ fun _ dir hsealed => hsealed
  intro dir hdir
  obtain ⟨hok, hsealed⟩ := ensures_writeFailedManifest hreport dir hdir
  rw [hok]
  exact hsealed

end Report

theorem cleanup_snd (dir : RunDir) : (cleanup world dir).2 = dir := by
  have hkeeps : Keeps (fun other => other = dir) (cleanup world) := by
    apply Keeps.bind
    · apply Keeps.attempt
      · apply (keeps_call _).bind
        intro _
        exact Effect.keeps_pure _
      · intro failure
        split
        · exact Effect.keeps_pure _
        · exact Effect.keeps_fail _
    intro _
    apply Keeps.bind
    · apply Keeps.attempt
      · apply (keeps_call _).bind
        intro _
        exact Effect.keeps_pure _
      · exact fun _ => Effect.keeps_pure _
    intro _
    apply (keeps_call _).bind
    intro _
    exact Effect.keeps_pure _
  exact hkeeps dir rfl

/-! ### The run -/

/-- From the `try` on, the directory is sealed whatever is raised there. -/
theorem ensures_guarded (hreport : ∀ step, step.phase = .report → world.raises step = none) :
    Ensures Unmarked (Effect.andFinally
      (Effect.attempt (complete config world lineage startedAt) (report config world lineage startedAt))
      (cleanup world)) fun _ dir => Sealed dir := by
  have hattempt : Ensures Unmarked
      (Effect.attempt (complete config world lineage startedAt) (report config world lineage startedAt))
      fun _ dir => Sealed dir := by
    refine Effect.ensures_attempt (R := fun _ => Unmarked) ?_ fun failure => ensures_report hreport
    exact ensures_complete
  intro dir hdir
  rw [Effect.andFinally_snd cleanup_snd]
  exact hattempt dir hdir

theorem sealed_fineTune_iff (hreport : ∀ step, step.phase = .report → world.raises step = none) :
    Sealed (fineTune config world lineage RunDir.new).2 ↔
      ∀ step ∈ setupSteps config world, world.raises step = none := by
  rw [← returns_setUp_iff RunDir.new]
  have hkept : Unmarked (setUp config world RunDir.new).2 := keeps_setUp RunDir.new ⟨rfl, rfl⟩
  have hguarded := fun startedAt => @ensures_guarded config world lineage startedAt hreport
  unfold Returns
  obtain ⟨⟨result, dir⟩, hrun⟩ : ∃ outcome, setUp config world RunDir.new = outcome := ⟨_, rfl⟩
  rw [hrun] at hkept ⊢
  cases result with
  | ok started =>
      rw [fineTune, Effect.bind_of_ok hrun]
      exact iff_of_true (hguarded started.2 dir hkept) ⟨started, rfl⟩
  | error failure =>
      rw [fineTune, Effect.bind_of_error hrun]
      apply iff_of_false hkept.not_sealed
      intro ⟨_, hok⟩
      cases hok

/-- Where no exception is raised while another one is reported, a run leaves its directory sealed exactly if
none is raised between the creation of the directory and the `try`. -/
theorem runTraining_sealed_iff {config : FineTuningConfig} {world : World}
    {cases : Option (List GoldenTrainingCase)} {dir : RunDir}
    (hreport : ∀ step, step.phase = .report → world.raises step = none)
    (hdir : (runTraining config world cases).2 = some dir) :
    Sealed dir ↔ ∀ step ∈ setupSteps config world, world.raises step = none := by
  rw [runTraining] at hdir
  split at hdir
  · cases hdir
  · obtain rfl := Option.some.inj hdir
    exact sealed_fineTune_iff hreport

/-! ### A machine without W&B -/

def trialConfig : FineTuningConfig where
  modelId := "models/tiny"
  revision := "main"
  dataset := thirds
  quantizationEnabled := false
  gradientCheckpointing := false
  wandbMode := .offline

/-- A run of which no call raises but, on a machine without the package, the import of W&B. -/
def trialWorld (installed : Bool) : World where
  python := plainPython
  raises step :=
    if step = .importWandb ∧ installed = false then
      some ⟨.importError, "ModuleNotFoundError", "No module named 'wandb'"⟩
    else none
  value _ := .null
  environ := []
  storedCases := []
  lineage _ := .null
  resolvedConfig := .obj []
  configHash := "0f"
  runId := "20260101T000000000000Z-0f"
  runDir := "artifacts/fine_tuner/support/20260101T000000000000Z-0f"
  resolvedRevision := "main"
  cudaAvailable := false
  padTokenId := some 0
  eosTokenId := some 1
  trainableNames := ["q_proj.lora_A"]
  modelFiles := ["adapter_config.json", "adapter_model.safetensors"]
  tokenizerFiles := ["tokenizer.json"]
  wandbRun := none

def trialCases : Option (List GoldenTrainingCase) := some (["a", "b", "c"].map supportCase)

def trialDir (installed : Bool) : Option RunDir :=
  (runTraining trialConfig (trialWorld installed) trialCases).2

/-- The run with the package, of which one call raises. -/
def failingWorld (failing : Step) : World :=
  { trialWorld true with
    raises := fun step => if step = failing then some ⟨.osError, "OSError", "No space left on device"⟩ else none }

theorem failingWorld_raises {step failing : Step} (hne : step.phase ≠ failing.phase) :
    (failingWorld failing).raises step = none :=
  if_neg fun heq => hne (congrArg Step.phase heq)

/-- The run in which a call raises is sealed by the other manifest, and what was exported is gone. -/
def FailsSealed (failing : Step) : Prop :=
  ∃ dir, (runTraining trialConfig (failingWorld failing) trialCases).2 = some dir ∧ Sealed dir ∧
    dir.failedManifest.isSome ∧ dir.manifest = none ∧ dir.adapter = none

/-- Whether the training raises, or the export, or the writing of the manifest itself. -/
theorem runTraining_sealed_iff_trial :
    FailsSealed .train ∧ FailsSealed .saveModel ∧ FailsSealed .writeManifest := by
  have hall : ∀ failing ∈ [Step.train, .saveModel, .writeManifest], FailsSealed failing := by
    intro failing hfailing
    have hphase : failing.phase = .training := by
      revert failing
      decide
    have hends : (runTraining trialConfig (failingWorld failing) trialCases).2.map (fun dir =>
        (dir.failedManifest.isSome, dir.manifest.isNone, dir.adapter.isNone)) = some (true, true, true) := by
      revert failing
      decide +kernel
    obtain ⟨dir, hdir, hends⟩ := Option.map_eq_some_iff.mp hends
    simp only [Prod.mk.injEq, Option.isNone_iff_eq_none] at hends
    obtain ⟨hfailed, hmanifest, hadapter⟩ := hends
    have hsealed : Sealed dir := by
      refine (runTraining_sealed_iff ?_ hdir).mpr ?_
      · intro step hstep
        exact failingWorld_raises (by rw [hstep, hphase]; decide)
      · intro step hstep
        have hsetup : ∀ step ∈ setupSteps trialConfig (trialWorld true), step.phase = .setup := by decide
        exact failingWorld_raises (by rw [hsetup step hstep, hphase]; decide)
    exact ⟨dir, hdir, hsealed, hfailed, hmanifest, hadapter⟩
  exact ⟨hall .train (by simp), hall .saveModel (by simp), hall .writeManifest (by simp)⟩

theorem not_sealed_without_wandb :
    (trialDir false).isSome = true ∧ (trialDir false).any (fun dir => decide (Sealed dir)) = false := by
  decide +kernel

end CoreMesh.FineTuner
