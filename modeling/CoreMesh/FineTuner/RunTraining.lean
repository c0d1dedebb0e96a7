import Mathlib.Data.List.Infix
import CoreMesh.FineTuner.Splits
import CoreMesh.Lib.Interruption

/-!
# Training runs

`run_training`: what a run does to its directory, call by call. What the calls of libraries and of the system
give, and which of them raise, is a parameter.
-/

namespace CoreMesh.FineTuner

/-- The classes of exceptions that the run tells apart. -/
inductive FailureKind where
  | fineTunerTrainingError
  | fineTunerError
  | importError
  | fileExistsError
  | osError
  | other
  deriving DecidableEq, Repr

structure Failure where
  kind : FailureKind
  typeName : String
  message : String
  deriving DecidableEq

inductive Phase where
  /-- Before there is a directory. -/
  | preparation
  /-- Between the directory and the `try`. -/
  | setup
  | training
  /-- What the `except` does. -/
  | report
  | cleanup
  deriving DecidableEq

/-- The calls that can raise, by the place where they are made. -/
inductive Step where
  | loadGoldenCases
  | importDependencies
  | preflight
  | newRunId
  | makeRunDir
  | makeCheckpointsDir
  | writeResolvedConfig
  | replaceResolvedConfig
  | importWandb
  | setWandbEnvironment
  | startClock
  | isCudaAvailable
  | resetPeakMemoryStats
  | modelKwargs
  | loadTokenizer
  | setTokenizerPadding
  | buildQuantizationConfig
  | loadModel
  | prepareModel
  | loraConfig
  | getPeftModel
  | namedParameters
  | trainDataset
  | validationDataset
  | sftConfig
  | buildCallbacks
  | sftTrainer
  | train
  | trainingMetrics
  | makeAdapterDir
  | unwrapModel
  | saveModel
  | saveTokenizer
  | statWeights
  | finishClock
  | elapsed
  | cudaMemory
  | activeWandbRun
  | updateWandbSummary
  | countParameters
  | packageVersions
  | hardwareMetadata
  | gitMetadata
  | artifactInventory
  | writeManifest
  | replaceManifest
  | adapterExists
  | removeAdapter
  | failureClock
  | failureElapsed
  | failureMemory
  | failurePackages
  | failureHardware
  | failureGit
  | writeFailedManifest
  | replaceFailedManifest
  | activeRunAtEnd
  | finishWandbRun
  | collectGarbage
  deriving DecidableEq, Repr

def Step.phase : Step → Phase
  | .loadGoldenCases | .importDependencies | .preflight | .newRunId | .makeRunDir => .preparation
  | .makeCheckpointsDir | .writeResolvedConfig | .replaceResolvedConfig | .importWandb | .setWandbEnvironment
  | .startClock | .isCudaAvailable | .resetPeakMemoryStats => .setup
  | .adapterExists | .removeAdapter | .failureClock | .failureElapsed | .failureMemory | .failurePackages
  | .failureHardware | .failureGit | .writeFailedManifest | .replaceFailedManifest => .report
  | .activeRunAtEnd | .finishWandbRun | .collectGarbage => .cleanup
  | _ => .training

inductive WandbMode where
  | online
  | offline
  | disabled
  deriving DecidableEq

def WandbMode.text : WandbMode → String
  | .online => "online"
  | .offline => "offline"
  | .disabled => "disabled"

/-- The fields of a configuration that a run does something with, but for handing them on. -/
structure FineTuningConfig where
  modelId : String
  revision : String
  dataset : DatasetConfig
  quantizationEnabled : Bool
  gradientCheckpointing : Bool
  wandbMode : WandbMode

/-- What is in the directory of a run. -/
structure RunDir where
  checkpoints : Bool
  resolvedConfig : Option Json
  /-- The files of the adapter, if it is there. -/
  adapter : Option (List String)
  manifest : Option Json
  failedManifest : Option Json
  temporaries : List String

def RunDir.new : RunDir := ⟨false, none, none, none, none, []⟩

structure RunResult where
  runId : String
  runDir : String
  manifestPath : String
  adapterDir : String

/-- What a run finds: which calls raise, what the others give, and what is looked into of that. -/
structure World where
  python : Python
  raises : Step → Option Failure
  value : Step → Json
  environ : List (String × String)
  storedCases : List GoldenTrainingCase
  lineage : DatasetSplits → Json
  resolvedConfig : Json
  configHash : String
  runId : String
  runDir : String
  resolvedRevision : String
  cudaAvailable : Bool
  padTokenId : Option ℤ
  eosTokenId : Option ℤ
  trainableNames : List String
  modelFiles : List String
  tokenizerFiles : List String
  /-- The identifier, the name and the address of the active W&B run. -/
  wandbRun : Option (List (String × Json))

abbrev Run := Effect Failure RunDir

section Run

variable (config : FineTuningConfig) (world : World)

def call (step : Step) : Run Json :=
  match world.raises step with
  | some failure => Effect.fail failure
  | none => pure (world.value step)

def raise {α : Type} (kind : FailureKind) (typeName message : String) : Run α :=
  Effect.fail ⟨kind, typeName, message⟩

/-- `_atomic_write_json`: the file is there from the replacement on. -/
def atomicWriteJson (write replace : Step) (name : String) (place : RunDir → RunDir) : Run PUnit := do
  let _ ← call world write
  Effect.update fun dir => { dir with temporaries := name :: dir.temporaries }
  let _ ← call world replace
  Effect.update fun dir => place { dir with temporaries := dir.temporaries.erase name }

/-- `str.replace` of the secrets, and the first characters of what is left. -/
def safeErrorMessage (message : String) : String :=
  let redacted := ["POSTGRES_DSN", "HF_TOKEN", "WANDB_API_KEY"].foldl
    (fun (message : String) name =>
      match world.environ.lookup name with
      | some secret => if secret = "" then message else message.replace secret "[REDACTED]"
      | none => message) message
  String.ofList (redacted.toList.take 2000)

/-! ### Before the `try` -/

/-- `_configure_wandb_for_trainer`. -/
def configureWandbForTrainer : Run Bool :=
  if config.wandbMode = .disabled then pure false
  else do
    let _ ← Effect.attempt (call world .importWandb) fun failure =>
      if failure.kind = .importError then
        raise .fineTunerError "FineTunerPreflightError"
          "Weights & Biases logging requires wandb from requirements-fine-tuner.txt"
      else Effect.fail failure
    let _ ← call world .setWandbEnvironment
    return true

/-- From the directory to the `try`: whether W&B is on, and when the run began. -/
def setUp : Run (Bool × Json) := do
  let _ ← call world .makeCheckpointsDir
  Effect.update fun dir => { dir with checkpoints := true }
  atomicWriteJson world .writeResolvedConfig .replaceResolvedConfig "resolved_config.json"
    fun dir => { dir with resolvedConfig := some world.resolvedConfig }
  let wandbEnabled ← configureWandbForTrainer config world
  let startedAt ← call world .startClock
  let _ ← call world .isCudaAvailable
  if world.cudaAvailable then
    let _ ← call world .resetPeakMemoryStats
    return (wandbEnabled, startedAt)
  else return (wandbEnabled, startedAt)

/-! ### In the `try` -/

def loadTokenizer : Run PUnit := do
  let _ ← call world .modelKwargs
  let _ ← call world .loadTokenizer
  if world.padTokenId = none ∧ world.eosTokenId = none then
    raise .fineTunerError "FineTunerPreflightError"
      "the base tokenizer defines neither a pad token nor an EOS token"
  else
    let _ ← call world .setTokenizerPadding
    return ⟨⟩

def loadModel : Run PUnit := do
  if config.quantizationEnabled then
    let _ ← call world .buildQuantizationConfig
  let _ ← call world .loadModel
  if config.quantizationEnabled || config.gradientCheckpointing then
    let _ ← call world .prepareModel
  return ⟨⟩

def isAdapterName (name : String) : Bool := decide ("lora_".toList <:+: name.toList)

def wrapModel : Run PUnit := do
  let _ ← call world .loraConfig
  let _ ← call world .getPeftModel
  let _ ← call world .namedParameters
  if world.trainableNames = [] then
    raise .fineTunerError "FineTunerPreflightError" "PEFT created no trainable adapter parameters"
  else
    let unexpected := world.trainableNames.filter fun name => !isAdapterName name
    if unexpected ≠ [] then
      raise .fineTunerError "FineTunerPreflightError"
        ("non-adapter parameters unexpectedly remain trainable: " ++ ", ".intercalate (unexpected.take 5))
    else return ⟨⟩

/-- The metrics of the training. -/
def trainModel : Run Json := do
  let _ ← call world .trainDataset
  let _ ← call world .validationDataset
  let _ ← call world .sftConfig
  let _ ← call world .buildCallbacks
  let _ ← call world .sftTrainer
  let _ ← call world .train
  call world .trainingMetrics

def exportAdapter : Run PUnit := do
  let _ ← call world .makeAdapterDir
  Effect.update fun dir => { dir with adapter := some [] }
  let _ ← call world .unwrapModel
  let _ ← call world .saveModel
  Effect.update fun dir => { dir with adapter := dir.adapter.map (· ++ world.modelFiles) }
  let _ ← call world .saveTokenizer
  Effect.update fun dir => { dir with adapter := dir.adapter.map (· ++ world.tokenizerFiles) }
  let _ ← call world .statWeights
  let dir ← Effect.read
  if (dir.adapter.getD []).contains "adapter_model.safetensors" then return ⟨⟩
  else raise .other "RuntimeError" "PEFT did not emit adapter_model.safetensors"

def baseModelEntry : Json :=
  .obj [("model_id", .str config.modelId), ("requested_revision", .str config.revision),
    ("resolved_revision", .str world.resolvedRevision)]

/-- What the manifest says of the active W&B run, whose summary is updated. -/
def wandbIdentity : Run Json := do
  let _ ← call world .activeWandbRun
  match world.wandbRun with
  | some run =>
      let _ ← call world .updateWandbSummary
      return .obj (run ++ [("mode", .str config.wandbMode.text)])
  | none => return .null

def buildManifest (lineage startedAt metrics : Json) : Run Json := do
  let finishedAt ← call world .finishClock
  let elapsed ← call world .elapsed
  let memory ← call world .cudaMemory
  let identity ← wandbIdentity config world
  let parameters ← call world .countParameters
  let packages ← call world .packageVersions
  let hardware ← call world .hardwareMetadata
  let git ← call world .gitMetadata
  let artifacts ← call world .artifactInventory
  return .obj [("schema_version", .str "coremesh-fine-tuning-manifest-v1"), ("status", .str "completed"),
    ("run_id", .str world.runId), ("started_at", startedAt), ("finished_at", finishedAt),
    ("duration_seconds", elapsed), ("feature_scope", .str config.dataset.featureScope),
    ("base_model", baseModelEntry config world), ("config_sha256", .str world.configHash),
    ("dataset", lineage), ("metrics", metrics), ("memory", memory),
    ("trainable_parameters", .obj [("count", parameters), ("names", .arr (world.trainableNames.map .str))]),
    ("packages", packages), ("hardware", hardware), ("git", git), ("wandb", identity),
    ("artifacts", artifacts)]

/-- What is done before the manifest is written. -/
def trainAndExport (lineage startedAt : Json) : Run Json := do
  loadTokenizer world
  loadModel config world
  wrapModel world
  let metrics ← trainModel world
  exportAdapter world
  buildManifest config world lineage startedAt metrics

def runResult : RunResult :=
  ⟨world.runId, world.runDir, world.runDir ++ "/manifest.json", world.runDir ++ "/adapter"⟩

def complete (lineage startedAt : Json) : Run RunResult := do
  let manifest ← trainAndExport config world lineage startedAt
  atomicWriteJson world .writeManifest .replaceManifest "manifest.json"
    fun dir => { dir with manifest := some manifest }
  return runResult world

/-! ### After an exception -/

def removeAdapter : Run PUnit := do
  let _ ← call world .adapterExists
  let dir ← Effect.read
  if dir.adapter.isSome then
    -- Its own errors are ignored.
    Effect.attempt
      (do
        let _ ← call world .removeAdapter
        Effect.update fun dir => { dir with adapter := none })
      fun _ => pure ⟨⟩
  else return ⟨⟩

def failureManifest (lineage startedAt : Json) (failure : Failure) : Run Json := do
  let finishedAt ← call world .failureClock
  let elapsed ← call world .failureElapsed
  let memory ← call world .failureMemory
  let packages ← call world .failurePackages
  let hardware ← call world .failureHardware
  let git ← call world .failureGit
  return .obj [("schema_version", .str "coremesh-fine-tuning-manifest-v1"), ("status", .str "failed"),
    ("run_id", .str world.runId), ("started_at", startedAt), ("finished_at", finishedAt),
    ("duration_seconds", elapsed), ("feature_scope", .str config.dataset.featureScope),
    ("base_model", baseModelEntry config world), ("config_sha256", .str world.configHash),
    ("dataset", lineage),
    ("error", .obj [("type", .str failure.typeName),
      ("message", .str (safeErrorMessage world failure.message))]),
    ("memory", memory), ("packages", packages), ("hardware", hardware), ("git", git)]

/-- What a failure is raised as. -/
def reraised (failure : Failure) : Failure :=
  if failure.kind = .fineTunerError then
    ⟨.fineTunerTrainingError, "FineTunerTrainingError", failure.message⟩
  else failure

def report (lineage startedAt : Json) (failure : Failure) : Run RunResult := do
  removeAdapter world
  let manifest ← failureManifest config world lineage startedAt failure
  atomicWriteJson world .writeFailedManifest .replaceFailedManifest "manifest.failed.json"
    fun dir => { dir with failedManifest := some manifest }
  Effect.fail (reraised failure)

/-- `_active_wandb_run`: without the module there is no run. -/
def activeRunAtEnd : Run PUnit :=
  Effect.attempt
    (do
      let _ ← call world .activeRunAtEnd
      pure ⟨⟩)
    fun failure => if failure.kind = .importError then pure ⟨⟩ else Effect.fail failure

def cleanup : Run PUnit := do
  activeRunAtEnd world
  Effect.attempt
    (do
      let _ ← call world .finishWandbRun
      pure ⟨⟩)
    fun _ => pure ⟨⟩
  let _ ← call world .collectGarbage
  return ⟨⟩

/-! ### The run -/

/-- From the directory on. -/
def fineTune (lineage : Json) : Run RunResult := do
  let (_, startedAt) ← setUp config world
  Effect.andFinally
    (Effect.attempt (complete config world lineage startedAt) (report config world lineage startedAt))
    (cleanup world)

def preparation (step : Step) : Except Failure Json :=
  match world.raises step with
  | some failure => .error failure
  | none => .ok (world.value step)

/-- The cases of the caller, or those of the database. -/
def goldenCases (cases : Option (List GoldenTrainingCase)) : Except Failure (List GoldenTrainingCase) :=
  match cases with
  | some cases => .ok cases
  | none =>
      if (PyText.strip ((world.environ.lookup "POSTGRES_DSN").getD "").toList) = [] then
        .error ⟨.fineTunerError, "FineTunerConfigurationError", "POSTGRES_DSN is required"⟩
      else
        match world.raises .loadGoldenCases with
        | none => .ok world.storedCases
        | some failure =>
            if failure.typeName = "GoldenDatasetError" then .error failure
            else .error ⟨.fineTunerError, "FineTunerPreflightError",
              "cannot read golden_datasets: " ++ safeErrorMessage world failure.message⟩

/-- `run_dir.mkdir` without the directory that is there already. -/
def makeRunDir : Except Failure Json :=
  match preparation world .makeRunDir with
  | .ok value => .ok value
  | .error failure =>
      match failure.kind with
      | .fileExistsError => .error ⟨.fineTunerError, "FineTunerConfigurationError",
          "refusing to overwrite existing run directory " ++ world.runDir⟩
      | .osError => .error ⟨.fineTunerError, "FineTunerConfigurationError",
          "cannot create run directory " ++ world.runDir ++ ": " ++ failure.message⟩
      | _ => .error failure

/-- The lineage of the cases, once there is a directory for the run. -/
def prepare (cases : Option (List GoldenTrainingCase)) : Except Failure Json := do
  let cases ← goldenCases world cases
  let splits ← (splitGoldenCases world.python config.dataset cases).mapError fun error =>
    ⟨.fineTunerError, "GoldenDatasetError", error.message⟩
  let _ ← preparation world .importDependencies
  let _ ← preparation world .preflight
  let _ ← preparation world .newRunId
  let _ ← makeRunDir world
  return world.lineage splits

/-- The result or the exception, and the directory if there is one. -/
def runTraining (cases : Option (List GoldenTrainingCase)) : Except Failure RunResult × Option RunDir :=
  match prepare config world cases with
  | .error failure => (.error failure, none)
  | .ok lineage =>
      let (result, dir) := fineTune config world lineage RunDir.new
      (result, some dir)

end Run

end CoreMesh.FineTuner
