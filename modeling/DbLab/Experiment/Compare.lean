import DbLab.Experiment.Trace
import DbLab.Lib.Prog

/-!
# Running and comparing engines

The traits of an engine are type classes over its state. `runExperimentTrace` runs one engine;
`compareExperimentTrace` alternates between two engines step by step; `compareExperimentTraceOrdered`
runs one of them to the end and holds the other against its outcomes.
-/

namespace DbLab.Experiment

/-! ### Engines -/

inductive LogicalModel
  | keyValue
  deriving DecidableEq

inductive StorageArchitecture
  | inMemoryReference | appendLog | bPlusTree | lsmTree
  deriving DecidableEq

inductive ConcurrencyMode
  | callerSerialized
  deriving DecidableEq

inductive Persistence
  | volatile | persistent
  deriving DecidableEq

inductive CrashRecovery
  | none | truncatedFinalAppend | mirroredCopyOnWritePages | writeAheadLogReplay
  deriving DecidableEq

inductive DistributionMode
  | standalone
  deriving DecidableEq

structure EngineCapabilities where
  name : String
  logicalModel : LogicalModel
  storageArchitecture : StorageArchitecture
  concurrency : ConcurrencyMode
  persistence : Persistence
  crashRecovery : CrashRecovery
  distribution : DistributionMode
  orderedRangeScan : Bool
  maxKeyBytes : ℕ
  maxValueBytes : ℕ
  deriving DecidableEq

structure AmplificationRatio where
  numerator : ℕ
  denominator : ℕ
  deriving DecidableEq

inductive ReadWorkUnit
  | btreePageAccess | lsmSstableConsult | lsmSstableVersionDecoded
  deriving DecidableEq

structure StructuralReadAmplification where
  ratio : AmplificationRatio
  unit : ReadWorkUnit
  deriving DecidableEq

structure AmplificationReport where
  pointRead : StructuralReadAmplification
  rangeRead : StructuralReadAmplification
  dataWriteBytesPerLogicalByte : AmplificationRatio
  primaryStructureBytesPerLiveByte : AmplificationRatio
  deriving DecidableEq

inductive OperationalWorkUnit
  | btreePageAccess | lsmRecordVersion | lsmSstableRecordVersion
  deriving DecidableEq

structure OperationalWork where
  unit : OperationalWorkUnit
  unitsExamined : ℕ
  bytesExamined : ℕ
  deriving DecidableEq

structure OperationalTimingSample where
  measuredStepIndex : Option ℕ
  durationNs : ℕ
  work : OperationalWork
  deriving DecidableEq

structure OperationalTimingFailureSample where
  measuredStepIndex : Option ℕ
  durationNs : ℕ
  work : Option OperationalWork
  errorClass : ErrorClass
  deriving DecidableEq

structure OperationalTimingReport where
  reopenNs : List ℕ
  compactionStallNs : List ℕ
  reopenSamples : List OperationalTimingSample
  compactionStallSamples : List OperationalTimingSample
  reopenFailureSamples : List OperationalTimingFailureSample
  compactionStallFailureSamples : List OperationalTimingFailureSample
  deriving DecidableEq

class KvEngine (σ : Type) where
  capabilities : σ → EngineCapabilities
  put : Bytes → Bytes → Prog σ DbError (Option Bytes)
  get : Bytes → Prog σ DbError (Option Bytes)
  delete : Bytes → Prog σ DbError (Option Bytes)
  rangeScan : Bytes → Option Bytes → ℕ → Prog σ DbError (List (Bytes × Bytes))
  reopen : Prog σ DbError Unit

class AmplificationInstrumented (σ : Type) where
  resetAmplification : σ → σ
  amplificationReport : Prog σ DbError AmplificationReport

class OperationalTimingInstrumented (σ : Type) where
  resetOperationalTiming : σ → σ
  setOperationalStepIndex : Option ℕ → σ → σ
  operationalTimingReport : σ → OperationalTimingReport

/-- What the experiments ask of a candidate. -/
class Candidate (σ : Type) extends KvEngine σ, AmplificationInstrumented σ, OperationalTimingInstrumented σ

/-- Source `validate_experiment_compatibility`. -/
def validateExperimentCompatibility (left right : EngineCapabilities) (requireOrderedRange : Bool) :
    Except DbError Unit :=
  let mismatches :=
    (if left.logicalModel ≠ right.logicalModel then ["logical_model"] else []) ++
    (if left.concurrency ≠ right.concurrency then ["concurrency"] else []) ++
    (if left.persistence ≠ right.persistence then ["persistence"] else []) ++
    (if left.distribution ≠ right.distribution then ["distribution"] else []) ++
    (if left.orderedRangeScan ≠ right.orderedRangeScan then ["ordered_range_scan"] else []) ++
    (if left.maxKeyBytes ≠ right.maxKeyBytes then ["max_key_bytes"] else []) ++
    (if left.maxValueBytes ≠ right.maxValueBytes then ["max_value_bytes"] else []) ++
    (if requireOrderedRange ∧ (¬ left.orderedRangeScan ∨ ¬ right.orderedRangeScan) then
      ["required_ordered_range_scan"] else [])
  let differing := String.intercalate ", " mismatches
  failWhen (mismatches ≠ []) (.invalidInput
    s!"engine capabilities are not experiment-compatible: {left.name} vs {right.name} differ in {differing}")

/-! ### One step -/

inductive ExperimentOutcome
  | put (previous : Option Bytes)
  | get (value : Option Bytes)
  | delete (previous : Option Bytes)
  | rangeScan (rows : List (Bytes × Bytes))
  | reopened
  deriving DecidableEq

variable {σ : Type}

/-- Source `execute_experiment_step`. -/
def executeExperimentStep [KvEngine σ] (step : ExperimentStep) : Prog σ DbError ExperimentOutcome := do
  Prog.ofExcept (validateExperimentStep step)
  match step with
  | .put key value => .put <$> KvEngine.put key value
  | .get key => .get <$> KvEngine.get key
  | .delete key => .delete <$> KvEngine.delete key
  | .rangeScan start stop limit => .rangeScan <$> KvEngine.rangeScan start stop limit.val
  | .reopen => do
    KvEngine.reopen
    pure .reopened

/-- Source `execute_measured_experiment_step`. -/
def executeMeasuredExperimentStep [Candidate σ] (step : ExperimentStep) (index : ℕ) :
    Prog σ DbError ExperimentOutcome := do
  Prog.ofExcept (failWhen (u64Limit ≤ index)
    (.invalidInput "measured experiment step index does not fit u64"))
  Prog.modify (OperationalTimingInstrumented.setOperationalStepIndex (some index))
  fun s =>
    let (result, s) := executeExperimentStep step s
    (result, OperationalTimingInstrumented.setOperationalStepIndex none s)

/-- The bytes of an outcome. -/
def outcomePayload : ExperimentOutcome → Except DbError ℕ
  | .put previous => .ok ((previous.map List.length).getD 0)
  | .get value => .ok ((value.map List.length).getD 0)
  | .delete previous => .ok ((previous.map List.length).getD 0)
  | .rangeScan rows => rows.foldlM (fun total row => do
      let rowBytes ← checkedPayloadLengths [row.1.length, row.2.length]
      checkedAdd total rowBytes (.invalidInput "experiment outcome payload size overflowed")) 0
  | .reopened => .ok 0

/-- Source `checked_add_outcome_payload`. -/
def checkedAddOutcomePayload (total : ℕ) (outcome : ExperimentOutcome) (kind : String) :
    Except DbError ℕ := do
  let next ← outcomePayload outcome
  checkedAddPayload total next maxExperimentOutcomePayloadBytes kind

structure ExperimentEngineEvidence where
  capabilities : EngineCapabilities
  amplification : AmplificationReport
  operationalTiming : OperationalTimingReport
  deriving DecidableEq

/-- The phases of a run, with the name of their outcomes in the errors. -/
inductive Phase
  | setup | measured
  deriving DecidableEq

namespace Phase

def name : Phase → String
  | setup => "setup"
  | measured => "measured"

def kind : Phase → String
  | setup => "experiment setup outcomes"
  | measured => "experiment measured outcomes"

/-- The step at an index of a phase. -/
def execute [Candidate σ] (phase : Phase) (step : ExperimentStep) (index : ℕ) :
    Prog σ DbError ExperimentOutcome :=
  match phase with
  | setup => executeExperimentStep step
  | measured => executeMeasuredExperimentStep step index

end Phase

/-- The reset between the phases. -/
def resetInstrumentation [Candidate σ] : Prog σ DbError Unit := do
  Prog.modify AmplificationInstrumented.resetAmplification
  Prog.modify OperationalTimingInstrumented.resetOperationalTiming

/-- The evidence at the end of a run. -/
def captureEvidence [Candidate σ] (capabilities : EngineCapabilities) :
    Prog σ DbError ExperimentEngineEvidence := do
  let amplification ← AmplificationInstrumented.amplificationReport
  let s ← Prog.get
  pure ⟨capabilities, amplification, OperationalTimingInstrumented.operationalTimingReport s⟩

/-! ### One engine -/

/-- The loop over the steps of a phase, from an index and a total of outcome bytes. -/
def runSteps [Candidate σ] (phase : Phase) :
    List ExperimentStep → ℕ → ℕ → Prog σ DbError (List ExperimentOutcome)
  | [], _, _ => pure []
  | step :: steps, index, total => do
    let outcome ← phase.execute step index
    let total ← Prog.ofExcept (checkedAddOutcomePayload total outcome phase.kind)
    let outcomes ← runSteps phase steps (index + 1) total
    pure (outcome :: outcomes)

structure FirstEngineRun where
  setupOutcomes : List ExperimentOutcome
  measuredOutcomes : List ExperimentOutcome
  evidence : ExperimentEngineEvidence
  deriving DecidableEq

/-- Source `run_first_engine`. -/
def runFirstEngine [Candidate σ] (trace : ExperimentTrace) (capabilities : EngineCapabilities) :
    Prog σ DbError FirstEngineRun := do
  let setupOutcomes ← runSteps .setup trace.setupSteps 0 0
  resetInstrumentation
  let measuredOutcomes ← runSteps .measured trace.measuredSteps 0 0
  let evidence ← captureEvidence capabilities
  pure ⟨setupOutcomes, measuredOutcomes, evidence⟩

structure ExperimentRunReport where
  trace : ExperimentTrace
  setupStepsExecuted : ℕ
  measuredStepsExecuted : ℕ
  outcomes : List ExperimentOutcome
  engine : ExperimentEngineEvidence
  deriving DecidableEq

/-- Source `run_experiment_trace`. -/
def runExperimentTrace [Candidate σ] (trace : ExperimentTrace) : Prog σ DbError ExperimentRunReport := do
  Prog.ofExcept trace.validate
  let s ← Prog.get
  let capabilities := KvEngine.capabilities s
  Prog.ofExcept (failWhen (trace.requiresOrderedRange ∧ ¬ capabilities.orderedRangeScan) (.invalidInput
    s!"experiment trace requires ordered ranges but engine {capabilities.name} does not expose them"))
  let _ ← runSteps .setup trace.setupSteps 0 0
  resetInstrumentation
  let outcomes ← runSteps .measured trace.measuredSteps 0 0
  let evidence ← captureEvidence capabilities
  pure ⟨trace, trace.setupSteps.length, outcomes.length, outcomes, evidence⟩

/-! ### Two engines -/

variable {ρ : Type}

structure ExperimentComparisonReport where
  trace : ExperimentTrace
  setupStepsExecuted : ℕ
  measuredStepsExecuted : ℕ
  outcomes : List ExperimentOutcome
  left : ExperimentEngineEvidence
  right : ExperimentEngineEvidence
  deriving DecidableEq

/-- Source `logical_mismatch`. -/
def logicalMismatch (phase : Phase) (index : ℕ) (left right : EngineCapabilities) : DbError :=
  .invalidInput
    s!"experiment logical outcomes diverged at {phase.name} step {index} between {left.name} and {right.name}"

def onLeft {α : Type} (x : Prog σ DbError α) : Prog (σ × ρ) DbError α :=
  Prog.zoom Prod.fst (fun s left => (left, s.2)) x

def onRight {α : Type} (x : Prog ρ DbError α) : Prog (σ × ρ) DbError α :=
  Prog.zoom Prod.snd (fun s right => (s.1, right)) x

/-- The loop of the lockstep comparison over the steps of a phase. -/
def compareSteps [Candidate σ] [Candidate ρ] (phase : Phase) (left right : EngineCapabilities) :
    List ExperimentStep → ℕ → ℕ → Prog (σ × ρ) DbError (List ExperimentOutcome)
  | [], _, _ => pure []
  | step :: steps, index, total => do
    let leftOutcome ← onLeft (phase.execute step index)
    let rightOutcome ← onRight (phase.execute step index)
    Prog.ofExcept (failWhen (leftOutcome ≠ rightOutcome) (logicalMismatch phase index left right))
    let total ← Prog.ofExcept (checkedAddOutcomePayload total leftOutcome phase.kind)
    let outcomes ← compareSteps phase left right steps (index + 1) total
    pure (leftOutcome :: outcomes)

/-- Source `compare_experiment_trace`. -/
def compareExperimentTrace [Candidate σ] [Candidate ρ] (trace : ExperimentTrace) :
    Prog (σ × ρ) DbError ExperimentComparisonReport := do
  Prog.ofExcept trace.validate
  let s ← Prog.get
  let left := KvEngine.capabilities s.1
  let right := KvEngine.capabilities s.2
  Prog.ofExcept (validateExperimentCompatibility left right trace.requiresOrderedRange)
  let _ ← compareSteps .setup left right trace.setupSteps 0 0
  onLeft resetInstrumentation
  onRight resetInstrumentation
  let outcomes ← compareSteps .measured left right trace.measuredSteps 0 0
  let leftEvidence ← onLeft (captureEvidence left)
  let rightEvidence ← onRight (captureEvidence right)
  pure ⟨trace, trace.setupSteps.length, outcomes.length, outcomes, leftEvidence, rightEvidence⟩

/-- The loop of the second engine over the steps of a phase, against the outcomes of the first. -/
def checkSteps [Candidate σ] (phase : Phase) (left right : EngineCapabilities)
    (expected : List ExperimentOutcome) : List ExperimentStep → ℕ → ℕ → Prog σ DbError Unit
  | [], _, _ => pure ()
  | step :: steps, index, total => do
    let outcome ← phase.execute step index
    let total ← Prog.ofExcept (checkedAddOutcomePayload total outcome phase.kind)
    Prog.ofExcept (failWhen (some outcome ≠ expected[index]?) (logicalMismatch phase index left right))
    checkSteps phase left right expected steps (index + 1) total

/-- Source `run_second_engine`. -/
def runSecondEngine [Candidate σ] (trace : ExperimentTrace) (expectedSetup expectedMeasured : List ExperimentOutcome)
    (left right : EngineCapabilities) : Prog σ DbError ExperimentEngineEvidence := do
  checkSteps .setup left right expectedSetup trace.setupSteps 0 0
  resetInstrumentation
  checkSteps .measured left right expectedMeasured trace.measuredSteps 0 0
  let s ← Prog.get
  captureEvidence (KvEngine.capabilities s)

inductive ExperimentExecutionOrder
  | leftThenRight | rightThenLeft
  deriving DecidableEq

structure OrderedExperimentComparisonReport where
  executionOrder : ExperimentExecutionOrder
  comparison : ExperimentComparisonReport
  deriving DecidableEq

/-- Source `compare_experiment_trace_ordered`. -/
def compareExperimentTraceOrdered [Candidate σ] [Candidate ρ] (trace : ExperimentTrace)
    (executionOrder : ExperimentExecutionOrder) :
    Prog (σ × ρ) DbError OrderedExperimentComparisonReport := do
  Prog.ofExcept trace.validate
  let s ← Prog.get
  let left := KvEngine.capabilities s.1
  let right := KvEngine.capabilities s.2
  Prog.ofExcept (validateExperimentCompatibility left right trace.requiresOrderedRange)
  let report (leftEvidence rightEvidence : ExperimentEngineEvidence) (outcomes : List ExperimentOutcome) :
      OrderedExperimentComparisonReport :=
    ⟨executionOrder, trace, trace.setupSteps.length, outcomes.length, outcomes, leftEvidence, rightEvidence⟩
  match executionOrder with
  | .leftThenRight => do
    let first ← onLeft (runFirstEngine trace left)
    let rightEvidence ← onRight
      (runSecondEngine trace first.setupOutcomes first.measuredOutcomes left right)
    pure (report first.evidence rightEvidence first.measuredOutcomes)
  | .rightThenLeft => do
    let first ← onRight (runFirstEngine trace right)
    let leftEvidence ← onLeft
      (runSecondEngine trace first.setupOutcomes first.measuredOutcomes left right)
    pure (report leftEvidence first.evidence first.measuredOutcomes)

end DbLab.Experiment
