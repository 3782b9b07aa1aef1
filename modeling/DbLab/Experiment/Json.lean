import DbLab.Experiment.Analyze
import DbLab.Experiment.Batch

/-!
# The JSON of a batch

The values that the derived serializations of a batch and its sidecars write. The members of an object are in the
order of the fields.
-/

namespace DbLab.Experiment

open Analyze (Value)

/-! ### Equality of values -/

namespace Analyze.Value

mutual

def same : Value → Value → Bool
  | null, null => true
  | bool a, bool b => a == b
  | unsigned m, unsigned n => m == n
  | otherNumber s, otherNumber t => s == t
  | string s, string t => s == t
  | array items, array items' => sameItems items items'
  | object members, object members' => sameMembers members members'
  | _, _ => false

def sameItems : List Value → List Value → Bool
  | [], [] => true
  | v :: vs, w :: ws => same v w && sameItems vs ws
  | _, _ => false

def sameMembers : List (String × Value) → List (String × Value) → Bool
  | [], [] => true
  | (s, v) :: vs, (t, w) :: ws => s == t && same v w && sameMembers vs ws
  | _, _ => false

end

mutual

theorem same_iff : ∀ v w : Value, same v w = true ↔ v = w
  | null, w => by cases w <;> simp [same]
  | bool a, w => by cases w <;> simp [same]
  | unsigned m, w => by cases w <;> simp [same]
  | otherNumber s, w => by cases w <;> simp [same]
  | string s, w => by cases w <;> simp [same]
  | array items, w => by cases w <;> simp [same, sameItems_iff items]
  | object members, w => by cases w <;> simp [same, sameMembers_iff members]

theorem sameItems_iff : ∀ vs ws : List Value, sameItems vs ws = true ↔ vs = ws
  | [], ws => by cases ws <;> simp [sameItems]
  | v :: vs, ws => by cases ws <;> simp [sameItems, same_iff v, sameItems_iff vs]

theorem sameMembers_iff : ∀ vs ws : List (String × Value), sameMembers vs ws = true ↔ vs = ws
  | [], ws => by cases ws <;> simp [sameMembers]
  | (s, v) :: vs, ws => by
    rcases ws with _ | ⟨⟨t, w⟩, ws⟩ <;> simp [sameMembers, same_iff v, sameMembers_iff vs, and_assoc]

end

instance : DecidableEq Value := fun v w => decidable_of_iff _ (same_iff v w)

end Analyze.Value

/-- Source `to_hex`. -/
def toHex (bytes : Bytes) : String :=
  String.ofList (bytes.flatMap fun b => [Nat.digitChar (b.val / 16), Nat.digitChar (b.val % 16)])

/-! ### Values of fields -/

namespace Json

/-- A field that is written as `null` without a value. -/
def orNull {α : Type} (toValue : α → Value) : Option α → Value
  | none => .null
  | some a => toValue a

/-- A field that is left out without a value. -/
def member {α : Type} (name : String) (toValue : α → Value) : Option α → List (String × Value)
  | none => []
  | some a => [(name, toValue a)]

def byteString (bytes : Bytes) : Value := .string (toHex bytes)

def optionalString : Option String → Value := orNull .string

end Json

open Json

/-! ### The trace -/

def ExperimentProfile.json : ExperimentProfile → Value
  | pointRead => .string "point_read"
  | rangeScan => .string "range_scan"
  | sequentialWrite => .string "sequential_write"
  | randomWrite => .string "random_write"
  | mixed => .string "mixed"

def ExperimentGeneratorConfig.json (config : ExperimentGeneratorConfig) : Value :=
  .object
    [("seed", .unsigned config.seed.toNat), ("profile", config.profile.json),
      ("operations", .unsigned config.operations.val), ("key_space", .unsigned config.keySpace.val),
      ("value_bytes", .unsigned config.valueBytes.val), ("range_limit", .unsigned config.rangeLimit.val),
      ("reopen_every", orNull (fun every : U32 => .unsigned every.val) config.reopenEvery)]

def ExperimentStep.json : ExperimentStep → Value
  | put key value => .object [("op", .string "put"), ("key", byteString key), ("value", byteString value)]
  | get key => .object [("op", .string "get"), ("key", byteString key)]
  | delete key => .object [("op", .string "delete"), ("key", byteString key)]
  | rangeScan start stop limit =>
    .object [("op", .string "range_scan"), ("start", byteString start), ("end", orNull byteString stop),
      ("limit", .unsigned limit.val)]
  | reopen => .object [("op", .string "reopen")]

def ExperimentTrace.json (trace : ExperimentTrace) : Value :=
  .object
    [("format_version", .unsigned trace.formatVersion), ("profile", trace.profile.json),
      ("seed", orNull (fun seed : UInt64 => .unsigned seed.toNat) trace.seed),
      ("generator", orNull ExperimentGeneratorConfig.json trace.generator),
      ("setup_steps", .array (trace.setupSteps.map ExperimentStep.json)),
      ("measured_steps", .array (trace.measuredSteps.map ExperimentStep.json))]

/-! ### A comparison -/

def ExperimentOutcome.json : ExperimentOutcome → Value
  | put previous => .object [("result", .string "put"), ("previous", orNull byteString previous)]
  | get value => .object [("result", .string "get"), ("value", orNull byteString value)]
  | delete previous => .object [("result", .string "delete"), ("previous", orNull byteString previous)]
  | rangeScan rows =>
    .object [("result", .string "range_scan"),
      ("rows", .array (rows.map fun row => .object [("key", byteString row.1), ("value", byteString row.2)]))]
  | reopened => .object [("result", .string "reopened")]

def StorageArchitecture.json : StorageArchitecture → Value
  | inMemoryReference => .string "in_memory_reference"
  | appendLog => .string "append_log"
  | bPlusTree => .string "b_plus_tree"
  | lsmTree => .string "lsm_tree"

def Persistence.json : Persistence → Value
  | volatile => .string "volatile"
  | persistent => .string "persistent"

def CrashRecovery.json : CrashRecovery → Value
  | none => .string "none"
  | truncatedFinalAppend => .string "truncated_final_append"
  | mirroredCopyOnWritePages => .string "mirrored_copy_on_write_pages"
  | writeAheadLogReplay => .string "write_ahead_log_replay"

def EngineCapabilities.json (capabilities : EngineCapabilities) : Value :=
  .object
    [("name", .string capabilities.name),
      ("logical_model", match capabilities.logicalModel with | .keyValue => .string "key_value"),
      ("storage_architecture", capabilities.storageArchitecture.json),
      ("concurrency", match capabilities.concurrency with | .callerSerialized => .string "caller_serialized"),
      ("persistence", capabilities.persistence.json), ("crash_recovery", capabilities.crashRecovery.json),
      ("distribution", match capabilities.distribution with | .standalone => .string "standalone"),
      ("ordered_range_scan", .bool capabilities.orderedRangeScan),
      ("max_key_bytes", .unsigned capabilities.maxKeyBytes), ("max_value_bytes", .unsigned capabilities.maxValueBytes)]

def AmplificationRatio.json (ratio : AmplificationRatio) : Value :=
  .object [("numerator", .unsigned ratio.numerator), ("denominator", .unsigned ratio.denominator)]

def ReadWorkUnit.json : ReadWorkUnit → Value
  | btreePageAccess => .string "btree_page_access"
  | lsmSstableConsult => .string "lsm_sstable_consult"
  | lsmSstableVersionDecoded => .string "lsm_sstable_version_decoded"

def StructuralReadAmplification.json (amplification : StructuralReadAmplification) : Value :=
  .object [("ratio", amplification.ratio.json), ("unit", amplification.unit.json)]

def AmplificationReport.json (report : AmplificationReport) : Value :=
  .object
    [("point_read", report.pointRead.json), ("range_read", report.rangeRead.json),
      ("data_write_bytes_per_logical_byte", report.dataWriteBytesPerLogicalByte.json),
      ("primary_structure_bytes_per_live_byte", report.primaryStructureBytesPerLiveByte.json)]

/-- The name of an error class. -/
def errorClassName : ErrorClass → String
  | .invalidInput => "invalid_input"
  | .io => "io"
  | .corruption => "corruption"
  | .unsupportedVersion => "unsupported_version"
  | .poisoned => "poisoned"

def OperationalWorkUnit.json : OperationalWorkUnit → Value
  | btreePageAccess => .string "btree_page_access"
  | lsmRecordVersion => .string "lsm_record_version"
  | lsmSstableRecordVersion => .string "lsm_sstable_record_version"

def OperationalWork.json (work : OperationalWork) : Value :=
  .object [("unit", work.unit.json), ("units_examined", .unsigned work.unitsExamined),
    ("bytes_examined", .unsigned work.bytesExamined)]

def OperationalTimingSample.json (sample : OperationalTimingSample) : Value :=
  .object [("measured_step_index", orNull .unsigned sample.measuredStepIndex),
    ("duration_ns", .unsigned sample.durationNs), ("work", sample.work.json)]

def OperationalTimingFailureSample.json (sample : OperationalTimingFailureSample) : Value :=
  .object [("measured_step_index", orNull .unsigned sample.measuredStepIndex),
    ("duration_ns", .unsigned sample.durationNs), ("work", orNull OperationalWork.json sample.work),
    ("error_class", .string (errorClassName sample.errorClass))]

/-- Failure samples, unless there are none. -/
def Json.failureSamples (name : String) (samples : List OperationalTimingFailureSample) : List (String × Value) :=
  if samples = [] then [] else [(name, .array (samples.map OperationalTimingFailureSample.json))]

def OperationalTimingReport.json (report : OperationalTimingReport) : Value :=
  .object
    ([("reopen_ns", .array (report.reopenNs.map .unsigned)),
      ("compaction_stall_ns", .array (report.compactionStallNs.map .unsigned)),
      ("reopen_samples", .array (report.reopenSamples.map OperationalTimingSample.json)),
      ("compaction_stall_samples", .array (report.compactionStallSamples.map OperationalTimingSample.json))] ++
      failureSamples "reopen_failure_samples" report.reopenFailureSamples ++
      failureSamples "compaction_stall_failure_samples" report.compactionStallFailureSamples)

def ExperimentEngineEvidence.json (evidence : ExperimentEngineEvidence) : Value :=
  .object [("capabilities", evidence.capabilities.json), ("amplification", evidence.amplification.json),
    ("operational_timing", evidence.operationalTiming.json)]

def ExperimentComparisonReport.json (report : ExperimentComparisonReport) : Value :=
  .object
    [("trace", report.trace.json), ("setup_steps_executed", .unsigned report.setupStepsExecuted),
      ("measured_steps_executed", .unsigned report.measuredStepsExecuted),
      ("outcomes", .array (report.outcomes.map ExperimentOutcome.json)), ("left", report.left.json),
      ("right", report.right.json)]

/-- The name of the order of a comparison. -/
def executionOrderName : ExperimentExecutionOrder → String
  | .leftThenRight => "left_then_right"
  | .rightThenLeft => "right_then_left"

/-- The name of the order of a pair. -/
def pairOrderName : CounterbalancedPairOrder → String
  | .leftThenRightFirst => "left_then_right_first"
  | .rightThenLeftFirst => "right_then_left_first"

def OrderedExperimentComparisonReport.json (report : OrderedExperimentComparisonReport) : Value :=
  .object [("execution_order", .string (executionOrderName report.executionOrder)),
    ("comparison", report.comparison.json)]

def CounterbalancedExperimentComparisonReport.json (report : CounterbalancedExperimentComparisonReport) : Value :=
  .object [("pair_order", .string (pairOrderName report.pairOrder)), ("first", report.first.json),
    ("second", report.second.json)]

/-! ### The ledger and its sidecars -/

def ExperimentAttemptContext.json (context : ExperimentAttemptContext) : Value :=
  .object [("pair_index", .unsigned context.pairIndex), ("pair_order", .string (pairOrderName context.pairOrder))]

/-- The name of a disposition. -/
def dispositionName : ExperimentAttemptDisposition → String
  | .included => "included"
  | .failed => "failed"
  | .excluded => "excluded"

def ExperimentEngineRole.json : ExperimentEngineRole → Value
  | left => .string "left"
  | right => .string "right"

/-- The name of a stage. -/
def stageName : ExperimentAttemptFailureStage → String
  | .engineFactory => "engine_factory"
  | .comparison => "comparison"

def ExperimentAttemptFailure.json (failure : ExperimentAttemptFailure) : Value :=
  .object
    [("stage", .string (stageName failure.stage)), ("engine_role", orNull ExperimentEngineRole.json failure.engineRole),
      ("repetition_index", orNull .unsigned failure.repetitionIndex),
      ("class", .string (errorClassName failure.errorClass)), ("message", .string failure.message)]

def ExperimentAttemptRecord.json (record : ExperimentAttemptRecord) : Value :=
  .object
    [("context", record.context.json), ("disposition", .string (dispositionName record.disposition)),
      ("report", orNull CounterbalancedExperimentComparisonReport.json record.report),
      ("failure", orNull ExperimentAttemptFailure.json record.failure),
      ("exclusion_reason", optionalString record.exclusionReason)]

def CounterbalancedExperimentBatchReport.json (batch : CounterbalancedExperimentBatchReport) : Value :=
  .object
    [("trace", batch.trace.json), ("pair_seed", .unsigned batch.pairSeed.toNat),
      ("requested_pairs", .unsigned batch.requestedPairs), ("included_pairs", .unsigned batch.includedPairs),
      ("failed_pairs", .unsigned batch.failedPairs), ("excluded_pairs", .unsigned batch.excludedPairs),
      ("attempts", .array (batch.attempts.map ExperimentAttemptRecord.json))]

def OrderedExperimentFailureEvidence.json (evidence : OrderedExperimentFailureEvidence) : Value :=
  .object
    [("execution_order", .string (executionOrderName evidence.executionOrder)),
      ("error_class", .string (errorClassName evidence.errorClass)), ("message", .string evidence.message),
      ("left_operational_timing", evidence.leftOperationalTiming.json),
      ("right_operational_timing", evidence.rightOperationalTiming.json)]

def CounterbalancedComparisonFailureEvidence.json (evidence : CounterbalancedComparisonFailureEvidence) : Value :=
  .object
    ([("pair_order", .string (pairOrderName evidence.pairOrder)), ("repetition_index", .unsigned evidence.repetitionIndex)] ++
      member "completed_first" OrderedExperimentComparisonReport.json evidence.completedFirst ++
      [("ordered_failure", evidence.orderedFailure.json)])

def CounterbalancedBatchComparisonFailureEvidence.json (sidecar : CounterbalancedBatchComparisonFailureEvidence) :
    Value :=
  .object [("context", sidecar.context.json), ("failure", sidecar.failure.json)]

end DbLab.Experiment
