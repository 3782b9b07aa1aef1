import DbLab.Core

/-!
# Experiment traces

A trace is a list of setup steps and a list of measured steps, generated from a configuration by a
small random number generator. `validate` generates the trace of the embedded configuration again and
compares.
-/

namespace DbLab.Experiment

def experimentTraceFormatVersion : ℕ := 1
def maxExperimentSteps : ℕ := 1000000
def maxExperimentTracePayloadBytes : ℕ := 64 * 1024 * 1024
def maxExperimentOutcomePayloadBytes : ℕ := 64 * 1024 * 1024
def maxExperimentRangeLimit : ℕ := 1000000
def experimentKeyBytes : ℕ := 8

/-- An unsigned 32-bit integer. -/
abbrev U32 := Fin (2 ^ 32)

instance instNeZeroU32 : NeZero (2 ^ 32) := ⟨by decide⟩

inductive ExperimentProfile
  | pointRead | rangeScan | sequentialWrite | randomWrite | mixed
  deriving DecidableEq

structure ExperimentGeneratorConfig where
  seed : UInt64
  profile : ExperimentProfile
  operations : U32
  keySpace : U32
  valueBytes : U32
  rangeLimit : U32
  reopenEvery : Option U32
  deriving DecidableEq

inductive ExperimentStep
  | put (key value : Bytes)
  | get (key : Bytes)
  | delete (key : Bytes)
  | rangeScan (start : Bytes) (stop : Option Bytes) (limit : U32)
  | reopen
  deriving DecidableEq

structure ExperimentTrace where
  formatVersion : ℕ
  profile : ExperimentProfile
  seed : Option UInt64
  generator : Option ExperimentGeneratorConfig
  setupSteps : List ExperimentStep
  measuredSteps : List ExperimentStep
  deriving DecidableEq

def payloadOverflowed : DbError := .invalidInput "experiment payload size overflowed"

/-- The product, if it is a `u64`. -/
def checkedMul (a b : ℕ) (e : DbError) : Except DbError ℕ := if a * b < u64Limit then .ok (a * b) else .error e

/-! ### Payload bounds -/

/-- Source `checked_payload_lengths`. -/
def checkedPayloadLengths (lengths : List ℕ) : Except DbError ℕ :=
  lengths.foldlM (fun total length => checkedAdd total length payloadOverflowed) 0

/-- Source `checked_add_payload`. -/
def checkedAddPayload (total next maximum : ℕ) (kind : String) : Except DbError ℕ := do
  let total ← checkedAdd total next (.invalidInput s!"{kind} payload size overflowed")
  failWhen (maximum < total) (.invalidInput s!"{kind} has {total} payload bytes; maximum is {maximum}")
  .ok total

/-- Source `experiment_step_payload_bytes`. -/
def experimentStepPayloadBytes : ExperimentStep → Except DbError ℕ
  | .put key value => checkedPayloadLengths [key.length, value.length]
  | .get key => checkedPayloadLengths [key.length]
  | .delete key => checkedPayloadLengths [key.length]
  | .rangeScan start (some stop) _ => checkedPayloadLengths [start.length, stop.length]
  | .rangeScan start none _ => checkedPayloadLengths [start.length]
  | .reopen => .ok 0

/-- Source `validate_range_scan`. -/
def validateRangeScan (start : Bytes) (stop : Option Bytes) : Except DbError Unit := do
  validateKey start
  match stop with
  | none => .ok ()
  | some stop => do
    validateKey stop
    failWhen (stop < start) (.invalidInput "ordered range end must not sort before start")

/-- Source `validate_experiment_step`. -/
def validateExperimentStep : ExperimentStep → Except DbError Unit
  | .put key value => validateKeyValue key value
  | .get key => validateKey key
  | .delete key => validateKey key
  | .rangeScan start stop limit => do
    failWhen (limit.val = 0 ∨ maxExperimentRangeLimit < limit.val)
      (.invalidInput s!"experiment range limit is {limit.val}; expected 1..={maxExperimentRangeLimit}")
    validateRangeScan start stop
  | .reopen => .ok ()

/-! ### The configuration -/

namespace ExperimentGeneratorConfig

variable (config : ExperimentGeneratorConfig)

/-- The puts in front of the measured window. -/
def setupPuts : ℕ :=
  match config.profile with
  | .pointRead => config.keySpace.val
  | .rangeScan => config.keySpace.val
  | .mixed => (config.keySpace.val + 1) / 2
  | .sequentialWrite => 0
  | .randomWrite => 0

/-- Source `validate_generated_payload`. -/
def validateGeneratedPayload : Except DbError Unit := do
  let putBytes ← checkedAdd experimentKeyBytes config.valueBytes.val payloadOverflowed
  let setupBytes ← checkedMul config.setupPuts putBytes payloadOverflowed
  let rangeBytes ← checkedMul experimentKeyBytes 2 payloadOverflowed
  let measuredBytesPerOperation := match config.profile with
    | .pointRead => experimentKeyBytes
    | .rangeScan => rangeBytes
    | .sequentialWrite => putBytes
    | .randomWrite => putBytes
    | .mixed => max putBytes rangeBytes
  let measuredBytes ← checkedMul config.operations.val measuredBytesPerOperation payloadOverflowed
  let payloadBytes ← checkedAdd setupBytes measuredBytes payloadOverflowed
  failWhen (maxExperimentTracePayloadBytes < payloadBytes) (.invalidInput
    s!"generated experiment may materialize {payloadBytes} key/value bytes; maximum is {maxExperimentTracePayloadBytes}")

/-- The reopens inside the measured window. -/
def reopenSteps : ℕ :=
  match config.reopenEvery with
  | none => 0
  | some every => config.operations.val / every.val

/-- Source `validate` of the configuration. -/
def validate : Except DbError Unit := do
  failWhen (config.operations.val = 0)
    (.invalidInput "experiment operations must be greater than zero")
  failWhen (config.keySpace.val = 0) (.invalidInput "experiment key_space must be greater than zero")
  failWhen (maxValueBytes < config.valueBytes.val)
    (.invalidInput s!"experiment value_bytes is {config.valueBytes.val}; maximum is {maxValueBytes}")
  failWhen (config.reopenEvery = some 0)
    (.invalidInput "experiment reopen_every must be greater than zero")
  failWhen (config.profile = .sequentialWrite ∧ config.keySpace < config.operations) (.invalidInput
    "sequential_write requires key_space >= operations so measured keys stay distinct")
  failWhen (config.rangeLimit.val = 0 ∨ maxExperimentRangeLimit < config.rangeLimit.val) (.invalidInput
    s!"experiment range_limit is {config.rangeLimit.val}; expected 1..={maxExperimentRangeLimit}")
  failWhen ((config.profile = .rangeScan ∨ config.profile = .mixed) ∧ config.keySpace < config.rangeLimit)
    (.invalidInput "range_scan and mixed traces require range_limit <= key_space")
  let totalSteps ← checkedAdd config.setupPuts config.operations.val
    (.invalidInput "experiment trace is too large")
  let totalSteps ← checkedAdd totalSteps config.reopenSteps
    (.invalidInput "experiment trace is too large")
  failWhen (maxExperimentSteps < totalSteps) (.invalidInput
    s!"generated experiment would have {totalSteps} steps; maximum is {maxExperimentSteps}")
  config.validateGeneratedPayload

end ExperimentGeneratorConfig

/-! ### Generation -/

/-- Source `experiment_key`; the id is written most significant byte first. -/
def experimentKey (keyId : ℕ) : Bytes := (leBytes 8 keyId).reverse

/-- Source `SplitMix64`. -/
structure SplitMix64 where
  state : UInt64
  deriving DecidableEq

namespace SplitMix64

/-- Source `next`. -/
def next (random : SplitMix64) : UInt64 × SplitMix64 :=
  let state := random.state + 0x9e3779b97f4a7c15
  let value := (state ^^^ (state >>> 30)) * 0xbf58476d1ce4e5b9
  let value := (value ^^^ (value >>> 27)) * 0x94d049bb133111eb
  (value ^^^ (value >>> 31), ⟨state⟩)

/-- Source `bounded`. -/
def bounded (random : SplitMix64) (upperExclusive : ℕ) : ℕ × SplitMix64 :=
  (random.next.1.toNat % upperExclusive, random.next.2)

/-- The chunks of eight bytes that `fill` writes. -/
def chunks : ℕ → SplitMix64 → Bytes × SplitMix64
  | 0, random => ([], random)
  | n + 1, random =>
    let (bytes, last) := chunks n random.next.2
    (leBytes 8 random.next.1.toNat ++ bytes, last)

/-- Source `fill`; the last chunk can be short. -/
def fill (length : ℕ) (random : SplitMix64) : Bytes × SplitMix64 :=
  let (bytes, last) := chunks ((length + 7) / 8) random
  (bytes.take length, last)

end SplitMix64

/-- Source `random_value`. -/
def randomValue (random : SplitMix64) (length : U32) : Bytes × SplitMix64 := random.fill length.val

/-- Source `generated_range_step`. -/
def generatedRangeStep (random : SplitMix64) (keySpace rangeLimit : U32) : ExperimentStep × SplitMix64 :=
  let (startId, random) := random.bounded keySpace.val
  (.rangeScan (experimentKey startId) (some (experimentKey (min (startId + rangeLimit.val) keySpace.val)))
    rangeLimit, random)

/-- The setup puts of the key ids that are listed. -/
def setupPut (config : ExperimentGeneratorConfig) : List ℕ → SplitMix64 → List ExperimentStep × SplitMix64
  | [], random => ([], random)
  | keyId :: keyIds, random =>
    let (value, random) := randomValue random config.valueBytes
    let (steps, random) := setupPut config keyIds random
    (.put (experimentKey keyId) value :: steps, random)

/-- The setup of a profile. -/
def setupOf (config : ExperimentGeneratorConfig) (random : SplitMix64) : List ExperimentStep × SplitMix64 :=
  match config.profile with
  | .pointRead => setupPut config (List.range config.keySpace.val) random
  | .rangeScan => setupPut config (List.range config.keySpace.val) random
  | .mixed => setupPut config ((List.range config.keySpace.val).filter fun keyId => keyId % 2 = 0) random
  | .sequentialWrite => ([], random)
  | .randomWrite => ([], random)

/-- A put of a random value under a random key of the key space. -/
def randomPut (config : ExperimentGeneratorConfig) (random : SplitMix64) : ExperimentStep × SplitMix64 :=
  let (keyId, random) := random.bounded config.keySpace.val
  let (value, random) := randomValue random config.valueBytes
  (.put (experimentKey keyId) value, random)

/-- The measured step at an operation index. -/
def measuredStep (config : ExperimentGeneratorConfig) (operationIndex : ℕ) (random : SplitMix64) :
    ExperimentStep × SplitMix64 :=
  match config.profile with
  | .pointRead =>
    let (draw, random) := random.bounded 100
    let (keyId, random) := random.bounded config.keySpace.val
    (.get (experimentKey (if draw < 80 then keyId else config.keySpace.val + keyId)), random)
  | .rangeScan => generatedRangeStep random config.keySpace config.rangeLimit
  | .sequentialWrite =>
    let (value, random) := randomValue random config.valueBytes
    (.put (experimentKey operationIndex) value, random)
  | .randomWrite => randomPut config random
  | .mixed =>
    let (draw, random) := random.bounded 100
    if draw < 40 then randomPut config random
    else if draw < 70 then
      let (keyId, random) := random.bounded config.keySpace.val
      (.get (experimentKey keyId), random)
    else if draw < 85 then generatedRangeStep random config.keySpace config.rangeLimit
    else
      let (keyId, random) := random.bounded config.keySpace.val
      (.delete (experimentKey keyId), random)

/-- The measured steps of the operations that are listed, with the reopens between them. -/
def measuredOf (config : ExperimentGeneratorConfig) : List ℕ → SplitMix64 → List ExperimentStep
  | [], _ => []
  | operationIndex :: rest, random =>
    let (step, random) := measuredStep config operationIndex random
    let reopens := match config.reopenEvery with
      | none => []
      | some every => if (operationIndex + 1) % every.val = 0 then [.reopen] else []
    step :: reopens ++ measuredOf config rest random

/-! ### Validation -/

namespace ExperimentTrace

variable (trace : ExperimentTrace)

/-- The steps of a trace in the order of their execution. -/
def steps : List ExperimentStep := trace.setupSteps ++ trace.measuredSteps

/-- The checks of `validate_structure` on the embedded configuration. -/
def validateMetadata (generator : ExperimentGeneratorConfig) : Except DbError Unit := do
  generator.validate
  failWhen (trace.seed ≠ some generator.seed)
    (.invalidInput "experiment trace seed does not match embedded generator config")
  failWhen (trace.profile ≠ generator.profile)
    (.invalidInput "experiment trace profile does not match embedded generator config")

/-- Source `validate_structure`. -/
def validateStructure : Except DbError Unit := do
  failWhen (trace.formatVersion ≠ experimentTraceFormatVersion)
    (.unsupportedVersion "experiment trace" trace.formatVersion experimentTraceFormatVersion)
  let totalSteps ← checkedAdd trace.setupSteps.length trace.measuredSteps.length
    (.invalidInput "experiment step count overflowed")
  failWhen (maxExperimentSteps < totalSteps)
    (.invalidInput s!"experiment trace has {totalSteps} steps; maximum is {maxExperimentSteps}")
  failWhen (trace.measuredSteps = [])
    (.invalidInput "experiment trace must contain at least one measured step")
  match trace.generator with
  | none => .ok ()
  | some generator => trace.validateMetadata generator
  let _ ← trace.steps.foldlM (fun payloadBytes step => do
    validateExperimentStep step
    let next ← experimentStepPayloadBytes step
    checkedAddPayload payloadBytes next maxExperimentTracePayloadBytes "experiment trace") 0
  .ok ()

/-- Source `requires_ordered_range`. -/
def requiresOrderedRange : Bool :=
  trace.steps.any fun
    | .rangeScan _ _ _ => true
    | _ => false

end ExperimentTrace

/-- Source `build_generated_trace`. -/
def buildGeneratedTrace (config : ExperimentGeneratorConfig) : Except DbError ExperimentTrace := do
  config.validate
  let (setupSteps, random) := setupOf config ⟨config.seed⟩
  let trace : ExperimentTrace :=
    { formatVersion := experimentTraceFormatVersion
      profile := config.profile
      seed := some config.seed
      generator := some config
      setupSteps := setupSteps
      measuredSteps := measuredOf config (List.range config.operations.val) random }
  trace.validateStructure
  .ok trace

/-- Source `validate`. -/
def ExperimentTrace.validate (trace : ExperimentTrace) : Except DbError Unit := do
  trace.validateStructure
  match trace.generator with
  | none => .error (.invalidInput "experiment trace v1 requires embedded generator metadata")
  | some generator => do
    let expected ← buildGeneratedTrace generator
    failWhen (trace.setupSteps ≠ expected.setupSteps ∨ trace.measuredSteps ≠ expected.measuredSteps)
      (.invalidInput "experiment trace steps do not match embedded generator metadata")

end DbLab.Experiment
