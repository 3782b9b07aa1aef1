import DbLab.Experiment.Json

/-!
# The archive of a batch

What a run of the batch program writes: the checks of its arguments, the captured batch, the environment, and the
files of a new archive directory.
-/

namespace DbLab.Experiment.BatchArchive

open Analyze (Value)

def maxExclusionReasonBytes : ℕ := 4 * 1024

def maxPublicationMetadataBytes : ℕ := 4 * 1024

def batchArchiveFormatVersion : ℕ := 6

def batchPublicationArchiveFormatVersion : ℕ := 7

def batchContextualFailureArchiveFormatVersion : ℕ := 10

def batchPublicationContextualFailureArchiveFormatVersion : ℕ := 11

def batchExecutionProtocol : String := "fresh_counterbalanced_repeated_batch_v1"

def batchAttemptProtocol : String := "retain_all_requested_pairs_v1"

def batchComparisonFailureProtocol : String := "ordered_comparison_failure_sidecar_v2"

def engineLayout : String :=
  "pair-\x7bpair_index:06\x7d/repetition-\x7brepetition_index\x7d/\x7bbtree.db|lsm\x7d"

def publicationAdmissionProtocol : String := "publication_warm_v1"

def publicationCachePolicy : String := "trace_induced_warm"

def publicationDurabilityMode : String := "synced_single_operation"

def publicationPairOrderPolicy : String := "pair_seed_low_bit_then_alternate"

/-- What `serde_json` does: the indented text of a value, the value of a text, the trace of a value, and the text of a
value in a message. -/
structure Serde where
  toWriterPretty : Value → Bytes
  fromSlice : Bytes → Except String Value
  traceFromValue : Value → Except String ExperimentTrace
  display : Value → String

/-- The bytes that `write_new_json` writes. -/
def Serde.document (serde : Serde) (value : Value) : Bytes := serde.toWriterPretty value ++ [10]

/-! ### Arguments -/

inductive CacheStateKind
  | unspecified | warm | coldBestEffort
  deriving DecidableEq

/-- Source `as_str`. -/
def CacheStateKind.asStr : CacheStateKind → String
  | unspecified => "unspecified"
  | warm => "warm"
  | coldBestEffort => "cold_best_effort"

inductive AdmissionKind
  | exploratory | publicationWarmV1
  deriving DecidableEq

structure Cli where
  pairSeed : UInt64
  pairs : U32
  btreeCachePages : ℕ
  revision : String
  excludePairs : List String
  hostLabel : Option String
  hostCpu : Option String
  hostMemory : Option String
  filesystem : Option String
  mountOptions : Option String
  storageDevice : Option String
  cacheState : CacheStateKind
  admission : AdmissionKind
  optimizationFlags : Option String
  analysisScriptVersion : Option String
  noiseBudget : Option String
  notes : Option String

/-- What a run asks of its surroundings; there are no seconds when the clock precedes the epoch. -/
structure Surroundings where
  dbLabVersion : String
  targetOs : String
  targetArch : String
  buildProfile : String
  rustcVersion : Option String
  rustcHostTriple : Option String
  unixSeconds : Option ℕ

inductive CliError
  | usage (reason : String)
  | database (error : DbError)
  | batchFailures (failedPairs : ℕ)
  deriving DecidableEq

def requireUsage (p : Prop) [Decidable p] (reason : String) : Except CliError Unit :=
  if p then .ok () else .error (.usage reason)

def orUsage {α : Type} (value : Option α) (reason : String) : Except CliError α :=
  match value with
  | some a => .ok a
  | none => .error (.usage reason)

/-- Source `validate_revision`. -/
def validateRevision (revision : String) : Except CliError Unit :=
  let revision := trimmed revision
  requireUsage (revision ≠ "" ∧ revision.utf8ByteSize ≤ 128 ∧
      revision.toList.all fun c => c.isAlphanum || c = '-' || c = '_' || c = '.')
    "--revision must be 1..=128 ASCII alphanumeric, '-', '_', or '.' characters"

/-- Source `split_once`. -/
def splitOnce (s : String) (c : Char) : Option (String × String) :=
  match s.toList.span (· ≠ c) with
  | (_, []) => none
  | (front, _ :: back) => some (String.ofList front, String.ofList back)

/-- Source `parse::<u32>`. -/
def parseU32 (s : String) : Option ℕ :=
  let digits : List Char := match s.toList with
    | '+' :: rest => rest
    | chars => chars
  let n : ℕ := digits.foldl (fun n c => 10 * n + (c.toNat - '0'.toNat)) 0
  if digits ≠ [] ∧ digits.all Char.isDigit ∧ n < 2 ^ 32 then some n else none

/-- The round of `parse_exclusions` for one argument. -/
def parseExclusion (pairs : U32) (exclusions : SortedMap ℕ String) (encoded : String) :
    Except CliError (SortedMap ℕ String) := do
  let (index, reason) ← orUsage (splitOnce encoded '=') s!"--exclude-pair must use INDEX=REASON; got {encoded.quote}"
  let pairIndex ← orUsage (parseU32 (trimmed index))
    s!"--exclude-pair index must be a zero-based integer; got {index.quote}"
  requireUsage (pairIndex < pairs.val)
    s!"--exclude-pair index {pairIndex} is outside requested pair range 0..{pairs.val - 1}"
  let reason := trimmed reason
  requireUsage (reason ≠ "" ∧ reason.utf8ByteSize ≤ maxExclusionReasonBytes)
    s!"--exclude-pair reason must contain 1..={maxExclusionReasonBytes} UTF-8 bytes after trimming"
  requireUsage (exclusions.find pairIndex = none) s!"--exclude-pair index {pairIndex} was specified more than once"
  .ok (exclusions.insert pairIndex reason)

/-- Source `parse_exclusions`. -/
def parseExclusions (values : List String) (pairs : U32) : Except CliError (SortedMap ℕ String) :=
  values.foldlM (parseExclusion pairs) .empty

/-! ### Publication -/

structure BatchPublicationAdmissionRecord where
  rustTargetTriple : String
  hostLabel : String
  hostCpu : String
  hostMemory : String
  storageDevice : String
  filesystem : String
  mountOptions : String
  requestedPairs : ℕ
  optimizationFlags : String
  analysisScriptVersion : String
  noiseBudget : String

def BatchPublicationAdmissionRecord.json (admission : BatchPublicationAdmissionRecord) : Value :=
  .object
    [("admission_protocol", .string publicationAdmissionProtocol),
      ("rust_target_triple", .string admission.rustTargetTriple), ("host_label", .string admission.hostLabel),
      ("host_cpu", .string admission.hostCpu), ("host_memory", .string admission.hostMemory),
      ("storage_device", .string admission.storageDevice), ("filesystem", .string admission.filesystem),
      ("mount_options", .string admission.mountOptions), ("cache_policy", .string publicationCachePolicy),
      ("cache_state", .string "warm"), ("durability_mode", .string publicationDurabilityMode),
      ("pair_order_policy", .string publicationPairOrderPolicy),
      ("requested_pairs", .unsigned admission.requestedPairs), ("ordered_comparisons_per_included_pair", .unsigned 2),
      ("optimization_flags", .string admission.optimizationFlags),
      ("analysis_script_version", .string admission.analysisScriptVersion),
      ("noise_budget", .string admission.noiseBudget)]

/-- Source `validate_bounded_metadata`. -/
def validateBoundedMetadata (label value : String) (maximumBytes : ℕ) : Except CliError String := do
  let value := trimmed value
  requireUsage (value ≠ "" ∧ value.utf8ByteSize ≤ maximumBytes)
    s!"{label} must contain 1..={maximumBytes} UTF-8 bytes after trimming"
  .ok value

/-- Source `required_publication_metadata`. -/
def requiredPublicationMetadata (label : String) (value : Option String) : Except CliError String := do
  let value ← orUsage value s!"publication-warm-v1 requires {label}"
  validateBoundedMetadata label value maxPublicationMetadataBytes

/-- The record of `validate_publication_admission`. -/
def publicationRecord (args : Cli) (rustTargetTriple : String) :
    Except CliError BatchPublicationAdmissionRecord := do
  let rustTargetTriple ← validateBoundedMetadata "rust target triple" rustTargetTriple maxPublicationMetadataBytes
  let hostLabel ← requiredPublicationMetadata "--host-label" args.hostLabel
  let hostCpu ← requiredPublicationMetadata "--host-cpu" args.hostCpu
  let hostMemory ← requiredPublicationMetadata "--host-memory" args.hostMemory
  let storageDevice ← requiredPublicationMetadata "--storage-device" args.storageDevice
  let filesystem ← requiredPublicationMetadata "--filesystem" args.filesystem
  let mountOptions ← requiredPublicationMetadata "--mount-options" args.mountOptions
  let optimizationFlags ← requiredPublicationMetadata "--optimization-flags" args.optimizationFlags
  let analysisScriptVersion ← requiredPublicationMetadata "--analysis-script-version" args.analysisScriptVersion
  let noiseBudget ← requiredPublicationMetadata "--noise-budget" args.noiseBudget
  .ok
    { rustTargetTriple, hostLabel, hostCpu, hostMemory, storageDevice, filesystem, mountOptions,
      requestedPairs := args.pairs.val, optimizationFlags, analysisScriptVersion, noiseBudget }

/-- Source `validate_publication_admission`. -/
def validatePublicationAdmission (args : Cli) (exclusions : SortedMap ℕ String) (buildProfile : String)
    (rustTargetTriple : Option String) : Except CliError (Option BatchPublicationAdmissionRecord) :=
  match args.admission with
  | .exploratory => do
    requireUsage (args.hostCpu = none ∧ args.hostMemory = none ∧ args.mountOptions = none ∧
        args.optimizationFlags = none ∧ args.analysisScriptVersion = none ∧ args.noiseBudget = none)
      "publication-only metadata requires --admission publication-warm-v1"
    .ok none
  | .publicationWarmV1 => do
    requireUsage (buildProfile = "release")
      "publication-warm-v1 requires a release build; debug binaries are not admitted"
    requireUsage (args.cacheState = .warm)
      "publication-warm-v1 requires --cache-state warm; cold_best_effort is not accepted as proof of a cold OS/device cache"
    requireUsage (exclusions.entries.length ≠ args.pairs.val)
      "publication-warm-v1 requires at least one included pair; all requested pairs were excluded"
    let rustTargetTriple ← orUsage rustTargetTriple
      "publication-warm-v1 requires a Rust host target triple from \x60rustc -vV\x60"
    let record ← publicationRecord args rustTargetTriple
    .ok (some record)

/-! ### Environment and index -/

structure BatchArchiveEnvironment where
  formatVersion : ℕ
  repositoryRevision : String
  comparisonFailureProtocol : Option String
  pairSeed : UInt64
  requestedPairs : ℕ
  dbLabVersion : String
  targetOs : String
  targetArch : String
  buildProfile : String
  rustcVersion : Option String
  hostLabel : Option String
  filesystem : Option String
  storageDevice : Option String
  cacheState : String
  btreeCachePages : ℕ
  recordedUnixSeconds : ℕ
  publicationAdmission : Option BatchPublicationAdmissionRecord
  notes : Option String

def BatchArchiveEnvironment.json (environment : BatchArchiveEnvironment) : Value :=
  .object
    ([("format_version", .unsigned environment.formatVersion),
      ("repository_revision", .string environment.repositoryRevision),
      ("execution_protocol", .string batchExecutionProtocol), ("attempt_protocol", .string batchAttemptProtocol)] ++
      Json.member "comparison_failure_protocol" .string environment.comparisonFailureProtocol ++
      [("pair_seed", .unsigned environment.pairSeed.toNat), ("requested_pairs", .unsigned environment.requestedPairs),
        ("engine_layout", .string engineLayout), ("db_lab_version", .string environment.dbLabVersion),
        ("target_os", .string environment.targetOs), ("target_arch", .string environment.targetArch),
        ("build_profile", .string environment.buildProfile),
        ("rustc_version", Json.optionalString environment.rustcVersion),
        ("host_label", Json.optionalString environment.hostLabel),
        ("filesystem", Json.optionalString environment.filesystem),
        ("storage_device", Json.optionalString environment.storageDevice),
        ("cache_state", .string environment.cacheState), ("btree_cache_pages", .unsigned environment.btreeCachePages),
        ("recorded_unix_seconds", .unsigned environment.recordedUnixSeconds)] ++
      Json.member "publication_admission" BatchPublicationAdmissionRecord.json environment.publicationAdmission ++
      [("notes", Json.optionalString environment.notes)])

structure BatchArchiveIndex where
  formatVersion : ℕ
  repositoryRevision : String
  comparisonFailureProtocol : Option String
  admissionProtocol : Option String
  files : List String

def BatchArchiveIndex.json (index : BatchArchiveIndex) : Value :=
  .object
    ([("format_version", .unsigned index.formatVersion), ("repository_revision", .string index.repositoryRevision),
      ("execution_protocol", .string batchExecutionProtocol), ("attempt_protocol", .string batchAttemptProtocol)] ++
      Json.member "comparison_failure_protocol" .string index.comparisonFailureProtocol ++
      Json.member "admission_protocol" .string index.admissionProtocol ++
      [("files", .array (index.files.map .string))])

/-- Source `select_archive_format_version`. -/
def selectArchiveFormatVersion (publication hasComparisonFailures : Bool) : ℕ :=
  match publication, hasComparisonFailures with
  | false, false => batchArchiveFormatVersion
  | true, false => batchPublicationArchiveFormatVersion
  | false, true => batchContextualFailureArchiveFormatVersion
  | true, true => batchPublicationContextualFailureArchiveFormatVersion

/-- Source `build_environment`. -/
def buildEnvironment (surroundings : Surroundings) (args : Cli) (formatVersion : ℕ)
    (publicationAdmission : Option BatchPublicationAdmissionRecord) (hasComparisonFailures : Bool) :
    Except CliError BatchArchiveEnvironment := do
  let recordedUnixSeconds ← orUsage surroundings.unixSeconds "system clock precedes Unix epoch"
  .ok
    { formatVersion := formatVersion
      repositoryRevision := args.revision
      comparisonFailureProtocol := if hasComparisonFailures then some batchComparisonFailureProtocol else none
      pairSeed := args.pairSeed
      requestedPairs := args.pairs.val
      dbLabVersion := surroundings.dbLabVersion
      targetOs := surroundings.targetOs
      targetArch := surroundings.targetArch
      buildProfile := surroundings.buildProfile
      rustcVersion := surroundings.rustcVersion
      hostLabel := args.hostLabel
      filesystem := args.filesystem
      storageDevice := args.storageDevice
      cacheState := args.cacheState.asStr
      btreeCachePages := args.btreeCachePages
      recordedUnixSeconds := recordedUnixSeconds
      publicationAdmission := publicationAdmission
      notes := args.notes }

/-! ### The run -/

inductive ArchiveEntry
  | regular (bytes : Bytes)
  | other

/-- The entries of an archive directory. -/
abbrev ArchiveDir : Type := List (String × ArchiveEntry)

/-- The files of an archive and what is written to them, in the order in which they are created. -/
def archiveValues (revision : String) (trace : ExperimentTrace) (report : CounterbalancedExperimentBatchReport)
    (comparisonFailures : List CounterbalancedBatchComparisonFailureEvidence)
    (environment : BatchArchiveEnvironment) : List (String × Value) :=
  let files : List (String × Value) :=
    [("trace.json", trace.json), ("batch.json", report.json), ("environment.json", environment.json)] ++
      if comparisonFailures = [] then []
      else [("comparison-failures.json",
        .array (comparisonFailures.map CounterbalancedBatchComparisonFailureEvidence.json))]
  let index : BatchArchiveIndex :=
    { formatVersion := environment.formatVersion
      repositoryRevision := revision
      comparisonFailureProtocol := environment.comparisonFailureProtocol
      admissionProtocol := environment.publicationAdmission.map fun _ => publicationAdmissionProtocol
      files := files.map Prod.fst }
  files ++ [("index.json", index.json)]

/-- Source `write_batch_archive`, whose steps succeed: after a failure it removes the directory. -/
def writeBatchArchive (serde : Serde) (values : List (String × Value)) : ArchiveDir :=
  values.map fun file => (file.1, .regular (serde.document file.2))

section Run

variable {σ ρ : Type} [Candidate σ] [Candidate ρ]

/-- The factories of the engines, and the decision on a pair that the exclusions make. -/
def callbacksOf (makeLeft : ExperimentInstanceContext → Except DbError σ)
    (makeRight : ExperimentInstanceContext → Except DbError ρ) (exclusions : SortedMap ℕ String) : Callbacks σ ρ where
  makeLeft := makeLeft
  makeRight := makeRight
  admission context :=
    match exclusions.find context.pairIndex with
    | some reason => .exclude reason
    | none => .admitPair

/-- What a run has when it comes to its archive. -/
structure Prepared where
  captured : CounterbalancedExperimentBatchCapturedReport
  environment : BatchArchiveEnvironment

variable (makeLeft : ExperimentInstanceContext → Except DbError σ)
  (makeRight : ExperimentInstanceContext → Except DbError ρ) (surroundings : Surroundings) (args : Cli)
  (trace : ExperimentTrace)

/-- Source `run` before the archive is written. The trace is the one that was read; the two directories are new. -/
def prepare : Except CliError Prepared := do
  validateRevision args.revision
  requireUsage (args.pairs.val ≠ 0 ∧ args.pairs.val ≤ maxExperimentBatchPairs)
    s!"--pairs is {args.pairs.val}; expected 1..={maxExperimentBatchPairs}"
  trace.validate.mapError .database
  let exclusions ← parseExclusions args.excludePairs args.pairs
  let publicationAdmission ← validatePublicationAdmission args exclusions surroundings.buildProfile
    surroundings.rustcHostTriple
  let captured ← (runCounterbalancedExperimentBatchCaptured (callbacksOf makeLeft makeRight exclusions) trace
    args.pairSeed args.pairs.val).mapError .database
  let hasComparisonFailures := decide (captured.comparisonFailures ≠ [])
  let environment ← buildEnvironment surroundings args
    (selectArchiveFormatVersion publicationAdmission.isSome hasComparisonFailures) publicationAdmission
    hasComparisonFailures
  .ok ⟨captured, environment⟩

/-- What is written after the preparation. -/
def Prepared.values (prepared : Prepared) : List (String × Value) :=
  archiveValues args.revision trace prepared.captured.batch prepared.captured.comparisonFailures prepared.environment

/-- Source `run`: its result, and the archive it leaves. -/
def run (serde : Serde) : Except CliError Unit × Option ArchiveDir :=
  match prepare makeLeft makeRight surroundings args trace with
  | .error e => (.error e, none)
  | .ok prepared =>
    (if 0 < prepared.captured.batch.failedPairs then .error (.batchFailures prepared.captured.batch.failedPairs)
      else .ok (), some (writeBatchArchive serde (prepared.values args trace)))

end Run

end DbLab.Experiment.BatchArchive
