import DbLab.Experiment.Archive

/-!
# The verification of an archive

The verifier reads the files of a directory and checks them field by field against the rules of their format version.
-/

namespace DbLab.Experiment.BatchArchive

open Analyze (Value)

def maxArchiveJsonBytes : ℕ := 64 * 1024 * 1024

structure VerificationSummary where
  formatVersion : ℕ
  publicationAdmitted : Bool
  repositoryRevision : String
  requestedPairs : ℕ
  includedPairs : ℕ
  failedPairs : ℕ
  excludedPairs : ℕ
  comparisonFailureSidecars : ℕ
  deriving DecidableEq

inductive VerifyError
  | invalid (message : String)
  | io (name : String)
  | json (name reason : String)
  | trace (error : DbError)
  deriving DecidableEq

abbrev Verified (α : Type) : Type := Except VerifyError α

/-! ### Fields -/

def require (p : Prop) [Decidable p] (message : String) : Verified Unit :=
  if p then .ok () else .error (.invalid message)

def orInvalid {α : Type} (value : Option α) (message : String) : Verified α :=
  match value with
  | some a => .ok a
  | none => .error (.invalid message)

def requiredObject (value : Value) (label : String) : Verified (List (String × Value)) :=
  orInvalid value.asObject s!"{label} must be a JSON object"

def requiredField (value : Value) (field label : String) : Verified Value := do
  let members ← requiredObject value label
  orInvalid (members.lookup field) s!"{label} is missing required field {field.quote}"

def requiredArray (value : Value) (field label : String) : Verified (List Value) := do
  let found ← requiredField value field label
  orInvalid found.asArray s!"{label} {field} must be an array"

def requiredStr (value : Value) (field label : String) : Verified String := do
  let found ← requiredField value field label
  orInvalid found.asStr s!"{label} {field} must be a string"

def requireNonemptyStr (value : Value) (field label : String) : Verified String := do
  let result ← requiredStr value field label
  require (trimmed result ≠ "") s!"{label} {field} must be non-empty"
  .ok result

def requiredU64 (value : Value) (field label : String) : Verified ℕ := do
  let found ← requiredField value field label
  orInvalid found.asU64 s!"{label} {field} must be an unsigned integer"

def requiredU32 (value : Value) (field label : String) : Verified ℕ := do
  let integer ← requiredU64 value field label
  require (integer < 2 ^ 32) s!"{label} {field} value {integer} exceeds u32"
  .ok integer

def requiredU16 (value : Value) (field label : String) : Verified ℕ := do
  let integer ← requiredU64 value field label
  require (integer < 2 ^ 16) s!"{label} {field} value {integer} exceeds u16"
  .ok integer

def requireEqualStr (value : Value) (field expected label : String) : Verified Unit := do
  let found ← requiredStr value field label
  require (found = expected) s!"{label} {field} must be {expected.quote}; found {found.quote}"

def errorClasses : List String := ["invalid_input", "io", "corruption", "unsupported_version", "poisoned"]

def requireErrorClass (value : Value) (field label : String) : Verified String := do
  let found ← requiredStr value field label
  require (found ∈ errorClasses) s!"{label} {field} has unknown error class {found.quote}"
  .ok found

/-- The field is there exactly if it should be, and then it is this string. -/
def requireDeclared (value : Value) (field expected label : String) (declared : Bool) (message : String) :
    Verified Unit :=
  if declared then requireEqualStr value field expected label
  else do
    let members ← requiredObject value label
    require (members.lookup field).isNone message

/-! ### Files -/

variable (serde : Serde) (archive : ArchiveDir)

/-- Source `read_json`. -/
def readJson (name : String) : Verified Value :=
  match archive.lookup name with
  | none => .error (.io name)
  | some .other => .error (.invalid s!"{name} is not a regular file")
  | some (.regular bytes) => do
    require (bytes.length ≤ maxArchiveJsonBytes)
      s!"{name} has {bytes.length} bytes; maximum verified JSON size is {maxArchiveJsonBytes}"
    (serde.fromSlice bytes).mapError (.json name)

/-- The names of a set, as they are shown in a message. -/
def shownNames (names : List String) : String :=
  "\x7b" ++ ", ".intercalate ((names.toFinset.sort (· ≤ ·)).map String.quote) ++ "\x7d"

/-- The check of the entries of the directory. -/
def verifyEntryTypes : ArchiveDir → Verified Unit
  | [] => .ok ()
  | (name, .other) :: _ =>
    .error (.invalid s!"archive entry {name.quote} is not a regular file; symlinks/directories are not admitted")
  | (_, .regular _) :: entries => verifyEntryTypes entries

/-- Source `verify_directory_entries`. -/
def verifyDirectoryEntries (indexedFiles : List String) : Verified Unit := do
  verifyEntryTypes archive
  let expected := "index.json" :: indexedFiles
  let actual := archive.map Prod.fst
  require (actual.toFinset = expected.toFinset)
    s!"archive directory entries do not match immutable index contract: expected {shownNames expected}, found {shownNames actual}"

/-! ### Index and environment -/

/-- The rules of a format version. -/
structure Format where
  version : ℕ
  publication : Bool
  contextualFailures : Bool

def Format.expectedFiles (format : Format) : List String :=
  ["trace.json", "batch.json", "environment.json"] ++
    if format.contextualFailures then ["comparison-failures.json"] else []

/-- The format of a version that can be verified. -/
def formatOf (formatVersion : ℕ) : Verified Format :=
  if formatVersion = 8 ∨ formatVersion = 9 then .error (.invalid
    s!"format v{formatVersion} is a frozen legacy failure-sidecar format without pair_index; it cannot be joined unambiguously to repeated batch ledger rows. Regenerate evidence as v10/v11")
  else if formatVersion ∈ [6, 7, 10, 11] then
    .ok ⟨formatVersion, formatVersion = 7 ∨ formatVersion = 11, formatVersion = 10 ∨ formatVersion = 11⟩
  else .error (.invalid
    s!"unsupported repeated batch archive format v{formatVersion}; supported verifiable formats are v6, v7, v10, and v11")

/-- The names of the index are those of the format, position by position. -/
def verifyFileNames : ℕ → List Value → List String → Verified Unit
  | position, value :: values, expected :: rest => do
    require (value.asStr = some expected)
      s!"index.json files[{position}] must be {expected.quote}; found {serde.display value}"
    verifyFileNames (position + 1) values rest
  | _, _, _ => .ok ()

/-- Source `verify_index`. -/
def verifyIndex (index : Value) (format : Format) : Verified Unit := do
  requireEqualStr index "execution_protocol" batchExecutionProtocol "index.json"
  requireEqualStr index "attempt_protocol" batchAttemptProtocol "index.json"
  let files ← requiredArray index "files" "index.json"
  require (files.length = format.expectedFiles.length)
    s!"index.json files has {files.length} entries; format v{format.version} requires {format.expectedFiles.length}"
  verifyFileNames serde 0 files format.expectedFiles
  let _ ← requiredObject index "index.json"
  requireDeclared index "comparison_failure_protocol" batchComparisonFailureProtocol "index.json"
    format.contextualFailures
    s!"format v{format.version} index.json must not declare comparison_failure_protocol"
  requireDeclared index "admission_protocol" publicationAdmissionProtocol "index.json" format.publication
    s!"exploratory format v{format.version} index.json must not declare admission_protocol"

def admissionLabel : String := "environment.json publication_admission"

/-- The fields of the admission that must not be blank. -/
def describedFields : List String :=
  ["rust_target_triple", "host_label", "host_cpu", "host_memory", "storage_device", "filesystem", "mount_options",
    "optimization_flags", "analysis_script_version", "noise_budget"]

def verifyDescribed (admission : Value) : List String → Verified Unit
  | [] => .ok ()
  | field :: fields => do
    let found ← requiredStr admission field admissionLabel
    require (trimmed found ≠ "") s!"{admissionLabel} {field} must be non-empty"
    verifyDescribed admission fields

/-- Source `verify_publication_admission`. -/
def verifyPublicationAdmission (admission : Value) (requestedPairs : ℕ) : Verified Unit := do
  requireEqualStr admission "admission_protocol" publicationAdmissionProtocol admissionLabel
  requireEqualStr admission "cache_policy" publicationCachePolicy admissionLabel
  requireEqualStr admission "cache_state" "warm" admissionLabel
  requireEqualStr admission "durability_mode" publicationDurabilityMode admissionLabel
  requireEqualStr admission "pair_order_policy" publicationPairOrderPolicy admissionLabel
  let admitted ← requiredU32 admission "requested_pairs" admissionLabel
  require (admitted = requestedPairs) "publication_admission requested_pairs differs from batch"
  let comparisons ← requiredU64 admission "ordered_comparisons_per_included_pair" admissionLabel
  require (comparisons = 2) "publication_admission ordered_comparisons_per_included_pair must be 2"
  verifyDescribed admission describedFields

/-- The admission that the environment declares, if its format has one. -/
def verifyDeclaredAdmission (environment : Value) (format : Format) (requestedPairs : ℕ) : Verified Unit :=
  if format.publication then do
    let admission ← requiredField environment "publication_admission" "environment.json"
    verifyPublicationAdmission admission requestedPairs
    requireEqualStr environment "cache_state" "warm" "environment.json"
  else do
    let members ← requiredObject environment "environment.json"
    require (members.lookup "publication_admission").isNone
      s!"exploratory format v{format.version} environment.json must not contain publication_admission"

/-- Source `verify_environment`. -/
def verifyEnvironment (environment index batch : Value) (format : Format) (expectedRevision : Option String) :
    Verified String := do
  let formatVersion ← requiredU16 environment "format_version" "environment.json"
  require (formatVersion = format.version) "environment.json format_version differs from index.json"
  requireEqualStr environment "execution_protocol" batchExecutionProtocol "environment.json"
  requireEqualStr environment "attempt_protocol" batchAttemptProtocol "environment.json"
  requireEqualStr environment "engine_layout" engineLayout "environment.json"
  let revision ← requiredStr environment "repository_revision" "environment.json"
  let indexRevision ← requiredStr index "repository_revision" "index.json"
  require (revision = indexRevision) "repository_revision differs between environment.json and index.json"
  require (∀ expected ∈ expectedRevision, revision = expected)
    ("repository_revision is " ++ revision.quote ++ "; caller expected " ++ (expectedRevision.getD "").quote)
  let pairSeed ← requiredU64 environment "pair_seed" "environment.json"
  let requestedPairs ← requiredU32 environment "requested_pairs" "environment.json"
  let batchSeed ← requiredU64 batch "pair_seed" "batch.json"
  require (pairSeed = batchSeed) "pair_seed differs between environment.json and batch.json"
  let batchPairs ← requiredU32 batch "requested_pairs" "batch.json"
  require (requestedPairs = batchPairs) "requested_pairs differs between environment.json and batch.json"
  let _ ← requiredObject environment "environment.json"
  requireDeclared environment "comparison_failure_protocol" batchComparisonFailureProtocol "environment.json"
    format.contextualFailures
    s!"format v{format.version} environment.json must not declare comparison_failure_protocol"
  verifyDeclaredAdmission environment format requestedPairs
  .ok revision

/-- Source `verify_trace_identity`. -/
def verifyTraceIdentity (trace batch : Value) : Verified Unit := do
  let batchTrace ← requiredField batch "trace" "batch.json"
  require (batchTrace = trace) "batch.json trace does not exactly match trace.json JSON value"

/-! ### The ledger -/

/-- Source `expected_pair_order`. -/
def expectedPairOrder (pairSeed pairIndex : ℕ) : String :=
  if (pairSeed % 2) ^^^ (pairIndex % 2) = 0 then "left_then_right_first" else "right_then_left_first"

/-- Source `first_execution_order`. -/
def firstExecutionOrder (pairOrder : String) : String :=
  if pairOrder = "left_then_right_first" then "left_then_right" else "right_then_left"

/-- Source `second_execution_order`. -/
def secondExecutionOrder (pairOrder : String) : String :=
  if pairOrder = "left_then_right_first" then "right_then_left" else "left_then_right"

/-- Source `verify_ordered_report`. -/
def verifyOrderedReport (report : Value) (expectedOrder label : String) : Verified Unit :=
  requireEqualStr report "execution_order" expectedOrder label

def isObject (value : Value) : Bool := value.asObject.isSome

def verifyIncluded (report failure exclusionReason : Value) (pairIndex : ℕ) (expectedOrder : String) :
    Verified Unit := do
  require (isObject report ∧ failure.isNull ∧ exclusionReason.isNull)
    s!"included pair {pairIndex} must have report only"
  requireEqualStr report "pair_order" expectedOrder "included pair report"
  let first ← requiredField report "first" "included pair report"
  verifyOrderedReport first (firstExecutionOrder expectedOrder) "included pair first report"
  let second ← requiredField report "second" "included pair report"
  verifyOrderedReport second (secondExecutionOrder expectedOrder) "included pair second report"

/-- The engine and the repetition of a factory that failed. -/
def verifyFactory (failure : Value) : Verified Unit := do
  let role ← requiredStr failure "engine_role" "engine factory failure"
  require (role = "left" ∨ role = "right") s!"invalid engine factory role {role.quote}"
  let repetition ← requiredU64 failure "repetition_index" "engine factory failure"
  require (repetition ≤ 1) s!"engine factory failure repetition_index {repetition} is outside 0..=1"

def verifyFailed (report failure exclusionReason : Value) (pairIndex : ℕ) : Verified Unit := do
  require (report.isNull ∧ isObject failure ∧ exclusionReason.isNull) s!"failed pair {pairIndex} must have failure only"
  let stage ← requiredStr failure "stage" "failed pair failure"
  require (stage = "engine_factory" ∨ stage = "comparison")
    s!"failed pair {pairIndex} has unknown failure stage {stage.quote}"
  let _ ← requireNonemptyStr failure "message" "failed pair failure"
  let _ ← requireErrorClass failure "class" "failed pair failure"
  if stage = "engine_factory" then verifyFactory failure else .ok ()

def verifyExcluded (report failure exclusionReason : Value) (pairIndex : ℕ) : Verified Unit := do
  require (report.isNull ∧ failure.isNull) s!"excluded pair {pairIndex} must not contain report/failure"
  require (exclusionReason.asStr.any fun reason => trimmed reason ≠ "")
    s!"excluded pair {pairIndex} must retain a non-empty exclusion_reason"

def unknownDisposition {α : Type} (disposition : String) : Verified α :=
  .error (.invalid s!"unknown batch attempt disposition {disposition.quote}")

/-- Source `verify_attempt`. -/
def verifyAttempt (attempt : Value) (pairIndex pairSeed : ℕ) : Verified Unit := do
  let context ← requiredField attempt "context" "batch.json attempt"
  let found ← requiredU32 context "pair_index" "batch.json attempt context"
  require (found = pairIndex) s!"batch attempt row {pairIndex} does not carry matching context.pair_index"
  let expectedOrder := expectedPairOrder pairSeed pairIndex
  requireEqualStr context "pair_order" expectedOrder "batch.json attempt context"
  let disposition ← requiredStr attempt "disposition" "batch.json attempt"
  let report ← requiredField attempt "report" "batch.json attempt"
  let failure ← requiredField attempt "failure" "batch.json attempt"
  let exclusionReason ← requiredField attempt "exclusion_reason" "batch.json attempt"
  if disposition = "included" then verifyIncluded report failure exclusionReason pairIndex expectedOrder
  else if disposition = "failed" then verifyFailed report failure exclusionReason pairIndex
  else if disposition = "excluded" then verifyExcluded report failure exclusionReason pairIndex
  else unknownDisposition disposition

structure BatchCounts where
  requestedPairs : ℕ
  includedPairs : ℕ
  failedPairs : ℕ
  excludedPairs : ℕ
  deriving DecidableEq

/-- Counts the row of a disposition. -/
def BatchCounts.add (counts : BatchCounts) (disposition : String) : Verified BatchCounts :=
  if disposition = "included" then .ok { counts with includedPairs := counts.includedPairs + 1 }
  else if disposition = "failed" then .ok { counts with failedPairs := counts.failedPairs + 1 }
  else if disposition = "excluded" then .ok { counts with excludedPairs := counts.excludedPairs + 1 }
  else unknownDisposition disposition

/-- The rows of the ledger from an index on, with the counts so far. -/
def verifyAttempts (pairSeed : ℕ) : ℕ → List Value → BatchCounts → Verified BatchCounts
  | _, [], counts => .ok counts
  | pairIndex, attempt :: attempts, counts => do
    verifyAttempt attempt pairIndex pairSeed
    let disposition ← requiredStr attempt "disposition" "batch.json attempt"
    let counts ← counts.add disposition
    verifyAttempts pairSeed (pairIndex + 1) attempts counts

/-- Source `verify_batch_ledger`. -/
def verifyBatchLedger (batch : Value) : Verified BatchCounts := do
  let requestedPairs ← requiredU32 batch "requested_pairs" "batch.json"
  require (requestedPairs ≠ 0 ∧ requestedPairs ≤ maxExperimentBatchPairs)
    s!"batch.json requested_pairs is {requestedPairs}; expected 1..={maxExperimentBatchPairs}"
  let pairSeed ← requiredU64 batch "pair_seed" "batch.json"
  let includedPairs ← requiredU32 batch "included_pairs" "batch.json"
  let failedPairs ← requiredU32 batch "failed_pairs" "batch.json"
  let excludedPairs ← requiredU32 batch "excluded_pairs" "batch.json"
  require (includedPairs + failedPairs + excludedPairs = requestedPairs)
    "batch.json declared disposition counts do not sum to requested_pairs"
  let attempts ← requiredArray batch "attempts" "batch.json"
  require (attempts.length = requestedPairs)
    s!"batch.json attempts has {attempts.length} rows; requested_pairs is {requestedPairs}"
  let actual ← verifyAttempts pairSeed 0 attempts ⟨requestedPairs, 0, 0, 0⟩
  require (actual = ⟨requestedPairs, includedPairs, failedPairs, excludedPairs⟩)
    s!"batch.json declared counts ({includedPairs}, {failedPairs}, {excludedPairs}) differ from attempt rows ({actual.includedPairs}, {actual.failedPairs}, {actual.excludedPairs})"
  .ok ⟨requestedPairs, includedPairs, failedPairs, excludedPairs⟩

/-! ### The sidecars -/

/-- The first repetition is kept exactly by a failure of the second one. -/
def verifyCompletedFirst (failure : Value) (pairIndex repetition : ℕ) : Verified Unit := do
  let members ← requiredObject failure "comparison failure"
  require (repetition = 0 → (members.lookup "completed_first").isNone)
    s!"comparison sidecar pair {pairIndex} repetition 0 must not contain completed_first"
  require (repetition = 1 → (members.lookup "completed_first").any isObject)
    s!"comparison sidecar pair {pairIndex} repetition 1 must retain completed_first"

/-- The failure of an ordered comparison against the failure in the ledger. -/
def verifyOrderedFailure (ordered attemptFailure : Value) (pairIndex : ℕ) (expectedExecution : String) :
    Verified Unit := do
  requireEqualStr ordered "execution_order" expectedExecution "ordered failure"
  let errorClass ← requireErrorClass ordered "error_class" "ordered failure"
  let message ← requireNonemptyStr ordered "message" "ordered failure"
  let attemptClass ← requiredStr attemptFailure "class" "batch attempt failure"
  let attemptMessage ← requiredStr attemptFailure "message" "batch attempt failure"
  require (attemptClass = errorClass ∧ attemptMessage = message)
    s!"comparison sidecar pair {pairIndex} error identity differs from batch failure"
  let left ← requiredField ordered "left_operational_timing" "ordered failure"
  require (isObject left) s!"comparison sidecar pair {pairIndex} left_operational_timing must be an object"
  let right ← requiredField ordered "right_operational_timing" "ordered failure"
  require (isObject right) s!"comparison sidecar pair {pairIndex} right_operational_timing must be an object"

/-- A sidecar against the row of its pair. -/
def verifySidecarOf (context failure attempt : Value) (pairIndex : ℕ) : Verified Unit := do
  let attemptContext ← requiredField attempt "context" "batch attempt"
  require (attemptContext = context)
    s!"comparison sidecar for pair {pairIndex} does not exactly match batch attempt context"
  let disposition ← requiredStr attempt "disposition" "batch attempt"
  require (disposition = "failed")
    s!"comparison sidecar pair {pairIndex} does not reference a failed batch attempt"
  let attemptFailure ← requiredField attempt "failure" "batch attempt"
  requireEqualStr attemptFailure "stage" "comparison" "batch attempt failure"
  let pairOrder ← requiredStr context "pair_order" "comparison failure context"
  let failureOrder ← requiredStr failure "pair_order" "comparison failure"
  require (failureOrder = pairOrder) s!"comparison sidecar pair {pairIndex} nested pair_order differs from context"
  let repetition ← requiredU64 failure "repetition_index" "comparison failure"
  require (repetition ≤ 1) s!"comparison sidecar pair {pairIndex} repetition_index {repetition} is outside 0..=1"
  verifyCompletedFirst failure pairIndex repetition
  let ordered ← requiredField failure "ordered_failure" "comparison failure"
  verifyOrderedFailure ordered attemptFailure pairIndex
    (if repetition = 0 then firstExecutionOrder pairOrder else secondExecutionOrder pairOrder)

/-- The sidecars from a position on, with the pairs seen so far. The ledger has as many rows as pairs. -/
def verifySidecars (attempts : List Value) (requestedPairs : ℕ) : ℕ → List ℕ → List Value → Verified Unit
  | _, _, [] => .ok ()
  | position, seen, sidecar :: sidecars => do
    let context ← requiredField sidecar "context" "comparison failure sidecar"
    let failure ← requiredField sidecar "failure" "comparison failure sidecar"
    let pairIndex ← requiredU32 context "pair_index" "comparison failure context"
    require (pairIndex < requestedPairs)
      s!"comparison sidecar {position} pair_index {pairIndex} is outside requested range"
    require (pairIndex ∉ seen) s!"comparison-failures.json contains more than one sidecar for pair {pairIndex}"
    verifySidecarOf context failure (attempts.getD pairIndex .null) pairIndex
    verifySidecars attempts requestedPairs (position + 1) (pairIndex :: seen) sidecars

/-- Source `verify_contextual_sidecars`. -/
def verifyContextualSidecars (sidecars batch : Value) (requestedPairs : ℕ) : Verified ℕ := do
  let sidecars ← orInvalid sidecars.asArray "comparison-failures.json must be an array"
  let attempts ← requiredArray batch "attempts" "batch.json"
  verifySidecars attempts requestedPairs 0 [] sidecars
  .ok sidecars.length

/-- The sidecars of a format that has them. -/
def verifyDeclaredSidecars (format : Format) (batch : Value) (requestedPairs : ℕ) : Verified ℕ :=
  if format.contextualFailures then do
    let sidecars ← readJson serde archive "comparison-failures.json"
    let count ← verifyContextualSidecars sidecars batch requestedPairs
    require (count ≠ 0) s!"format v{format.version} requires at least one contextual comparison failure sidecar"
    .ok count
  else .ok 0

/-- The trace of a document. -/
def readTrace (traceJson : Value) : Verified ExperimentTrace := do
  let trace ← (serde.traceFromValue traceJson).mapError (.json "trace.json")
  trace.validate.mapError .trace
  .ok trace

/-- Source `verify_batch_archive`. -/
def verifyBatchArchive (expectedRevision : Option String) (requirePublication : Bool) :
    Verified VerificationSummary := do
  let index ← readJson serde archive "index.json"
  let formatVersion ← requiredU16 index "format_version" "index.json"
  let format ← formatOf formatVersion
  require (requirePublication → format.publication)
    s!"caller requires publication evidence but archive format v{formatVersion} is exploratory"
  verifyIndex serde index format
  verifyDirectoryEntries archive format.expectedFiles
  let traceJson ← readJson serde archive "trace.json"
  let _ ← readTrace serde traceJson
  let batch ← readJson serde archive "batch.json"
  let environment ← readJson serde archive "environment.json"
  let repositoryRevision ← verifyEnvironment environment index batch format expectedRevision
  verifyTraceIdentity traceJson batch
  let counts ← verifyBatchLedger batch
  let sidecarCount ← verifyDeclaredSidecars serde archive format batch counts.requestedPairs
  .ok
    { formatVersion := formatVersion
      publicationAdmitted := format.publication
      repositoryRevision := repositoryRevision
      requestedPairs := counts.requestedPairs
      includedPairs := counts.includedPairs
      failedPairs := counts.failedPairs
      excludedPairs := counts.excludedPairs
      comparisonFailureSidecars := sidecarCount }

end DbLab.Experiment.BatchArchive
