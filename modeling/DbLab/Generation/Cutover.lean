import DbLab.Generation.SwitchRecovery

/-!
# The cutover of a legacy log

The cutover retires the pathname of a legacy log behind a sentinel, once the target directory has its import as the
first generation. Its verification is to be run at once, before the target is used. Paths are canonical here: the
links in a path lead to the same directories before and behind the cutover. The encoding of the sentinel is a
parameter.
-/

namespace DbLab

/-- A task on a part of the state. -/
def Task.zoom {σ τ ε α : Type} (view : σ → τ) (put : τ → σ → σ) : Task τ ε α → Task σ ε α
  | .done r => .done r
  | .step act next => .step (fun io s => ((act io (view s)).1, put (act io (view s)).2 s)) fun b => zoom view put (next b)

end DbLab

namespace DbLab.Generation

open Log

/-! ### Files and directories -/

/-- The path of a directory. -/
abbrev Path := List Char

/-- The directories that the operations use. -/
abbrev FileSystem := Path → Directory

/-- The path of a legacy log: its directory and its name in it. -/
structure LegacyPath where
  parent : Path
  name : Name

def retainedSuffix : Name :=
  ['.', 'r', 'e', 't', 'i', 'r', 'e', 'd', '-', 'a', 'p', 'p', 'e', 'n', 'd', '-', 'l', 'o', 'g', '-', 'v', '1']

def stagingSuffix : Name :=
  ['.', 'c', 'u', 't', 'o', 'v', 'e', 'r', '-', 's', 'e', 'n', 't', 'i', 'n', 'e', 'l', '-', 's', 't', 'a', 'g', 'i', 'n',
    'g', '-', 'v', '1']

namespace LegacyPath

/-- Source `sibling_path`. -/
def retained (legacy : LegacyPath) : Name := legacy.name ++ retainedSuffix

def staging (legacy : LegacyPath) : Name := legacy.name ++ stagingSuffix

def display (legacy : LegacyPath) (name : Name) : String := String.ofList (legacy.parent ++ '/' :: name)

end LegacyPath

/-- A task on one of the directories. -/
def inDirectory {ε α : Type} (lift : GenerationError → ε) (path : Path) (x : DirTask α) : Task FileSystem ε α :=
  Task.mapError lift (Task.zoom (fun fs => fs path) (fun d fs => Function.update fs path d) x)

def refuseWhen {ε : Type} (p : Prop) [Decidable p] (e : ε) : Task FileSystem ε Unit :=
  Task.ofExcept (if p then .error e else .ok ())

/-! ### The sentinel -/

def legacyCutoverSentinelProtocol : String := "append_log_legacy_cutover_sentinel_v1"

def importGeneration : ℕ := 1
def maxSentinelPathBytes : ℕ := 4096
def maxSentinelBytes : ℕ := 16 * 1024

structure LegacyCutoverSentinel where
  protocol : String
  targetDirectory : String
  retainedLegacyPath : String
  deriving DecidableEq

/-- The encoding of sentinels in JSON. -/
structure SentinelJson where
  toVecPretty : LegacyCutoverSentinel → Bytes
  fromSlice : Bytes → Except String LegacyCutoverSentinel

def sentinelOf (legacy : LegacyPath) (target : Path) : LegacyCutoverSentinel where
  protocol := legacyCutoverSentinelProtocol
  targetDirectory := String.ofList target
  retainedLegacyPath := legacy.display legacy.retained

/-! ### The cutover -/

inductive LegacyCutoverError
  | invalid (reason : String)
  | generation (error : GenerationError)
  | sourceChangedBeforeCutover
  | retainedSourceChangedAfterCutover (legacy retained : String)
  | cutoverDurabilityUncertain (legacy : String)
  deriving DecidableEq

abbrev CutoverTask (α : Type) := Task FileSystem LegacyCutoverError α

/-- A clean log: no tail to recover and no bytes behind the records. -/
def Unclean (report : InspectionReport) : Prop :=
  report.verification.recoverableTail.isSome ∨ report.verification.fileBytes ≠ report.verification.validBytes

instance (report : InspectionReport) : Decidable (Unclean report) := inferInstanceAs (Decidable (_ ∨ _))

/-- The log has changed since its marker was published. -/
def Changed (summary : GenerationVerificationSummary) : Prop :=
  summary.logVerification ≠ summary.committedPrefixVerification ∨ summary.logVerification.recoverableTail.isSome

instance (summary : GenerationVerificationSummary) : Decidable (Changed summary) :=
  inferInstanceAs (Decidable (_ ∨ _))

/-- Source `validate_fresh_import_target`. -/
def validateFreshImportTarget (source : InspectionReport) (summary : GenerationVerificationSummary) :
    CutoverTask Unit := do
  refuseWhen (summary.authoritativeGeneration ≠ importGeneration)
    (.invalid s!"target must still have imported generation {importGeneration} as authority; found generation {summary.authoritativeGeneration}")
  refuseWhen (Changed summary)
    (.invalid "target generation 1 has changed since migration publication; cut over before routing new mutations")
  refuseWhen (summary.logVerification.liveKeys ≠ source.verification.liveKeys)
    (.invalid "target generation 1 live-key count differs from legacy source")

section Cutover

variable (legacy : LegacyPath) (target : Path)

def inLegacy {α : Type} (x : DirTask α) : CutoverTask α := inDirectory .generation legacy.parent x

def inTarget {α : Type} (x : DirTask α) : CutoverTask α := inDirectory .generation target x

/-- What the cutover finds before it changes anything: the state of the source, its snapshot and the state of the
target. -/
structure Import where
  sourceState : InspectionReport
  snapshot : Bytes
  targetState : InspectionReport

/-- The checks of the source and of the target. -/
def checkImport : CutoverTask Import := do
  let _ ← inLegacy legacy (readRegular "legacy source" legacy.name)
  let sourceState ← inLegacy legacy (inspectAt legacy.name)
  refuseWhen (Unclean sourceState)
    (.invalid "legacy source must be a complete clean append-log image before pathname cutover")
  let snapshot ← inLegacy legacy (readRegular "legacy source" legacy.name)
  let captured ← inLegacy legacy (Task.ofExcept (inspectLog snapshot))
  refuseWhen (captured ≠ sourceState) .sourceChangedBeforeCutover
  let again ← inLegacy legacy (readRegular "legacy source" legacy.name)
  refuseWhen (again ≠ snapshot) .sourceChangedBeforeCutover
  inTarget target acquireLease
  let before ← inTarget target verifyGenerationDirectory
  validateFreshImportTarget sourceState before
  let targetState ← inTarget target (inspectAt before.authoritativeLog)
  refuseWhen (targetState.entries ≠ sourceState.entries)
    (.invalid "target generation 1 does not reproduce the current legacy live state")
  pure ⟨sourceState, snapshot, targetState⟩

/-- Source `bounded_path_string` on both paths of the sentinel. -/
def checkPaths : CutoverTask Unit := do
  refuseWhen (maxSentinelPathBytes < (String.ofList target).utf8ByteSize)
    (.invalid s!"target generation directory path exceeds {maxSentinelPathBytes} encoded bytes")
  refuseWhen (maxSentinelPathBytes < (legacy.display legacy.retained).utf8ByteSize)
    (.invalid s!"retained legacy source path exceeds {maxSentinelPathBytes} encoded bytes")

/-- Source `source_matches_snapshot`. -/
def sourceMatchesSnapshot (snapshot : Bytes) : DirTask Bool :=
  reading fun d =>
    match d.find legacy.name with
    | some (.regular bytes) => .ok (bytes = snapshot)
    | _ => .ok false

/-- Source `cleanup_pre_cutover`. -/
def cleanupPreCutover : List Name → DirTask Unit
  | [] => do
    let _ ← sync.attempt
    pure ()
  | name :: names => do
    let _ ← removeQuietly name
    cleanupPreCutover names

/-- The source is still the one of the snapshot, or what was made so far is removed. -/
def requireSnapshot (snapshot : Bytes) (made : List Name) : CutoverTask Unit := do
  let same ← inLegacy legacy (sourceMatchesSnapshot legacy snapshot)
  if same then pure ()
  else do
    inLegacy legacy (cleanupPreCutover made)
    Task.throw .sourceChangedBeforeCutover

def rename (source target : Name) : DirTask Unit :=
  changing fun d =>
    match d.find source with
    | some entry => .ok ((d.remove source).insert target entry)
    | none => .error .notFound

/-- The replacement of the pathname. -/
def replacePathname (snapshot sentinel : Bytes) : CutoverTask Unit := do
  inLegacy legacy (createNewFile legacy.staging)
  inLegacy legacy (writeAll legacy.staging sentinel)
  inLegacy legacy sync
  requireSnapshot legacy snapshot [legacy.staging]
  inLegacy legacy sync
  inLegacy legacy (hardLink legacy.name legacy.retained)
  inLegacy legacy sync
  requireSnapshot legacy snapshot [legacy.staging, legacy.retained]
  inLegacy legacy (rename legacy.staging legacy.name)
  Task.mapError (fun _ => .cutoverDurabilityUncertain (legacy.display legacy.name)) (inLegacy legacy sync)

/-- The checks behind the replacement. -/
def confirmCutover (found : Import) (sentinel : Bytes) : CutoverTask GenerationVerificationSummary := do
  let published ← inLegacy legacy (readRegular "published cutover sentinel" legacy.name)
  refuseWhen (published ≠ sentinel) (.invalid "published cutover sentinel bytes changed after publication")
  let retained ← inLegacy legacy (readRegular "retained legacy source" legacy.retained)
  refuseWhen (retained ≠ found.snapshot)
    (.retainedSourceChangedAfterCutover (legacy.display legacy.name) (legacy.display legacy.retained))
  let final ← inTarget target verifyGenerationDirectory
  validateFreshImportTarget found.sourceState final
  let finalState ← inTarget target (inspectAt final.authoritativeLog)
  refuseWhen (finalState ≠ found.targetState)
    (.invalid "target generation changed while legacy pathname cutover was in progress")
  pure final

structure LegacyCutoverSummary where
  legacyPath : String
  retainedLegacyPath : String
  targetDirectory : String
  targetGeneration : ℕ
  sourceFileBytes : ℕ
  sourceRecordCount : ℕ
  liveKeys : ℕ
  finalGeneration : GenerationVerificationSummary

/-- Source `cutover_migrated_legacy_append_log`. -/
def cutoverMigratedLegacyAppendLog (json : SentinelJson) : CutoverTask LegacyCutoverSummary := do
  let found ← checkImport legacy target
  inLegacy legacy (requireAbsent "retained legacy source" legacy.retained)
  inLegacy legacy (requireAbsent "cutover sentinel staging path" legacy.staging)
  checkPaths legacy target
  let sentinel := json.toVecPretty (sentinelOf legacy target)
  replacePathname legacy found.snapshot sentinel
  let final ← confirmCutover legacy target found sentinel
  pure
    { legacyPath := legacy.display legacy.name
      retainedLegacyPath := legacy.display legacy.retained
      targetDirectory := String.ofList target
      targetGeneration := importGeneration
      sourceFileBytes := found.sourceState.verification.fileBytes
      sourceRecordCount := found.sourceState.verification.recordCount
      liveKeys := found.sourceState.verification.liveKeys
      finalGeneration := final }

/-! ### Its verification -/

inductive LegacyCutoverVerificationError
  | invalid (reason : String)
  | generation (error : GenerationError)
  | json (reason : String)
  deriving DecidableEq

/-- The target has nothing but its import. -/
def UntouchedImport (summary : GenerationVerificationSummary) : Prop :=
  summary.authoritativeGeneration = importGeneration ∧ summary.highestObservedGeneration = importGeneration ∧
    summary.markerGenerationIds = {importGeneration} ∧ summary.stagingMarkerGenerationIds = ∅ ∧
    summary.uncommittedGenerationIds = ∅ ∧
    (summary.reservationGenerationIds = ∅ ∨ summary.reservationGenerationIds = {importGeneration})

instance (summary : GenerationVerificationSummary) : Decidable (UntouchedImport summary) :=
  inferInstanceAs (Decidable (_ ∧ _ ∧ _ ∧ _ ∧ _ ∧ _))

structure LegacyCutoverVerificationSummary where
  legacyPath : String
  retainedLegacyPath : String
  targetDirectory : String
  targetGeneration : ℕ
  retainedVerification : VerificationReport
  finalGeneration : GenerationVerificationSummary

/-- Source `verify_fresh_legacy_cutover`. -/
def verifyFreshLegacyCutover (json : SentinelJson) :
    Task FileSystem LegacyCutoverVerificationError LegacyCutoverVerificationSummary := do
  let inLegacy {α : Type} (x : DirTask α) := inDirectory LegacyCutoverVerificationError.generation legacy.parent x
  let inTarget {α : Type} (x : DirTask α) := inDirectory LegacyCutoverVerificationError.generation target x
  let bytes ← inLegacy (readRegular "legacy cutover sentinel" legacy.name)
  refuseWhen (maxSentinelBytes < bytes.length) (.invalid s!"cutover sentinel exceeds {maxSentinelBytes} bytes")
  let sentinel ← Task.ofExcept ((json.fromSlice bytes).mapError .json)
  refuseWhen (sentinel.protocol ≠ legacyCutoverSentinelProtocol)
    (.invalid s!"legacy pathname sentinel protocol {sentinel.protocol.quote} is not {legacyCutoverSentinelProtocol.quote}")
  let _ ← inLegacy (readRegular "retained legacy source" legacy.retained)
  refuseWhen (sentinel.targetDirectory ≠ String.ofList target)
    (.invalid s!"sentinel target directory {sentinel.targetDirectory.quote} does not match supplied canonical target {(String.ofList target).quote}")
  refuseWhen (sentinel.retainedLegacyPath ≠ legacy.display legacy.retained)
    (.invalid s!"sentinel retained path {sentinel.retainedLegacyPath.quote} does not match derived retained path {(legacy.display legacy.retained).quote}")
  let retained ← inLegacy (inspectAt legacy.retained)
  refuseWhen (Unclean retained) (.invalid "retained legacy source is not a complete clean append-log image")
  let summary ← inTarget verifyGenerationDirectory
  refuseWhen (¬ UntouchedImport summary)
    (.invalid "target is no longer the untouched imported generation 1; fresh cutover verification must run before routed mutation, reservation, or compaction")
  refuseWhen (Changed summary)
    (.invalid "target generation 1 has changed after migration publication; fresh cutover evidence is no longer valid")
  let authoritative ← inTarget (inspectAt summary.authoritativeLog)
  refuseWhen (authoritative.verification ≠ summary.logVerification)
    (.invalid "authoritative generation changed while fresh cutover verification was in progress")
  refuseWhen (authoritative.entries ≠ retained.entries)
    (.invalid "untouched generation-1 authority does not reproduce the retained legacy live state")
  pure
    { legacyPath := legacy.display legacy.name
      retainedLegacyPath := legacy.display legacy.retained
      targetDirectory := String.ofList target
      targetGeneration := importGeneration
      retainedVerification := retained.verification
      finalGeneration := summary }

end Cutover

end DbLab.Generation
