import DbLab.Generation.Cutover

/-!
# The migration of a legacy log

The migration copies a clean legacy log into a new directory as its first generation, and leaves the log as it
is; the cutover then retires the pathname. The snapshot of the log is a private file that nobody else writes.
-/

namespace DbLab.Generation

open Log

/-! ### The target -/

/-- The path of the target directory, which the migration makes. -/
structure TargetPath where
  parent : Path
  name : Name

def TargetPath.path (target : TargetPath) : Path := target.parent ++ '/' :: target.name

def TargetPath.display (target : TargetPath) : String := String.ofList target.path

/-- A directory with something in it is listed in its parent. -/
def FileSystem.Listed (fs : FileSystem) : Prop :=
  ∀ target : TargetPath, (∃ name, (fs target.path).Has name) → (fs target.parent).Has target.name

/-! ### The migration -/

def legacyGenerationMigrationProtocol : String := "append_log_legacy_to_generation_migration_unix_v1"

/-- Source `LegacyGenerationMigrationError`. -/
inductive LegacyMigrationError
  | invalid (reason : String)
  | generation (error : GenerationError)
  | targetDirectoryDurabilityUncertain (target : String)
  | sourceChangedDuringSnapshot
  | sourceChangedBeforePublication (target : String)
  | sourceChangedAfterPublication (target : String)
  | finalAuthority (found expected : ℕ)
  | finalState (generation : ℕ)
  deriving DecidableEq

abbrev MigrationTask (α : Type) := Task FileSystem LegacyMigrationError α

/-- Source `validate_imported_state`. -/
def validateImportedState (generation : ℕ) (source imported : InspectionReport) : Except LegacyMigrationError Unit :=
  if imported.verification.recoverableTail.isSome ∨ imported.verification.liveKeys ≠ source.verification.liveKeys ∨
      imported.entries ≠ source.entries then
    .error (.finalState generation)
  else .ok ()

/-- The report on the snapshot. -/
def inspectSnapshot (snapshot : Bytes) : DirTask InspectionReport := do
  let bytes ← reading fun _ => .ok snapshot
  Task.ofExcept (inspectLog bytes)

/-- Source `compact_log_to_fresh_file`, for a snapshot that is not in the directory of the output. -/
def compactSnapshotToFreshFile (snapshot : Bytes) (output : Name) : DirTask LogCompactionReport := do
  let _ ← reading fun _ => .ok snapshot
  requireAbsent "compaction output" output
  let staging := compactingName output
  requireAbsent "compaction staging path" staging
  let file ← reading fun _ => .ok snapshot
  let sourceVerification ← Task.ofExcept (verifyLog file)
  rejectWhen (sourceVerification.recoverableTail.isSome)
    (.invalid "source has a recoverable incomplete final append; reopen/repair it explicitly before compaction")
  let sourceInspection ← inspectSnapshot snapshot
  rejectWhen (sourceInspection.verification ≠ sourceVerification)
    (.invalid "source changed between verification and replay inspection")
  buildStaging staging sourceInspection
  let compacted ← discarding [staging] (← (inspectAt staging).attempt)
  discarding [staging] (validateCompactedState sourceInspection compacted)
  let sourceAfter ← discarding [staging] (← (inspectSnapshot snapshot).attempt)
  discarding [staging] (if sourceAfter ≠ sourceInspection then
    .error (.invalid "source changed while the compact copy was being constructed") else .ok ())
  discarding [staging] (← (hardLink staging output).attempt)
  let published ← discarding [output, staging] (← (inspectAt output).attempt)
  discarding [output, staging] (if published ≠ compacted then
    .error (.invalid "published compact output differs from its verified staging image") else .ok ())
  discarding [output, staging] (if sourceVerification.fileBytes < published.verification.fileBytes then
    .error (.invalid "compacted file is unexpectedly larger than its source append log") else .ok ())
  let stagingRetained ← removeQuietly staging
  pure
    { sourceFileBytes := sourceVerification.fileBytes
      sourceRecordCount := sourceVerification.recordCount
      liveKeys := sourceVerification.liveKeys
      compactedFileBytes := published.verification.fileBytes
      compactedRecordCount := published.verification.recordCount
      reclaimedBytes := sourceVerification.fileBytes - published.verification.fileBytes
      stagingRetained := stagingRetained }

structure LegacyMigrationSummary where
  protocol : String
  sourceFileFormatVersion : ℕ
  sourceFileBytes : ℕ
  sourceRecordCount : ℕ
  liveKeys : ℕ
  targetDirectory : String
  generation : ℕ
  generationLog : Name
  compaction : LogCompactionReport
  publication : GenerationPublicationSummary
  finalGeneration : GenerationVerificationSummary

section Migration

variable (legacy : LegacyPath) (target : TargetPath)

/-- A task in the directory of the legacy log. -/
def beside {α : Type} (x : DirTask α) : MigrationTask α := inDirectory .generation legacy.parent x

/-- A task in the target. -/
def within {α : Type} (x : DirTask α) : MigrationTask α := inDirectory .generation target.path x

/-- The checks of the source and its snapshot, with the report on both. -/
def captureSource : MigrationTask (InspectionReport × Bytes) := do
  let _ ← beside legacy (readRegular "legacy source" legacy.name)
  let captured ← beside legacy (inspectAt legacy.name)
  refuseWhen (Unclean captured)
    (.invalid "legacy source must be a complete clean append-log image; repair a recoverable tail explicitly before migration")
  let snapshot ← beside legacy (readRegular "legacy source" legacy.name)
  let copied ← beside legacy (inspectSnapshot snapshot)
  refuseWhen (copied ≠ captured) .sourceChangedDuringSnapshot
  let again ← beside legacy (readRegular "legacy source" legacy.name)
  refuseWhen (again ≠ snapshot) .sourceChangedDuringSnapshot
  pure (captured, snapshot)

/-- Source `canonical_fresh_target`. -/
def requireFreshTarget : MigrationTask Unit :=
  inDirectory .generation target.parent (requireAbsent "migration target" target.name)

/-- Source `fs::create_dir`. -/
def createDirectory : MigrationTask Unit :=
  Task.act fun io fs =>
    match io with
    | .failure _ => (.error (.generation .io), fs)
    | .success =>
      if (fs target.parent).Has target.name then (.error (.generation .io), fs)
      else (.ok (), Function.update (Function.update fs target.parent ((fs target.parent).insert target.name .other))
        target.path .empty)

/-- The target directory is made. -/
def makeTarget : MigrationTask Unit := do
  requireFreshTarget target
  createDirectory target
  within target sync
  Task.mapError (fun _ => .targetDirectoryDurabilityUncertain target.display)
    (inDirectory LegacyMigrationError.generation target.parent sync)

/-- The snapshot becomes the first generation of the target. -/
def importSnapshot (captured : InspectionReport) (snapshot : Bytes) : MigrationTask LegacyMigrationSummary := do
  let log := canonicalGenerationName importGeneration
  let compaction ← within target (compactSnapshotToFreshFile snapshot log)
  within target acquireLease
  let unchanged ← beside legacy (sourceMatchesSnapshot legacy snapshot)
  refuseWhen (unchanged = false) (.sourceChangedBeforePublication target.display)
  let compacted ← within target (inspectAt log)
  Task.ofExcept (validateImportedState importGeneration captured compacted)
  let publication ← within target (publishGenerationMarker importGeneration)
  let final ← within target verifyGenerationDirectory
  refuseWhen (final.authoritativeGeneration ≠ importGeneration)
    (.finalAuthority final.authoritativeGeneration importGeneration)
  let finalState ← within target (inspectAt log)
  Task.ofExcept (validateImportedState importGeneration captured finalState)
  let unchanged ← beside legacy (sourceMatchesSnapshot legacy snapshot)
  refuseWhen (unchanged = false) (.sourceChangedAfterPublication target.display)
  pure
    { protocol := legacyGenerationMigrationProtocol
      sourceFileFormatVersion := captured.verification.fileFormatVersion
      sourceFileBytes := captured.verification.fileBytes
      sourceRecordCount := captured.verification.recordCount
      liveKeys := captured.verification.liveKeys
      targetDirectory := target.display
      generation := importGeneration
      generationLog := log
      compaction := compaction
      publication := publication
      finalGeneration := final }

/-- Source `migrate_legacy_append_log`. -/
def migrateLegacyAppendLog : MigrationTask LegacyMigrationSummary := do
  let source ← captureSource legacy
  makeTarget target
  importSnapshot legacy target source.1 source.2

/-- The migration, and behind it the cutover. -/
def migrateThenCutOver (json : SentinelJson) :
    Task FileSystem (LegacyMigrationError ⊕ LegacyCutoverError) LegacyCutoverSummary := do
  let _ ← Task.mapError .inl (migrateLegacyAppendLog legacy target)
  Task.mapError .inr (cutoverMigratedLegacyAppendLog legacy target.path json)

end Migration

end DbLab.Generation
