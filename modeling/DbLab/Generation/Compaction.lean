import DbLab.Generation.Operations

/-!
# The compact switch

A compact copy of the authoritative log is built under a staging name in the directory, linked under
a reserved generation name and then made authoritative by its marker. Only the reservation and the
publication run under the writer lease.
-/

namespace DbLab.Generation

open Log

structure LogCompactionReport where
  sourceFileBytes : ℕ
  sourceRecordCount : ℕ
  liveKeys : ℕ
  compactedFileBytes : ℕ
  compactedRecordCount : ℕ
  reclaimedBytes : ℕ
  stagingRetained : Bool
  deriving DecidableEq

/-- Source `staging_path`. -/
def compactingName (output : Name) : Name :=
  '.' :: (output ++ ['.', 'c', 'o', 'm', 'p', 'a', 'c', 't', 'i', 'n', 'g'])

/-- `LogEngine::create_new` on a free path: the file is created and its header written. -/
def createLog (path : Name) : DirTask LogEngine := do
  createNewFile path
  writeAll path encodeFileHeader
  sync
  Task.ofExcept (LogEngine.createNew.mapError .database)

/-- The file of an engine that is at a path. -/
def engineAt (d : Directory) (path : Name) (engine : LogEngine) : LogEngine :=
  match d.find path with
  | some (.regular bytes) => { engine with log := { engine.log with file := bytes } }
  | _ => engine

/-- The write of the record behind the first `size` bytes of the file of `next`. -/
def writeRecord (path : Name) (size : ℕ) (io : Io) (d : Directory) :
    Except DbError (Option Bytes) × LogEngine → Except GenerationError LogEngine × Directory
  | (.error e, _) => (.error (.database e), d)
  | (.ok _, next) =>
    match io with
    | .success => (.ok next, appendTo d path (next.log.file.drop size))
    | .failure written => (.error .io, appendTo d path ((next.log.file.drop size).take written))

/-- What `LogEngine::put` does to the file at a path: one record is appended. -/
def putAt (path : Name) (engine : LogEngine) (key value : Bytes) (io : Io) (d : Directory) :
    Except GenerationError LogEngine × Directory :=
  let engine := engineAt d path engine
  writeRecord path engine.log.file.length io d (LogEngine.put key value engine)

def putRecord (path : Name) (engine : LogEngine) (key value : Bytes) : DirTask LogEngine :=
  Task.act (putAt path engine key value)

/-- The step appends to the file or leaves the directory as it is. -/
theorem writeRecord_snd (path : Name) (size : ℕ) (io : Io) (d : Directory)
    (outcome : Except DbError (Option Bytes) × LogEngine) :
    (writeRecord path size io d outcome).2 = d ∨
      ∃ bytes, (writeRecord path size io d outcome).2 = appendTo d path bytes := by
  rcases outcome with ⟨e | previous, next⟩
  · exact .inl rfl
  · cases io with
    | success => exact .inr ⟨_, rfl⟩
    | failure written => exact .inr ⟨_, rfl⟩

/-- The loop of `build_staging`. -/
def putEntries (path : Name) (engine : LogEngine) : Values → DirTask Unit
  | [] => pure ()
  | (key, value) :: entries => do
    let engine ← putRecord path engine key value
    putEntries path engine entries

def removeAllQuietly : List Name → DirTask Unit
  | [] => pure ()
  | name :: names => do
    let _ ← removeQuietly name
    removeAllQuietly names

/-- The error path of a construction step: the names are removed, whatever this returns. -/
def discarding {α : Type} (names : List Name) (result : Except GenerationError α) : DirTask α :=
  match result with
  | .ok a => pure a
  | .error e => do
    removeAllQuietly names
    fail e

/-- Source `build_staging`. -/
def buildStaging (path : Name) (source : InspectionReport) : DirTask Unit := do
  let result ← Task.attempt (do
    let engine ← createLog path
    putEntries path engine source.entries)
  discarding [path] result

/-- Source `validate_compacted_state`. -/
def validateCompactedState (source compacted : InspectionReport) : Except GenerationError Unit :=
  if compacted.verification.recoverableTail.isSome then
    .error (.invalid "compaction staging unexpectedly contains a recoverable tail")
  else if compacted.verification.liveKeys ≠ source.verification.liveKeys ∨
      compacted.verification.recordCount ≠ source.entries.length ∨
      compacted.entries ≠ source.entries then
    .error (.invalid "compaction staging does not exactly reproduce the source live state")
  else .ok ()

/-- Source `LogEngine::inspect` on the file at a path. -/
def inspectAt (path : Name) : DirTask InspectionReport := do
  let bytes ← readRegular "append log" path
  Task.ofExcept (inspectLog bytes)

/-- Source `compact_log_to_fresh_file`, for a source and an output in one directory. -/
def compactLogToFreshFile (source output : Name) : DirTask LogCompactionReport := do
  let _ ← readRegular "source append log" source
  requireAbsent "compaction output" output
  rejectWhen (source = output) (.invalid "source and output must be distinct paths")
  let staging := compactingName output
  rejectWhen (source = staging) (.invalid "derived staging path aliases the source append log")
  requireAbsent "compaction staging path" staging
  let file ← readRegular "source append log" source
  let sourceVerification ← Task.ofExcept (verifyLog file)
  rejectWhen (sourceVerification.recoverableTail.isSome)
    (.invalid "source has a recoverable incomplete final append; reopen/repair it explicitly before compaction")
  let sourceInspection ← inspectAt source
  rejectWhen (sourceInspection.verification ≠ sourceVerification)
    (.invalid "source changed between verification and replay inspection")
  buildStaging staging sourceInspection
  let compacted ← discarding [staging] (← (inspectAt staging).attempt)
  discarding [staging] (validateCompactedState sourceInspection compacted)
  let sourceAfter ← discarding [staging] (← (inspectAt source).attempt)
  discarding [staging] (if sourceAfter ≠ sourceInspection then
    .error (.invalid "source changed while the compact copy was being constructed") else .ok ())
  discarding [staging] (← (hardLink staging output).attempt)
  let published ← discarding [output, staging] (← (inspectAt output).attempt)
  discarding [output, staging] (if published ≠ compacted then
    .error (.invalid "published compact output differs from its verified staging image") else .ok ())
  discarding [output, staging] (if sourceVerification.fileBytes < published.verification.fileBytes then
    .error (.invalid "compacted file is unexpectedly larger than its source append log") else .ok ())
  let stagingRetained ← removeQuietly staging
  pure
    { sourceFileBytes := sourceVerification.fileBytes
      sourceRecordCount := sourceVerification.recordCount
      liveKeys := sourceVerification.liveKeys
      compactedFileBytes := published.verification.fileBytes
      compactedRecordCount := published.verification.recordCount
      reclaimedBytes := sourceVerification.fileBytes - published.verification.fileBytes
      stagingRetained := stagingRetained }

/-- Source `SourceAuthorityWitness`. -/
structure SourceAuthorityWitness where
  authoritativeGeneration : ℕ
  committedPrefix : CommittedPrefix
  logVerification : VerificationReport
  deriving DecidableEq

def SourceAuthorityWitness.fromSummary (summary : GenerationVerificationSummary) :
    SourceAuthorityWitness :=
  { authoritativeGeneration := summary.authoritativeGeneration
    committedPrefix := summary.committedPrefix
    logVerification := summary.logVerification }

/-- Source `validate_compact_state`. -/
def validateCompactState (generation : ℕ) (source compacted : InspectionReport) :
    Except GenerationError Unit :=
  if compacted.verification.recoverableTail.isSome ∨
      compacted.verification.recordCount ≠ compacted.verification.liveKeys ∨
      compacted.verification.liveKeys ≠ source.verification.liveKeys ∨
      compacted.entries ≠ source.entries then
    .error (.targetChanged generation)
  else .ok ()

structure OfflineGenerationCompactSwitchSummary where
  oldGeneration : ℕ
  newGeneration : ℕ
  oldGenerationLog : Name
  newGenerationLog : Name
  reservation : GenerationReservationSummary
  compaction : LogCompactionReport
  publication : GenerationPublicationSummary
  finalGeneration : GenerationVerificationSummary

/-- Source `compact_switch_generation_offline`. -/
def compactSwitchGenerationOffline : DirTask OfflineGenerationCompactSwitchSummary := do
  let reservation ← reserveNextGeneration
  let before ← verifyGenerationDirectory
  rejectWhen (reservation.generation ≤ before.authoritativeGeneration)
    (.reservedGenerationObsolete reservation.generation before.authoritativeGeneration)
  let source := before.authoritativeLog
  let sourceState ← inspectAt source
  let sourceAuthority := SourceAuthorityWitness.fromSummary before
  let newLog := canonicalGenerationName reservation.generation
  let compaction ← compactLogToFreshFile source newLog
  acquireLease
  let beforePublication ← verifyGenerationDirectory
  let currentState ← inspectAt source
  rejectWhen (SourceAuthorityWitness.fromSummary beforePublication ≠ sourceAuthority ∨
    currentState ≠ sourceState) (.sourceChanged reservation.generation)
  let compactState ← inspectAt newLog
  Task.ofExcept (validateCompactState reservation.generation sourceState compactState)
  let publication ← publishGenerationMarker reservation.generation
  let final ← verifyGenerationDirectory
  rejectWhen (final.authoritativeGeneration ≠ reservation.generation)
    (.finalAuthority final.authoritativeGeneration reservation.generation)
  let finalState ← inspectAt newLog
  rejectWhen (finalState ≠ compactState) (.finalState reservation.generation)
  pure
    { oldGeneration := before.authoritativeGeneration
      newGeneration := reservation.generation
      oldGenerationLog := source
      newGenerationLog := newLog
      reservation := reservation
      compaction := compaction
      publication := publication
      finalGeneration := final }

end DbLab.Generation
