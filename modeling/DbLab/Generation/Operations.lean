import DbLab.Generation.Verify
import DbLab.Log.Engine

/-!
# The operations on a generation directory

Reservation, publication, cleanup, the retirement of an orphan and the compact switch, on Unix. The
writer lease lies beside the directory: here a step asks for it, and the run decides whether it is
granted.
-/

namespace DbLab.Generation

open Log

/-- Source `acquire_generation_writer_lease`. -/
def acquireLease : DirTask Unit :=
  Task.act fun io d =>
    match io with
    | .success => (.ok (), d)
    | .failure _ => (.error .lock, d)

structure GenerationReservationSummary where
  generation : ℕ
  reservation : Name
  authoritativeGeneration : ℕ
  highestObservedGeneration : ℕ
  deriving DecidableEq

/-- Source `retained_summary`. -/
def retainedSummary (generation : ℕ) : DirTask GenerationReservationSummary := do
  let after ← verifyGenerationDirectory
  rejectWhen (generation ∉ after.reservationGenerationIds ∨ after.highestObservedGeneration < generation)
    (.notRetained generation)
  pure
    { generation := generation
      reservation := canonicalReservationName generation
      authoritativeGeneration := after.authoritativeGeneration
      highestObservedGeneration := after.highestObservedGeneration }

/-- Source `reserve_next_generation`. -/
def reserveNextGeneration : DirTask GenerationReservationSummary := do
  acquireLease
  let before ← verifyGenerationDirectory
  let generation ← Task.ofExcept (nextGenerationId before)
  createNewFile (canonicalReservationName generation)
  sync
  Task.mapError (fun _ => .durabilityUncertain) sync
  retainedSummary generation

/-- Source `require_clean_generation` on the bytes of the log. -/
def requireCleanGeneration (file : Bytes) : Except GenerationError VerificationReport := do
  let report ← verifyLog file
  if report.recoverableTail.isSome ∨ report.fileBytes ≠ report.validBytes then
    .error (.invalid
      "generation must be a complete clean append-log image before marker publication")
  else .ok report

/-- Source `derive_prefix_proof` on the bytes of the log. -/
def derivePrefixProof (file : Bytes) (report : VerificationReport) : Except GenerationError CommittedPrefix :=
  if file.length < report.fileBytes then
    .error (.invalid s!"generation reached EOF with {report.fileBytes - file.length} proof bytes still expected")
  else if report.fileBytes < file.length then
    .error (.invalid "generation changed while its committed-prefix checksum was derived")
  else
    .ok
      { bytes := report.fileBytes
        crc32 := crc32 (file.take report.fileBytes)
        recordCount := report.recordCount
        nextSequence := report.nextSequence }

/-- Source `require_exact_clean_generation`. -/
def requireExactCleanGeneration (log : Name) (baseline : VerificationReport) (proof : CommittedPrefix) :
    DirTask Unit := do
  let file ← readRegular "generation log" log
  let _ ← Task.ofExcept (verifyCommittedPrefix file proof)
  let file ← readRegular "generation log" log
  let current ← Task.ofExcept (requireCleanGeneration file)
  rejectWhen (current ≠ baseline)
    (.invalid "generation changed while commit marker publication was in progress")

/-- Source `remove_stale_staging_if_safe`. -/
def removeStaleStagingIfSafe (staging : Name) : DirTask Unit := do
  let found ← reading fun d =>
    match d.find staging with
    | none => .ok false
    | some (.regular _) => .ok true
    | some .other =>
      .error (.invalid "staging marker exists but is not a real regular file")
  if found then removeFile staging else pure ()

/-- Source `write_synced_staging`. -/
def writeSyncedStaging (staging : Name) (encoded : Bytes) : DirTask Unit := do
  createNewFile staging
  writeAll staging encoded
  sync

/-- Source `verify_published_marker`. -/
def verifyPublishedMarker (bytes : Bytes) (generation : ℕ) (proof : CommittedPrefix) :
    Except GenerationError Unit :=
  match decodeCommitMarker bytes generation with
  | .error e => .error (.invalid s!"published commit marker: {e.message}")
  | .ok marker =>
    if marker.committedPrefix ≠ proof then
      .error (.invalid "published commit marker prefix differs from staged proof")
    else .ok ()

/-- The removal of a staging name whose error does not matter: is the name still there? -/
def removeQuietly (name : Name) : DirTask Bool := do
  match ← (removeFile name).attempt with
  | .ok _ | .error .notFound => pure false
  | .error _ => pure true

structure GenerationPublicationSummary where
  generation : ℕ
  committedPrefix : CommittedPrefix
  stagingRetained : Bool
  deriving DecidableEq

/-- The first part of `publish_generation_marker`: the proof of the prefix is derived from the clean log
and checked. -/
def proveGeneration (log : Name) : DirTask (VerificationReport × CommittedPrefix) := do
  let file ← readRegular "generation log" log
  let baseline ← Task.ofExcept (requireCleanGeneration file)
  let file ← readRegular "generation log" log
  let proof ← Task.ofExcept (derivePrefixProof file baseline)
  let file ← readRegular "generation log" log
  let verification ← Task.ofExcept (verifyCommittedPrefix file proof)
  rejectWhen (verification ≠ baseline)
    (.invalid "derived committed-prefix verification disagrees with clean generation")
  sync
  sync
  requireExactCleanGeneration log baseline proof
  pure (baseline, proof)

/-- The second part: the marker is staged and linked. -/
def linkMarker (generation : ℕ) (log marker staging : Name) (baseline : VerificationReport)
    (proof : CommittedPrefix) : DirTask Unit := do
  let encoded ← Task.ofExcept ((encodeCommitMarker generation proof).mapError
    fun e => .invalid s!"cannot encode commit marker: {e.message}")
  writeSyncedStaging staging encoded
  requireExactCleanGeneration log baseline proof
  hardLink staging marker
  Task.mapError (fun _ => .durabilityUncertain) sync
  let published ← readRegular "published commit marker" marker
  Task.ofExcept (verifyPublishedMarker published generation proof)
  let file ← readRegular "generation log" log
  let _ ← Task.ofExcept (verifyCommittedPrefix file proof)
  pure ()

/-- Source `publish_generation_marker`. -/
def publishGenerationMarker (generation : ℕ) : DirTask GenerationPublicationSummary := do
  rejectWhen (generation = 0) (.invalid "generation id must be greater than zero")
  let ns ← scan
  rejectWhen (∃ id ∈ ns.markerFiles, generation ≤ id)
    (.invalid s!"generation {generation} is not newer than every existing committed generation")
  let log := canonicalGenerationName generation
  let marker := canonicalMarkerName generation
  let staging := canonicalStagingMarkerName generation
  let _ ← readRegular "generation log" log
  requireAbsent "commit marker" marker
  removeStaleStagingIfSafe staging
  let (baseline, proof) ← proveGeneration log
  linkMarker generation log marker staging baseline proof
  let stagingRetained ← removeQuietly staging
  pure ⟨generation, proof, stagingRetained⟩

/-- Source `AuthorityWitness::from_summary`. -/
structure AuthorityWitness where
  generation : ℕ
  authoritativeLog : Name
  committedPrefix : CommittedPrefix
  logVerification : VerificationReport
  deriving DecidableEq

def AuthorityWitness.fromSummary (summary : GenerationVerificationSummary) : AuthorityWitness :=
  { generation := summary.authoritativeGeneration
    authoritativeLog := summary.authoritativeLog
    committedPrefix := summary.committedPrefix
    logVerification := summary.logVerification }

/-- Source `require_same_authority`. -/
def requireSameAuthority (expected : AuthorityWitness) : DirTask GenerationVerificationSummary := do
  let current ← verifyGenerationDirectory
  rejectWhen (AuthorityWitness.fromSummary current ≠ expected) .authorityChanged
  pure current

/-- The ids of a set in ascending order, as the maps of the source list them. -/
def ascending (ids : Finset ℕ) : List ℕ := ids.sort (· ≤ ·)

def requireAllRegular (kind : FileKind) (label : String) : List ℕ → DirTask Unit
  | [] => pure ()
  | id :: ids => do
    let _ ← readRegular label (canonicalName kind id)
    requireAllRegular kind label ids

def removeAll (kind : FileKind) : List ℕ → DirTask Unit
  | [] => pure ()
  | id :: ids => do
    removeFile (canonicalName kind id)
    removeAll kind ids

/-- The directory is synchronized when something was removed. -/
def syncUnless (p : Prop) [Decidable p] : DirTask Unit :=
  if p then pure () else Task.mapError (fun _ => .durabilityUncertain) sync

structure GenerationCleanupSummary where
  authoritativeGeneration : ℕ
  removedMarkerGenerationIds : List ℕ
  removedGenerationIds : List ℕ
  removedStagingMarkerGenerationIds : List ℕ
  retainedStagingMarkerGenerationIds : List ℕ
  retainedUncommittedGenerationIds : List ℕ
  finalGeneration : GenerationVerificationSummary

/-- Source `cleanup_obsolete_generations`. -/
def cleanupObsoleteGenerations : DirTask GenerationCleanupSummary := do
  acquireLease
  let before ← verifyGenerationDirectory
  let witness := AuthorityWitness.fromSummary before
  let authority := witness.generation
  let ns ← scan
  let markers := ascending (ns.markerFiles.filter (· < authority))
  let generations := ascending (ns.generationFiles.filter (· < authority))
  let stagings := ascending (ns.stagingMarkerFiles.filter (· ≤ authority))
  requireAllRegular .commit "obsolete commit marker" markers
  requireAllRegular .stagingCommit "obsolete staging commit marker" stagings
  requireAllRegular .generation "obsolete generation log" generations
  let _ ← requireSameAuthority witness
  removeAll .commit markers
  removeAll .stagingCommit stagings
  syncUnless (markers = [] ∧ stagings = [])
  let _ ← requireSameAuthority witness
  removeAll .generation generations
  syncUnless (generations = [])
  let final ← requireSameAuthority witness
  let finalNs ← scan
  pure
    { authoritativeGeneration := authority
      removedMarkerGenerationIds := markers
      removedGenerationIds := generations
      removedStagingMarkerGenerationIds := stagings
      retainedStagingMarkerGenerationIds := ascending finalNs.stagingMarkerFiles
      retainedUncommittedGenerationIds := ascending (finalNs.generationFiles \ finalNs.markerFiles)
      finalGeneration := final }

/-- Source `validate_reserved_orphan_candidate`. -/
def validateReservedOrphanCandidate (ns : GenerationNamespace) (authority generation : ℕ) :
    DirTask Unit := do
  rejectWhen (generation = 0) (.invalid "orphan generation id must be greater than zero")
  rejectWhen (generation ≤ authority)
    (.invalid s!"generation {generation} is not above current authority {authority}")
  rejectWhen (generation ∈ ns.markerFiles)
    (.invalid s!"generation {generation} has a final commit marker and is not an orphan")
  rejectWhen (generation ∉ ns.reservationFiles)
    (.invalid s!"generation {generation} has no durable reservation; candidate retirement cannot prove the id will remain retired")
  rejectWhen (generation ∉ ns.generationFiles)
    (.invalid s!"generation {generation} has no canonical uncommitted generation log")
  let _ ← readRegular "uncommitted generation orphan" (canonicalGenerationName generation)
  pure ()

/-- Source `fingerprint_file` on the bytes of the file. -/
def fingerprintFile (bytes : Bytes) : Fingerprint := ⟨bytes.length, crc32 bytes⟩

/-- Source `require_fingerprint`. -/
def requireFingerprint (generation : ℕ) (expected : Fingerprint) : DirTask Unit := do
  let bytes ← readRegular "orphan retirement artifact" (canonicalGenerationName generation)
  rejectWhen (fingerprintFile bytes ≠ expected)
    (.fingerprintChanged generation expected (fingerprintFile bytes))

/-- Source `require_staging_fingerprint`. -/
def requireStagingFingerprint (generation : ℕ) (ns : GenerationNamespace) (expected : Option Fingerprint) :
    DirTask Unit :=
  match expected with
  | none => rejectWhen (generation ∈ ns.stagingMarkerFiles) (.stagingChanged generation)
  | some expected => do
    rejectWhen (generation ∉ ns.stagingMarkerFiles) (.stagingChanged generation)
    let bytes ← readRegular "orphan retirement artifact" (canonicalStagingMarkerName generation)
    rejectWhen (fingerprintFile bytes ≠ expected) (.stagingChanged generation)

/-- Source `verify_expected_authority`. -/
def verifyExpectedAuthority (expected : ℕ) : DirTask GenerationVerificationSummary := do
  let verified ← verifyGenerationDirectory
  rejectWhen (verified.authoritativeGeneration ≠ expected) .authorityChanged
  pure verified

/-- The staging marker of the orphan goes first. -/
def removeAbandonedStaging (generation : ℕ) (ns : GenerationNamespace) : DirTask Unit :=
  if generation ∈ ns.stagingMarkerFiles then do
    removeFile (canonicalStagingMarkerName generation)
    Task.mapError (fun _ => .durabilityUncertain) sync
  else pure ()

structure GenerationOrphanRetirementSummary where
  authoritativeGeneration : ℕ
  retiredGeneration : ℕ
  retiredOrphanFingerprint : Fingerprint
  retiredStagingFingerprint : Option Fingerprint
  reservation : Name
  finalGeneration : GenerationVerificationSummary

/-- Source `retire_generation_orphan`. -/
def retireGenerationOrphan (generation expectedAuthority : ℕ) (expectedOrphan : Fingerprint)
    (expectedStaging : Option Fingerprint) (confirmed : Bool) :
    DirTask GenerationOrphanRetirementSummary := do
  rejectWhen (confirmed = false) .confirmationRequired
  acquireLease
  let before ← verifyExpectedAuthority expectedAuthority
  let ns ← scan
  validateReservedOrphanCandidate ns expectedAuthority generation
  requireFingerprint generation expectedOrphan
  requireStagingFingerprint generation ns expectedStaging
  let _ ← readRegular "generation reservation" (canonicalReservationName generation)
  let _ ← verifyExpectedAuthority expectedAuthority
  let current ← scan
  validateReservedOrphanCandidate current expectedAuthority generation
  requireFingerprint generation expectedOrphan
  requireStagingFingerprint generation current expectedStaging
  removeAbandonedStaging generation current
  let _ ← verifyExpectedAuthority expectedAuthority
  let afterStaging ← scan
  validateReservedOrphanCandidate afterStaging expectedAuthority generation
  requireFingerprint generation expectedOrphan
  removeFile (canonicalGenerationName generation)
  Task.mapError (fun _ => .durabilityUncertain) sync
  let final ← verifyExpectedAuthority expectedAuthority
  let finalNs ← scan
  rejectWhen (generation ∈ finalNs.generationFiles ∨ generation ∈ finalNs.stagingMarkerFiles)
    (.invalid s!"retired generation {generation} still has candidate or staging evidence after synchronized removal")
  rejectWhen (generation ∉ finalNs.reservationFiles)
    (.invalid s!"retirement lost durable reservation for generation {generation}")
  rejectWhen (final.highestObservedGeneration < generation)
    (.invalid s!"retirement lost allocation frontier {generation}; highest observed generation is {final.highestObservedGeneration}")
  pure
    { authoritativeGeneration := before.authoritativeGeneration
      retiredGeneration := generation
      retiredOrphanFingerprint := expectedOrphan
      retiredStagingFingerprint := expectedStaging
      reservation := canonicalReservationName generation
      finalGeneration := final }

end DbLab.Generation
