import DbLab.Generation.Directory
import DbLab.Generation.Marker
import DbLab.Lib.Task
import DbLab.Log.AppendLog

/-!
# Verification of a generation directory

The operations on a generation directory are tasks over the directory. One step looks at the
namespace, reads a file or changes one entry; any step may fail with an I/O error.

The highest marker selects the generation. The verification fails when this marker, its log or the
prefix that the marker binds is not as it should be, and never falls back to a lower generation.
-/

namespace DbLab.Generation

open Log

/-- An operation on a directory. -/
abbrev DirTask (α : Type) := Task Directory GenerationError α

/-- A step that only looks at the directory. -/
def reading {α : Type} (f : Directory → Except GenerationError α) : DirTask α :=
  Task.act fun io d =>
    match io with
    | .success => (f d, d)
    | .failure _ => (.error .io, d)

/-- A step that changes the directory. -/
def changing (f : Directory → Except GenerationError Directory) : DirTask Unit :=
  Task.act fun io d =>
    match io, f d with
    | .success, .ok d' => (.ok (), d')
    | .success, .error e => (.error e, d)
    | .failure _, _ => (.error .io, d)

def invalid {α : Type} (reason : String) : DirTask α := Task.throw (.invalid reason)

/-- Fail with `e` when `p` holds. -/
def rejectWhen (p : Prop) [Decidable p] (e : GenerationError) : DirTask Unit :=
  Task.ofExcept (if p then .error e else .ok ())

def fail {α : Type} (e : GenerationError) : DirTask α := Task.throw e

/-- Source `sync_directory` and `sync_regular_file`. -/
def sync : DirTask Unit := reading fun _ => .ok ()

/-- The creation of a file with `create_new(true)`. -/
def createNewFile (name : Name) : DirTask Unit :=
  changing fun d => if d.Has name then .error .io else .ok (d.insert name (.regular []))

def hardLink (source target : Name) : DirTask Unit :=
  changing fun d =>
    match d.find source with
    | some entry => if d.Has target then .error .io else .ok (d.insert target entry)
    | none => .error .notFound

def removeFile (name : Name) : DirTask Unit :=
  changing fun d => if d.Has name then .ok (d.remove name) else .error .notFound

/-- The entry behind a write to the open file of a name. -/
def appendTo (d : Directory) (name : Name) (bytes : Bytes) : Directory :=
  match d.find name with
  | some (.regular old) => d.insert name (.regular (old ++ bytes))
  | _ => d

/-- Source `write_all`; when it fails, some of the bytes may be written. -/
def writeAll (name : Name) (bytes : Bytes) : DirTask Unit :=
  Task.act fun io d =>
    match io with
    | .success => (.ok (), appendTo d name bytes)
    | .failure written => (.error .io, appendTo d name (bytes.take written))

/-- The bytes of a regular file. -/
def readRegular (label : String) (name : Name) : DirTask Bytes :=
  reading fun d =>
    match d.find name with
    | none => .error .notFound
    | some .other => (requireRealRegularFile label .other).map fun _ => []
    | some (.regular bytes) => .ok bytes

def requireAbsent (label : String) (name : Name) : DirTask Unit :=
  reading fun d =>
    if d.Has name then .error (.invalid s!"{label} already exists") else .ok ()

def scan : DirTask GenerationNamespace := reading scanGenerationNamespace

structure VerificationReport where
  fileFormatVersion : ℕ
  fileBytes : ℕ
  validBytes : ℕ
  recordCount : ℕ
  liveKeys : ℕ
  nextSequence : ℕ
  recoverableTail : Option Record.TruncatedTail
  deriving DecidableEq

structure InspectionReport where
  verification : VerificationReport
  entries : Values
  deriving DecidableEq

/-- Source `ScanResult::verification`. -/
def verification (scan : Record.ScanResult Values) : VerificationReport :=
  { fileFormatVersion := fileVersion
    fileBytes := scan.fileBytes
    validBytes := scan.validBytes
    recordCount := scan.recordCount
    liveKeys := scan.values.length
    nextSequence := scan.nextSequence
    recoverableTail := scan.recoverableTail }

/-- Source `LogEngine::verify` on the bytes of the file. -/
def verifyLog (file : Bytes) : Except GenerationError VerificationReport :=
  match scanFile file with
  | .ok scan => .ok (verification scan)
  | .error e => .error (.database e)

/-- Source `LogEngine::inspect` with values, on the bytes of the file. -/
def inspectLog (file : Bytes) : Except GenerationError InspectionReport :=
  match scanFile file with
  | .ok scan => .ok ⟨verification scan, scan.values⟩
  | .error e => .error (.database e)

/-- Source `verify_committed_prefix` on the bytes of the file. -/
def verifyCommittedPrefix (file : Bytes) (proof : CommittedPrefix) :
    Except GenerationError VerificationReport :=
  if file.length < proof.bytes then
    .error (.invalid
      s!"marker binds {proof.bytes} bytes but source file has only {file.length} bytes")
  else if crc32 (file.take proof.bytes) ≠ proof.crc32 then
    .error (.invalid s!"marker-bound prefix checksum mismatch: marker {hexPad 8 proof.crc32}, computed {hexPad 8 (crc32 (file.take proof.bytes))}")
  else do
    let report ← verifyLog (file.take proof.bytes)
    if report.recoverableTail.isSome then
      .error (.invalid
        "marker-bound prefix is not a complete append-log image; it ends in a recoverable tail")
    else if report.fileBytes ≠ proof.bytes ∨ report.validBytes ≠ proof.bytes then
      .error (.invalid s!"marker-bound prefix structural length mismatch: marker {proof.bytes}, file {report.fileBytes}, valid {report.validBytes}")
    else if report.recordCount ≠ proof.recordCount then
      .error (.invalid s!"marker-bound prefix record count mismatch: marker {proof.recordCount}, verified {report.recordCount}")
    else if report.nextSequence ≠ proof.nextSequence then
      .error (.invalid s!"marker-bound prefix next sequence mismatch: marker {proof.nextSequence}, verified {report.nextSequence}")
    else .ok report

structure GenerationVerificationSummary where
  authoritativeGeneration : ℕ
  authoritativeLog : Name
  highestObservedGeneration : ℕ
  markerGenerationIds : Finset ℕ
  stagingMarkerGenerationIds : Finset ℕ
  reservationGenerationIds : Finset ℕ
  uncommittedGenerationIds : Finset ℕ
  committedPrefix : CommittedPrefix
  committedPrefixVerification : VerificationReport
  logVerification : VerificationReport
  deriving DecidableEq

/-- Source `read_commit_marker` on the bytes of the file. -/
def readCommitMarker (bytes : Bytes) (generation : ℕ) : Except GenerationError CommitMarker :=
  if bytes.length ≠ commitMarkerLen then
    .error (.invalid
      s!"highest commit marker has {bytes.length} bytes, expected {commitMarkerLen}")
  else
    match decodeCommitMarker bytes generation with
    | .ok marker => .ok marker
    | .error e => .error (.invalid s!"highest commit marker {e.message}")

/-- The checks of the log against the marker. -/
def requireBoundLog (marker : CommitMarker) (report : VerificationReport) : Except GenerationError Unit :=
  if report.validBytes < marker.committedPrefix.bytes then
    .error (.invalid s!"authoritative log has only {report.validBytes} structurally valid bytes before its tail, but marker binds {marker.committedPrefix.bytes} committed prefix bytes")
  else
    match report.recoverableTail with
    | some tail =>
      if tail.recordOffset < marker.committedPrefix.bytes then
        .error (.invalid s!"authoritative recoverable tail starts at byte {tail.recordOffset}, inside marker-bound committed prefix ending at byte {marker.committedPrefix.bytes}")
      else .ok ()
    | none => .ok ()

/-- The text of an engine error. -/
def databaseMessage : DbError → String
  | .invalidInput reason => s!"invalid input: {reason}"
  | .io reason => s!"I/O error: {reason}"
  | .corruption offset reason => s!"corrupt storage at byte offset {offset}: {reason}"
  | .unsupportedVersion format found supported =>
    s!"unsupported {format} version {found}; this build supports version {supported}"
  | .poisoned =>
    "engine is poisoned by a previous persistent-write failure; reopen it before continuing"

/-- The proof of the prefix, in the words of the verification of the directory. -/
def provePrefix (file : Bytes) (proof : CommittedPrefix) : Except GenerationError VerificationReport :=
  match verifyCommittedPrefix file proof with
  | .ok report => .ok report
  | .error (.invalid reason) =>
    .error (.invalid
      s!"highest commit marker prefix proof failed: invalid committed prefix proof: {reason}")
  | .error (.database e) =>
    .error (.invalid s!"highest commit marker prefix proof failed: {databaseMessage e}")
  | .error e => .error e

/-- Source `verify_generation_directory`. -/
def verifyGenerationDirectory : DirTask GenerationVerificationSummary := do
  let ns ← scan
  match ns.markerFiles.max, ns.highestObservedGeneration with
  | some generation, some highest => do
    let markerFile ← readRegular "highest commit marker" (canonicalMarkerName generation)
    let marker ← Task.ofExcept (readCommitMarker markerFile generation)
    rejectWhen (marker.logFormatVersion ≠ appendLogFormatVersion)
      (.invalid s!"highest commit marker requires append-log format {marker.logFormatVersion}, expected {appendLogFormatVersion}")
    rejectWhen (generation ∉ ns.generationFiles)
      (.invalid s!"highest committed generation {generation} has no generation log")
    let log ← readRegular "authoritative generation log" (canonicalGenerationName generation)
    let logVerification ← Task.ofExcept (verifyLog log)
    rejectWhen (logVerification.fileFormatVersion ≠ marker.logFormatVersion)
      (.invalid s!"authoritative log format {logVerification.fileFormatVersion} disagrees with marker format {marker.logFormatVersion}")
    let logAgain ← readRegular "authoritative generation log" (canonicalGenerationName generation)
    let prefixVerification ← Task.ofExcept (provePrefix logAgain marker.committedPrefix)
    Task.ofExcept (requireBoundLog marker logVerification)
    pure
      { authoritativeGeneration := generation
        authoritativeLog := canonicalGenerationName generation
        highestObservedGeneration := highest
        markerGenerationIds := ns.markerFiles
        stagingMarkerGenerationIds := ns.stagingMarkerFiles
        reservationGenerationIds := ns.reservationFiles
        uncommittedGenerationIds := ns.generationFiles \ ns.markerFiles
        committedPrefix := marker.committedPrefix
        committedPrefixVerification := prefixVerification
        logVerification := logVerification }
  | _, _ => invalid "no committed generation marker exists"

/-- Source `next_generation_id`. -/
def nextGenerationId (summary : GenerationVerificationSummary) : Except GenerationError ℕ :=
  if summary.highestObservedGeneration + 1 < u64Limit then .ok (summary.highestObservedGeneration + 1)
  else .error (.invalid "cannot allocate a generation after u64::MAX")

section Runs

variable {α : Type} {allowed : Io → Prop} {d d' : Directory} {a : α} {u : Unit} {name : Name}

theorem runs_reading (hs : allowed .success) {f : Directory → Except GenerationError α} :
    Task.Runs allowed (reading f) d (.ok a) d' ↔ f d = .ok a ∧ d' = d := by
  rw [reading, Task.runs_act]
  constructor
  · rintro ⟨_ | _, -, h⟩
    · obtain ⟨hf, rfl⟩ := Prod.mk.inj h
      exact ⟨hf, rfl⟩
    · obtain ⟨hf, -⟩ := Prod.mk.inj h
      cases hf
  · rintro ⟨hf, rfl⟩
    exact ⟨.success, hs, by rw [hf]⟩

theorem runs_changing (hs : allowed .success) {f : Directory → Except GenerationError Directory} :
    Task.Runs allowed (changing f) d (.ok u) d' ↔ f d = .ok d' := by
  rw [changing, Task.runs_act]
  constructor
  · rintro ⟨_ | _, -, h⟩
    · cases hf : f d with
      | error e => simp [hf] at h
      | ok d₁ =>
        simp only [hf, Prod.mk.injEq] at h
        rw [h.2]
    · simp at h
  · intro hf
    exact ⟨.success, hs, by rw [hf]⟩

theorem runs_ofExcept {r : Except GenerationError α} :
    Task.Runs allowed (Task.ofExcept r) d (.ok a) d' ↔ r = .ok a ∧ d' = d := by
  rw [Task.ofExcept, Task.runs_done, eq_comm]

theorem runs_pure {b : α} : Task.Runs allowed (pure b : DirTask α) d (.ok a) d' ↔ a = b ∧ d' = d := by
  rw [Task.pure_eq, Task.runs_done, Except.ok.injEq]

theorem runs_bind {β : Type} {t : DirTask β} {f : β → DirTask α} :
    Task.Runs allowed (t >>= f) d (.ok a) d' ↔
      ∃ b d₁, Task.Runs allowed t d (.ok b) d₁ ∧ Task.Runs allowed (f b) d₁ (.ok a) d' :=
  Task.runs_bind_ok

theorem runs_rejectWhen {p : Prop} [Decidable p] {e : GenerationError} :
    Task.Runs allowed (rejectWhen p e) d (.ok u) d' ↔ ¬ p ∧ d' = d := by
  rw [rejectWhen, runs_ofExcept, Checked.guard_eq_ok]
  simp

theorem runs_fail {e : GenerationError} : ¬ Task.Runs allowed (fail e : DirTask α) d (.ok a) d' := by
  rw [fail, Task.throw, Task.runs_done]
  simp

theorem runs_sync (hs : allowed .success) : Task.Runs allowed sync d (.ok u) d' ↔ d' = d := by
  rw [sync, runs_reading hs]
  simp

theorem runs_scan (hs : allowed .success) {ns : GenerationNamespace} :
    Task.Runs allowed scan d (.ok ns) d' ↔ scanGenerationNamespace d = .ok ns ∧ d' = d :=
  runs_reading hs

theorem runs_readRegular (hs : allowed .success) {label : String} {bytes : Bytes} :
    Task.Runs allowed (readRegular label name) d (.ok bytes) d' ↔
      d.find name = some (.regular bytes) ∧ d' = d := by
  rw [readRegular, runs_reading hs]
  refine and_congr_left fun _ => ?_
  cases hfind : d.find name with
  | none => simp
  | some entry =>
    cases entry with
    | regular old => simp
    | other => simp [requireRealRegularFile, Except.map]

theorem runs_requireAbsent (hs : allowed .success) {label : String} :
    Task.Runs allowed (requireAbsent label name) d (.ok u) d' ↔ ¬ d.Has name ∧ d' = d := by
  rw [requireAbsent, runs_reading hs, Checked.guard_eq_ok]
  simp

theorem runs_createNewFile (hs : allowed .success) :
    Task.Runs allowed (createNewFile name) d (.ok u) d' ↔
      ¬ d.Has name ∧ d' = d.insert name (.regular []) := by
  rw [createNewFile, runs_changing hs, Checked.guard_eq_ok, Except.ok.injEq]
  exact and_congr_right fun _ => eq_comm

theorem runs_writeAll (hs : allowed .success) {bytes : Bytes} :
    Task.Runs allowed (writeAll name bytes) d (.ok u) d' ↔ d' = appendTo d name bytes := by
  rw [writeAll, Task.runs_act]
  constructor
  · rintro ⟨_ | _, -, h⟩
    · exact (Prod.mk.inj h).2.symm
    · cases (Prod.mk.inj h).1
  · rintro rfl
    exact ⟨.success, hs, rfl⟩

theorem runs_hardLink (hs : allowed .success) {source : Name} :
    Task.Runs allowed (hardLink source name) d (.ok u) d' ↔
      ∃ entry, d.find source = some entry ∧ ¬ d.Has name ∧ d' = d.insert name entry := by
  rw [hardLink, runs_changing hs]
  cases hfind : d.find source with
  | none => simp
  | some entry =>
    simp only [Checked.guard_eq_ok, Except.ok.injEq, Option.some.injEq, exists_eq_left']
    exact and_congr_right fun _ => eq_comm

theorem runs_removeFile (hs : allowed .success) :
    Task.Runs allowed (removeFile name) d (.ok u) d' ↔ d.Has name ∧ d' = d.remove name := by
  rw [removeFile, runs_changing hs, Checked.guard_not_eq_ok, Except.ok.injEq]
  exact and_congr_right fun _ => eq_comm

end Runs

/-- What a verification has read and checked. -/
structure Verifies (d : Directory) (s : GenerationVerificationSummary) (ns : GenerationNamespace)
    (markerFile log : Bytes) (marker : CommitMarker) : Prop where
  scanned : scanGenerationNamespace d = .ok ns
  authority : ns.markerFiles.max = some s.authoritativeGeneration
  highest : ns.highestObservedGeneration = some s.highestObservedGeneration
  markerFile_at : d.find (canonicalMarkerName s.authoritativeGeneration) = some (.regular markerFile)
  marker_ok : readCommitMarker markerFile s.authoritativeGeneration = .ok marker
  logFormat : marker.logFormatVersion = appendLogFormatVersion
  log_listed : s.authoritativeGeneration ∈ ns.generationFiles
  log_at : d.find (canonicalGenerationName s.authoritativeGeneration) = some (.regular log)
  log_ok : verifyLog log = .ok s.logVerification
  format_eq : s.logVerification.fileFormatVersion = marker.logFormatVersion
  prefix_ok : provePrefix log marker.committedPrefix = .ok s.committedPrefixVerification
  bound : requireBoundLog marker s.logVerification = .ok ()
  authoritativeLog : s.authoritativeLog = canonicalGenerationName s.authoritativeGeneration
  markerIds : s.markerGenerationIds = ns.markerFiles
  stagingIds : s.stagingMarkerGenerationIds = ns.stagingMarkerFiles
  reservationIds : s.reservationGenerationIds = ns.reservationFiles
  uncommittedIds : s.uncommittedGenerationIds = ns.generationFiles \ ns.markerFiles
  committedPrefix : s.committedPrefix = marker.committedPrefix

/-- **The successful verifications.** -/
theorem runs_verifyGenerationDirectory {allowed : Io → Prop} (hs : allowed .success) {d d' : Directory}
    {s : GenerationVerificationSummary} :
    Task.Runs allowed verifyGenerationDirectory d (.ok s) d' ↔
      d' = d ∧ ∃ ns markerFile log marker, Verifies d s ns markerFile log marker := by
  unfold verifyGenerationDirectory
  rw [runs_bind]
  constructor
  · rintro ⟨ns, _, hscan, hrest⟩
    obtain ⟨hscan, rfl⟩ := (runs_scan hs).1 hscan
    split at hrest
    · rename_i generation highest hmax hhighest
      simp only [runs_bind, runs_readRegular hs, runs_ofExcept, runs_rejectWhen, runs_pure, not_not] at hrest
      obtain ⟨markerFile, _, ⟨hmarkerFile, rfl⟩, marker, _, ⟨hmarker, rfl⟩, _, _, ⟨hformat, rfl⟩, _, _,
        ⟨hlisted, rfl⟩, log, _, ⟨hlog, rfl⟩, report, _, ⟨hreport, rfl⟩, _, _, ⟨hversion, rfl⟩, again, _,
        ⟨hagain, rfl⟩, proved, _, ⟨hproved, rfl⟩, _, _, ⟨hbound, rfl⟩, rfl, rfl⟩ := hrest
      rw [hlog, Option.some.injEq, Entry.regular.injEq] at hagain
      subst hagain
      exact ⟨rfl, ns, markerFile, log, marker, hscan, hmax, hhighest, hmarkerFile, hmarker, hformat, hlisted,
        hlog, hreport, hversion, hproved, hbound, rfl, rfl, rfl, rfl, rfl, rfl⟩
    · exact absurd hrest runs_fail
  · rintro ⟨rfl, ns, markerFile, log, marker, h⟩
    refine ⟨ns, d', (runs_scan hs).2 ⟨h.scanned, rfl⟩, ?_⟩
    simp only [h.authority, h.highest, runs_bind, runs_readRegular hs, runs_ofExcept, runs_rejectWhen,
      runs_pure, not_not]
    refine ⟨markerFile, _, ⟨h.markerFile_at, rfl⟩, marker, _, ⟨h.marker_ok, rfl⟩, (), _, ⟨h.logFormat, rfl⟩,
      (), _, ⟨h.log_listed, rfl⟩, log, _, ⟨h.log_at, rfl⟩, _, _, ⟨h.log_ok, rfl⟩, (), _, ⟨h.format_eq, rfl⟩,
      log, _, ⟨h.log_at, rfl⟩, _, _, ⟨h.prefix_ok, rfl⟩, (), _, ⟨h.bound, rfl⟩, ?_, rfl⟩
    cases s
    simp only [GenerationVerificationSummary.mk.injEq, true_and]
    exact ⟨h.authoritativeLog, h.markerIds, h.stagingIds, h.reservationIds, h.uncommittedIds,
      h.committedPrefix, trivial⟩

theorem Verifies.run {d : Directory} {s : GenerationVerificationSummary} {ns : GenerationNamespace}
    {markerFile log : Bytes} {marker : CommitMarker} (h : Verifies d s ns markerFile log marker) :
    verifyGenerationDirectory.run d = (.ok s, d) :=
  Task.run_eq_iff.2 ((@runs_verifyGenerationDirectory (fun io => io = .success) rfl d d s).2
    ⟨rfl, ns, markerFile, log, marker, h⟩)

end DbLab.Generation
