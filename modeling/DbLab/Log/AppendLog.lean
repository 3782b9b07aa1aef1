import DbLab.Lib.Sorted
import DbLab.Record.Cut
import Mathlib.Data.List.Lex

/-!
# The file of the append log

A header of 16 bytes and then records, numbered from one. The replay inserts and removes keys.
-/

namespace DbLab.Log

open Record RecordFormat

def fileMagic : Bytes := [68, 66, 76, 65, 66, 75, 86, 0]
def fileVersion : ℕ := 1
def fileHeaderLen : ℕ := 16

/-- The magic `KVLG` and the texts of the append log. -/
def recordFormat : RecordFormat where
  magic := [75, 86, 76, 71]
  magic_length := rfl
  versionName := "append-log record"
  deleteHasValue := "delete record cannot contain a value"
  magicMismatch := "record magic mismatch"
  headerChecksum expected actual :=
    s!"record header checksum mismatch: expected {hexPad 8 expected}, computed {hexPad 8 actual}"
  unknownKind encoded := s!"unknown record kind {encoded}"
  flagsUnsupported flags := s!"unsupported record flags 0x{hexPad 4 flags}"
  sequenceMismatch sequence expected := s!"record sequence {sequence}, expected {expected}"
  keyLengthExceeds keyLen := s!"declared key length {keyLen} exceeds maximum {maxKeyBytes}"
  valueLengthExceeds valueLen := s!"declared value length {valueLen} exceeds maximum {maxValueBytes}"
  deleteDeclaresValue valueLen := s!"delete record declares nonzero value length {valueLen}"
  recordEndOverflow := "record end offset overflowed u64"
  recordChecksumOffset := 0
  recordChecksum expected actual :=
    s!"record checksum mismatch: expected {hexPad 8 expected}, computed {hexPad 8 actual}"
  sequenceExhausted := "record sequence number exhausted"
  countExhausted := "record counter exhausted"
  partialMagic := "unrecognized bytes after last valid record"
  partialVersion := "invalid record version in partial tail"
  partialField fieldName := s!"invalid {fieldName} prefix in partial tail"
  partialChecksum := "partial record header checksum mismatch"

def fileHeaderFields : Bytes := fileMagic ++ (leBytes 2 fileVersion ++ leBytes 2 fileHeaderLen)

/-- Source `encode_file_header`. -/
def encodeFileHeader : Bytes := fileHeaderFields ++ leBytes 4 (crc32 fileHeaderFields)

/-- Source `validate_file_header`. -/
def validateFileHeader (header : Bytes) : Except DbError Unit :=
  if slice header 0 8 ≠ fileMagic then .error (.corruption 0 "file magic mismatch")
  else if leNat (slice header 12 4) ≠ crc32 (header.take 12) then
    .error (.corruption 12
      s!"file header checksum mismatch: expected {hexPad 8 (leNat (slice header 12 4))}, computed {hexPad 8 (crc32 (header.take 12))}")
  else if leNat (slice header 8 2) ≠ fileVersion then
    .error (.unsupportedVersion "append-log file" (leNat (slice header 8 2)) fileVersion)
  else if leNat (slice header 10 2) ≠ fileHeaderLen then
    .error (.corruption 10 s!"invalid file header length {leNat (slice header 10 2)}")
  else .ok ()

/-- The live keys in bytewise order, with their values. -/
abbrev Values := List (Bytes × Bytes)

/-- What the replay does with a record. -/
def replay (values : Values) (m : Mutation) : Values :=
  match m.value with
  | some value => upsertBy Prod.fst (m.key, value) values
  | none => removeBy Prod.fst m.key values

/-- The replay of a list of records. -/
def replayAll (ms : List Mutation) : Values := ms.foldl replay []

/-- Source `scan_file`. -/
def scanFile (file : Bytes) : Except DbError (ScanResult Values) :=
  if file.length < fileHeaderLen then
    .error (.corruption 0
      s!"truncated file header: found {file.length} bytes, need {fileHeaderLen}")
  else do
    validateFileHeader (file.take fileHeaderLen)
    recordFormat.scanRecords (fun values m => .ok (replay values m)) file.length file.length
      (file.drop fileHeaderLen) ⟨fileHeaderLen, 1, 0, []⟩

theorem encodeFileHeader_length : encodeFileHeader.length = fileHeaderLen := by decide +kernel

/-- The reader accepts the header that the writer produces, and no other. -/
theorem validateFileHeader_eq_ok {header : Bytes} {u : Unit} (hlen : header.length = fileHeaderLen) :
    validateFileHeader header = .ok u ↔ header = encodeFileHeader := by
  have hlen16 : header.length = 16 := hlen
  unfold validateFileHeader
  simp only [Checked.guard_eq_ok, not_not, and_true]
  constructor
  · rintro ⟨h0, h12, h8, h10⟩
    have hfields : header.take 12 = fileHeaderFields := by
      rw [← slice_zero, fileHeaderFields, slice_eq_append_iff (n := 8) (m := 4) rfl (by omega),
        slice_eq_append_iff (n := 2) (m := 2) rfl (by omega),
        slice_eq_leBytes_iff (by omega) (by decide), slice_eq_leBytes_iff (by omega) (by decide)]
      exact ⟨h0, h8, h10⟩
    have hcrc : slice header 12 4 = leBytes 4 (crc32 fileHeaderFields) := by
      rw [slice_eq_leBytes_iff (by omega) (crc32_lt _), h12, hfields]
    rw [encodeFileHeader, ← hcrc, ← hfields, take_append_slice,
      List.take_of_length_le (by omega)]
  · rintro rfl
    decide +kernel

theorem foldlM_replay (ms : List Mutation) (values : Values) :
    ms.foldlM (fun values m => (.ok (replay values m) : Except DbError Values)) values =
      .ok (ms.foldl replay values) := by
  induction ms generalizing values with
  | nil => rfl
  | cons m ms ih => exact ih (replay values m)

end DbLab.Log
