import DbLab.Record.Append

/-!
# The file of the write-ahead log

A header of 40 bytes with the id of the segment and its first sequence number, and then records that
count up from there. The replay hands every mutation to `apply`.
-/

namespace DbLab.Lsm

open Record RecordFormat

def initialWalId : ℕ := 1
def initialFirstSequence : ℕ := 1
def walHeaderLen : ℕ := 40
def walMagic : Bytes := [68, 66, 76, 83, 77, 87, 65, 76]
def walFormatVersion : ℕ := 1

/-- The magic `LSMR` and the texts of the write-ahead log. -/
def walRecordFormat : RecordFormat where
  magic := [76, 83, 77, 82]
  magic_length := rfl
  versionName := "LSM WAL record"
  deleteHasValue := "LSM WAL delete record cannot contain a value"
  magicMismatch := "LSM WAL record magic mismatch"
  headerChecksum expected actual :=
    s!"LSM WAL record header checksum mismatch: expected {hexPad 8 expected}, computed {hexPad 8 actual}"
  unknownKind encoded := s!"unknown WAL mutation kind {encoded}"
  flagsUnsupported _ := "LSM WAL record has unsupported flags"
  sequenceMismatch sequence expected := s!"LSM WAL record sequence {sequence}, expected {expected}"
  keyLengthExceeds keyLen := s!"declared WAL key length {keyLen} exceeds {maxKeyBytes}"
  valueLengthExceeds valueLen := s!"declared WAL value length {valueLen} exceeds {maxValueBytes}"
  deleteDeclaresValue valueLen := s!"WAL tombstone declares nonzero value length {valueLen}"
  recordEndOverflow := "LSM WAL record end overflowed u64"
  recordChecksumOffset := 28
  recordChecksum expected actual :=
    s!"WAL record checksum mismatch: expected {hexPad 8 expected}, computed {hexPad 8 actual}"
  sequenceExhausted := "WAL sequence exhausted during replay"
  countExhausted := "WAL record count overflowed during replay"
  partialMagic := "unrecognized bytes after the final complete WAL record"
  partialVersion := "invalid partial WAL record version"
  partialField fieldName := s!"invalid {fieldName} prefix in partial WAL tail"
  partialChecksum := "partial WAL record header checksum mismatch"

def walHeaderFields (walId firstSequence : ℕ) : Bytes :=
  walMagic ++ (leBytes 2 walFormatVersion ++ (leBytes 2 walHeaderLen ++ (leBytes 4 0 ++
    (leBytes 8 walId ++ (leBytes 8 firstSequence ++ leBytes 4 0)))))

/-- Source `encode_wal_header`. -/
def encodeWalHeader (walId firstSequence : ℕ) : Bytes :=
  walHeaderFields walId firstSequence ++ leBytes 4 (crc32 (walHeaderFields walId firstSequence))

/-- Source `validate_wal_header`. -/
def validateWalHeader (header : Bytes) (expectedWalId expectedFirstSequence : ℕ) :
    Except DbError Unit :=
  if slice header 0 8 ≠ walMagic then .error (.corruption 0 "LSM WAL magic mismatch")
  else if leNat (slice header 36 4) ≠ crc32 (header.take 36) then
    .error (.corruption 36
      s!"LSM WAL header checksum mismatch: expected {hexPad 8 (leNat (slice header 36 4))}, computed {hexPad 8 (crc32 (header.take 36))}")
  else if leNat (slice header 8 2) ≠ walFormatVersion then
    .error (.unsupportedVersion "LSM WAL" (leNat (slice header 8 2)) walFormatVersion)
  else if leNat (slice header 10 2) ≠ walHeaderLen then
    .error (.corruption 10 s!"LSM WAL declares header length {leNat (slice header 10 2)}")
  else if leNat (slice header 12 4) ≠ 0 then
    .error (.corruption 12 "LSM WAL has unsupported flags")
  else if leNat (slice header 16 8) ≠ expectedWalId then
    .error (.corruption 16
      s!"LSM WAL id {leNat (slice header 16 8)} does not match authoritative id {expectedWalId}")
  else if leNat (slice header 24 8) ≠ expectedFirstSequence then
    .error (.corruption 24
      s!"LSM WAL first sequence {leNat (slice header 24 8)} does not match authoritative sequence {expectedFirstSequence}")
  else if leNat (slice header 16 8) = 0 ∨ leNat (slice header 24 8) = 0 then
    .error (.corruption 16 "LSM WAL id and first sequence must both be nonzero")
  else if leNat (slice header 32 4) ≠ 0 then
    .error (.corruption 32 "LSM WAL reserved header bytes are nonzero")
  else .ok ()

/-- Source `scan_file` of the write-ahead log, with what `apply` builds from the mutations. -/
def scanWal {σ : Type} (apply : σ → Mutation → Except DbError σ) (values : σ) (file : Bytes)
    (expectedWalId expectedFirstSequence : ℕ) : Except DbError (ScanResult σ) :=
  if file.length < walHeaderLen then
    .error (.corruption 0
      s!"truncated LSM WAL header: found {file.length} bytes, need {walHeaderLen}")
  else do
    validateWalHeader (file.take walHeaderLen) expectedWalId expectedFirstSequence
    walRecordFormat.scanRecords apply file.length file.length (file.drop walHeaderLen)
      ⟨walHeaderLen, expectedFirstSequence, 0, values⟩

variable {walId firstSequence : ℕ}

/-- Ids and sequence numbers that a header can hold. -/
def WalHeaderOk (walId firstSequence : ℕ) : Prop :=
  0 < walId ∧ walId < u64Limit ∧ 0 < firstSequence ∧ firstSequence < u64Limit

@[simp] theorem walHeaderFields_length : (walHeaderFields walId firstSequence).length = 36 := by
  simp [walHeaderFields, walMagic]

theorem encodeWalHeader_length : (encodeWalHeader walId firstSequence).length = walHeaderLen := by
  simp [encodeWalHeader, walHeaderLen]

/-- The reader accepts the header that the writer produces, and no other. -/
theorem validateWalHeader_eq_ok {header : Bytes} {u : Unit} (hlen : header.length = walHeaderLen) :
    validateWalHeader header walId firstSequence = .ok u ↔
      WalHeaderOk walId firstSequence ∧ header = encodeWalHeader walId firstSequence := by
  have hlen40 : header.length = 40 := hlen
  have hfields (hid : walId < 256 ^ 8) (hfirst : firstSequence < 256 ^ 8) :
      header.take 36 = walHeaderFields walId firstSequence ↔ slice header 0 8 = walMagic ∧
        leNat (slice header 8 2) = walFormatVersion ∧ leNat (slice header 10 2) = walHeaderLen ∧
        leNat (slice header 12 4) = 0 ∧ leNat (slice header 16 8) = walId ∧
        leNat (slice header 24 8) = firstSequence ∧ leNat (slice header 32 4) = 0 := by
    rw [← slice_zero, walHeaderFields, slice_eq_append_iff (n := 8) (m := 28) rfl (by omega),
      slice_eq_append_iff (n := 2) (m := 26) rfl (by omega),
      slice_eq_append_iff (n := 2) (m := 24) rfl (by omega),
      slice_eq_append_iff (n := 4) (m := 20) rfl (by omega),
      slice_eq_append_iff (n := 8) (m := 12) (leBytes_length ..) (by omega),
      slice_eq_append_iff (n := 8) (m := 4) (leBytes_length ..) (by omega),
      slice_eq_leBytes_iff (by omega) (by decide), slice_eq_leBytes_iff (by omega) (by decide),
      slice_eq_leBytes_iff (by omega) (by decide), slice_eq_leBytes_iff (by omega) hid,
      slice_eq_leBytes_iff (by omega) hfirst, slice_eq_leBytes_iff (by omega) (by decide)]
  have hwhole : header = encodeWalHeader walId firstSequence ↔
      header.take 36 = walHeaderFields walId firstSequence ∧
        leNat (slice header 36 4) = crc32 (header.take 36) := by
    rw [← List.take_of_length_le (l := header) (i := 40) (by omega), ← slice_zero, encodeWalHeader,
      slice_eq_append_iff (n := 36) (m := 4) walHeaderFields_length (by omega),
      slice_eq_leBytes_iff (by omega) (crc32_lt _), slice_zero, slice_zero,
      List.take_of_length_le (l := header) (i := 40) (by omega)]
    refine and_congr_right fun h => ?_
    rw [h]
  unfold validateWalHeader WalHeaderOk
  simp only [Checked.guard_eq_ok, not_not, not_or, and_true]
  rw [hwhole, u64Limit_eq]
  constructor
  · rintro ⟨h0, h36, h8, h10, h12, h16, h24, ⟨hid0, hfirst0⟩, h32⟩
    have hid := leNat_lt (slice header 16 8)
    have hfirst := leNat_lt (slice header 24 8)
    rw [h16, slice_length (by omega)] at hid
    rw [h24, slice_length (by omega)] at hfirst
    refine ⟨by omega, ?_, h36⟩
    rw [hfields hid hfirst]
    exact ⟨h0, h8, h10, h12, h16, h24, h32⟩
  · rintro ⟨⟨hid0, hid, hfirst0, hfirst⟩, h, h36⟩
    rw [hfields (by omega) (by omega)] at h
    obtain ⟨h0, h8, h10, h12, h16, h24, h32⟩ := h
    exact ⟨h0, h36, h8, h10, h12, h16, h24, ⟨by omega, by omega⟩, h32⟩

/-! ### The handle of the active segment -/

def walAppendTexts : AppendTexts where
  sequenceExhausted := "WAL sequence exhausted before appending a mutation"
  countExhausted := "WAL record count overflowed u64"
  lengthOverflow := "acknowledged WAL byte boundary overflowed u64"
  eofChanged observed acknowledged :=
    s!"active WAL physical EOF changed before mutation: observed {observed}, previously acknowledged {acknowledged}"
  prefixChanged :=
    "acknowledged WAL record changed before mutation: durable prefix fingerprint mismatch"

structure Wal where
  log : Appender
  walId : ℕ
  firstSequence : ℕ
  deriving DecidableEq

namespace Wal

/-- Source `create_new`, for a path that is free. -/
def createNew (walId firstSequence : ℕ) : Except DbError Wal :=
  if walId = 0 ∨ firstSequence = 0 then
    .error (.corruption 0 "WAL id and first sequence must both be nonzero")
  else
    .ok { log :=
            { file := encodeWalHeader walId firstSequence
              nextSequence := firstSequence
              recordCount := 0
              acknowledgedValidBytes := walHeaderLen
              acknowledgedPrefix := encodeWalHeader walId firstSequence }
          walId := walId
          firstSequence := firstSequence }

/-- Source `append`, while the path still names the file. -/
def append (kind : RecordKind) (key value : Bytes) (wal : Wal) : Except DbError (ℕ × Wal) := do
  let next ← wal.log.prepare walRecordFormat walAppendTexts kind key value
  wal.log.validate walAppendTexts
  .ok (wal.log.nextSequence, { wal with log := next })

/-- The mutations that are appended, with the sequence numbers they get, and the handle behind them.
-/
def appendAll : List Op → Wal → List Mutation × Wal
  | [], wal => ([], wal)
  | op :: ops, wal =>
    match wal.append op.kind op.key op.value with
    | .ok (sequence, wal') =>
      let (ms, last) := appendAll ops wal'
      (op.mutation sequence :: ms, last)
    | .error _ => appendAll ops wal

variable {wal : Wal} {ms : List Mutation}

/-- The segment holds the mutations. -/
def Holds (wal : Wal) (walId firstSequence : ℕ) (ms : List Mutation) : Prop :=
  wal.log.Appended walRecordFormat (encodeWalHeader walId firstSequence) firstSequence ms

theorem Holds.appendAll (h : Holds wal walId firstSequence ms) (ops : List Op) :
    Holds (appendAll ops wal).2 walId firstSequence (ms ++ (appendAll ops wal).1) := by
  induction ops generalizing wal ms with
  | nil => simpa [Wal.appendAll] using h
  | cons op ops ih =>
    rw [Wal.appendAll, append]
    cases hp : wal.log.prepare walRecordFormat walAppendTexts op.kind op.key op.value with
    | error e => exact ih h
    | ok next =>
      have hvalid : wal.log.validate walAppendTexts = .ok () := Appender.Appended.validate h
      have h' : Holds { wal with log := next } walId firstSequence
          (ms ++ [op.mutation wal.log.nextSequence]) := Appender.Appended.prepare h hp
      rw [Checked.ok_bind, hvalid]
      have := ih h'
      rwa [List.append_assoc] at this

theorem createNew_holds (hid : walId < u64Limit) (hfirst : firstSequence < u64Limit)
    (h : createNew walId firstSequence = .ok wal) :
    WalHeaderOk walId firstSequence ∧ Holds wal walId firstSequence [] := by
  unfold createNew at h
  rw [Checked.guard_eq_ok, Except.ok.injEq, not_or] at h
  obtain ⟨⟨hid0, hfirst0⟩, rfl⟩ := h
  refine ⟨⟨by omega, hid, by omega, hfirst⟩, ?_⟩
  have hlen : (encodeWalHeader walId firstSequence).length = 40 := encodeWalHeader_length
  constructor
  · simp
  · simp
  · trivial
  · rfl
  · rfl
  · exact hlen.symm
  · rfl
  · exact hfirst
  · rw [u64Limit_eq]
    decide
  · rw [hlen, u64Limit_eq]
    decide

/-- The scan of a segment that is cut behind its header. -/
theorem Holds.scanWal_cut {σ : Type} (h : Holds wal walId firstSequence ms)
    (hok : WalHeaderOk walId firstSequence) {n k : ℕ} {tail : Bytes}
    (hcut : walRecordFormat.Cut ms n k tail) (apply : σ → Mutation → Except DbError σ) (values : σ) :
    scanWal apply values (wal.log.file.take (walHeaderLen + n)) walId firstSequence =
      ((ms.take k).foldlM apply values >>= fun v => .ok
        { fileBytes := (wal.log.file.take (walHeaderLen + n)).length
          validBytes := walRecordFormat.recordStart walHeaderLen ms k
          recordCount := k
          nextSequence := firstSequence + k
          recoverableTail := walRecordFormat.cutTail walHeaderLen ms k tail
          values := v }) := by
  have hscan := Appender.Appended.scan_cut h hcut apply values
  have hhead := Appender.Appended.take_header h n
  rw [encodeWalHeader_length] at hscan hhead
  have hlong : ¬ (wal.log.file.take (walHeaderLen + n)).length < walHeaderLen := by
    have := congrArg List.length hhead
    rw [List.length_take, encodeWalHeader_length] at this
    omega
  rw [scanWal, if_neg hlong, hhead,
    (validateWalHeader_eq_ok (u := ()) encodeWalHeader_length).2 ⟨hok, rfl⟩, Checked.ok_bind, hscan]

end Wal
end DbLab.Lsm
