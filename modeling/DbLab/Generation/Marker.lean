import DbLab.Core
import DbLab.Lib.Checked
import DbLab.Lib.Crc32
import DbLab.Lib.Slice

/-!
# The commit marker

64 bytes that bind a generation id to a prefix of its log. The last four are the checksum of the
others. The reader accepts what the writer produces and nothing else.
-/

namespace DbLab.Generation

def commitMarkerMagic : Bytes := [68, 66, 76, 71, 67, 77, 84, 0]
def commitMarkerVersion : ℕ := 2
def commitMarkerLen : ℕ := 64
def appendLogFormatVersion : ℕ := 1
def minCommittedPrefixBytes : ℕ := 16

/-- The part of a log that a marker commits. -/
structure CommittedPrefix where
  bytes : ℕ
  crc32 : ℕ
  recordCount : ℕ
  nextSequence : ℕ
  deriving DecidableEq, Repr

structure CommitMarker where
  generationId : ℕ
  logFormatVersion : ℕ
  committedPrefix : CommittedPrefix
  deriving DecidableEq, Repr

inductive CommitMarkerError
  | zeroGeneration
  | length (found expected : ℕ)
  | magic
  | checksum (expected computed : ℕ)
  | version (found expected : ℕ)
  | headerLength (found : ℕ)
  | generationMismatch (found expected : ℕ)
  | logFormat (found expected : ℕ)
  | reserved (found : ℕ)
  | prefixTooShort (found minimum : ℕ)
  | prefixSequenceOverflow (recordCount : ℕ)
  | prefixSequence (recordCount nextSequence expected : ℕ)
  | flags (found : ℕ)
  | reserved2 (found : ℕ)
  deriving DecidableEq, Repr

/-- The text of an error. -/
def CommitMarkerError.message : CommitMarkerError → String
  | zeroGeneration => "marker generation id must be greater than zero"
  | length found expected => s!"marker has {found} bytes, expected {expected}"
  | magic => "magic mismatch"
  | checksum expected computed =>
    s!"checksum mismatch: expected {hexPad 8 expected}, computed {hexPad 8 computed}"
  | version found expected => s!"unsupported marker version {found}; expected {expected}"
  | headerLength found => s!"invalid marker header length {found}"
  | generationMismatch found expected =>
    s!"marker generation {found} disagrees with filename generation {expected}"
  | logFormat found expected =>
    s!"unsupported append-log format version {found}; expected {expected}"
  | reserved found => s!"marker reserved field is nonzero: 0x{hexPad 4 found}"
  | prefixTooShort found minimum =>
    s!"marker committed prefix has {found} bytes, need at least {minimum}"
  | prefixSequenceOverflow recordCount =>
    s!"marker committed prefix record count {recordCount} cannot advance to a next sequence"
  | prefixSequence recordCount nextSequence expected =>
    s!"marker committed prefix record_count={recordCount} requires next_sequence={expected}, found {nextSequence}"
  | flags found => s!"unsupported marker flags 0x{hexPad 8 found}"
  | reserved2 found => s!"marker secondary reserved field is nonzero: 0x{hexPad 8 found}"

def validateGeneration (generationId : ℕ) : Except CommitMarkerError Unit :=
  if generationId = 0 then .error .zeroGeneration else .ok ()

def validateCommittedPrefix (p : CommittedPrefix) : Except CommitMarkerError Unit :=
  if p.bytes < minCommittedPrefixBytes then
    .error (.prefixTooShort p.bytes minCommittedPrefixBytes)
  else if u64Limit ≤ p.recordCount + 1 then .error (.prefixSequenceOverflow p.recordCount)
  else if p.nextSequence ≠ p.recordCount + 1 then
    .error (.prefixSequence p.recordCount p.nextSequence (p.recordCount + 1))
  else .ok ()

/-- The bytes of a marker before its checksum. -/
def markerFields (generationId : ℕ) (p : CommittedPrefix) : Bytes :=
  commitMarkerMagic ++ (leBytes 2 commitMarkerVersion ++ (leBytes 2 commitMarkerLen ++
    (leBytes 8 generationId ++ (leBytes 2 appendLogFormatVersion ++ (leBytes 2 0 ++
      (leBytes 8 p.bytes ++ (leBytes 4 p.crc32 ++ (leBytes 4 0 ++ (leBytes 8 p.recordCount ++
        (leBytes 8 p.nextSequence ++ leBytes 4 0))))))))))

def markerBytes (generationId : ℕ) (p : CommittedPrefix) : Bytes :=
  markerFields generationId p ++ leBytes 4 (crc32 (markerFields generationId p))

/-- Source `encode_commit_marker`. -/
def encodeCommitMarker (generationId : ℕ) (p : CommittedPrefix) : Except CommitMarkerError Bytes := do
  validateGeneration generationId
  validateCommittedPrefix p
  .ok (markerBytes generationId p)

/-- Source `decode_commit_marker`. -/
def decodeCommitMarker (bytes : Bytes) (filenameGeneration : ℕ) :
    Except CommitMarkerError CommitMarker := do
  validateGeneration filenameGeneration
  if bytes.length ≠ commitMarkerLen then .error (.length bytes.length commitMarkerLen)
  else if bytes.take 8 ≠ commitMarkerMagic then .error .magic
  else if leNat (slice bytes 60 4) ≠ crc32 (bytes.take 60) then
    .error (.checksum (leNat (slice bytes 60 4)) (crc32 (bytes.take 60)))
  else if leNat (slice bytes 8 2) ≠ commitMarkerVersion then
    .error (.version (leNat (slice bytes 8 2)) commitMarkerVersion)
  else if leNat (slice bytes 10 2) ≠ commitMarkerLen then
    .error (.headerLength (leNat (slice bytes 10 2)))
  else if leNat (slice bytes 12 8) = 0 ∨ leNat (slice bytes 12 8) ≠ filenameGeneration then
    .error (.generationMismatch (leNat (slice bytes 12 8)) filenameGeneration)
  else if leNat (slice bytes 20 2) ≠ appendLogFormatVersion then
    .error (.logFormat (leNat (slice bytes 20 2)) appendLogFormatVersion)
  else if leNat (slice bytes 22 2) ≠ 0 then .error (.reserved (leNat (slice bytes 22 2)))
  else do
    let p : CommittedPrefix :=
      { bytes := leNat (slice bytes 24 8)
        crc32 := leNat (slice bytes 32 4)
        recordCount := leNat (slice bytes 40 8)
        nextSequence := leNat (slice bytes 48 8) }
    validateCommittedPrefix p
    if leNat (slice bytes 36 4) ≠ 0 then .error (.flags (leNat (slice bytes 36 4)))
    else if leNat (slice bytes 56 4) ≠ 0 then .error (.reserved2 (leNat (slice bytes 56 4)))
    else .ok ⟨leNat (slice bytes 12 8), leNat (slice bytes 20 2), p⟩

/-- What the code accepts as the prefix of a marker. -/
structure CommittedPrefix.Valid (p : CommittedPrefix) : Prop where
  min_le : minCommittedPrefixBytes ≤ p.bytes
  nextSequence_lt : p.recordCount + 1 < u64Limit
  nextSequence_eq : p.nextSequence = p.recordCount + 1

variable {generationId : ℕ} {p : CommittedPrefix} {bytes : Bytes}

theorem validateGeneration_eq_ok {u : Unit} : validateGeneration generationId = .ok u ↔ 0 < generationId := by
  simp [validateGeneration, Nat.pos_iff_ne_zero]

theorem validateCommittedPrefix_eq_ok {u : Unit} : validateCommittedPrefix p = .ok u ↔ p.Valid := by
  unfold validateCommittedPrefix
  simp only [Checked.guard_eq_ok, not_lt, not_le, not_not, and_true]
  exact ⟨fun h => ⟨h.1, h.2.1, h.2.2⟩, fun h => ⟨h.1, h.2, h.3⟩⟩

theorem markerFields_length : (markerFields generationId p).length = 60 := by
  simp [markerFields, commitMarkerMagic, leBytes_length]

theorem markerBytes_length : (markerBytes generationId p).length = commitMarkerLen := by
  rw [markerBytes, List.length_append, markerFields_length, leBytes_length]
  rfl

/-- The fields of a marker, one by one. -/
theorem slice_eq_markerFields (hlen : bytes.length = 64) (hid : generationId < u64Limit)
    (hvalid : p.Valid) (hbytes : p.bytes < u64Limit) (hcrc : p.crc32 < 256 ^ 4) :
    slice bytes 0 60 = markerFields generationId p ↔
      slice bytes 0 8 = commitMarkerMagic ∧ leNat (slice bytes 8 2) = commitMarkerVersion ∧
        leNat (slice bytes 10 2) = commitMarkerLen ∧ leNat (slice bytes 12 8) = generationId ∧
        leNat (slice bytes 20 2) = appendLogFormatVersion ∧ leNat (slice bytes 22 2) = 0 ∧
        leNat (slice bytes 24 8) = p.bytes ∧ leNat (slice bytes 32 4) = p.crc32 ∧
        leNat (slice bytes 36 4) = 0 ∧ leNat (slice bytes 40 8) = p.recordCount ∧
        leNat (slice bytes 48 8) = p.nextSequence ∧ leNat (slice bytes 56 4) = 0 := by
  have hpow : u64Limit = 256 ^ 8 := by rw [u64Limit_eq]; decide
  have hcount := hvalid.nextSequence_lt
  have hnext := hvalid.nextSequence_eq
  rw [hpow] at hid hbytes hcount
  rw [markerFields,
    slice_eq_append_iff (n := 8) (m := 52) rfl (by omega),
    slice_eq_append_iff (n := 2) (m := 50) (leBytes_length ..) (by omega),
    slice_eq_append_iff (n := 2) (m := 48) (leBytes_length ..) (by omega),
    slice_eq_append_iff (n := 8) (m := 40) (leBytes_length ..) (by omega),
    slice_eq_append_iff (n := 2) (m := 38) (leBytes_length ..) (by omega),
    slice_eq_append_iff (n := 2) (m := 36) (leBytes_length ..) (by omega),
    slice_eq_append_iff (n := 8) (m := 28) (leBytes_length ..) (by omega),
    slice_eq_append_iff (n := 4) (m := 24) (leBytes_length ..) (by omega),
    slice_eq_append_iff (n := 4) (m := 20) (leBytes_length ..) (by omega),
    slice_eq_append_iff (n := 8) (m := 12) (leBytes_length ..) (by omega),
    slice_eq_append_iff (n := 8) (m := 4) (leBytes_length ..) (by omega),
    slice_eq_leBytes_iff (by omega) (by decide), slice_eq_leBytes_iff (by omega) (by decide),
    slice_eq_leBytes_iff (by omega) hid, slice_eq_leBytes_iff (by omega) (by decide),
    slice_eq_leBytes_iff (by omega) (by decide), slice_eq_leBytes_iff (by omega) hbytes,
    slice_eq_leBytes_iff (by omega) hcrc, slice_eq_leBytes_iff (by omega) (by decide),
    slice_eq_leBytes_iff (by omega) (by omega), slice_eq_leBytes_iff (by omega) (by omega),
    slice_eq_leBytes_iff (by omega) (by decide)]

/-- The marker that the writer produces is read back. -/
theorem decodeCommitMarker_markerBytes (hpos : 0 < generationId) (hlt : generationId < u64Limit)
    (hvalid : p.Valid) (hbytes : p.bytes < u64Limit) (hcrc : p.crc32 < 256 ^ 4) :
    decodeCommitMarker (markerBytes generationId p) generationId =
      .ok ⟨generationId, appendLogFormatVersion, p⟩ := by
  have hlen : (markerBytes generationId p).length = 64 := markerBytes_length
  have hfields : slice (markerBytes generationId p) 0 60 = markerFields generationId p :=
    slice_append_self markerFields_length
  have hchecksum : leNat (slice (markerBytes generationId p) 60 4) =
      crc32 (markerFields generationId p) := by
    have htail : slice (markerBytes generationId p) (60 + 0) 4 =
        slice (leBytes 4 (crc32 (markerFields generationId p))) 0 4 :=
      slice_append_right markerFields_length
    rw [Nat.add_zero, slice_zero, List.take_of_length_le (by rw [leBytes_length])] at htail
    rw [htail, leNat_leBytes (crc32_lt _)]
  obtain ⟨h0, h8, h10, h12, h20, h22, h24, h32, h36, h40, h48, h56⟩ :=
    (slice_eq_markerFields hlen hlt hvalid hbytes hcrc).1 hfields
  rw [slice_zero] at h0 hfields
  unfold decodeCommitMarker
  rw [(validateGeneration_eq_ok (u := ())).2 hpos, Checked.ok_bind, h0, hfields, hchecksum, h8, h10, h12,
    h20, h22, h24, h32, h36, h40, h48, h56, if_neg (not_not.2 markerBytes_length), if_neg (not_not.2 rfl),
    if_neg (not_not.2 rfl), if_neg (not_not.2 rfl), if_neg (not_not.2 rfl),
    if_neg (not_or.2 ⟨hpos.ne', not_not.2 rfl⟩), if_neg (not_not.2 rfl), if_neg (not_not.2 rfl)]
  dsimp only
  rw [(validateCommittedPrefix_eq_ok (u := ())).2 hvalid, Checked.ok_bind, if_neg (not_not.2 rfl),
    if_neg (not_not.2 rfl)]

end DbLab.Generation
