import DbLab.Core
import DbLab.Lib.Crc32
import DbLab.Lib.Slice

/-!
# The mutation record of the append log and of the write-ahead log

Both logs write a mutation as a header of 32 bytes, the key and the value. The header carries a
magic, a version, the kind, flags, the sequence number, the two lengths, a checksum of these 24
bytes and a checksum of the whole record. The two implementations have their own magic and their own
error texts, which are the fields of a `RecordFormat`.
-/

namespace DbLab.Record

def recordVersion : ℕ := 1
def recordHeaderLen : ℕ := 32

inductive RecordKind
  | put
  | delete
  deriving DecidableEq, Repr

def RecordKind.encoded : RecordKind → Byte
  | put => 1
  | delete => 2

/-- A mutation as the scan gives it back; a deletion has no value. -/
structure Mutation where
  sequence : ℕ
  key : Bytes
  value : Option Bytes
  deriving DecidableEq, Repr

namespace Mutation

def kind (m : Mutation) : RecordKind := if m.value.isSome then .put else .delete

/-- The value bytes of the record. -/
def valueBytes (m : Mutation) : Bytes := m.value.getD []

/-- Every record without a value under a deletion is the record of a mutation. -/
theorem exists_fields (kind : RecordKind) (sequence : ℕ) (key value : Bytes)
    (h : kind = .delete → value = []) :
    ∃ m : Mutation, m.kind = kind ∧ m.sequence = sequence ∧ m.key = key ∧ m.valueBytes = value := by
  cases kind with
  | put => exact ⟨⟨sequence, key, some value⟩, rfl, rfl, rfl, rfl⟩
  | delete => exact ⟨⟨sequence, key, none⟩, rfl, rfl, rfl, (h rfl).symm⟩

end Mutation

/-- What is particular to one of the two logs. -/
structure RecordFormat where
  magic : Bytes
  magic_length : magic.length = 4
  versionName : String
  deleteHasValue : String
  magicMismatch : String
  headerChecksum : ℕ → ℕ → String
  unknownKind : ℕ → String
  flagsUnsupported : ℕ → String
  sequenceMismatch : ℕ → ℕ → String
  keyLengthExceeds : ℕ → String
  valueLengthExceeds : ℕ → String
  deleteDeclaresValue : ℕ → String
  recordEndOverflow : String
  /-- Where a wrong record checksum is reported, from the start of the record. -/
  recordChecksumOffset : ℕ
  recordChecksum : ℕ → ℕ → String
  sequenceExhausted : String
  countExhausted : String
  partialMagic : String
  partialVersion : String
  partialField : String → String
  partialChecksum : String

namespace RecordFormat

/-- The sixteen bytes in front of the lengths. -/
def headerStart (fmt : RecordFormat) (kind : RecordKind) (sequence : ℕ) : Bytes :=
  fmt.magic ++ ([1] ++ ([kind.encoded] ++ (leBytes 2 0 ++ leBytes 8 sequence)))

/-- The fields of the header that its checksum covers. -/
def headerFields (fmt : RecordFormat) (kind : RecordKind) (sequence keyLen valueLen : ℕ) : Bytes :=
  fmt.headerStart kind sequence ++ (leBytes 4 keyLen ++ leBytes 4 valueLen)

/-- The header in front of the record checksum. -/
def headerPrefix (fmt : RecordFormat) (kind : RecordKind) (sequence keyLen valueLen : ℕ) : Bytes :=
  fmt.headerFields kind sequence keyLen valueLen ++
    leBytes 4 (crc32 (fmt.headerFields kind sequence keyLen valueLen))

/-- The bytes of a record. -/
def recordBytes (fmt : RecordFormat) (kind : RecordKind) (sequence : ℕ) (key value : Bytes) : Bytes :=
  let header := fmt.headerPrefix kind sequence key.length value.length
  header ++ (leBytes 4 (crc32 (header ++ (key ++ value))) ++ (key ++ value))

/-- Source `encode_record`. -/
def encodeRecord (fmt : RecordFormat) (kind : RecordKind) (sequence : ℕ) (key value : Bytes) :
    Except DbError Bytes := do
  validateKeyValue key value
  if kind = .delete ∧ value ≠ [] then throw (.invalidInput fmt.deleteHasValue)
  else pure (fmt.recordBytes kind sequence key value)

/-- Source `RecordKind::decode`. -/
def decodeKind (fmt : RecordFormat) (encoded offset : ℕ) : Except DbError RecordKind :=
  if encoded = 1 then .ok .put
  else if encoded = 2 then .ok .delete
  else .error (.corruption (offset + 5) (fmt.unknownKind encoded))

/-- Source `validate_record_lengths`; the sum of two such lengths is a `usize`. -/
def validateRecordLengths (fmt : RecordFormat) (kind : RecordKind) (keyLen valueLen offset : ℕ) :
    Except DbError Unit :=
  if maxKeyBytes < keyLen then .error (.corruption (offset + 16) (fmt.keyLengthExceeds keyLen))
  else if maxValueBytes < valueLen then
    .error (.corruption (offset + 20) (fmt.valueLengthExceeds valueLen))
  else if kind = .delete ∧ valueLen ≠ 0 then
    .error (.corruption (offset + 20) (fmt.deleteDeclaresValue valueLen))
  else .ok ()

/-- What a complete header declares. -/
structure Metadata where
  kind : RecordKind
  sequence : ℕ
  keyLen : ℕ
  valueLen : ℕ
  totalLen : ℕ
  expectedRecordCrc : ℕ
  deriving DecidableEq

/-- Source `parse_record_header`. -/
def parseRecordHeader (fmt : RecordFormat) (header : Bytes) (offset expectedSequence : ℕ) :
    Except DbError Metadata :=
  if slice header 0 4 ≠ fmt.magic then .error (.corruption offset fmt.magicMismatch)
  else if leNat (slice header 24 4) ≠ crc32 (header.take 24) then
    .error (.corruption (offset + 24)
      (fmt.headerChecksum (leNat (slice header 24 4)) (crc32 (header.take 24))))
  else if byteAt header 4 ≠ recordVersion then
    .error (.unsupportedVersion fmt.versionName (byteAt header 4) recordVersion)
  else do
    let kind ← fmt.decodeKind (byteAt header 5) offset
    if leNat (slice header 6 2) ≠ 0 then
      .error (.corruption (offset + 6) (fmt.flagsUnsupported (leNat (slice header 6 2))))
    else if leNat (slice header 8 8) ≠ expectedSequence then
      .error (.corruption (offset + 8)
        (fmt.sequenceMismatch (leNat (slice header 8 8)) expectedSequence))
    else do
      fmt.validateRecordLengths kind (leNat (slice header 16 4)) (leNat (slice header 20 4)) offset
      .ok { kind := kind
            sequence := leNat (slice header 8 8)
            keyLen := leNat (slice header 16 4)
            valueLen := leNat (slice header 20 4)
            totalLen := recordHeaderLen + (leNat (slice header 16 4) + leNat (slice header 20 4))
            expectedRecordCrc := leNat (slice header 28 4) }

/-- Source `validate_available_prefix`. -/
def validateAvailablePrefix (fmt : RecordFormat) (bytes : Bytes) (fieldOffset : ℕ) (expected : Bytes)
    (recordOffset : ℕ) (fieldName : String) : Except DbError Unit :=
  if bytes.length ≤ fieldOffset then .ok ()
  else
    let available := min (bytes.length - fieldOffset) expected.length
    if slice bytes fieldOffset available ≠ expected.take available then
      .error (.corruption (recordOffset + fieldOffset) (fmt.partialField fieldName))
    else .ok ()

/-- Source `validate_partial_header`, called `validate_partial_record_header` in the write-ahead
log. -/
def validatePartialHeader (fmt : RecordFormat) (bytes : Bytes) (offset expectedSequence : ℕ) :
    Except DbError Unit := do
  let magicBytes := min bytes.length fmt.magic.length
  failWhen (bytes.take magicBytes ≠ fmt.magic.take magicBytes)
    (.corruption offset fmt.partialMagic)
  failWhen (5 ≤ bytes.length ∧ byteAt bytes 4 ≠ recordVersion)
    (.corruption (offset + 4) fmt.partialVersion)
  checkWhen (6 ≤ bytes.length) do
    let _ ← fmt.decodeKind (byteAt bytes 5) offset
  fmt.validateAvailablePrefix bytes 6 (leBytes 2 0) offset "record flags"
  fmt.validateAvailablePrefix bytes 8 (leBytes 8 expectedSequence) offset "record sequence"
  failWhen (20 ≤ bytes.length ∧ maxKeyBytes < leNat (slice bytes 16 4))
    (.corruption (offset + 16) (fmt.keyLengthExceeds (leNat (slice bytes 16 4))))
  checkWhen (24 ≤ bytes.length) do
    let kind ← fmt.decodeKind (byteAt bytes 5) offset
    fmt.validateRecordLengths kind (leNat (slice bytes 16 4)) (leNat (slice bytes 20 4)) offset
  failWhen (28 ≤ bytes.length ∧ leNat (slice bytes 24 4) ≠ crc32 (bytes.take 24))
    (.corruption (offset + 24) fmt.partialChecksum)

/-! ### Layout -/

variable {fmt : RecordFormat} {kind : RecordKind} {sequence keyLen valueLen offset : ℕ}
  {key value bytes : Bytes}

/-- Lengths that a record can declare. -/
def Admissible (kind : RecordKind) (keyLen valueLen : ℕ) : Prop :=
  keyLen ≤ maxKeyBytes ∧ valueLen ≤ maxValueBytes ∧ (kind = .delete → valueLen = 0)

instance : Decidable (Admissible kind keyLen valueLen) :=
  inferInstanceAs (Decidable (_ ∧ _ ∧ _))

@[simp] theorem headerStart_length : (fmt.headerStart kind sequence).length = 16 := by
  simp [headerStart, fmt.magic_length]

@[simp] theorem headerFields_length :
    (fmt.headerFields kind sequence keyLen valueLen).length = 24 := by
  simp [headerFields]

@[simp] theorem headerPrefix_length :
    (fmt.headerPrefix kind sequence keyLen valueLen).length = 28 := by
  simp [headerPrefix]

@[simp] theorem recordBytes_length :
    (fmt.recordBytes kind sequence key value).length = 32 + (key.length + value.length) := by
  simp [recordBytes]
  omega

/-- What the encoder writes. -/
theorem encodeRecord_eq_ok :
    fmt.encodeRecord kind sequence key value = .ok bytes ↔
      Admissible kind key.length value.length ∧ fmt.recordBytes kind sequence key value = bytes := by
  unfold encodeRecord Admissible
  simp only [Checked.bind_eq_ok, exists_const, validateKeyValue_eq_ok, Checked.throw_eq,
    Checked.pure_eq, Checked.guard_eq_ok, Except.ok.injEq, not_and, not_not, List.length_eq_zero_iff]
  tauto

theorem headerStart_prefix_iff :
    bytes.take 16 <+: fmt.headerStart kind sequence ↔
      bytes.take 4 <+: fmt.magic ∧ (5 ≤ bytes.length → byteAt bytes 4 = recordVersion) ∧
        (6 ≤ bytes.length → byteAt bytes 5 = kind.encoded.val) ∧
        slice bytes 6 2 <+: leBytes 2 0 ∧ slice bytes 8 8 <+: leBytes 8 sequence := by
  rw [headerStart, take_prefix_append (i := 4) (n := 12) fmt.magic_length,
    slice_prefix_append (n := 1) (m := 11) rfl, slice_prefix_append (n := 1) (m := 10) rfl,
    slice_prefix_append (n := 2) (m := 8) (leBytes_length ..), slice_prefix_singleton,
    slice_prefix_singleton]
  rfl

theorem headerFields_prefix_iff :
    bytes.take 24 <+: fmt.headerFields kind sequence keyLen valueLen ↔
      bytes.take 16 <+: fmt.headerStart kind sequence ∧
        slice bytes 16 4 <+: leBytes 4 keyLen ∧ slice bytes 20 4 <+: leBytes 4 valueLen := by
  rw [headerFields, take_prefix_append (i := 16) (n := 8) headerStart_length,
    slice_prefix_append (n := 4) (m := 4) (leBytes_length ..)]

theorem headerPrefix_prefix_iff :
    bytes.take 28 <+: fmt.headerPrefix kind sequence keyLen valueLen ↔
      bytes.take 24 <+: fmt.headerFields kind sequence keyLen valueLen ∧
        slice bytes 24 4 <+: leBytes 4 (crc32 (fmt.headerFields kind sequence keyLen valueLen)) :=
  take_prefix_append (i := 24) (n := 4) headerFields_length

/-! ### The checks of the reader -/

theorem decodeKind_eq_ok {encoded : ℕ} :
    fmt.decodeKind encoded offset = .ok kind ↔ encoded = kind.encoded.val := by
  unfold decodeKind
  cases kind <;> split_ifs <;> simp_all [RecordKind.encoded]

theorem validateRecordLengths_eq_ok {u : Unit} :
    fmt.validateRecordLengths kind keyLen valueLen offset = .ok u ↔
      Admissible kind keyLen valueLen := by
  unfold validateRecordLengths Admissible
  simp only [Checked.guard_eq_ok, not_lt, not_and, not_not, and_true]

theorem validateAvailablePrefix_eq_ok {fieldOffset recordOffset : ℕ} {expected : Bytes}
    {fieldName : String} {u : Unit} :
    fmt.validateAvailablePrefix bytes fieldOffset expected recordOffset fieldName = .ok u ↔
      slice bytes fieldOffset expected.length <+: expected := by
  unfold validateAvailablePrefix
  by_cases h : bytes.length ≤ fieldOffset
  · rw [if_pos h]
    refine iff_of_true rfl ?_
    rw [slice, List.drop_eq_nil_of_le h, List.take_nil]
    exact List.nil_prefix
  · rw [if_neg h]
    simp only [Checked.guard_eq_ok, not_not, and_true]
    rw [← List.length_drop, slice, slice, take_min_eq_iff]

/-- The header of a record, field by field. -/
theorem take_eq_headerPrefix_iff (hlen : 28 ≤ bytes.length) (hseq : sequence < 256 ^ 8)
    (hkey : keyLen < 256 ^ 4) (hvalue : valueLen < 256 ^ 4) :
    bytes.take 28 = fmt.headerPrefix kind sequence keyLen valueLen ↔
      slice bytes 0 4 = fmt.magic ∧ byteAt bytes 4 = recordVersion ∧
        byteAt bytes 5 = kind.encoded.val ∧ leNat (slice bytes 6 2) = 0 ∧
        leNat (slice bytes 8 8) = sequence ∧ leNat (slice bytes 16 4) = keyLen ∧
        leNat (slice bytes 20 4) = valueLen ∧
        leNat (slice bytes 24 4) = crc32 (bytes.take 24) := by
  have hpre : bytes.take 28 = fmt.headerPrefix kind sequence keyLen valueLen ↔
      bytes.take 28 <+: fmt.headerPrefix kind sequence keyLen valueLen := by
    refine ⟨fun h => h ▸ List.prefix_rfl, fun h => h.eq_of_length ?_⟩
    rw [headerPrefix_length, List.length_take, min_eq_left hlen]
  have hmagic : bytes.take 4 <+: fmt.magic ↔ slice bytes 0 4 = fmt.magic := by
    refine ⟨fun h => h.eq_of_length ?_, fun h => h ▸ List.prefix_rfl⟩
    rw [fmt.magic_length, List.length_take]
    omega
  rw [hpre, headerPrefix_prefix_iff, headerFields_prefix_iff, headerStart_prefix_iff, hmagic,
    slice_prefix_leBytes (by omega) (by decide), slice_prefix_leBytes (by omega) hseq,
    slice_prefix_leBytes (by omega) hkey, slice_prefix_leBytes (by omega) hvalue,
    slice_prefix_leBytes (by omega) (crc32_lt _)]
  have hfields : slice bytes 0 4 = fmt.magic → byteAt bytes 4 = recordVersion →
      byteAt bytes 5 = kind.encoded.val → leNat (slice bytes 6 2) = 0 →
      leNat (slice bytes 8 8) = sequence → leNat (slice bytes 16 4) = keyLen →
      leNat (slice bytes 20 4) = valueLen →
      bytes.take 24 = fmt.headerFields kind sequence keyLen valueLen := by
    intro h0 h4 h5 h6 h8 h16 h20
    have hp : bytes.take 24 <+: fmt.headerFields kind sequence keyLen valueLen := by
      rw [headerFields_prefix_iff, headerStart_prefix_iff, hmagic,
        slice_prefix_leBytes (by omega) (by decide), slice_prefix_leBytes (by omega) hseq,
        slice_prefix_leBytes (by omega) hkey, slice_prefix_leBytes (by omega) hvalue]
      exact ⟨⟨h0, fun _ => h4, fun _ => h5, h6, h8⟩, h16, h20⟩
    exact hp.eq_of_length (by rw [headerFields_length, List.length_take]; omega)
  constructor
  · rintro ⟨⟨⟨h0, h4, h5, h6, h8⟩, h16, h20⟩, h24⟩
    refine ⟨h0, h4 (by omega), h5 (by omega), h6, h8, h16, h20, ?_⟩
    rw [h24, hfields h0 (h4 (by omega)) (h5 (by omega)) h6 h8 h16 h20]
  · rintro ⟨h0, h4, h5, h6, h8, h16, h20, h24⟩
    refine ⟨⟨⟨h0, fun _ => h4, fun _ => h5, h6, h8⟩, h16, h20⟩, ?_⟩
    rw [h24, hfields h0 h4 h5 h6 h8 h16 h20]

theorem Admissible.lt (h : Admissible kind keyLen valueLen) :
    keyLen < 256 ^ 4 ∧ valueLen < 256 ^ 4 := by
  obtain ⟨hk, hv, -⟩ := h
  unfold maxKeyBytes at hk
  unfold maxValueBytes at hv
  omega

/-- **A complete header is accepted** when it is the header of a record with the expected sequence
number and admissible lengths. -/
theorem parseRecordHeader_eq_ok {m : Metadata} (hlen : bytes.length = 32) :
    fmt.parseRecordHeader bytes offset sequence = .ok m ↔
      Admissible m.kind m.keyLen m.valueLen ∧ sequence < 256 ^ 8 ∧
        bytes.take 28 = fmt.headerPrefix m.kind sequence m.keyLen m.valueLen ∧
        m.sequence = sequence ∧ m.totalLen = 32 + (m.keyLen + m.valueLen) ∧
        m.expectedRecordCrc = leNat (slice bytes 28 4) := by
  unfold parseRecordHeader
  simp only [Checked.guard_eq_ok, Checked.bind_eq_ok, exists_const, not_not, decodeKind_eq_ok,
    validateRecordLengths_eq_ok, Except.ok.injEq]
  constructor
  · rintro ⟨h0, h24, h4, kind, h5, h6, h8, hadm, rfl⟩
    have hseq : sequence < 256 ^ 8 := by
      have := leNat_lt (slice bytes 8 8)
      rwa [h8, slice_length (by omega)] at this
    refine ⟨hadm, hseq, ?_, h8, rfl, rfl⟩
    rw [take_eq_headerPrefix_iff (by omega) hseq hadm.lt.1 hadm.lt.2]
    exact ⟨h0, h4, h5, h6, h8, rfl, rfl, h24⟩
  · rintro ⟨hadm, hseq, hbytes, h1, h2, h3⟩
    rw [take_eq_headerPrefix_iff (by omega) hseq hadm.lt.1 hadm.lt.2] at hbytes
    obtain ⟨h0, h4, h5, h6, h8, h16, h20, h24⟩ := hbytes
    rw [h8, h16, h20, h24]
    refine ⟨h0, rfl, h4, m.kind, h5, h6, rfl, hadm, ?_⟩
    cases m
    simp only at h1 h2 h3
    subst h1 h2 h3
    rfl

/-- **A partial header is accepted** when its first sixteen bytes are right and the fields that are
complete hold what a record may hold. -/
theorem validatePartialHeader_eq_ok {u : Unit} :
    fmt.validatePartialHeader bytes offset sequence = .ok u ↔
      (∃ kind, bytes.take 16 <+: fmt.headerStart kind sequence ∧
        (24 ≤ bytes.length →
          Admissible kind (leNat (slice bytes 16 4)) (leNat (slice bytes 20 4)))) ∧
        (20 ≤ bytes.length → leNat (slice bytes 16 4) ≤ maxKeyBytes) ∧
        (28 ≤ bytes.length → leNat (slice bytes 24 4) = crc32 (bytes.take 24)) := by
  have hmagic : bytes.take (min bytes.length fmt.magic.length) =
      fmt.magic.take (min bytes.length fmt.magic.length) ↔ bytes.take 4 <+: fmt.magic := by
    rw [take_min_eq_iff, fmt.magic_length]
  unfold validatePartialHeader
  simp only [Checked.bind_eq_ok, exists_const, failWhen_eq_ok, checkWhen_eq_ok, not_not, not_and,
    not_lt, decodeKind_eq_ok, validateRecordLengths_eq_ok, validateAvailablePrefix_eq_ok,
    hmagic, leBytes_length, headerStart_prefix_iff, Checked.pure_eq, and_true]
  constructor
  · rintro ⟨h0, h4, h5, h6, h8, h20, h24, h28⟩
    refine ⟨?_, h20, h28⟩
    by_cases hlen : 6 ≤ bytes.length
    · obtain ⟨kind, hkind⟩ := h5 hlen
      refine ⟨kind, ⟨h0, h4, fun _ => hkind, h6, h8⟩, fun hlong => ?_⟩
      obtain ⟨kind', hkind', hadm⟩ := h24 hlong
      have hsame : kind' = kind := by
        rw [hkind] at hkind'
        cases kind <;> cases kind' <;> simp_all [RecordKind.encoded]
      exact hsame ▸ hadm
    · exact ⟨.put, ⟨h0, h4, fun h => absurd h hlen, h6, h8⟩, fun h => absurd h (by omega)⟩
  · rintro ⟨⟨kind, ⟨h0, h4, h5, h6, h8⟩, h24⟩, h20, h28⟩
    exact ⟨h0, h4, fun h => ⟨kind, h5 h⟩, h6, h8, h20,
      fun h => ⟨kind, h5 (by omega), h24 h⟩, h28⟩

end RecordFormat
end DbLab.Record
