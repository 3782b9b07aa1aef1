import DbLab.Lsm.BloomCodec
import DbLab.Lsm.SsTable

/-!
# The bytes of a sorted table

A file of a sorted table is a header, the section of its filter, the records, an index entry for each of
them, and a footer. Header and footer have a checksum of their own, as has every record and index entry,
and the footer has a checksum of all that is in front of it. Each of the four is read back from where it
stands in the file.
-/

namespace DbLab.Lsm

def sstableMagic : Bytes := [68, 66, 76, 83, 77, 83, 83, 84]
def sstableFooterMagic : Bytes := [68, 66, 76, 83, 77, 69, 78, 68]
def tableRecordMagic : Bytes := [83, 83, 84, 82]
def legacyFormatVersion : ℕ := 1
def sstableFormatVersion : ℕ := 2
def tableRecordVersion : ℕ := 1
def indexVersion : ℕ := 1

inductive EntryKind
  | put
  | delete
  deriving DecidableEq

namespace EntryKind

def encoded : EntryKind → ℕ
  | .put => 1
  | .delete => 2

def decode (encoded offset : ℕ) : Except DbError EntryKind :=
  if encoded = 1 then .ok .put
  else if encoded = 2 then .ok .delete
  else .error (corruptionAt offset s!"unknown SSTable entry kind {encoded}")

/-- The kind of an entry. -/
def of (entry : VersionedEntry) : EntryKind := if entry.value.isSome then .put else .delete

end EntryKind

structure IndexEntry where
  key : Bytes
  sequence : ℕ
  kind : EntryKind
  recordOffset : ℕ
  deriving DecidableEq

/-- A record with its offset. -/
abbrev TableRecord := Bytes × VersionedEntry × ℕ

/-- Source `checked_add`. -/
def extentAdd (base add offset : ℕ) : Except DbError ℕ :=
  checkedAdd base add (corruptionAt offset "SSTable extent arithmetic overflowed usize")

/-! ### Records -/

/-- The bytes of a value, none for a tombstone. -/
def valueBytes (value : Option Bytes) : Bytes := value.getD []

/-- The header of a record in front of its checksum. -/
def recordFields (key : Bytes) (entry : VersionedEntry) : Bytes :=
  tableRecordMagic ++ (leBytes 1 tableRecordVersion ++ (leBytes 1 (EntryKind.of entry).encoded ++ (leBytes 2 0 ++
    (leBytes 8 entry.sequence ++ (leBytes 4 key.length ++ leBytes 4 (valueBytes entry.value).length)))))

def recordHeader (key : Bytes) (entry : VersionedEntry) : Bytes :=
  recordFields key entry ++ leBytes 4 (crc32 (recordFields key entry))

/-- A record in front of its checksum. -/
def recordBody (key : Bytes) (entry : VersionedEntry) : Bytes :=
  recordHeader key entry ++ (key ++ valueBytes entry.value)

def recordImage (key : Bytes) (entry : VersionedEntry) : Bytes :=
  recordBody key entry ++ leBytes 4 (crc32 (recordBody key entry))

/-- Source `encode_record`. -/
def encodeRecord (key : Bytes) (entry : VersionedEntry) : Except DbError Bytes := do
  failWhen (2 ^ 32 ≤ key.length) (corruption "key length does not fit u32")
  failWhen (2 ^ 32 ≤ (valueBytes entry.value).length) (corruption "value length does not fit u32")
  failWhen (u64Limit ≤ tableRecordHeaderLen + key.length + (valueBytes entry.value).length + 4)
    (corruption "SSTable record size overflowed usize")
  .ok (recordImage key entry)

/-- Source `decode_record`. -/
def decodeRecord (bytes : Bytes) (limit offset : ℕ) : Except DbError (Bytes × VersionedEntry × ℕ) := do
  let headerEnd ← extentAdd offset tableRecordHeaderLen offset
  failWhen (limit < headerEnd ∨ bytes.length < headerEnd) (corruptionAt offset "truncated SSTable record header")
  let header := slice bytes offset tableRecordHeaderLen
  failWhen (slice header 0 4 ≠ tableRecordMagic ∨ byteAt header 4 ≠ tableRecordVersion ∨ slice header 6 2 ≠ leBytes 2 0)
    (corruptionAt offset "invalid SSTable record header")
  failWhen (crc32 (slice header 0 24) ≠ leNat (slice header 24 4))
    (corruptionAt (offset + 24) "SSTable record header checksum mismatch")
  let kind ← EntryKind.decode (byteAt header 5) (offset + 5)
  let sequence := leNat (slice header 8 8)
  let keyLen := leNat (slice header 16 4)
  let valueLen := leNat (slice header 20 4)
  failWhen (maxKeyBytes < keyLen ∨ maxValueBytes < valueLen)
    (corruptionAt offset "SSTable record exceeds common key/value bounds")
  failWhen (kind = .delete ∧ valueLen ≠ 0) (corruptionAt (offset + 20) "SSTable tombstone carries a value")
  let keyEnd ← extentAdd headerEnd keyLen offset
  let payloadEnd ← extentAdd keyEnd valueLen offset
  let recordEnd ← extentAdd payloadEnd 4 offset
  failWhen (limit < recordEnd ∨ bytes.length < recordEnd) (corruptionAt offset "truncated SSTable record payload")
  failWhen (crc32 (slice bytes offset (payloadEnd - offset)) ≠ leNat (slice bytes payloadEnd 4))
    (corruptionAt payloadEnd "SSTable record checksum mismatch")
  let value := match kind with
    | .put => some (slice bytes keyEnd valueLen)
    | .delete => none
  .ok (slice bytes headerEnd keyLen, ⟨sequence, value⟩, recordEnd)

section Records

variable {bytes key : Bytes} {entry : VersionedEntry} {offset limit limit' next : ℕ}

@[simp] theorem tableRecordMagic_length : tableRecordMagic.length = 4 := by simp [tableRecordMagic]

@[simp] theorem recordFields_length : (recordFields key entry).length = 24 := by simp [recordFields]

@[simp] theorem recordHeader_length : (recordHeader key entry).length = 28 := by simp [recordHeader]

@[simp] theorem recordBody_length :
    (recordBody key entry).length = 28 + (key.length + (valueBytes entry.value).length) := by simp [recordBody]

@[simp] theorem recordImage_length :
    (recordImage key entry).length = 28 + (key.length + (valueBytes entry.value).length) + 4 := by
  simp [recordImage]

theorem recordFields_magic : slice (recordFields key entry) 0 4 = tableRecordMagic := by
  simp [recordFields, slice_append_self]

theorem recordFields_version : slice (recordFields key entry) 4 1 = leBytes 1 tableRecordVersion := by
  simp [recordFields, slice_skip, slice_append_self]

theorem recordFields_kind : slice (recordFields key entry) 5 1 = leBytes 1 (EntryKind.of entry).encoded := by
  simp [recordFields, slice_skip, slice_append_self]

theorem recordFields_reserved : slice (recordFields key entry) 6 2 = leBytes 2 0 := by
  simp [recordFields, slice_skip, slice_append_self]

theorem recordFields_sequence : slice (recordFields key entry) 8 8 = leBytes 8 entry.sequence := by
  simp [recordFields, slice_skip, slice_append_self]

theorem recordFields_keyLen : slice (recordFields key entry) 16 4 = leBytes 4 key.length := by
  simp [recordFields, slice_skip, slice_append_self]

theorem recordFields_valueLen :
    slice (recordFields key entry) 20 4 = leBytes 4 (valueBytes entry.value).length := by
  simp [recordFields, slice_skip, slice_self]

theorem decode_encoded (kind : EntryKind) : EntryKind.decode kind.encoded offset = .ok kind := by cases kind <;> rfl

/-- What the kind of an entry says of its value. -/
theorem value_of_kind :
    (match EntryKind.of entry with
      | .put => some (valueBytes entry.value)
      | .delete => none) = entry.value ∧ (EntryKind.of entry = .delete → (valueBytes entry.value).length = 0) := by
  obtain ⟨sequence, value⟩ := entry
  cases value with
  | none => exact ⟨rfl, fun _ => rfl⟩
  | some value => exact ⟨rfl, by simp [EntryKind.of]⟩

theorem slice_recordHeader {i n : ℕ} (h : i + n ≤ 24) :
    slice (recordHeader key entry) i n = slice (recordFields key entry) i n :=
  slice_append_left (by simpa using h)

theorem recordHeader_crc : slice (recordHeader key entry) 24 4 = leBytes 4 (crc32 (recordFields key entry)) :=
  holdsAt_append_right recordFields_length

/-- **A record is read back** from where it stands. -/
theorem decodeRecord_eq (h : HoldsAt bytes offset (recordImage key entry)) (hkey : key.length ≤ maxKeyBytes)
    (hvalue : (valueBytes entry.value).length ≤ maxValueBytes) (hsequence : entry.sequence < 256 ^ 8)
    (hlimit : offset + (recordImage key entry).length ≤ limit)
    (hfits : offset + (recordImage key entry).length < u64Limit) :
    decodeRecord bytes limit offset = .ok (key, entry, offset + (recordImage key entry).length) := by
  have hlen := h.length_le (by simp)
  rw [recordImage_length] at hlimit hfits hlen ⊢
  have hkeys : maxKeyBytes < 256 ^ 4 := by decide
  have hvalues : maxValueBytes < 256 ^ 4 := by decide
  -- each part of the record, where it stands
  rw [recordImage, holdsAt_append, recordBody_length] at h
  obtain ⟨hbody, hcrc⟩ := h
  have hbodyAt : slice bytes offset (28 + (key.length + (valueBytes entry.value).length)) = recordBody key entry := by
    rw [HoldsAt, recordBody_length] at hbody
    exact hbody
  rw [recordBody, holdsAt_append, holdsAt_append, recordHeader_length] at hbody
  obtain ⟨hheader, hkeyAt, hvalueAt⟩ := hbody
  rw [HoldsAt, recordHeader_length] at hheader
  rw [HoldsAt, leBytes_length] at hcrc
  have hkeyLen : leNat (leBytes 4 key.length) = key.length := leNat_leBytes (hkey.trans_lt hkeys)
  have hvalueLen : leNat (leBytes 4 (valueBytes entry.value).length) = (valueBytes entry.value).length :=
    leNat_leBytes (hvalue.trans_lt hvalues)
  have hkind : byteAt (recordHeader key entry) 5 = (EntryKind.of entry).encoded := by
    rw [byteAt, slice_recordHeader (by omega), recordFields_kind]
    cases EntryKind.of entry with
    | put => rfl
    | delete => rfl
  have hversion : byteAt (recordHeader key entry) 4 = tableRecordVersion := by
    rw [byteAt, slice_recordHeader (by omega), recordFields_version]
    rfl
  have hend : offset + 28 + key.length + (valueBytes entry.value).length =
      offset + (28 + (key.length + (valueBytes entry.value).length)) := by omega
  have hextent : offset + 28 + key.length + (valueBytes entry.value).length - offset =
      28 + (key.length + (valueBytes entry.value).length) := by omega
  obtain ⟨hvalueOf, hdelete⟩ := @value_of_kind entry
  unfold decodeRecord
  simp only [extentAdd, show tableRecordHeaderLen = 28 from rfl, Checked.bind_eq_ok, checkedAdd_eq_ok, failWhen_eq_ok,
    not_or, not_lt, hheader, slice_recordHeader, recordHeader_crc, hversion, hkind, decode_encoded, Nat.reduceAdd,
    Nat.reduceLeDiff, recordFields_magic, recordFields_reserved, recordFields_sequence, recordFields_keyLen,
    recordFields_valueLen, hkeyLen, hvalueLen]
  refine ⟨_, ⟨by omega, rfl⟩, (), ⟨by omega, by omega⟩, (), ⟨by simp, by simp, by simp⟩, (), ?_, _, rfl, (), ⟨hkey, hvalue⟩, (),
    ?_, _, ⟨by omega, rfl⟩, _, ⟨by omega, rfl⟩, _, ⟨by omega, rfl⟩, (), ⟨by omega, by omega⟩, (), ?_, ?_⟩
  · rw [leNat_leBytes (crc32_lt _), ne_eq, not_not]
    exact congrArg crc32 (slice_self recordFields_length)
  · rintro ⟨hkind, hne⟩
    exact hne (hdelete hkind)
  · rw [hextent, hbodyAt, hend, hcrc, leNat_leBytes (crc32_lt _), ne_eq, not_not]
  · rw [HoldsAt] at hkeyAt hvalueAt
    rw [hkeyAt, hvalueAt, leNat_leBytes hsequence, hend, hvalueOf, add_assoc offset]

end Records
/-! ### Index entries -/

/-- The part of an index entry in front of its key. -/
def indexPrefix (e : IndexEntry) : Bytes :=
  leBytes 4 e.key.length ++ (leBytes 1 e.kind.encoded ++ (leBytes 1 indexVersion ++ (leBytes 2 0 ++
    (leBytes 8 e.sequence ++ leBytes 8 e.recordOffset))))

/-- An index entry in front of its checksum. -/
def indexBody (e : IndexEntry) : Bytes := indexPrefix e ++ e.key

def indexImage (e : IndexEntry) : Bytes := indexBody e ++ leBytes 4 (crc32 (indexBody e))

/-- The index entry of a record. -/
def IndexEntry.of (record : TableRecord) : IndexEntry :=
  ⟨record.1, record.2.1.sequence, EntryKind.of record.2.1, record.2.2⟩

/-- Source `encode_index_entry`. -/
def encodeIndexEntry (key : Bytes) (entry : VersionedEntry) (recordOffset : ℕ) : Except DbError Bytes := do
  failWhen (2 ^ 32 ≤ key.length) (corruption "index key length does not fit u32")
  failWhen (u64Limit ≤ indexPrefixLen + key.length + 4) (corruption "SSTable index entry size overflowed usize")
  .ok (indexImage (.of (key, entry, recordOffset)))

/-- Source `decode_index_entry`. -/
def decodeIndexEntry (bytes : Bytes) (limit offset : ℕ) : Except DbError (IndexEntry × ℕ) := do
  let prefixEnd ← extentAdd offset indexPrefixLen offset
  failWhen (limit < prefixEnd ∨ bytes.length < prefixEnd) (corruptionAt offset "truncated SSTable index prefix")
  let front := slice bytes offset indexPrefixLen
  let keyLen := leNat (slice front 0 4)
  failWhen (maxKeyBytes < keyLen ∨ byteAt front 5 ≠ indexVersion ∨ slice front 6 2 ≠ leBytes 2 0)
    (corruptionAt offset "invalid SSTable index entry")
  let kind ← EntryKind.decode (byteAt front 4) (offset + 4)
  let sequence := leNat (slice front 8 8)
  let recordOffset := leNat (slice front 16 8)
  let keyEnd ← extentAdd prefixEnd keyLen offset
  let entryEnd ← extentAdd keyEnd 4 offset
  failWhen (limit < entryEnd ∨ bytes.length < entryEnd) (corruptionAt offset "truncated SSTable index key/checksum")
  failWhen (crc32 (slice bytes offset (keyEnd - offset)) ≠ leNat (slice bytes keyEnd 4))
    (corruptionAt keyEnd "SSTable index checksum mismatch")
  .ok (⟨slice bytes prefixEnd keyLen, sequence, kind, recordOffset⟩, entryEnd)

section Index

variable {bytes : Bytes} {e : IndexEntry} {offset limit : ℕ}

@[simp] theorem indexPrefix_length : (indexPrefix e).length = 24 := by simp [indexPrefix]

@[simp] theorem indexBody_length : (indexBody e).length = 24 + e.key.length := by simp [indexBody]

@[simp] theorem indexImage_length : (indexImage e).length = 24 + e.key.length + 4 := by simp [indexImage]

theorem indexPrefix_keyLen : slice (indexPrefix e) 0 4 = leBytes 4 e.key.length := by
  simp [indexPrefix, slice_append_self]

theorem indexPrefix_kind : slice (indexPrefix e) 4 1 = leBytes 1 e.kind.encoded := by
  simp [indexPrefix, slice_skip, slice_append_self]

theorem indexPrefix_version : slice (indexPrefix e) 5 1 = leBytes 1 indexVersion := by
  simp [indexPrefix, slice_skip, slice_append_self]

theorem indexPrefix_reserved : slice (indexPrefix e) 6 2 = leBytes 2 0 := by
  simp [indexPrefix, slice_skip, slice_append_self]

theorem indexPrefix_sequence : slice (indexPrefix e) 8 8 = leBytes 8 e.sequence := by
  simp [indexPrefix, slice_skip, slice_append_self]

theorem indexPrefix_recordOffset : slice (indexPrefix e) 16 8 = leBytes 8 e.recordOffset := by
  simp [indexPrefix, slice_skip, slice_self]

/-- **An index entry is read back** from where it stands. -/
theorem decodeIndexEntry_eq (h : HoldsAt bytes offset (indexImage e)) (hkey : e.key.length ≤ maxKeyBytes)
    (hsequence : e.sequence < 256 ^ 8) (hrecord : e.recordOffset < 256 ^ 8)
    (hlimit : offset + (indexImage e).length ≤ limit) (hfits : offset + (indexImage e).length < u64Limit) :
    decodeIndexEntry bytes limit offset = .ok (e, offset + (indexImage e).length) := by
  have hlen := h.length_le (by simp)
  rw [indexImage_length] at hlimit hfits hlen ⊢
  have hkeys : maxKeyBytes < 256 ^ 4 := by decide
  rw [indexImage, holdsAt_append, indexBody_length] at h
  obtain ⟨hbody, hcrc⟩ := h
  have hbodyAt : slice bytes offset (24 + e.key.length) = indexBody e := by
    rw [HoldsAt, indexBody_length] at hbody
    exact hbody
  rw [indexBody, holdsAt_append, indexPrefix_length] at hbody
  obtain ⟨hfront, hkeyAt⟩ := hbody
  rw [HoldsAt, indexPrefix_length] at hfront
  rw [HoldsAt, leBytes_length] at hcrc
  have hkeyLen : leNat (leBytes 4 e.key.length) = e.key.length := leNat_leBytes (hkey.trans_lt hkeys)
  have hkind : byteAt (indexPrefix e) 4 = e.kind.encoded := by
    rw [byteAt, indexPrefix_kind]
    cases e.kind with
    | put => rfl
    | delete => rfl
  have hversion : byteAt (indexPrefix e) 5 = indexVersion := by
    rw [byteAt, indexPrefix_version]
    rfl
  have hextent : offset + 24 + e.key.length - offset = 24 + e.key.length := by omega
  have hend : offset + 24 + e.key.length = offset + (24 + e.key.length) := by omega
  unfold decodeIndexEntry
  simp only [extentAdd, show indexPrefixLen = 24 from rfl, Checked.bind_eq_ok, checkedAdd_eq_ok, failWhen_eq_ok,
    not_or, not_lt, hfront, hversion, hkind, decode_encoded, indexPrefix_keyLen, indexPrefix_reserved,
    indexPrefix_sequence, indexPrefix_recordOffset, hkeyLen]
  refine ⟨_, ⟨by omega, rfl⟩, (), ⟨by omega, by omega⟩, (), ⟨hkey, by simp, by simp⟩, _, rfl, _, ⟨by omega, rfl⟩, _,
    ⟨by omega, rfl⟩, (), ⟨by omega, by omega⟩, (), ?_, ?_⟩
  · rw [hextent, hbodyAt, hend, hcrc, leNat_leBytes (crc32_lt _), ne_eq, not_not]
  · rw [HoldsAt] at hkeyAt
    rw [hkeyAt, leNat_leBytes hsequence, leNat_leBytes hrecord, hend, add_assoc offset]

end Index
/-! ### Header and footer -/

structure TableHeader where
  formatVersion : ℕ
  tableId : ℕ
  entryCount : ℕ
  dataOffset : ℕ
  indexOffset : ℕ
  footerOffset : ℕ

structure TableFooter where
  formatVersion : ℕ
  tableId : ℕ
  entryCount : ℕ
  indexOffset : ℕ
  footerOffset : ℕ
  durableSequence : ℕ
  wholeCrc : ℕ

/-- The header in front of its checksum. -/
def tableHeaderFields (h : TableHeader) : Bytes :=
  sstableMagic ++ (leBytes 2 h.formatVersion ++ (leBytes 2 sstableHeaderLen ++ (leBytes 4 0 ++ (leBytes 8 h.tableId ++
    (leBytes 8 h.entryCount ++ (leBytes 8 h.dataOffset ++ (leBytes 8 h.indexOffset ++
      (leBytes 8 h.footerOffset ++ leBytes 4 0))))))))

/-- Source `encode_header`. -/
def encodeHeader (h : TableHeader) : Bytes := tableHeaderFields h ++ leBytes 4 (crc32 (tableHeaderFields h))

/-- The footer in front of its checksum. -/
def tableFooterFields (f : TableFooter) : Bytes :=
  sstableFooterMagic ++ (leBytes 2 f.formatVersion ++ (leBytes 2 sstableFooterLen ++ (leBytes 4 0 ++
    (leBytes 8 f.tableId ++ (leBytes 8 f.entryCount ++ (leBytes 8 f.indexOffset ++ (leBytes 8 f.footerOffset ++
      (leBytes 8 f.durableSequence ++ leBytes 4 f.wholeCrc))))))))

/-- Source `encode_footer`. -/
def encodeFooter (f : TableFooter) : Bytes := tableFooterFields f ++ leBytes 4 (crc32 (tableFooterFields f))

/-- Source `parse_header`. -/
def parseHeader (bytes : Bytes) : Except DbError TableHeader := do
  failWhen (bytes.length ≠ sstableHeaderLen) (corruption "invalid SSTable header length")
  failWhen (slice bytes 0 8 ≠ sstableMagic) (corruption "invalid SSTable magic")
  let version := leNat (slice bytes 8 2)
  failWhen (version ≠ legacyFormatVersion ∧ version ≠ sstableFormatVersion)
    (.unsupportedVersion "LSM SSTable" version sstableFormatVersion)
  failWhen (leNat (slice bytes 10 2) ≠ sstableHeaderLen) (corruptionAt 10 "invalid SSTable header-size field")
  failWhen (slice bytes 12 4 ≠ leBytes 4 0 ∨ slice bytes 56 4 ≠ leBytes 4 0)
    (corruptionAt 12 "nonzero reserved SSTable header bytes")
  failWhen (crc32 (slice bytes 0 60) ≠ leNat (slice bytes 60 4)) (corruptionAt 60 "SSTable header checksum mismatch")
  .ok
    { formatVersion := version
      tableId := leNat (slice bytes 16 8)
      entryCount := leNat (slice bytes 24 8)
      dataOffset := leNat (slice bytes 32 8)
      indexOffset := leNat (slice bytes 40 8)
      footerOffset := leNat (slice bytes 48 8) }

/-- Source `parse_footer`. -/
def parseFooter (bytes : Bytes) (offset : ℕ) : Except DbError TableFooter := do
  failWhen (bytes.length ≠ sstableFooterLen ∨ slice bytes 0 8 ≠ sstableFooterMagic)
    (corruptionAt offset "invalid SSTable footer")
  let version := leNat (slice bytes 8 2)
  failWhen (version ≠ legacyFormatVersion ∧ version ≠ sstableFormatVersion)
    (.unsupportedVersion "LSM SSTable" version sstableFormatVersion)
  failWhen (leNat (slice bytes 10 2) ≠ sstableFooterLen ∨ slice bytes 12 4 ≠ leBytes 4 0)
    (corruptionAt (offset + 10) "invalid SSTable footer fields")
  failWhen (crc32 (slice bytes 0 60) ≠ leNat (slice bytes 60 4))
    (corruptionAt (offset + 60) "SSTable footer checksum mismatch")
  .ok
    { formatVersion := version
      tableId := leNat (slice bytes 16 8)
      entryCount := leNat (slice bytes 24 8)
      indexOffset := leNat (slice bytes 32 8)
      footerOffset := leNat (slice bytes 40 8)
      durableSequence := leNat (slice bytes 48 8)
      wholeCrc := leNat (slice bytes 56 4) }

section Ends

variable {h : TableHeader} {f : TableFooter} {offset : ℕ}

@[simp] theorem sstableMagic_length : sstableMagic.length = 8 := by simp [sstableMagic]

@[simp] theorem sstableFooterMagic_length : sstableFooterMagic.length = 8 := by simp [sstableFooterMagic]

@[simp] theorem tableHeaderFields_length : (tableHeaderFields h).length = 60 := by simp [tableHeaderFields]

@[simp] theorem encodeHeader_length : (encodeHeader h).length = 64 := by simp [encodeHeader]

@[simp] theorem tableFooterFields_length : (tableFooterFields f).length = 60 := by simp [tableFooterFields]

@[simp] theorem encodeFooter_length : (encodeFooter f).length = 64 := by simp [encodeFooter]

theorem slice_encodeHeader {i n : ℕ} (hin : i + n ≤ 60) : slice (encodeHeader h) i n = slice (tableHeaderFields h) i n :=
  slice_append_left (by simpa using hin)

theorem slice_encodeFooter {i n : ℕ} (hin : i + n ≤ 60) : slice (encodeFooter f) i n = slice (tableFooterFields f) i n :=
  slice_append_left (by simpa using hin)

theorem encodeHeader_crc : slice (encodeHeader h) 60 4 = leBytes 4 (crc32 (tableHeaderFields h)) :=
  holdsAt_append_right tableHeaderFields_length

theorem encodeFooter_crc : slice (encodeFooter f) 60 4 = leBytes 4 (crc32 (tableFooterFields f)) :=
  holdsAt_append_right tableFooterFields_length

/-- The version is known and the numbers are 64 bits wide. -/
structure TableHeader.Wide (h : TableHeader) : Prop where
  formatVersion : h.formatVersion = legacyFormatVersion ∨ h.formatVersion = sstableFormatVersion
  tableId : h.tableId < 256 ^ 8
  entryCount : h.entryCount < 256 ^ 8
  dataOffset : h.dataOffset < 256 ^ 8
  indexOffset : h.indexOffset < 256 ^ 8
  footerOffset : h.footerOffset < 256 ^ 8

structure TableFooter.Wide (f : TableFooter) : Prop where
  formatVersion : f.formatVersion = legacyFormatVersion ∨ f.formatVersion = sstableFormatVersion
  tableId : f.tableId < 256 ^ 8
  entryCount : f.entryCount < 256 ^ 8
  indexOffset : f.indexOffset < 256 ^ 8
  footerOffset : f.footerOffset < 256 ^ 8
  durableSequence : f.durableSequence < 256 ^ 8
  wholeCrc : f.wholeCrc < 256 ^ 4

theorem version_lt {version : ℕ} (h : version = legacyFormatVersion ∨ version = sstableFormatVersion) :
    version < 256 ^ 2 := by
  rcases h with rfl | rfl
  · decide
  · decide

/-- **The header is read back.** -/
theorem parseHeader_eq (hwide : h.Wide) : parseHeader (encodeHeader h) = .ok h := by
  have hall : slice (encodeHeader h) 0 60 = tableHeaderFields h := by
    rw [slice_encodeHeader (by omega)]
    exact slice_self tableHeaderFields_length
  have hfield : ∀ i n, i + n ≤ 60 → slice (encodeHeader h) i n = slice (tableHeaderFields h) i n :=
    fun i n => slice_encodeHeader
  have hversion : slice (tableHeaderFields h) 8 2 = leBytes 2 h.formatVersion := by
    simp [tableHeaderFields, slice_skip, slice_append_self]
  have hlength : slice (tableHeaderFields h) 10 2 = leBytes 2 sstableHeaderLen := by
    simp [tableHeaderFields, slice_skip, slice_append_self]
  have hreserved : slice (tableHeaderFields h) 12 4 = leBytes 4 0 := by
    simp [tableHeaderFields, slice_skip, slice_append_self]
  have htrailing : slice (tableHeaderFields h) 56 4 = leBytes 4 0 := by
    simp [tableHeaderFields, slice_skip, slice_self]
  have hmagic : slice (tableHeaderFields h) 0 8 = sstableMagic := by
    simp [tableHeaderFields, slice_append_self]
  have htableId : slice (tableHeaderFields h) 16 8 = leBytes 8 h.tableId := by
    simp [tableHeaderFields, slice_skip, slice_append_self]
  have hentryCount : slice (tableHeaderFields h) 24 8 = leBytes 8 h.entryCount := by
    simp [tableHeaderFields, slice_skip, slice_append_self]
  have hdataOffset : slice (tableHeaderFields h) 32 8 = leBytes 8 h.dataOffset := by
    simp [tableHeaderFields, slice_skip, slice_append_self]
  have hindexOffset : slice (tableHeaderFields h) 40 8 = leBytes 8 h.indexOffset := by
    simp [tableHeaderFields, slice_skip, slice_append_self]
  have hfooterOffset : slice (tableHeaderFields h) 48 8 = leBytes 8 h.footerOffset := by
    simp [tableHeaderFields, slice_skip, slice_append_self]
  have hknown : ¬ (h.formatVersion ≠ legacyFormatVersion ∧ h.formatVersion ≠ sstableFormatVersion) := by
    rintro ⟨hlegacy, hcurrent⟩
    exact hwide.formatVersion.elim hlegacy hcurrent
  unfold parseHeader
  simp only [Checked.bind_eq_ok, failWhen_eq_ok]
  rw [hfield 0 8 (by omega), hfield 8 2 (by omega), hfield 10 2 (by omega), hfield 12 4 (by omega),
    hfield 16 8 (by omega), hfield 24 8 (by omega), hfield 32 8 (by omega), hfield 40 8 (by omega),
    hfield 48 8 (by omega), hfield 56 4 (by omega), hall, encodeHeader_crc, hmagic, hversion, hlength, hreserved,
    htrailing, htableId, hentryCount, hdataOffset, hindexOffset, hfooterOffset, leNat_leBytes (crc32_lt _),
    leNat_leBytes (version_lt hwide.formatVersion), leNat_leBytes hwide.tableId, leNat_leBytes hwide.entryCount,
    leNat_leBytes hwide.dataOffset, leNat_leBytes hwide.indexOffset, leNat_leBytes hwide.footerOffset]
  exact ⟨(), by simp [sstableHeaderLen], (), by simp, (), hknown, (), by decide, (), by simp, (), by simp, rfl⟩

/-- **The footer is read back.** -/
theorem parseFooter_eq (hwide : f.Wide) : parseFooter (encodeFooter f) offset = .ok f := by
  have hall : slice (encodeFooter f) 0 60 = tableFooterFields f := by
    rw [slice_encodeFooter (by omega)]
    exact slice_self tableFooterFields_length
  have hfield : ∀ i n, i + n ≤ 60 → slice (encodeFooter f) i n = slice (tableFooterFields f) i n :=
    fun i n => slice_encodeFooter
  have hmagic : slice (tableFooterFields f) 0 8 = sstableFooterMagic := by
    simp [tableFooterFields, slice_append_self]
  have hversion : slice (tableFooterFields f) 8 2 = leBytes 2 f.formatVersion := by
    simp [tableFooterFields, slice_skip, slice_append_self]
  have hlength : slice (tableFooterFields f) 10 2 = leBytes 2 sstableFooterLen := by
    simp [tableFooterFields, slice_skip, slice_append_self]
  have hreserved : slice (tableFooterFields f) 12 4 = leBytes 4 0 := by
    simp [tableFooterFields, slice_skip, slice_append_self]
  have htableId : slice (tableFooterFields f) 16 8 = leBytes 8 f.tableId := by
    simp [tableFooterFields, slice_skip, slice_append_self]
  have hentryCount : slice (tableFooterFields f) 24 8 = leBytes 8 f.entryCount := by
    simp [tableFooterFields, slice_skip, slice_append_self]
  have hindexOffset : slice (tableFooterFields f) 32 8 = leBytes 8 f.indexOffset := by
    simp [tableFooterFields, slice_skip, slice_append_self]
  have hfooterOffset : slice (tableFooterFields f) 40 8 = leBytes 8 f.footerOffset := by
    simp [tableFooterFields, slice_skip, slice_append_self]
  have hdurable : slice (tableFooterFields f) 48 8 = leBytes 8 f.durableSequence := by
    simp [tableFooterFields, slice_skip, slice_append_self]
  have hwhole : slice (tableFooterFields f) 56 4 = leBytes 4 f.wholeCrc := by
    simp [tableFooterFields, slice_skip, slice_self]
  have hknown : ¬ (f.formatVersion ≠ legacyFormatVersion ∧ f.formatVersion ≠ sstableFormatVersion) := by
    rintro ⟨hlegacy, hcurrent⟩
    exact hwide.formatVersion.elim hlegacy hcurrent
  unfold parseFooter
  simp only [Checked.bind_eq_ok, failWhen_eq_ok]
  rw [hfield 0 8 (by omega), hfield 8 2 (by omega), hfield 10 2 (by omega), hfield 12 4 (by omega),
    hfield 16 8 (by omega), hfield 24 8 (by omega), hfield 32 8 (by omega), hfield 40 8 (by omega),
    hfield 48 8 (by omega), hfield 56 4 (by omega), hall, encodeFooter_crc, hmagic, hversion, hlength, hreserved,
    htableId, hentryCount, hindexOffset, hfooterOffset, hdurable, hwhole, leNat_leBytes (crc32_lt _),
    leNat_leBytes (version_lt hwide.formatVersion), leNat_leBytes hwide.tableId, leNat_leBytes hwide.entryCount,
    leNat_leBytes hwide.indexOffset, leNat_leBytes hwide.footerOffset, leNat_leBytes hwide.durableSequence,
    leNat_leBytes hwide.wholeCrc]
  exact ⟨(), by simp [sstableFooterLen], (), hknown, (), by decide, (), by simp, rfl⟩

end Ends

end DbLab.Lsm
