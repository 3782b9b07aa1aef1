import DbLab.Lib.Crc32
import DbLab.Lib.Slice
import DbLab.Lsm.Install

/-!
# The bytes of a manifest

A manifest has a header with a checksum of its own, a descriptor with a checksum for each table, and a
checksum of the file. Five versions of the header are read, and the last one is written.
-/

namespace DbLab.Lsm

def manifestMagic : Bytes := [68, 66, 76, 83, 77, 77, 65, 78]
def manifestFormatVersionV1 : ℕ := 1
def manifestFormatVersionV2 : ℕ := 2
def manifestFormatVersionV3 : ℕ := 3
def manifestFormatVersionV4 : ℕ := 4
def manifestFormatVersion : ℕ := 5
def manifestHeaderLenV1 : ℕ := 64
def manifestHeaderLenV4 : ℕ := 80
def manifestHeaderLen : ℕ := 88
def legacyDescriptorPrefixLen : ℕ := 40
def descriptorPrefixLen : ℕ := 48

/-! ### Writing -/

/-- The part of a descriptor in front of its keys. -/
def descriptorPrefix (d : SstableDescriptor) : Bytes :=
  leBytes 8 d.tableId ++ (leBytes 8 d.fileBytes ++ (leBytes 8 d.entryCount ++ (leBytes 8 d.durableSequence ++
    (leBytes 4 d.level ++ (leBytes 4 0 ++ (leBytes 4 d.smallestKey.length ++ leBytes 4 d.largestKey.length))))))

def descriptorFields (d : SstableDescriptor) : Bytes := descriptorPrefix d ++ (d.smallestKey ++ d.largestKey)

/-- The bytes that `encode_descriptor` writes. -/
def descriptorBytes (d : SstableDescriptor) : Bytes :=
  descriptorFields d ++ leBytes 4 (crc32 (descriptorFields d))

/-- The header in front of its checksum. -/
def manifestFields (version : VersionSet) (bodyLen : ℕ) : Bytes :=
  manifestMagic ++ (leBytes 2 manifestFormatVersion ++ (leBytes 2 manifestHeaderLen ++ (leBytes 4 0 ++
    (leBytes 8 version.manifestId ++ (leBytes 8 version.durableSequence ++ (leBytes 8 version.tables.length ++
      (leBytes 8 bodyLen ++ (leBytes 8 version.walId ++ (leBytes 8 version.walFirstSequence ++
        (leBytes 8 version.tombstoneGcSequence ++ (leBytes 8 version.tableIdHighWatermark ++ leBytes 4 0)))))))))))

def manifestHeader (version : VersionSet) (bodyLen : ℕ) : Bytes :=
  manifestFields version bodyLen ++ leBytes 4 (crc32 (manifestFields version bodyLen))

/-- The file in front of its checksum. -/
def manifestContent (version : VersionSet) : Bytes :=
  manifestHeader version (version.tables.flatMap descriptorBytes).length ++ version.tables.flatMap descriptorBytes

/-- The bytes that `write_manifest_new` writes. -/
def manifestBytes (version : VersionSet) : Except DbError Bytes := do
  validateVersionSet version
  version.tables.forM encodeDescriptor
  failWhen (u64Limit ≤ (version.tables.flatMap descriptorBytes).length)
    (corruption "manifest body length does not fit u64")
  failWhen (u64Limit ≤ version.tables.length) (corruption "manifest table count does not fit u64")
  .ok (manifestContent version ++ leBytes 4 (crc32 (manifestContent version)))

/-! ### Reading -/

/-- What the header of a version says. -/
structure ManifestHeader where
  headerLen : ℕ
  walId : ℕ
  walFirstSequence : ℕ
  tombstoneGcSequence : ℕ
  encodedTableIdHighWatermark : Option ℕ

/-- Whether bytes are all zero. -/
def allZero (bytes : Bytes) : Bool := bytes.all fun byte => byte = 0

/-- The header of a version: its length, where its reserved bytes and its checksum are, and its fields. -/
def readManifestHeader (bytes : Bytes) : Except DbError ManifestHeader := do
  let formatVersion := leNat (slice bytes 8 2)
  if formatVersion = manifestFormatVersionV1 then do
    failWhen (leNat (slice bytes 10 2) ≠ manifestHeaderLenV1 ∨ ¬ allZero (slice bytes 12 4) ∨
      ¬ allZero (slice bytes 48 12)) (.corruption 10 "invalid v1 manifest header fields")
    failWhen (crc32 (slice bytes 0 60) ≠ leNat (slice bytes 60 4))
      (.corruption 60 "manifest header checksum mismatch")
    .ok ⟨manifestHeaderLenV1, 1, 1, 0, none⟩
  else if formatVersion = manifestFormatVersionV2 ∨ formatVersion = manifestFormatVersionV3 then do
    failWhen (bytes.length < manifestHeaderLenV4 + 4 ∨ leNat (slice bytes 10 2) ≠ manifestHeaderLenV4 ∨
      ¬ allZero (slice bytes 12 4) ∨ ¬ allZero (slice bytes 64 12))
      (.corruption 10 "invalid v2/v3 manifest header fields")
    failWhen (crc32 (slice bytes 0 76) ≠ leNat (slice bytes 76 4))
      (.corruption 76 "manifest header checksum mismatch")
    .ok ⟨manifestHeaderLenV4, leNat (slice bytes 48 8), leNat (slice bytes 56 8), 0, none⟩
  else if formatVersion = manifestFormatVersionV4 then do
    failWhen (bytes.length < manifestHeaderLenV4 + 4 ∨ leNat (slice bytes 10 2) ≠ manifestHeaderLenV4 ∨
      ¬ allZero (slice bytes 12 4) ∨ ¬ allZero (slice bytes 72 4))
      (.corruption 10 "invalid v4 manifest header fields")
    failWhen (crc32 (slice bytes 0 76) ≠ leNat (slice bytes 76 4))
      (.corruption 76 "manifest header checksum mismatch")
    .ok ⟨manifestHeaderLenV4, leNat (slice bytes 48 8), leNat (slice bytes 56 8), leNat (slice bytes 64 8), none⟩
  else if formatVersion = manifestFormatVersion then do
    failWhen (bytes.length < manifestHeaderLen + 4 ∨ leNat (slice bytes 10 2) ≠ manifestHeaderLen ∨
      ¬ allZero (slice bytes 12 4) ∨ ¬ allZero (slice bytes 80 4))
      (.corruption 10 "invalid v5 manifest header fields")
    failWhen (crc32 (slice bytes 0 84) ≠ leNat (slice bytes 84 4))
      (.corruption 84 "manifest header checksum mismatch")
    .ok ⟨manifestHeaderLen, leNat (slice bytes 48 8), leNat (slice bytes 56 8), leNat (slice bytes 64 8),
      some (leNat (slice bytes 72 8))⟩
  else .error (.unsupportedVersion "LSM manifest" formatVersion manifestFormatVersion)

/-- Where the lengths of the keys stand in the part in front of them, and the level. -/
def descriptorLayout (formatVersion offset : ℕ) (front : Bytes) : Except DbError (ℕ × ℕ × ℕ) :=
  if formatVersion ≤ manifestFormatVersionV2 then .ok (0, 32, 36)
  else do
    failWhen (leNat (slice front 36 4) ≠ 0)
      (.corruption (offset + 36) "manifest descriptor reserved field is nonzero")
    .ok (leNat (slice front 32 4), 40, 44)

/-- Source `decode_descriptor`. -/
def readDescriptor (bytes : Bytes) (offset limit formatVersion : ℕ) : Except DbError (SstableDescriptor × ℕ) := do
  let frontLen := if formatVersion ≤ manifestFormatVersionV2 then legacyDescriptorPrefixLen else descriptorPrefixLen
  let frontEnd ← checkedAdd offset frontLen (.corruption offset "manifest descriptor extent overflowed")
  failWhen (limit < frontEnd) (.corruption offset "truncated manifest descriptor prefix")
  let front := slice bytes offset frontLen
  let (level, smallestAt, largestAt) ← descriptorLayout formatVersion offset front
  let smallestLen := leNat (slice front smallestAt 4)
  let largestLen := leNat (slice front largestAt 4)
  failWhen (1 < level) (.corruption (offset + 32) "manifest SSTable level exceeds implemented L1 policy")
  failWhen (maxKeyBytes < smallestLen ∨ maxKeyBytes < largestLen)
    (.corruption (offset + smallestAt) "manifest key bound exceeds common key limit")
  let smallestEnd ← checkedAdd frontEnd smallestLen (.corruption offset "manifest smallest-key extent overflowed")
  let largestEnd ← checkedAdd smallestEnd largestLen (.corruption offset "manifest largest-key extent overflowed")
  let descriptorEnd ← checkedAdd largestEnd 4 (.corruption offset "manifest descriptor checksum extent overflowed")
  failWhen (limit < descriptorEnd) (.corruption offset "truncated manifest descriptor")
  failWhen (crc32 (slice bytes offset (largestEnd - offset)) ≠ leNat (slice bytes largestEnd 4))
    (.corruption largestEnd "manifest descriptor checksum mismatch")
  let descriptor : SstableDescriptor :=
    { tableId := leNat (slice front 0 8)
      level := level
      fileBytes := leNat (slice front 8 8)
      entryCount := leNat (slice front 16 8)
      durableSequence := leNat (slice front 24 8)
      smallestKey := slice bytes frontEnd smallestLen
      largestKey := slice bytes smallestEnd largestLen }
  failWhen (descriptor.tableId = 0 ∨ descriptor.fileBytes = 0 ∨ descriptor.entryCount = 0 ∨
      descriptor.durableSequence = 0 ∨ descriptor.largestKey < descriptor.smallestKey)
    (.corruption offset "invalid manifest SSTable descriptor values")
  .ok (descriptor, descriptorEnd)

/-- The loop of `read_manifest` over the descriptors. -/
def readDescriptors (bytes : Bytes) (limit formatVersion : ℕ) : ℕ → ℕ → Except DbError (List SstableDescriptor × ℕ)
  | 0, offset => .ok ([], offset)
  | count + 1, offset => do
    let (descriptor, next) ← readDescriptor bytes offset limit formatVersion
    let (descriptors, last) ← readDescriptors bytes limit formatVersion count next
    .ok (descriptor :: descriptors, last)

/-- The watermark of a version that does not write it. -/
def legacyWatermark (tables : List SstableDescriptor) (durableSequence : ℕ) : ℕ :=
  let active := (tables.map SstableDescriptor.tableId).foldl max 0
  if tables = [] ∧ 0 < durableSequence then max durableSequence active else active

/-- Source `read_manifest`, of the bytes of its file. -/
def readManifestBytes (manifestId : ℕ) (bytes : Bytes) : Except DbError VersionSet := do
  failWhen (bytes.length < manifestHeaderLenV1 + 4) (corruption "truncated manifest")
  failWhen (slice bytes 0 8 ≠ manifestMagic) (corruption "invalid manifest magic")
  let header ← readManifestHeader bytes
  failWhen (leNat (slice bytes 16 8) ≠ manifestId)
    (.corruption 16 "manifest id does not match filename/CURRENT")
  let durableSequence := leNat (slice bytes 24 8)
  let tableCount := leNat (slice bytes 32 8)
  let bodyLen := leNat (slice bytes 40 8)
  let bodyEnd ← checkedAdd header.headerLen bodyLen
    (.corruption 40 "manifest extent arithmetic overflowed usize")
  let expectedLen ← checkedAdd bodyEnd 4 (.corruption 40 "manifest extent arithmetic overflowed usize")
  failWhen (expectedLen ≠ bytes.length) (.corruption 40 "manifest body length does not match physical file")
  let crcOffset := bytes.length - 4
  failWhen (crc32 (bytes.take crcOffset) ≠ leNat (slice bytes crcOffset 4))
    (.corruption crcOffset "manifest file checksum mismatch")
  let (tables, offset) ← readDescriptors bytes crcOffset (leNat (slice bytes 8 2)) tableCount header.headerLen
  failWhen (offset ≠ crcOffset) (.corruption offset "manifest contains unexplained descriptor bytes")
  let version : VersionSet :=
    { currentGeneration := 0
      manifestId := manifestId
      durableSequence := durableSequence
      tombstoneGcSequence := header.tombstoneGcSequence
      tableIdHighWatermark := header.encodedTableIdHighWatermark.getD (legacyWatermark tables durableSequence)
      walId := header.walId
      walFirstSequence := header.walFirstSequence
      tables := tables }
  validateVersionSet version
  .ok version

/-! ### Reading back a descriptor -/

section Descriptors

variable {d : SstableDescriptor} {bytes pre post : Bytes} {limit : ℕ}

@[simp] theorem descriptorPrefix_length : (descriptorPrefix d).length = 48 := by simp [descriptorPrefix]

@[simp] theorem descriptorFields_length :
    (descriptorFields d).length = 48 + (d.smallestKey.length + d.largestKey.length) := by
  simp [descriptorFields]

@[simp] theorem descriptorBytes_length :
    (descriptorBytes d).length = 48 + (d.smallestKey.length + d.largestKey.length) + 4 := by
  simp [descriptorBytes]

/-- A descriptor whose numbers fit, and that `decode_descriptor` does not refuse. -/
structure Storable (d : SstableDescriptor) : Prop where
  tableId : d.tableId ≠ 0 ∧ d.tableId < 256 ^ 8
  fileBytes : d.fileBytes ≠ 0 ∧ d.fileBytes < 256 ^ 8
  entryCount : d.entryCount ≠ 0 ∧ d.entryCount < 256 ^ 8
  durableSequence : d.durableSequence ≠ 0 ∧ d.durableSequence < 256 ^ 8
  level : d.level ≤ 1
  smallest_le : d.smallestKey.length ≤ maxKeyBytes
  largest_le : d.largestKey.length ≤ maxKeyBytes
  ordered : d.smallestKey ≤ d.largestKey

theorem descriptorPrefix_tableId : slice (descriptorPrefix d) 0 8 = leBytes 8 d.tableId := by
  simp [descriptorPrefix, slice_append_self]

theorem descriptorPrefix_fileBytes : slice (descriptorPrefix d) 8 8 = leBytes 8 d.fileBytes := by
  simp [descriptorPrefix, slice_skip, slice_append_self]

theorem descriptorPrefix_entryCount : slice (descriptorPrefix d) 16 8 = leBytes 8 d.entryCount := by
  simp [descriptorPrefix, slice_skip, slice_append_self]

theorem descriptorPrefix_durable : slice (descriptorPrefix d) 24 8 = leBytes 8 d.durableSequence := by
  simp [descriptorPrefix, slice_skip, slice_append_self]

theorem descriptorPrefix_level : slice (descriptorPrefix d) 32 4 = leBytes 4 d.level := by
  simp [descriptorPrefix, slice_skip, slice_append_self]

theorem descriptorPrefix_reserved : slice (descriptorPrefix d) 36 4 = leBytes 4 0 := by
  simp [descriptorPrefix, slice_skip, slice_append_self]

theorem descriptorPrefix_smallest : slice (descriptorPrefix d) 40 4 = leBytes 4 d.smallestKey.length := by
  simp [descriptorPrefix, slice_skip, slice_append_self]

theorem descriptorPrefix_largest : slice (descriptorPrefix d) 44 4 = leBytes 4 d.largestKey.length := by
  simp [descriptorPrefix, slice_skip, slice_self]

/-- **A descriptor is read back** from where it was written. -/
theorem readDescriptor_eq (h : Storable d) (hlimit : pre.length + (descriptorBytes d).length ≤ limit)
    (hfits : limit < u64Limit) :
    readDescriptor (pre ++ (descriptorBytes d ++ post)) pre.length limit manifestFormatVersion =
      .ok (d, pre.length + (descriptorBytes d).length) := by
  rw [descriptorBytes_length] at hlimit ⊢
  have hkeys : maxKeyBytes < 256 ^ 4 := by decide
  have hlevel := h.level
  have hfour : d.level < 256 ^ 4 := by omega
  -- each part of the descriptor, where it stands behind `pre`
  have hfront : slice (pre ++ (descriptorBytes d ++ post)) pre.length 48 = descriptorPrefix d := by
    have hat := @slice_append_right pre (descriptorBytes d ++ post) pre.length 48 0 rfl
    rw [Nat.add_zero] at hat
    rw [hat, descriptorBytes, descriptorFields, List.append_assoc, List.append_assoc]
    exact slice_append_self descriptorPrefix_length
  have hsmallest : slice (pre ++ (descriptorBytes d ++ post)) (pre.length + 48) d.smallestKey.length =
      d.smallestKey := by
    rw [slice_append_right rfl, descriptorBytes, descriptorFields, List.append_assoc, List.append_assoc,
      List.append_assoc]
    exact slice_append_middle descriptorPrefix_length rfl
  have hlargest : slice (pre ++ (descriptorBytes d ++ post)) (pre.length + 48 + d.smallestKey.length)
      d.largestKey.length = d.largestKey := by
    rw [add_assoc, slice_append_right rfl, descriptorBytes, descriptorFields, List.append_assoc, List.append_assoc,
      List.append_assoc, ← List.append_assoc (descriptorPrefix d)]
    exact slice_append_middle (by simp) rfl
  have hfields : slice (pre ++ (descriptorBytes d ++ post)) pre.length
      (48 + (d.smallestKey.length + d.largestKey.length)) = descriptorFields d := by
    have hat := @slice_append_right pre (descriptorBytes d ++ post) pre.length
      (48 + (d.smallestKey.length + d.largestKey.length)) 0 rfl
    rw [Nat.add_zero] at hat
    rw [hat, descriptorBytes, List.append_assoc]
    exact slice_append_self descriptorFields_length
  have hcrc : slice (pre ++ (descriptorBytes d ++ post))
      (pre.length + (48 + (d.smallestKey.length + d.largestKey.length))) 4 =
      leBytes 4 (crc32 (descriptorFields d)) := by
    rw [slice_append_right rfl, descriptorBytes, List.append_assoc]
    exact slice_append_middle descriptorFields_length (leBytes_length _ _)
  have hversion : ¬ manifestFormatVersion ≤ manifestFormatVersionV2 := by decide
  have hlayout : descriptorLayout manifestFormatVersion pre.length (descriptorPrefix d) = .ok (d.level, 40, 44) := by
    rw [descriptorLayout, if_neg hversion, descriptorPrefix_reserved, descriptorPrefix_level, leNat_leBytes hfour,
      leNat_leBytes (by decide)]
    simp
  have hsmallestLen : leNat (slice (descriptorPrefix d) 40 4) = d.smallestKey.length := by
    rw [descriptorPrefix_smallest, leNat_leBytes (h.smallest_le.trans_lt hkeys)]
  have hlargestLen : leNat (slice (descriptorPrefix d) 44 4) = d.largestKey.length := by
    rw [descriptorPrefix_largest, leNat_leBytes (h.largest_le.trans_lt hkeys)]
  have hend : pre.length + 48 + d.smallestKey.length + d.largestKey.length =
      pre.length + (48 + (d.smallestKey.length + d.largestKey.length)) := by omega
  have hextent : pre.length + 48 + d.smallestKey.length + d.largestKey.length - pre.length =
      48 + (d.smallestKey.length + d.largestKey.length) := by omega
  unfold readDescriptor
  simp only [hversion, if_false, show descriptorPrefixLen = 48 from rfl, Checked.bind_eq_ok, checkedAdd_eq_ok,
    failWhen_eq_ok, not_or, not_lt, Prod.exists]
  refine ⟨_, ⟨by omega, rfl⟩, (), by omega, d.level, 40, 44, by rw [hfront, hlayout], (), hlevel, ?_⟩
  rw [hfront, hsmallestLen, hlargestLen]
  refine ⟨(), ⟨h.smallest_le, h.largest_le⟩, _, ⟨by omega, rfl⟩, _, ⟨by omega, rfl⟩, _, ⟨by omega, rfl⟩, (),
    by omega, (), ?_, (), ?_, ?_⟩
  · rw [hextent, hfields, hend, hcrc, leNat_leBytes (crc32_lt _), ne_eq, not_not]
  · rw [descriptorPrefix_tableId, descriptorPrefix_fileBytes, descriptorPrefix_entryCount, descriptorPrefix_durable,
      leNat_leBytes h.tableId.2, leNat_leBytes h.fileBytes.2, leNat_leBytes h.entryCount.2,
      leNat_leBytes h.durableSequence.2, hsmallest, hlargest]
    exact ⟨h.tableId.1, h.fileBytes.1, h.entryCount.1, h.durableSequence.1, h.ordered⟩
  · rw [descriptorPrefix_tableId, descriptorPrefix_fileBytes, descriptorPrefix_entryCount, descriptorPrefix_durable,
      leNat_leBytes h.tableId.2, leNat_leBytes h.fileBytes.2, leNat_leBytes h.entryCount.2,
      leNat_leBytes h.durableSequence.2, hsmallest, hlargest, hend]
    rfl

/-- The descriptors are read back one behind the other. -/
theorem readDescriptors_eq {tables : List SstableDescriptor} (h : ∀ d ∈ tables, Storable d)
    (hlimit : pre.length + (tables.flatMap descriptorBytes).length ≤ limit) (hfits : limit < u64Limit) :
    readDescriptors (pre ++ (tables.flatMap descriptorBytes ++ post)) limit manifestFormatVersion tables.length
      pre.length = .ok (tables, pre.length + (tables.flatMap descriptorBytes).length) := by
  induction tables generalizing pre with
  | nil => rfl
  | cons d tables ih =>
    rw [List.flatMap_cons, List.length_append] at hlimit
    -- the descriptors that are left stand behind the first one
    have hrest := @ih (pre ++ descriptorBytes d) (fun d hd => h d (List.mem_cons_of_mem _ hd))
      (by rw [List.length_append]; omega)
    rw [List.append_assoc, List.length_append] at hrest
    rw [List.flatMap_cons, List.append_assoc, List.length_cons, readDescriptors,
      readDescriptor_eq (h d List.mem_cons_self) (by omega) hfits, Checked.ok_bind]
    dsimp only
    rw [hrest, Checked.ok_bind, List.length_append, add_assoc]

end Descriptors

/-! ### Reading back a manifest -/

section Manifests

variable {version : VersionSet} {bytes tail : Bytes} {bodyLen manifestId : ℕ}

@[simp] theorem manifestMagic_length : manifestMagic.length = 8 := by simp [manifestMagic]

@[simp] theorem manifestFields_length : (manifestFields version bodyLen).length = 84 := by simp [manifestFields]

@[simp] theorem manifestHeader_length : (manifestHeader version bodyLen).length = 88 := by simp [manifestHeader]

/-- A field of the header is where it stands in front of the checksum. -/
theorem slice_manifestHeader {i n : ℕ} (h : i + n ≤ 84) :
    slice (manifestHeader version bodyLen ++ tail) i n = slice (manifestFields version bodyLen) i n := by
  rw [manifestHeader, List.append_assoc]
  exact slice_append_left (by simpa using h)

theorem manifestFields_magic : slice (manifestFields version bodyLen) 0 8 = manifestMagic := by
  simp [manifestFields, slice_append_self]

theorem manifestFields_version :
    slice (manifestFields version bodyLen) 8 2 = leBytes 2 manifestFormatVersion := by
  simp [manifestFields, slice_skip, slice_append_self]

theorem manifestFields_headerLen :
    slice (manifestFields version bodyLen) 10 2 = leBytes 2 manifestHeaderLen := by
  simp [manifestFields, slice_skip, slice_append_self]

theorem manifestFields_reserved : slice (manifestFields version bodyLen) 12 4 = leBytes 4 0 := by
  simp [manifestFields, slice_skip, slice_append_self]

theorem manifestFields_manifestId :
    slice (manifestFields version bodyLen) 16 8 = leBytes 8 version.manifestId := by
  simp [manifestFields, slice_skip, slice_append_self]

theorem manifestFields_durable :
    slice (manifestFields version bodyLen) 24 8 = leBytes 8 version.durableSequence := by
  simp [manifestFields, slice_skip, slice_append_self]

theorem manifestFields_count :
    slice (manifestFields version bodyLen) 32 8 = leBytes 8 version.tables.length := by
  simp [manifestFields, slice_skip, slice_append_self]

theorem manifestFields_bodyLen : slice (manifestFields version bodyLen) 40 8 = leBytes 8 bodyLen := by
  simp [manifestFields, slice_skip, slice_append_self]

theorem manifestFields_walId : slice (manifestFields version bodyLen) 48 8 = leBytes 8 version.walId := by
  simp [manifestFields, slice_skip, slice_append_self]

theorem manifestFields_walFirst :
    slice (manifestFields version bodyLen) 56 8 = leBytes 8 version.walFirstSequence := by
  simp [manifestFields, slice_skip, slice_append_self]

theorem manifestFields_tombstone :
    slice (manifestFields version bodyLen) 64 8 = leBytes 8 version.tombstoneGcSequence := by
  simp [manifestFields, slice_skip, slice_append_self]

theorem manifestFields_watermark :
    slice (manifestFields version bodyLen) 72 8 = leBytes 8 version.tableIdHighWatermark := by
  simp [manifestFields, slice_skip, slice_append_self]

theorem manifestFields_trailing : slice (manifestFields version bodyLen) 80 4 = leBytes 4 0 := by
  simp [manifestFields, slice_skip, slice_self]

/-- The numbers of a version set are 64 bits wide. -/
structure Wide (version : VersionSet) : Prop where
  manifestId : version.manifestId < 256 ^ 8
  durableSequence : version.durableSequence < 256 ^ 8
  tombstoneGcSequence : version.tombstoneGcSequence < 256 ^ 8
  tableIdHighWatermark : version.tableIdHighWatermark < 256 ^ 8
  walId : version.walId < 256 ^ 8
  walFirstSequence : version.walFirstSequence < 256 ^ 8

theorem readManifestHeader_eq (h : Wide version) (htail : 4 ≤ tail.length) :
    readManifestHeader (manifestHeader version bodyLen ++ tail) =
      .ok ⟨manifestHeaderLen, version.walId, version.walFirstSequence, version.tombstoneGcSequence,
        some version.tableIdHighWatermark⟩ := by
  have hzero : allZero (leBytes 4 0) = true := by decide
  have hlen : manifestHeaderLen + 4 ≤ 88 + tail.length := by
    rw [manifestHeaderLen]
    omega
  have hall : slice (manifestHeader version bodyLen ++ tail) 0 84 = manifestFields version bodyLen := by
    rw [slice_manifestHeader le_rfl]
    exact slice_self manifestFields_length
  have hcrc : slice (manifestHeader version bodyLen ++ tail) 84 4 =
      leBytes 4 (crc32 (manifestFields version bodyLen)) := by
    rw [manifestHeader, List.append_assoc]
    exact slice_append_middle manifestFields_length (leBytes_length _ _)
  unfold readManifestHeader
  simp only [slice_manifestHeader, manifestFields_version, manifestFields_headerLen, manifestFields_reserved,
    manifestFields_walId, manifestFields_walFirst, manifestFields_tombstone, manifestFields_watermark,
    manifestFields_trailing, hall, hcrc, hzero, leNat_leBytes (crc32_lt _), leNat_leBytes h.walId,
    leNat_leBytes h.walFirstSequence, leNat_leBytes h.tombstoneGcSequence, leNat_leBytes h.tableIdHighWatermark,
    Nat.reduceAdd, Nat.reduceLeDiff]
  have hversion : leNat (leBytes 2 manifestFormatVersion) = manifestFormatVersion := by decide
  have hheader : leNat (leBytes 2 manifestHeaderLen) = manifestHeaderLen := by decide
  rw [hversion, hheader, if_neg (by decide), if_neg (by decide), if_neg (by decide), if_pos rfl]
  simp [hlen]

theorem manifestBytes_eq_ok : manifestBytes version = .ok bytes ↔
    validateVersionSet version = .ok () ∧ version.tables.forM encodeDescriptor = .ok () ∧
      (version.tables.flatMap descriptorBytes).length < u64Limit ∧ version.tables.length < u64Limit ∧
      bytes = manifestContent version ++ leBytes 4 (crc32 (manifestContent version)) := by
  simp only [manifestBytes, Checked.bind_eq_ok, failWhen_eq_ok, exists_const, not_le, Except.ok.injEq]
  constructor
  · rintro ⟨_, hvalid, _, hdescriptors, hbody, hcount, rfl⟩
    exact ⟨hvalid, hdescriptors, hbody, hcount, rfl⟩
  · rintro ⟨hvalid, hdescriptors, hbody, hcount, rfl⟩
    exact ⟨(), hvalid, (), hdescriptors, hbody, hcount, rfl⟩

/-- **A manifest is read back**, without the generation, which `CURRENT` has. -/
theorem readManifestBytes_eq (hwide : Wide version) (hstorable : ∀ d ∈ version.tables, Storable d)
    (hbytes : manifestBytes version = .ok bytes) (hfits : bytes.length < u64Limit) :
    readManifestBytes version.manifestId bytes = .ok version.written := by
  obtain ⟨hvalid, -, hbody, hcount, rfl⟩ := manifestBytes_eq_ok.1 hbytes
  have hlimit : u64Limit = 256 ^ 8 := by
    rw [u64Limit_eq]
    norm_num
  have hbytes : manifestContent version ++ leBytes 4 (crc32 (manifestContent version)) =
      manifestHeader version (version.tables.flatMap descriptorBytes).length ++
        (version.tables.flatMap descriptorBytes ++ leBytes 4 (crc32 (manifestContent version))) := by
    rw [← List.append_assoc, manifestContent]
  have hlen : (manifestContent version).length = 88 + (version.tables.flatMap descriptorBytes).length := by
    rw [manifestContent, List.length_append, manifestHeader_length]
  rw [List.length_append, leBytes_length, hlen] at hfits
  have htake : (manifestContent version ++ leBytes 4 (crc32 (manifestContent version))).take
      (88 + (version.tables.flatMap descriptorBytes).length) = manifestContent version :=
    List.take_left' hlen
  have hcrc : slice (manifestContent version ++ leBytes 4 (crc32 (manifestContent version)))
      (88 + (version.tables.flatMap descriptorBytes).length) 4 = leBytes 4 (crc32 (manifestContent version)) := by
    have hat := @slice_append_right (manifestContent version) (leBytes 4 (crc32 (manifestContent version)))
      (88 + (version.tables.flatMap descriptorBytes).length) 4 0 hlen
    rw [Nat.add_zero] at hat
    rw [hat, slice_self (leBytes_length _ _)]
  have htables := @readDescriptors_eq (manifestHeader version (version.tables.flatMap descriptorBytes).length)
    (leBytes 4 (crc32 (manifestContent version))) (88 + (version.tables.flatMap descriptorBytes).length)
    version.tables hstorable (by rw [manifestHeader_length]) (by omega)
  rw [manifestHeader_length, ← hbytes] at htables
  have hheader := @readManifestHeader_eq version
    (version.tables.flatMap descriptorBytes ++ leBytes 4 (crc32 (manifestContent version)))
    (version.tables.flatMap descriptorBytes).length hwide (by simp)
  rw [← hbytes] at hheader
  have hfield : ∀ {i n : ℕ}, i + n ≤ 84 →
      slice (manifestContent version ++ leBytes 4 (crc32 (manifestContent version))) i n =
        slice (manifestFields version (version.tables.flatMap descriptorBytes).length) i n := by
    intro i n h
    rw [hbytes, slice_manifestHeader h]
  have hoffset : (manifestContent version ++ leBytes 4 (crc32 (manifestContent version))).length - 4 =
      88 + (version.tables.flatMap descriptorBytes).length := by
    rw [List.length_append, leBytes_length, hlen, Nat.add_sub_cancel]
  have hversion : leNat (leBytes 2 manifestFormatVersion) = manifestFormatVersion := by decide
  -- the checks in the order of the source: lengths, both checksums, the descriptors, the version set
  unfold readManifestBytes
  simp only [hheader, hoffset, htake, hcrc, Checked.ok_bind, hfield, manifestFields_magic, manifestFields_version,
    manifestFields_manifestId, manifestFields_durable, manifestFields_count, manifestFields_bodyLen, hversion,
    leNat_leBytes hwide.manifestId, leNat_leBytes hwide.durableSequence, leNat_leBytes (hcount.trans_eq hlimit),
    leNat_leBytes (hbody.trans_eq hlimit), leNat_leBytes (crc32_lt _), Nat.reduceAdd, Nat.reduceLeDiff,
    show manifestHeaderLen = 88 from rfl, htables, Option.getD_some]
  have hwritten : validateVersionSet version.written = .ok () := hvalid
  simp only [Checked.bind_eq_ok, checkedAdd_eq_ok, failWhen_eq_ok, not_not, not_lt, ne_eq]
  refine ⟨(), ?_, (), trivial, (), trivial, _, ⟨by omega, rfl⟩, _, ⟨by omega, rfl⟩, (), ?_, (), trivial, (), trivial,
    (), hwritten, rfl⟩
  · rw [List.length_append, leBytes_length, hlen, manifestHeaderLenV1]
    omega
  · rw [List.length_append, leBytes_length, hlen]

/-- **What is read satisfies `validate_version_set`**, in each version of the format. -/
theorem readManifestBytes_valid (h : readManifestBytes manifestId bytes = .ok version) :
    validateVersionSet version = .ok () ∧ version.manifestId = manifestId := by
  unfold readManifestBytes at h
  simp only [Checked.bind_eq_ok, Prod.exists, Except.ok.injEq] at h
  obtain ⟨_, -, _, -, header, -, _, -, bodyEnd, -, expectedLen, -, _, -, _, -, tables, offset, -, _, -, _, hvalid,
    rfl⟩ := h
  exact ⟨hvalid, rfl⟩

/-- The bounds of a version set that its types and its tables give. -/
structure Writable (version : VersionSet) : Prop where
  wide : Wide version
  tables : ∀ d ∈ version.tables, d.tableId < 256 ^ 8 ∧ d.durableSequence < 256 ^ 8 ∧
    (d.fileBytes ≠ 0 ∧ d.fileBytes < 256 ^ 8) ∧ (d.entryCount ≠ 0 ∧ d.entryCount < 256 ^ 8) ∧
    d.smallestKey.length ≤ maxKeyBytes ∧ d.largestKey.length ≤ maxKeyBytes ∧ d.smallestKey ≤ d.largestKey

theorem validateTables_each {tables : List SstableDescriptor} {previousId previousDurable level1 : ℕ} {u : Unit}
    (h : validateTables tables previousId previousDurable level1 = .ok u) :
    ∀ d ∈ tables, d.level ≤ 1 ∧ d.tableId ≠ 0 ∧ d.durableSequence ≠ 0 := by
  induction tables generalizing previousId previousDurable level1 with
  | nil => simp
  | cons descriptor rest ih =>
    rw [validateTables] at h
    simp only [Checked.bind_eq_ok, failWhen_eq_ok, not_le, not_lt] at h
    obtain ⟨-, hlevel, -, -, -, hid, -, hdurable, hrest⟩ := h
    intro d hd
    rcases List.mem_cons.1 hd with rfl | hd
    · exact ⟨hlevel, by omega, by omega⟩
    · exact ih hrest d hd

theorem storable_of_valid (hvalid : validateVersionSet version = .ok ()) (h : Writable version) :
    ∀ d ∈ version.tables, Storable d := by
  have htables : ∃ u, validateTables version.tables 0 0 0 = .ok u := by
    unfold validateVersionSet at hvalid
    simp only [Checked.bind_eq_ok, failWhen_eq_ok] at hvalid
    obtain ⟨-, -, -, -, -, -, -, -, u, htables, -⟩ := hvalid
    exact ⟨u, htables⟩
  obtain ⟨u, htables⟩ := htables
  intro d hd
  obtain ⟨hlevel, hid, hdurable⟩ := validateTables_each htables d hd
  obtain ⟨hid', hdurable', hbytes, hcount, hsmallest, hlargest, hordered⟩ := h.tables d hd
  exact ⟨⟨hid, hid'⟩, hbytes, hcount, ⟨hdurable, hdurable'⟩, hlevel, hsmallest, hlargest, hordered⟩

/-- Such a version set is written, unless its file would be too long for any vector of bytes. -/
theorem exists_manifestBytes (hvalid : validateVersionSet version = .ok ()) (h : Writable version)
    (hbody : (version.tables.flatMap descriptorBytes).length < u64Limit) :
    ∃ bytes, manifestBytes version = .ok bytes ∧
      bytes.length = 92 + (version.tables.flatMap descriptorBytes).length := by
  have hstorable := storable_of_valid hvalid h
  have hencode : version.tables.forM encodeDescriptor = .ok () := by
    rw [Checked.forM_eq_ok]
    intro d hd
    obtain ⟨-, -, -, -, hlevel, hsmallest, hlargest, -⟩ := hstorable d hd
    simp only [encodeDescriptor, Checked.bind_eq_ok, failWhen_eq_ok, not_lt, not_or]
    exact ⟨(), hlevel, hsmallest, hlargest⟩
  -- no descriptor is empty, so the number of tables fits if the body does
  have hcount : version.tables.length ≤ (version.tables.flatMap descriptorBytes).length := by
    generalize version.tables = tables
    induction tables with
    | nil => simp
    | cons d tables ih =>
      rw [List.flatMap_cons, List.length_append, descriptorBytes_length, List.length_cons]
      omega
  refine ⟨_, manifestBytes_eq_ok.2 ⟨hvalid, hencode, hbody, by omega, rfl⟩, ?_⟩
  rw [List.length_append, leBytes_length, manifestContent, List.length_append, manifestHeader_length]
  omega

end Manifests

end DbLab.Lsm
