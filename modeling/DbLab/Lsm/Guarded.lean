import DbLab.Lib.Requests
import DbLab.Lsm.ManifestCodec
import DbLab.Lsm.SsTableFile

/-!
# Parsing within bounds

`read_manifest` and `open` once more, with what the codecs of the two files leave out: an access outside the
bytes panics, so does a sum that overflows, and each collection is asked for with a capacity. On every file
the parsers do what the codecs say (`covers_readManifest`, `covers_openTable`), so that they do not panic. The
number of tables of a manifest, and that of entries of a table without a filter, are not checked before they
size a collection (`bounded_parsing`).
-/

namespace DbLab.Lsm.Guarded

open Parse (ofExcept withCapacity expect sub num copy)

/-- A sum of machine integers that is not checked. -/
def plus (m n : ℕ) : Parse DbError ℕ := Parse.lift (addAt u64Limit m n)

def fail (e : DbError) : Parse DbError Unit := ofExcept (.error e)

/-- A guard. -/
def guardWith (p : Prop) [Decidable p] (e : DbError) : Parse DbError Unit := ofExcept (failWhen p e)

/-- A guard whose error stands at a distance from an offset. -/
def guardPast (p : Prop) [Decidable p] (offset distance : ℕ) (reason : String) : Parse DbError Unit :=
  if p then do
    let at_ ← plus offset distance
    fail (corruptionAt at_ reason)
  else pure ()

/-- A guard whose error stands at a distance from an offset, which is checked. -/
def guardChecked (p : Prop) [Decidable p] (offset distance : ℕ) (overflow reason : String) : Parse DbError Unit :=
  if p then do
    let at_ ← ofExcept (checkedAdd offset distance (corruptionAt offset overflow))
    fail (corruptionAt at_ reason)
  else pure ()

/-! ### The manifest -/

/-- The reserved bytes and the checksum of a header of a version. -/
def checkManifestHeader (bytes : Bytes) (headerLen reservedAt : ℕ) (reason : String) : Parse DbError Unit := do
  let size ← num bytes 10 2
  let reserved ← sub bytes 12 16
  let trailing ← sub bytes reservedAt (headerLen - 4)
  guardWith (size ≠ headerLen ∨ ¬ allZero reserved ∨ ¬ allZero trailing) (.corruption 10 reason)
  let expected ← num bytes (headerLen - 4) 4
  let front ← sub bytes 0 (headerLen - 4)
  guardWith (crc32 front ≠ expected) (.corruption (headerLen - 4) "manifest header checksum mismatch")

/-- The header of a version. -/
def readManifestHeader (bytes : Bytes) : Parse DbError ManifestHeader := do
  let formatVersion ← num bytes 8 2
  if formatVersion = manifestFormatVersionV1 then do
    checkManifestHeader bytes manifestHeaderLenV1 48 "invalid v1 manifest header fields"
    pure ⟨manifestHeaderLenV1, 1, 1, 0, none⟩
  else if formatVersion = manifestFormatVersionV2 ∨ formatVersion = manifestFormatVersionV3 then do
    guardWith (bytes.length < manifestHeaderLenV4 + 4) (.corruption 10 "invalid v2/v3 manifest header fields")
    checkManifestHeader bytes manifestHeaderLenV4 64 "invalid v2/v3 manifest header fields"
    let walId ← num bytes 48 8
    let walFirstSequence ← num bytes 56 8
    pure ⟨manifestHeaderLenV4, walId, walFirstSequence, 0, none⟩
  else if formatVersion = manifestFormatVersionV4 then do
    guardWith (bytes.length < manifestHeaderLenV4 + 4) (.corruption 10 "invalid v4 manifest header fields")
    checkManifestHeader bytes manifestHeaderLenV4 72 "invalid v4 manifest header fields"
    let walId ← num bytes 48 8
    let walFirstSequence ← num bytes 56 8
    let tombstoneGcSequence ← num bytes 64 8
    pure ⟨manifestHeaderLenV4, walId, walFirstSequence, tombstoneGcSequence, none⟩
  else if formatVersion = manifestFormatVersion then do
    guardWith (bytes.length < manifestHeaderLen + 4) (.corruption 10 "invalid v5 manifest header fields")
    checkManifestHeader bytes manifestHeaderLen 80 "invalid v5 manifest header fields"
    let walId ← num bytes 48 8
    let walFirstSequence ← num bytes 56 8
    let tombstoneGcSequence ← num bytes 64 8
    let watermark ← num bytes 72 8
    pure ⟨manifestHeaderLen, walId, walFirstSequence, tombstoneGcSequence, some watermark⟩
  else ofExcept (.error (.unsupportedVersion "LSM manifest" formatVersion manifestFormatVersion))

/-- Where the lengths of the keys stand, and the level. -/
def descriptorLayout (formatVersion offset : ℕ) (front : Bytes) : Parse DbError (ℕ × ℕ × ℕ) :=
  if formatVersion ≤ manifestFormatVersionV2 then pure (0, 32, 36)
  else do
    let reserved ← num front 36 4
    guardPast (reserved ≠ 0) offset 36 "manifest descriptor reserved field is nonzero"
    let level ← num front 32 4
    pure (level, 40, 44)

/-- Source `decode_descriptor`. -/
def decodeDescriptor (bytes : Bytes) (offset limit formatVersion : ℕ) : Parse DbError (SstableDescriptor × ℕ) := do
  let frontLen := if formatVersion ≤ manifestFormatVersionV2 then legacyDescriptorPrefixLen else descriptorPrefixLen
  let frontEnd ← ofExcept (checkedAdd offset frontLen (.corruption offset "manifest descriptor extent overflowed"))
  guardWith (limit < frontEnd) (.corruption offset "truncated manifest descriptor prefix")
  let front ← sub bytes offset frontEnd
  let layout ← descriptorLayout formatVersion offset front
  let smallestLen ← num front layout.2.1 4
  let largestLen ← num front layout.2.2 4
  guardPast (1 < layout.1) offset 32 "manifest SSTable level exceeds implemented L1 policy"
  guardPast (maxKeyBytes < smallestLen ∨ maxKeyBytes < largestLen) offset layout.2.1
    "manifest key bound exceeds common key limit"
  let smallestEnd ← ofExcept (checkedAdd frontEnd smallestLen
    (.corruption offset "manifest smallest-key extent overflowed"))
  let largestEnd ← ofExcept (checkedAdd smallestEnd largestLen
    (.corruption offset "manifest largest-key extent overflowed"))
  let descriptorEnd ← ofExcept (checkedAdd largestEnd 4
    (.corruption offset "manifest descriptor checksum extent overflowed"))
  guardWith (limit < descriptorEnd) (.corruption offset "truncated manifest descriptor")
  let expected ← num bytes largestEnd 4
  let content ← sub bytes offset largestEnd
  guardWith (crc32 content ≠ expected) (.corruption largestEnd "manifest descriptor checksum mismatch")
  let tableId ← num front 0 8
  let fileBytes ← num front 8 8
  let entryCount ← num front 16 8
  let durableSequence ← num front 24 8
  let smallestKey ← copy bytes frontEnd smallestEnd
  let largestKey ← copy bytes smallestEnd largestEnd
  let descriptor : SstableDescriptor :=
    { tableId := tableId
      level := layout.1
      fileBytes := fileBytes
      entryCount := entryCount
      durableSequence := durableSequence
      smallestKey := smallestKey
      largestKey := largestKey }
  guardWith (descriptor.tableId = 0 ∨ descriptor.fileBytes = 0 ∨ descriptor.entryCount = 0 ∨
      descriptor.durableSequence = 0 ∨ descriptor.largestKey < descriptor.smallestKey)
    (.corruption offset "invalid manifest SSTable descriptor values")
  pure (descriptor, descriptorEnd)

/-- The loop of `read_manifest` over the descriptors. -/
def readDescriptors (bytes : Bytes) (limit formatVersion : ℕ) : ℕ → ℕ → Parse DbError (List SstableDescriptor × ℕ)
  | 0, offset => pure ([], offset)
  | count + 1, offset => do
    let first ← decodeDescriptor bytes offset limit formatVersion
    let rest ← readDescriptors bytes limit formatVersion count first.2
    pure (first.1 :: rest.1, rest.2)

/-- What stands in front of the descriptors: the header and the durable sequence, the number of tables, the
version, and where the descriptors end. -/
structure ManifestFront where
  header : ManifestHeader
  formatVersion : ℕ
  durableSequence : ℕ
  tableCount : ℕ
  crcOffset : ℕ

/-- Source `read_manifest`, in front of its loop. -/
def readManifestFront (manifestId : ℕ) (bytes : Bytes) : Parse DbError ManifestFront := do
  guardWith (bytes.length < manifestHeaderLenV1 + 4) (corruption "truncated manifest")
  let magic ← sub bytes 0 8
  guardWith (magic ≠ manifestMagic) (corruption "invalid manifest magic")
  let header ← readManifestHeader bytes
  let formatVersion ← num bytes 8 2
  let encodedManifestId ← num bytes 16 8
  guardWith (encodedManifestId ≠ manifestId) (.corruption 16 "manifest id does not match filename/CURRENT")
  let durableSequence ← num bytes 24 8
  let tableCount ← num bytes 32 8
  let bodyLen ← num bytes 40 8
  let bodyEnd ← ofExcept (checkedAdd header.headerLen bodyLen
    (.corruption 40 "manifest extent arithmetic overflowed usize"))
  let expectedLen ← ofExcept (checkedAdd bodyEnd 4 (.corruption 40 "manifest extent arithmetic overflowed usize"))
  guardWith (expectedLen ≠ bytes.length) (.corruption 40 "manifest body length does not match physical file")
  let crcOffset := bytes.length - 4
  let expected ← num bytes crcOffset 4
  let content ← sub bytes 0 crcOffset
  guardWith (crc32 content ≠ expected) (.corruption crcOffset "manifest file checksum mismatch")
  pure ⟨header, formatVersion, durableSequence, tableCount, crcOffset⟩

/-- The version set that the front and the descriptors make. -/
def ManifestFront.versionSet (front : ManifestFront) (manifestId : ℕ) (tables : List SstableDescriptor) : VersionSet :=
  { currentGeneration := 0
    manifestId := manifestId
    durableSequence := front.durableSequence
    tombstoneGcSequence := front.header.tombstoneGcSequence
    tableIdHighWatermark := front.header.encodedTableIdHighWatermark.getD (legacyWatermark tables front.durableSequence)
    walId := front.header.walId
    walFirstSequence := front.header.walFirstSequence
    tables := tables }

/-- Source `read_manifest`. -/
def readManifest (manifestId : ℕ) (bytes : Bytes) : Parse DbError VersionSet := do
  let front ← readManifestFront manifestId bytes
  withCapacity front.tableCount
  let read ← readDescriptors bytes front.crcOffset front.formatVersion front.tableCount front.header.headerLen
  guardWith (read.2 ≠ front.crcOffset) (.corruption read.2 "manifest contains unexplained descriptor bytes")
  ofExcept (validateVersionSet (front.versionSet manifestId read.1))
  pure (front.versionSet manifestId read.1)

/-! ### Tables -/

/-- Source `parse_header`. -/
def parseHeader (bytes : Bytes) : Parse DbError TableHeader := do
  guardWith (bytes.length ≠ sstableHeaderLen) (corruption "invalid SSTable header length")
  let magic ← sub bytes 0 8
  guardWith (magic ≠ sstableMagic) (corruption "invalid SSTable magic")
  let version ← num bytes 8 2
  guardWith (version ≠ legacyFormatVersion ∧ version ≠ sstableFormatVersion)
    (.unsupportedVersion "LSM SSTable" version sstableFormatVersion)
  let size ← num bytes 10 2
  guardWith (size ≠ sstableHeaderLen) (corruptionAt 10 "invalid SSTable header-size field")
  let reserved ← sub bytes 12 16
  let trailing ← sub bytes 56 60
  guardWith (reserved ≠ leBytes 4 0 ∨ trailing ≠ leBytes 4 0) (corruptionAt 12 "nonzero reserved SSTable header bytes")
  let expected ← num bytes 60 4
  let front ← sub bytes 0 60
  guardWith (crc32 front ≠ expected) (corruptionAt 60 "SSTable header checksum mismatch")
  let tableId ← num bytes 16 8
  let entryCount ← num bytes 24 8
  let dataOffset ← num bytes 32 8
  let indexOffset ← num bytes 40 8
  let footerOffset ← num bytes 48 8
  pure ⟨version, tableId, entryCount, dataOffset, indexOffset, footerOffset⟩

/-- Source `parse_footer`. -/
def parseFooter (bytes : Bytes) (offset : ℕ) : Parse DbError TableFooter := do
  guardWith (bytes.length ≠ sstableFooterLen) (corruptionAt offset "invalid SSTable footer")
  let magic ← sub bytes 0 8
  guardWith (magic ≠ sstableFooterMagic) (corruptionAt offset "invalid SSTable footer")
  let version ← num bytes 8 2
  guardWith (version ≠ legacyFormatVersion ∧ version ≠ sstableFormatVersion)
    (.unsupportedVersion "LSM SSTable" version sstableFormatVersion)
  let size ← num bytes 10 2
  let reserved ← sub bytes 12 16
  guardPast (size ≠ sstableFooterLen ∨ reserved ≠ leBytes 4 0) offset 10 "invalid SSTable footer fields"
  let expected ← num bytes 60 4
  let front ← sub bytes 0 60
  guardPast (crc32 front ≠ expected) offset 60 "SSTable footer checksum mismatch"
  let tableId ← num bytes 16 8
  let entryCount ← num bytes 24 8
  let indexOffset ← num bytes 32 8
  let footerOffset ← num bytes 40 8
  let durableSequence ← num bytes 48 8
  let wholeCrc ← num bytes 56 4
  pure ⟨version, tableId, entryCount, indexOffset, footerOffset, durableSequence, wholeCrc⟩

/-- Source `BloomFilter::decode`. -/
def decodeBloom (bytes : Bytes) (offset expectedKeyCount : ℕ) : Parse DbError BloomFilter := do
  guardWith (bytes.length < filterHeaderLen + filterTrailerLen) (corruptionAt offset "truncated Bloom filter section")
  let magic ← sub bytes 0 8
  guardWith (magic ≠ filterMagic) (corruptionAt offset "Bloom filter magic mismatch")
  let version ← num bytes 8 2
  guardWith (version ≠ filterVersion) (.unsupportedVersion "LSM Bloom filter" version filterVersion)
  let size ← num bytes 10 2
  guardPast (size ≠ filterHeaderLen) offset 10 "Bloom header length is not canonical"
  let algorithm ← num bytes 12 1
  guardPast (algorithm ≠ hashAlgorithmFnv64Double) offset 12 "unknown Bloom hash algorithm"
  let probes ← num bytes 13 1
  guardPast (probes ≠ hashProbes) offset 13 "Bloom probe count is not canonical"
  let flags ← num bytes 14 2
  guardPast (flags ≠ 0) offset 14 "Bloom flags are nonzero"
  let bitCount ← num bytes 16 8
  let keyCount ← num bytes 24 8
  let payloadLen ← num bytes 32 4
  let expectedHeader ← num bytes 36 4
  let header ← sub bytes 0 36
  guardPast (crc32 header ≠ expectedHeader) offset 36 "Bloom header checksum mismatch"
  guardPast (keyCount ≠ expectedKeyCount) offset 24
    s!"Bloom key count {keyCount} does not match SSTable entry count {expectedKeyCount}"
  let canonicalBits ← ofExcept (canonicalBitCount keyCount)
  guardPast (bitCount ≠ canonicalBits ∨ bitCount % 8 ≠ 0) offset 16 "Bloom bit count is not canonical"
  guardPast (payloadLen ≠ bitCount / 8) offset 32 "Bloom payload length disagrees with bit count"
  let payloadEnd ← ofExcept (checkedAdd filterHeaderLen payloadLen
    (corruptionAt offset "Bloom payload extent overflowed usize"))
  let expectedLen ← ofExcept (checkedAdd payloadEnd filterTrailerLen
    (corruptionAt offset "Bloom section extent overflowed usize"))
  guardWith (bytes.length ≠ expectedLen) (corruptionAt offset "Bloom section is not an exact canonical extent")
  let expected ← num bytes payloadEnd filterTrailerLen
  let content ← sub bytes 0 payloadEnd
  guardChecked (crc32 content ≠ expected) offset payloadEnd "Bloom checksum offset overflowed u64"
    "Bloom section checksum mismatch"
  let bits ← copy bytes filterHeaderLen payloadEnd
  pure ⟨bitCount, keyCount, bits⟩

/-- Source `may_contain`, which stops at the first bit that is not set. -/
def mayContain (filter : BloomFilter) (key : Bytes) : Parse DbError Bool :=
  if filter.bitCount = 0 then expect none
  else (probePositions key filter.bitCount).foldr (fun bit rest =>
    if filter.bits.length ≤ bit / 8 then expect none
    else if BloomFilter.hasBit filter.bits bit then rest
    else pure false) (pure true)

/-- Whether the filter lacks a key of the index. -/
def lacksKey (filter : BloomFilter) : List IndexEntry → Parse DbError Bool
  | [] => pure false
  | e :: rest => do
    let present ← mayContain filter e.key
    if present then lacksKey filter rest else pure true

/-- Source `EntryKind::decode`, at a distance from an offset. -/
def decodeKind (encoded offset distance : ℕ) : Parse DbError EntryKind := do
  let at_ ← plus offset distance
  ofExcept (EntryKind.decode encoded at_)

/-- The value of a record, which a tombstone does not have. -/
def copyValue (kind : EntryKind) (bytes : Bytes) (start stop : ℕ) : Parse DbError (Option Bytes) :=
  match kind with
  | .put => do
    let value ← copy bytes start stop
    pure (some value)
  | .delete => pure none

/-- Source `decode_record`, with the offset. -/
def decodeRecord (bytes : Bytes) (limit offset : ℕ) : Parse DbError (TableRecord × ℕ) := do
  let headerEnd ← ofExcept (extentAdd offset tableRecordHeaderLen offset)
  guardWith (limit < headerEnd ∨ bytes.length < headerEnd) (corruptionAt offset "truncated SSTable record header")
  let header ← sub bytes offset headerEnd
  let magic ← sub header 0 4
  let version ← num header 4 1
  let reserved ← sub header 6 8
  guardWith (magic ≠ tableRecordMagic ∨ version ≠ tableRecordVersion ∨ reserved ≠ leBytes 2 0)
    (corruptionAt offset "invalid SSTable record header")
  let expectedHeader ← num header 24 4
  let fields ← sub header 0 24
  guardPast (crc32 fields ≠ expectedHeader) offset 24 "SSTable record header checksum mismatch"
  let encodedKind ← num header 5 1
  let kind ← decodeKind encodedKind offset 5
  let sequence ← num header 8 8
  let keyLen ← num header 16 4
  let valueLen ← num header 20 4
  guardWith (maxKeyBytes < keyLen ∨ maxValueBytes < valueLen)
    (corruptionAt offset "SSTable record exceeds common key/value bounds")
  guardPast (kind = .delete ∧ valueLen ≠ 0) offset 20 "SSTable tombstone carries a value"
  let keyEnd ← ofExcept (extentAdd headerEnd keyLen offset)
  let payloadEnd ← ofExcept (extentAdd keyEnd valueLen offset)
  let recordEnd ← ofExcept (extentAdd payloadEnd 4 offset)
  guardWith (limit < recordEnd ∨ bytes.length < recordEnd) (corruptionAt offset "truncated SSTable record payload")
  let expected ← num bytes payloadEnd 4
  let content ← sub bytes offset payloadEnd
  guardWith (crc32 content ≠ expected) (corruptionAt payloadEnd "SSTable record checksum mismatch")
  let keyStop ← plus headerEnd keyLen
  let key ← copy bytes headerEnd keyStop
  let value ← copyValue kind bytes keyStop payloadEnd
  pure ((key, ⟨sequence, value⟩, offset), recordEnd)

/-- Source `decode_index_entry`. -/
def decodeIndexEntry (bytes : Bytes) (limit offset : ℕ) : Parse DbError (IndexEntry × ℕ) := do
  let prefixEnd ← ofExcept (extentAdd offset indexPrefixLen offset)
  guardWith (limit < prefixEnd ∨ bytes.length < prefixEnd) (corruptionAt offset "truncated SSTable index prefix")
  let front ← sub bytes offset prefixEnd
  let keyLen ← num front 0 4
  let version ← num front 5 1
  let reserved ← sub front 6 8
  guardWith (maxKeyBytes < keyLen ∨ version ≠ indexVersion ∨ reserved ≠ leBytes 2 0)
    (corruptionAt offset "invalid SSTable index entry")
  let encodedKind ← num front 4 1
  let kind ← decodeKind encodedKind offset 4
  let sequence ← num front 8 8
  let recordOffset ← num front 16 8
  let keyEnd ← ofExcept (extentAdd prefixEnd keyLen offset)
  let entryEnd ← ofExcept (extentAdd keyEnd 4 offset)
  guardWith (limit < entryEnd ∨ bytes.length < entryEnd) (corruptionAt offset "truncated SSTable index key/checksum")
  let expected ← num bytes keyEnd 4
  let content ← sub bytes offset keyEnd
  guardWith (crc32 content ≠ expected) (corruptionAt keyEnd "SSTable index checksum mismatch")
  let key ← copy bytes prefixEnd keyEnd
  pure (⟨key, sequence, kind, recordOffset⟩, entryEnd)

/-- Source `open`, in front of the filter. -/
def openFront (descriptor : SstableDescriptor) (bytes : Bytes) : Parse DbError TableHeader := do
  guardWith (bytes.length ≠ descriptor.fileBytes) (corruption
    s!"SSTable {descriptor.tableId} length mismatch: manifest {descriptor.fileBytes}, file {bytes.length}")
  guardWith (bytes.length < sstableHeaderLen + sstableFooterLen) (corruption "truncated SSTable header/footer")
  let front ← sub bytes 0 sstableHeaderLen
  let header ← parseHeader front
  guardWith (header.tableId ≠ descriptor.tableId ∨ header.entryCount ≠ descriptor.entryCount)
    (corruption "SSTable header does not match manifest descriptor")
  let footerEnd ← ofExcept (checkedAdd header.footerOffset sstableFooterLen
    (corruptionAt header.footerOffset "SSTable footer extent overflowed"))
  guardWith (footerEnd ≠ bytes.length)
    (corruptionAt header.footerOffset "SSTable footer is not the exact physical tail")
  let tail ← sub bytes header.footerOffset footerEnd
  let footer ← parseFooter tail header.footerOffset
  guardWith (footer.formatVersion ≠ header.formatVersion ∨ footer.tableId ≠ header.tableId ∨
      footer.entryCount ≠ header.entryCount ∨ footer.indexOffset ≠ header.indexOffset ∨
      footer.footerOffset ≠ header.footerOffset ∨ footer.durableSequence ≠ descriptor.durableSequence)
    (corruptionAt header.footerOffset "SSTable footer metadata disagrees with header/manifest")
  let content ← sub bytes 0 header.footerOffset
  guardPast (crc32 content ≠ footer.wholeCrc) header.footerOffset 56 "SSTable whole-file checksum mismatch"
  guardWith (header.footerOffset < header.indexOffset ∨ header.indexOffset < header.dataOffset)
    (corruption "invalid SSTable data/index extent ordering")
  pure header

/-- The filter of the table. -/
def readBloom (header : TableHeader) (bytes : Bytes) : Parse DbError (Option BloomFilter) :=
  if header.formatVersion = legacyFormatVersion then do
    guardWith (header.dataOffset ≠ sstableHeaderLen)
      (corruptionAt 32 "legacy SSTable v1 data must begin immediately after the header")
    pure none
  else if header.formatVersion = sstableFormatVersion then do
    guardWith (header.dataOffset ≤ sstableHeaderLen) (corruptionAt 32 "SSTable v2 is missing its Bloom section")
    let content ← sub bytes sstableHeaderLen header.dataOffset
    let bloom ← decodeBloom content sstableHeaderLen header.entryCount
    pure (some bloom)
  else expect none

/-- Source `open`, of the bytes of the file. -/
def openTable (descriptor : SstableDescriptor) (bytes : Bytes) : Parse DbError TableImage := do
  let header ← openFront descriptor bytes
  let bloom ← readBloom header bytes
  withCapacity header.entryCount
  let records ← Parse.readSorted Prod.fst (decodeRecord bytes header.indexOffset)
    (fun offset => corruptionAt offset "SSTable data keys are not strictly sorted") header.indexOffset
    header.indexOffset header.dataOffset none
  guardWith (records.2 ≠ header.indexOffset ∨ records.1.length ≠ header.entryCount)
    (corruptionAt header.indexOffset "SSTable data record count/extent mismatch")
  withCapacity header.entryCount
  let index ← Parse.readSorted IndexEntry.key (decodeIndexEntry bytes header.footerOffset)
    (fun offset => corruptionAt offset "SSTable index keys are not strictly sorted") header.footerOffset
    header.footerOffset header.indexOffset none
  guardWith (index.2 ≠ header.footerOffset ∨ index.1.length ≠ header.entryCount)
    (corruptionAt header.footerOffset "SSTable index record count/extent mismatch")
  ofExcept ((records.1.zip index.1).forM TableImage.describe)
  guardWith (index.1 = []) (corruption "manifest references empty SSTable")
  let last ← expect index.1.getLast?
  guardWith (index.1.head?.map IndexEntry.key ≠ some descriptor.smallestKey ∨ last.key ≠ descriptor.largestKey)
    (corruption "SSTable key bounds disagree with manifest descriptor")
  guardWith (descriptor.durableSequence < index.1.foldl (fun high e => max high e.sequence) 0)
    (corruption "SSTable entry sequence exceeds durable watermark")
  let lacking ← bloom.elim (pure false) fun filter => lacksKey filter index.1
  guardWith (lacking = true)
    (corruptionAt sstableHeaderLen "SSTable Bloom filter has a false negative for an indexed key")
  pure { descriptor := descriptor, bytes := bytes, index := index.1, bloom := bloom }

end DbLab.Lsm.Guarded
