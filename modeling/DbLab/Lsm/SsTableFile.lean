import DbLab.Lib.Laid
import DbLab.Lsm.SsTableCodec

/-!
# Files of sorted tables

The file that `create_new_with_format` writes, and what `open` reads from it. An open table keeps the bytes
of its file and an index, and decodes a record when it is asked for: `Describes` says to which map the
index leads. Every table that opens describes a map (`openBytes_spec`), and the table of a file within the
limits the map that was written (`sstable_round_trip`). The first version of the format has no filter.
-/

namespace DbLab.Lsm

/-! ### Tables -/

/-- An open table: the bytes of its file with its index. -/
structure TableImage where
  descriptor : SstableDescriptor
  bytes : Bytes
  index : List IndexEntry
  bloom : Option BloomFilter

namespace TableImage

/-- The section of the filter, which the first version does not have. -/
def bloomSection (formatVersion : ℕ) (entries : VersionMap) : Except DbError Bytes :=
  if formatVersion = sstableFormatVersion then do
    let bloom ← BloomFilter.build entries.keys entries.entries.length
    bloom.encode
  else .ok []

/-- The loop of `create_new_with_format` over the records. -/
def writeRecords : List (Bytes × VersionedEntry) → ℕ → Except DbError (List TableRecord × Bytes)
  | [], _ => .ok ([], [])
  | (key, entry) :: rest, offset => do
    validateEntryBounds (key, entry)
    failWhen (u64Limit ≤ offset) (corruption "SSTable record offset does not fit u64")
    let record ← encodeRecord key entry
    let (records, bytes) ← writeRecords rest (offset + record.length)
    .ok ((key, entry, offset) :: records, record ++ bytes)

/-- The loop of `create_new_with_format` over the index. -/
def writeIndex : List TableRecord → Except DbError Bytes
  | [] => .ok []
  | (key, entry, recordOffset) :: rest => do
    let first ← encodeIndexEntry key entry recordOffset
    let bytes ← writeIndex rest
    .ok (first ++ bytes)

/-- The file that `create_new_with_format` writes, and its descriptor. -/
def createBytes (formatVersion tableId level durableSequence : ℕ) (entries : VersionMap) :
    Except DbError (Bytes × SstableDescriptor) := do
  failWhen (entries.entries = []) (corruption "cannot create an empty SSTable")
  failWhen (formatVersion ≠ legacyFormatVersion ∧ formatVersion ≠ sstableFormatVersion)
    (corruption "cannot create unsupported SSTable format")
  failWhen (u64Limit ≤ entries.entries.length) (corruption "SSTable entry count does not fit u64")
  let bloom ← bloomSection formatVersion entries
  let dataOffset := sstableHeaderLen + bloom.length
  failWhen (u64Limit ≤ dataOffset) (corruption "SSTable data offset does not fit u64")
  let (records, data) ← writeRecords entries.entries dataOffset
  let indexOffset := dataOffset + data.length
  failWhen (u64Limit ≤ indexOffset) (corruption "SSTable index offset does not fit u64")
  let index ← writeIndex records
  let footerOffset := indexOffset + index.length
  failWhen (u64Limit ≤ footerOffset) (corruption "SSTable footer offset does not fit u64")
  failWhen (u64Limit ≤ footerOffset + sstableFooterLen) (corruption "SSTable size overflowed usize")
  let front := encodeHeader ⟨formatVersion, tableId, entries.entries.length, dataOffset, indexOffset, footerOffset⟩ ++
    (bloom ++ (data ++ index))
  let footer := encodeFooter ⟨formatVersion, tableId, entries.entries.length, indexOffset, footerOffset,
    durableSequence, crc32 front⟩
  .ok (front ++ footer,
    { tableId := tableId
      level := level
      fileBytes := (front ++ footer).length
      entryCount := entries.entries.length
      durableSequence := durableSequence
      smallestKey := (entries.keys.head?).getD []
      largestKey := (entries.keys.getLast?).getD [] })

/-- The filter that `open` reads: the first version has none, the second one has its section behind the header. -/
def readBloom (header : TableHeader) (bytes : Bytes) : Except DbError (Option BloomFilter) :=
  if header.formatVersion = legacyFormatVersion then do
    failWhen (header.dataOffset ≠ sstableHeaderLen)
      (corruptionAt 32 "legacy SSTable v1 data must begin immediately after the header")
    .ok none
  else do
    failWhen (header.dataOffset ≤ sstableHeaderLen) (corruptionAt 32 "SSTable v2 is missing its Bloom section")
    let bloom ← BloomFilter.decode (slice bytes sstableHeaderLen (header.dataOffset - sstableHeaderLen)) sstableHeaderLen
      header.entryCount
    .ok (some bloom)

/-- A record with its offset. -/
def decodeTableRecord (bytes : Bytes) (limit offset : ℕ) : Except DbError (TableRecord × ℕ) := do
  let (key, entry, next) ← decodeRecord bytes limit offset
  .ok ((key, entry, offset), next)

theorem decodeRecord_lt {bytes : Bytes} {limit offset next : ℕ} {key : Bytes} {entry : VersionedEntry}
    (h : decodeRecord bytes limit offset = .ok (key, entry, next)) : offset < next := by
  unfold decodeRecord extentAdd at h
  simp only [Checked.bind_eq_ok, checkedAdd_eq_ok, Except.ok.injEq, Prod.mk.injEq] at h
  obtain ⟨_, ⟨-, rfl⟩, -, -, -, -, -, -, _, -, -, -, -, -, _, ⟨-, rfl⟩, _, ⟨-, rfl⟩, _, ⟨-, rfl⟩, -, -, -, -, -, -, rfl⟩ := h
  omega

theorem decodeTableRecord_lt (bytes : Bytes) (limit offset : ℕ) (record : TableRecord) (next : ℕ)
    (h : decodeTableRecord bytes limit offset = .ok (record, next)) : offset < next := by
  unfold decodeTableRecord at h
  rw [Checked.bind_eq_ok] at h
  obtain ⟨⟨key, entry, last⟩, hdecode, h⟩ := h
  cases h
  exact decodeRecord_lt hdecode

theorem decodeIndexEntry_lt (bytes : Bytes) (limit offset : ℕ) (e : IndexEntry) (next : ℕ)
    (h : decodeIndexEntry bytes limit offset = .ok (e, next)) : offset < next := by
  unfold decodeIndexEntry extentAdd at h
  simp only [Checked.bind_eq_ok, checkedAdd_eq_ok, Except.ok.injEq, Prod.mk.injEq] at h
  obtain ⟨_, ⟨-, rfl⟩, -, -, -, -, _, -, _, ⟨-, rfl⟩, _, ⟨-, rfl⟩, -, -, -, -, -, rfl⟩ := h
  omega

/-- The loop of `open` over the records. -/
def readRecords (bytes : Bytes) (limit offset : ℕ) : Except DbError (List TableRecord × ℕ) :=
  readSorted Prod.fst (decodeTableRecord bytes limit) (decodeTableRecord_lt bytes limit)
    (fun offset => corruptionAt offset "SSTable data keys are not strictly sorted") limit offset none

/-- The loop of `open` over the index. -/
def readIndex (bytes : Bytes) (limit offset : ℕ) : Except DbError (List IndexEntry × ℕ) :=
  readSorted IndexEntry.key (decodeIndexEntry bytes limit) (decodeIndexEntry_lt bytes limit)
    (fun offset => corruptionAt offset "SSTable index keys are not strictly sorted") limit offset none

/-- An index entry describes a record. -/
def describe (pair : TableRecord × IndexEntry) : Except DbError Unit :=
  failWhen (pair.2 ≠ .of pair.1)
    (corruptionAt pair.2.recordOffset "SSTable index does not exactly describe data record")

/-- Source `open`, of the bytes of the file. -/
def openBytes (descriptor : SstableDescriptor) (bytes : Bytes) : Except DbError TableImage := do
  failWhen (bytes.length ≠ descriptor.fileBytes) (corruption
    s!"SSTable {descriptor.tableId} length mismatch: manifest {descriptor.fileBytes}, file {bytes.length}")
  failWhen (bytes.length < sstableHeaderLen + sstableFooterLen) (corruption "truncated SSTable header/footer")
  let header ← parseHeader (slice bytes 0 sstableHeaderLen)
  failWhen (header.tableId ≠ descriptor.tableId ∨ header.entryCount ≠ descriptor.entryCount)
    (corruption "SSTable header does not match manifest descriptor")
  let footerEnd ← checkedAdd header.footerOffset sstableFooterLen
    (corruptionAt header.footerOffset "SSTable footer extent overflowed")
  failWhen (footerEnd ≠ bytes.length) (corruptionAt header.footerOffset "SSTable footer is not the exact physical tail")
  let footer ← parseFooter (slice bytes header.footerOffset sstableFooterLen) header.footerOffset
  failWhen (footer.formatVersion ≠ header.formatVersion ∨ footer.tableId ≠ header.tableId ∨
      footer.entryCount ≠ header.entryCount ∨ footer.indexOffset ≠ header.indexOffset ∨
      footer.footerOffset ≠ header.footerOffset ∨ footer.durableSequence ≠ descriptor.durableSequence)
    (corruptionAt header.footerOffset "SSTable footer metadata disagrees with header/manifest")
  failWhen (crc32 (bytes.take header.footerOffset) ≠ footer.wholeCrc)
    (corruptionAt (header.footerOffset + 56) "SSTable whole-file checksum mismatch")
  failWhen (header.footerOffset < header.indexOffset ∨ header.indexOffset < header.dataOffset)
    (corruption "invalid SSTable data/index extent ordering")
  let bloom ← readBloom header bytes
  let (records, dataEnd) ← readRecords bytes header.indexOffset header.dataOffset
  failWhen (dataEnd ≠ header.indexOffset ∨ records.length ≠ header.entryCount)
    (corruptionAt header.indexOffset "SSTable data record count/extent mismatch")
  let (index, indexEnd) ← readIndex bytes header.footerOffset header.indexOffset
  failWhen (indexEnd ≠ header.footerOffset ∨ index.length ≠ header.entryCount)
    (corruptionAt header.footerOffset "SSTable index record count/extent mismatch")
  (records.zip index).forM describe
  failWhen (index = []) (corruption "manifest references empty SSTable")
  failWhen (index.head?.map IndexEntry.key ≠ some descriptor.smallestKey ∨
      index.getLast?.map IndexEntry.key ≠ some descriptor.largestKey)
    (corruption "SSTable key bounds disagree with manifest descriptor")
  failWhen (descriptor.durableSequence < index.foldl (fun high e => max high e.sequence) 0)
    (corruption "SSTable entry sequence exceeds durable watermark")
  failWhen (bloom.any fun filter => index.any fun e => ! filter.mayContain e.key)
    (corruptionAt sstableHeaderLen "SSTable Bloom filter has a false negative for an indexed key")
  .ok { descriptor := descriptor, bytes := bytes, index := index, bloom := bloom }

/-- Source `create_new_with_format`: the file, and the table that it opens. -/
def createNewWithFormat (formatVersion tableId level durableSequence : ℕ) (entries : VersionMap) :
    Except DbError (Bytes × TableImage) := do
  let (bytes, descriptor) ← createBytes formatVersion tableId level durableSequence entries
  let table ← openBytes descriptor bytes
  .ok (bytes, table)

/-- Source `get`. The index is sorted, so that the search finds the entry with the key if there is one. -/
def get (table : TableImage) (key : Bytes) : Except DbError (Option VersionedEntry) :=
  if key < table.descriptor.smallestKey ∨ table.descriptor.largestKey < key ∨
      table.bloom.any fun filter => ! filter.mayContain key then .ok none
  else
    match lookupBy IndexEntry.key key table.index with
    | none => .ok none
    | some entry => do
      let (_, decoded, _) ← decodeRecord table.bytes table.bytes.length entry.recordOffset
      .ok (some decoded)

/-- The loop of `overlay_range`, with the number of records that it has decoded. -/
def overlayIndex (bytes start : Bytes) (stop : Option Bytes) :
    List IndexEntry → ℕ → VersionMap → Except DbError (ℕ × VersionMap)
  | [], decodedRecords, visible => .ok (decodedRecords, visible)
  | entry :: rest, decodedRecords, visible =>
    if entry.key < start then overlayIndex bytes start stop rest decodedRecords visible
    else if stop.any fun bound => bound ≤ entry.key then .ok (decodedRecords, visible)
    else do
      let (key, decoded, _) ← decodeRecord bytes bytes.length entry.recordOffset
      overlayIndex bytes start stop rest (min (decodedRecords + 1) (u64Limit - 1)) (supersede visible (key, decoded))

/-- Source `overlay_range`. -/
def overlayRange (table : TableImage) (start : Bytes) (stop : Option Bytes) (visible : VersionMap) :
    Except DbError (ℕ × VersionMap) :=
  overlayIndex table.bytes start stop table.index 0 visible

/-! ### What an open table says -/

theorem decodeRecord_mono {bytes : Bytes} {limit limit' offset : ℕ} {r : TableRecord}
    (h : decodeRecord bytes limit offset = .ok r) (hle : limit ≤ limit') : decodeRecord bytes limit' offset = .ok r := by
  unfold decodeRecord at h ⊢
  simp only [Checked.bind_eq_ok, failWhen_eq_ok] at h ⊢
  obtain ⟨headerEnd, hheaderEnd, u, hheader, v, hmagic, w, hcrc, kind, hkind, x, hbounds, y, htombstone, keyEnd, hkeyEnd,
    payloadEnd, hpayloadEnd, recordEnd, hrecordEnd, z, hrecord, t, hrecordCrc, hresult⟩ := h
  exact ⟨headerEnd, hheaderEnd, u, by omega, v, hmagic, w, hcrc, kind, hkind, x, hbounds, y, htombstone, keyEnd, hkeyEnd,
    payloadEnd, hpayloadEnd, recordEnd, hrecordEnd, z, by omega, t, hrecordCrc, hresult⟩

/-- The index of a table leads to the entries of a map, its bounds and its filter admit their keys. -/
structure Describes (table : TableImage) (entries : VersionMap) : Prop where
  index : List.Forall₂ (fun e entry => entry.key = e.1 ∧
    ∃ next, decodeRecord table.bytes table.bytes.length entry.recordOffset = .ok (e.1, e.2, next))
    entries.entries table.index
  bounded : ∀ key ∈ entries.keys, table.descriptor.smallestKey ≤ key ∧ key ≤ table.descriptor.largestKey
  covered : ∀ filter ∈ table.bloom, ∀ key ∈ entries.keys, filter.mayContain key = true

variable {table : TableImage} {entries : VersionMap} {bytes start key : Bytes} {stop : Option Bytes}
  {visible : VersionMap} {n : ℕ}

/-- The search in the index finds the entry of the map, and its record. -/
theorem lookup_index {l : List (Bytes × VersionedEntry)} {index : List IndexEntry}
    (h : List.Forall₂ (fun e entry => entry.key = e.1 ∧
      ∃ next, decodeRecord bytes bytes.length entry.recordOffset = .ok (e.1, e.2, next)) l index) :
    (match lookupBy IndexEntry.key key index with
      | none => .ok none
      | some entry => do
        let (_, decoded, _) ← decodeRecord bytes bytes.length entry.recordOffset
        .ok (some decoded)) = (.ok ((lookupBy Prod.fst key l).map Prod.snd) : Except DbError (Option VersionedEntry)) := by
  induction h with
  | nil => rfl
  | @cons e entry l index hhead hrest ih =>
    obtain ⟨hkey, next, hdecode⟩ := hhead
    rw [lookupBy_cons, lookupBy_cons, hkey]
    by_cases heq : e.1 = key
    · rw [if_pos heq, if_pos heq]
      dsimp only
      rw [hdecode]
      rfl
    · rw [if_neg heq, if_neg heq]
      exact ih

/-- **A lookup** finds the entry of the map. -/
theorem Describes.get_eq (h : table.Describes entries) : table.get key = .ok (entries.find key) := by
  unfold get
  split_ifs with hout
  · cases hfind : entries.find key with
    | none => rfl
    | some entry =>
      have hmem : key ∈ entries.keys := by
        rw [SortedMap.mem_keys, hfind]
        rfl
      obtain ⟨hlow, hhigh⟩ := h.bounded key hmem
      rcases hout with hout | hout | hout
      · exact absurd hout hlow.not_gt
      · exact absurd hout hhigh.not_gt
      · obtain ⟨filter, hfilter, hneg⟩ := (Option.any_eq_true ..).1 hout
        rw [h.covered filter hfilter key hmem] at hneg
        cases hneg
  · exact lookup_index h.index

theorem overlayIndex_eq {l : List (Bytes × VersionedEntry)} {index : List IndexEntry}
    (h : List.Forall₂ (fun e entry => entry.key = e.1 ∧
      ∃ next, decodeRecord bytes bytes.length entry.recordOffset = .ok (e.1, e.2, next)) l index) :
    ∃ decoded, overlayIndex bytes start stop index n visible =
      .ok (decoded, SsTable.overlayEntries start stop l visible) := by
  induction h generalizing n visible with
  | nil => exact ⟨n, rfl⟩
  | @cons e entry l index hhead hrest ih =>
    obtain ⟨hkey, next, hdecode⟩ := hhead
    rw [overlayIndex, SsTable.overlayEntries, hkey]
    split_ifs with hbelow hbeyond
    · exact ih
    · exact ⟨n, rfl⟩
    · rw [hdecode, Checked.ok_bind]
      exact ih

/-- **A range scan** merges the entries of the map in the range, the higher sequence number winning. -/
theorem Describes.overlayRange_eq (h : table.Describes entries) :
    ∃ decoded merged, table.overlayRange start stop visible = .ok (decoded, merged) ∧
      ∀ key, merged.find key =
        if SsTable.InRange start stop key then newer (visible.find key) (entries.find key) else visible.find key := by
  obtain ⟨decoded, hoverlay⟩ := @overlayIndex_eq table.bytes start stop visible 0 _ _ h.index
  refine ⟨decoded, _, hoverlay, fun key => ?_⟩
  rw [SsTable.overlayEntries_eq entries.sorted, find_overlay (entries.sorted.sublist List.filter_sublist)]
  have hfilter : (lookupBy Prod.fst key (entries.entries.filter fun e => SsTable.InRange start stop e.1)).map Prod.snd =
      (entries.find key).filter fun _ => SsTable.InRange start stop key := SortedMap.find_filter
  rw [hfilter]
  by_cases hin : SsTable.InRange start stop key
  · cases entries.find key with
    | none => simp [hin]
    | some entry => simp [hin, Option.filter]
  · cases entries.find key with
    | none => simp [hin]
    | some entry => simp [hin, Option.filter]

/-! ### What a file holds -/

/-- The records of a map, one behind the other from an offset on. -/
def place : List (Bytes × VersionedEntry) → ℕ → List TableRecord
  | [], _ => []
  | (key, entry) :: rest, offset => (key, entry, offset) :: place rest (offset + (recordImage key entry).length)

def dataBytes (l : List (Bytes × VersionedEntry)) : Bytes := l.flatMap fun e => recordImage e.1 e.2

def indexBytes (records : List TableRecord) : Bytes := records.flatMap fun record => indexImage (.of record)

theorem dataBytes_cons {key : Bytes} {entry : VersionedEntry} {rest : List (Bytes × VersionedEntry)} :
    dataBytes ((key, entry) :: rest) = recordImage key entry ++ dataBytes rest := rfl

theorem indexBytes_cons {record : TableRecord} {rest : List TableRecord} :
    indexBytes (record :: rest) = indexImage (.of record) ++ indexBytes rest := rfl

/-- An entry whose key and value are within the common bounds, and whose sequence number has 64 bits. -/
structure EntryFits (e : Bytes × VersionedEntry) : Prop where
  key : e.1.length ≤ maxKeyBytes
  value : (valueBytes e.2.value).length ≤ maxValueBytes
  sequence : e.2.sequence < 256 ^ 8

section Layout

variable {bytes key : Bytes} {l : List (Bytes × VersionedEntry)} {records : List TableRecord} {offset limit : ℕ}

theorem valueBytes_length (value : Option Bytes) : (valueBytes value).length = valueLength value := by
  cases value with
  | none => rfl
  | some value => rfl

theorem place_entries : (place l offset).map (fun record => (record.1, record.2.1)) = l := by
  induction l generalizing offset with
  | nil => rfl
  | cons e rest ih => rw [place, List.map_cons, ih]

theorem place_keys : (place l offset).map Prod.fst = l.map Prod.fst := by
  have h := congrArg (List.map Prod.fst) (@place_entries l offset)
  rwa [List.map_map] at h

theorem place_length : (place l offset).length = l.length := by
  have h := congrArg List.length (@place_entries l offset)
  rwa [List.length_map] at h

theorem mem_place {record : TableRecord} (h : record ∈ place l offset) : (record.1, record.2.1) ∈ l := by
  rw [← @place_entries l offset]
  exact List.mem_map.2 ⟨record, h, rfl⟩

/-- A record stands in front of the end of the data. -/
theorem place_lt {record : TableRecord} (h : record ∈ place l offset) :
    record.2.2 < offset + (dataBytes l).length := by
  induction l generalizing offset with
  | nil => cases h
  | cons e rest ih =>
    obtain ⟨key, entry⟩ := e
    rw [dataBytes_cons, List.length_append]
    rcases List.mem_cons.1 h with rfl | h
    · rw [recordImage_length]
      dsimp only
      omega
    · have hlt := ih h
      omega

theorem sorted_place (h : SortedBy Prod.fst l) : SortedBy Prod.fst (place l offset) := by
  have hkeys : (l.map Prod.fst).Pairwise (· < ·) := List.pairwise_map.2 h
  rw [← @place_keys l offset] at hkeys
  exact List.pairwise_map.1 hkeys

theorem encodeRecord_eq {e : Bytes × VersionedEntry} (h : EntryFits e) :
    encodeRecord e.1 e.2 = .ok (recordImage e.1 e.2) := by
  obtain ⟨hkey, hvalue, -⟩ := h
  have hbounds : maxKeyBytes = 4096 ∧ maxValueBytes = 1048576 ∧ tableRecordHeaderLen = 28 := ⟨rfl, rfl, rfl⟩
  have hlimit := u64Limit_eq
  unfold encodeRecord
  simp only [Checked.bind_eq_ok, failWhen_eq_ok]
  exact ⟨(), by omega, (), by omega, (), by omega, trivial⟩

theorem validateEntryBounds_eq {e : Bytes × VersionedEntry} (h : EntryFits e) : validateEntryBounds e = .ok () := by
  obtain ⟨hkey, hvalue, -⟩ := h
  rw [valueBytes_length] at hvalue
  unfold validateEntryBounds
  rw [Checked.bind_eq_ok]
  exact ⟨(), failWhen_eq_ok.2 hkey.not_gt, failWhen_eq_ok.2 hvalue.not_gt⟩

theorem writeRecords_eq (h : ∀ e ∈ l, EntryFits e) (hfits : offset + (dataBytes l).length < u64Limit) :
    writeRecords l offset = .ok (place l offset, dataBytes l) := by
  induction l generalizing offset with
  | nil => rfl
  | cons e rest ih =>
    obtain ⟨key, entry⟩ := e
    rw [dataBytes_cons, List.length_append] at hfits
    have hrest := @ih (offset + (recordImage key entry).length) (fun e he => h e (List.mem_cons_of_mem _ he))
      (by omega)
    have hfirst : EntryFits (key, entry) := h _ List.mem_cons_self
    rw [writeRecords, validateEntryBounds_eq hfirst, Checked.ok_bind, (failWhen_eq_ok (u := ())).2 (by omega), Checked.ok_bind,
      encodeRecord_eq hfirst, Checked.ok_bind, hrest, Checked.ok_bind]
    rfl

theorem writeIndex_eq (h : ∀ record ∈ records, record.1.length ≤ maxKeyBytes) :
    writeIndex records = .ok (indexBytes records) := by
  induction records with
  | nil => rfl
  | cons record rest ih =>
    obtain ⟨key, entry, recordOffset⟩ := record
    have hkey : key.length ≤ maxKeyBytes := h _ List.mem_cons_self
    have hbounds : maxKeyBytes = 4096 ∧ indexPrefixLen = 24 := ⟨rfl, rfl⟩
    have hlimit := u64Limit_eq
    have hfirst : encodeIndexEntry key entry recordOffset = .ok (indexImage (.of (key, entry, recordOffset))) := by
      unfold encodeIndexEntry
      simp only [Checked.bind_eq_ok, failWhen_eq_ok]
      exact ⟨(), by omega, (), by omega, trivial⟩
    rw [writeIndex, hfirst, Checked.ok_bind, ih fun record hrecord => h record (List.mem_cons_of_mem _ hrecord),
      Checked.ok_bind]
    rfl

/-- **The records are laid** where their bytes stand. -/
theorem laid_records (h : HoldsAt bytes offset (dataBytes l)) (hentries : ∀ e ∈ l, EntryFits e)
    (hlimit : offset + (dataBytes l).length ≤ limit) (hfits : limit < u64Limit) :
    Laid (decodeTableRecord bytes limit) offset (place l offset) (offset + (dataBytes l).length) := by
  induction l generalizing offset with
  | nil => exact (Nat.add_zero offset).symm
  | cons e rest ih =>
    obtain ⟨key, entry⟩ := e
    rw [dataBytes_cons, holdsAt_append] at h
    rw [dataBytes_cons, List.length_append] at hlimit ⊢
    obtain ⟨hfirst, hrest⟩ := h
    obtain ⟨hkey, hvalue, hsequence⟩ := hentries _ List.mem_cons_self
    have hdecode : decodeRecord bytes limit offset = .ok (key, entry, offset + (recordImage key entry).length) :=
      decodeRecord_eq hfirst hkey hvalue hsequence (by omega) (by omega)
    refine ⟨offset + (recordImage key entry).length, ?_, ?_⟩
    · rw [decodeTableRecord, hdecode]
      rfl
    · have hlaid := ih hrest (fun e he => hentries e (List.mem_cons_of_mem _ he)) (by omega)
      rw [add_assoc] at hlaid
      exact hlaid

/-- **The index is laid** where its bytes stand. -/
theorem laid_index (h : HoldsAt bytes offset (indexBytes records))
    (hrecords : ∀ record ∈ records, EntryFits (record.1, record.2.1) ∧ record.2.2 < 256 ^ 8)
    (hlimit : offset + (indexBytes records).length ≤ limit) (hfits : limit < u64Limit) :
    Laid (decodeIndexEntry bytes limit) offset (records.map .of) (offset + (indexBytes records).length) := by
  induction records generalizing offset with
  | nil => exact (Nat.add_zero offset).symm
  | cons record rest ih =>
    rw [indexBytes_cons, holdsAt_append] at h
    rw [indexBytes_cons, List.length_append] at hlimit ⊢
    obtain ⟨hfirst, hrest⟩ := h
    obtain ⟨⟨hkey, -, hsequence⟩, hoffset⟩ := hrecords _ List.mem_cons_self
    have hdecode : decodeIndexEntry bytes limit offset = .ok (.of record, offset + (indexImage (.of record)).length) :=
      decodeIndexEntry_eq hfirst hkey hsequence hoffset (by omega) (by omega)
    refine ⟨_, hdecode, ?_⟩
    have hlaid := ih hrest (fun record hrecord => hrecords record (List.mem_cons_of_mem _ hrecord))
      (by omega)
    rw [add_assoc] at hlaid
    exact hlaid

end Layout

/-! ### The round trip -/

/-- The bytes of the filter for a number of keys. -/
def filterLength (keyCount : ℕ) : ℕ := (max (keyCount * bitsPerKey) minFilterBits + 7) / 8

def sectionLength (formatVersion keyCount : ℕ) : ℕ :=
  if formatVersion = sstableFormatVersion then filterHeaderLen + filterLength keyCount + filterTrailerLen else 0

/-- The length of the file of a map. -/
def fileLength (formatVersion : ℕ) (entries : VersionMap) : ℕ :=
  sstableHeaderLen + sectionLength formatVersion entries.entries.length + SsTable.recordBytes entries.entries +
    sstableFooterLen

/-- The limits of a table: of the common bounds of keys and values, of the widths of its numbers, of the length of
its filter (a `u32`) and of the length of its file (a `usize`). -/
structure WithinLimits (version id durable : ℕ) (entries : VersionMap) : Prop where
  formatVersion : version = legacyFormatVersion ∨ version = sstableFormatVersion
  tableId : id < 256 ^ 8
  durableSequence : durable < 256 ^ 8
  bounds : ∀ e ∈ entries.entries, e.1.length ≤ maxKeyBytes ∧ valueLength e.2.value ≤ maxValueBytes
  filter : version = sstableFormatVersion → filterLength entries.entries.length < 2 ^ 32
  size : fileLength version entries < 256 ^ 8

section RoundTrip

variable {formatVersion tableId level durableSequence : ℕ} {entries : VersionMap} {l : List (Bytes × VersionedEntry)}
  {offset : ℕ}

theorem u64Limit_eq_pow : u64Limit = 256 ^ 8 := by
  rw [u64Limit_eq]
  norm_num

/-- The records and the index are as long as `recordBytes` says. -/
theorem data_index_length :
    (dataBytes l).length + (indexBytes (place l offset)).length = SsTable.recordBytes l := by
  induction l generalizing offset with
  | nil => rfl
  | cons e rest ih =>
    obtain ⟨key, entry⟩ := e
    have hrest := @ih (offset + (recordImage key entry).length)
    have hsplit : SsTable.recordBytes ((key, entry) :: rest) =
        (tableRecordHeaderLen + key.length + valueLength entry.value + 4) + (indexPrefixLen + key.length + 4) +
          SsTable.recordBytes rest := by
      simp [SsTable.recordBytes]
    have hvalue := valueBytes_length entry.value
    have hlens : tableRecordHeaderLen = 28 ∧ indexPrefixLen = 24 := ⟨rfl, rfl⟩
    have hkey : (IndexEntry.of (key, entry, offset)).key = key := rfl
    rw [hsplit, place, dataBytes_cons, indexBytes_cons, List.length_append, List.length_append, indexImage_length, hkey,
      ← hrest, recordImage_length]
    omega

/-- The section of the filter is written and read back, and the filter admits the keys of the map. -/
theorem exists_bloom (hne : entries.entries ≠ [])
    (hversion : formatVersion = legacyFormatVersion ∨ formatVersion = sstableFormatVersion)
    (hfilter : formatVersion = sstableFormatVersion → filterLength entries.entries.length < 2 ^ 32) :
    ∃ written bloom, bloomSection formatVersion entries = .ok written ∧
      written.length = sectionLength formatVersion entries.entries.length ∧
      (∀ bytes header, header.formatVersion = formatVersion → header.dataOffset = sstableHeaderLen + written.length →
        header.entryCount = entries.entries.length → HoldsAt bytes sstableHeaderLen written →
          readBloom header bytes = .ok bloom) ∧
      ∀ filter ∈ bloom, ∀ key ∈ entries.keys, filter.mayContain key = true := by
  rcases hversion with rfl | rfl
  · refine ⟨[], none, rfl, rfl, ?_, by simp⟩
    intro bytes header hheader hoffset _ _
    unfold readBloom
    rw [if_pos hheader, (failWhen_eq_ok (u := ())).2 (by simpa using hoffset), Checked.ok_bind]
  · have hlength := hfilter rfl
    have hcount : entries.entries.length ≠ 0 := fun hzero => hne (List.length_eq_zero_iff.1 hzero)
    have hconstants : bitsPerKey = 10 ∧ minFilterBits = 64 := ⟨rfl, rfl⟩
    have hlimit := u64Limit_eq
    rw [filterLength] at hlength
    -- The number of bits fits because the section does, so that the filter is built and encoded.
    have hcanonical : canonicalBitCount entries.entries.length =
        .ok ((max (entries.entries.length * bitsPerKey) minFilterBits + 7) / 8 * 8) :=
      BloomFilter.canonicalBitCount_eq_ok.2 ⟨hcount, by omega, by omega, rfl⟩
    obtain ⟨filter, hbuild⟩ : ∃ filter, BloomFilter.build entries.keys entries.entries.length = .ok filter := by
      unfold BloomFilter.build
      rw [(failWhen_eq_ok (u := ())).2 hcount, Checked.ok_bind, hcanonical, Checked.ok_bind,
        (failWhen_eq_ok (u := ())).2 (by simp [SortedMap.keys]), Checked.ok_bind]
      exact ⟨_, rfl⟩
    obtain ⟨hform, hkeyCount, -, hcontain⟩ := BloomFilter.build_spec hbuild
    have hbits : filter.bits.length = filterLength entries.entries.length := by
      have hbitCount := hform.canonical
      rw [hkeyCount, hcanonical] at hbitCount
      rw [hform.length_eq, ← Except.ok.inj hbitCount, filterLength]
      omega
    have hsmall : filter.bits.length < 2 ^ 32 := by rw [hbits, filterLength]; omega
    have hencode : filter.encode = .ok filter.sectionBytes := BloomFilter.encode_eq_ok.2 ⟨hsmall, rfl⟩
    have hsection : filter.sectionBytes.length = 40 + filter.bits.length + 4 := by
      simp [BloomFilter.sectionBytes]
    refine ⟨filter.sectionBytes, some filter, ?_, ?_, ?_, ?_⟩
    · unfold bloomSection
      rw [if_pos rfl, hbuild, Checked.ok_bind, hencode]
    · rw [hsection, hbits]
      rfl
    · intro bytes header hheader hoffset hentryCount hholds
      have hdecode : BloomFilter.decode filter.sectionBytes sstableHeaderLen entries.entries.length = .ok filter :=
        BloomFilter.decode_eq_ok.2 ⟨hform, hkeyCount, hsmall, rfl⟩
      have hnot : ¬ sstableFormatVersion = legacyFormatVersion := by decide
      unfold readBloom
      rw [hheader, if_neg hnot, hoffset, hentryCount, (failWhen_eq_ok (u := ())).2 (by omega), Checked.ok_bind,
        Nat.add_sub_cancel_left, hholds, hdecode, Checked.ok_bind]
    · rintro _ ⟨⟩ key hkey
      exact hcontain key hkey

/-! ### The file of a map -/

/-- The header of a file whose filter takes the section `written`. -/
def headerOf (formatVersion tableId : ℕ) (written : Bytes) (l : List (Bytes × VersionedEntry)) : TableHeader where
  formatVersion := formatVersion
  tableId := tableId
  entryCount := l.length
  dataOffset := sstableHeaderLen + written.length
  indexOffset := sstableHeaderLen + written.length + (dataBytes l).length
  footerOffset := sstableHeaderLen + written.length + (dataBytes l).length +
    (indexBytes (place l (sstableHeaderLen + written.length))).length

/-- What stands behind the header and in front of the footer. -/
def contentOf (written : Bytes) (l : List (Bytes × VersionedEntry)) : Bytes :=
  written ++ (dataBytes l ++ indexBytes (place l (sstableHeaderLen + written.length)))

def frontOf (formatVersion tableId : ℕ) (written : Bytes) (l : List (Bytes × VersionedEntry)) : Bytes :=
  encodeHeader (headerOf formatVersion tableId written l) ++ contentOf written l

def footerOf (formatVersion tableId durableSequence : ℕ) (written : Bytes) (l : List (Bytes × VersionedEntry)) :
    TableFooter where
  formatVersion := formatVersion
  tableId := tableId
  entryCount := l.length
  indexOffset := (headerOf formatVersion tableId written l).indexOffset
  footerOffset := (headerOf formatVersion tableId written l).footerOffset
  durableSequence := durableSequence
  wholeCrc := crc32 (frontOf formatVersion tableId written l)

def fileOf (formatVersion tableId durableSequence : ℕ) (written : Bytes) (l : List (Bytes × VersionedEntry)) : Bytes :=
  frontOf formatVersion tableId written l ++ encodeFooter (footerOf formatVersion tableId durableSequence written l)

def descriptorOf (formatVersion tableId level durableSequence : ℕ) (written : Bytes) (entries : VersionMap) :
    SstableDescriptor where
  tableId := tableId
  level := level
  fileBytes := (fileOf formatVersion tableId durableSequence written entries.entries).length
  entryCount := entries.entries.length
  durableSequence := durableSequence
  smallestKey := (entries.keys.head?).getD []
  largestKey := (entries.keys.getLast?).getD []

variable {written : Bytes}

theorem frontOf_length :
    (frontOf formatVersion tableId written l).length = (headerOf formatVersion tableId written l).footerOffset := by
  simp [frontOf, contentOf, headerOf, sstableHeaderLen]
  omega

theorem fileOf_length :
    (fileOf formatVersion tableId durableSequence written l).length =
      (headerOf formatVersion tableId written l).footerOffset + 64 := by
  rw [fileOf, List.length_append, frontOf_length, encodeFooter_length]

/-- What the writer needs of its input: entries that fit, and a file that does. -/
structure FileFits (tableId durableSequence : ℕ) (written : Bytes) (l : List (Bytes × VersionedEntry)) : Prop where
  nonempty : l ≠ []
  tableId : tableId < 256 ^ 8
  durableSequence : durableSequence < 256 ^ 8
  entries : ∀ e ∈ l, EntryFits e
  count : l.length < 256 ^ 8
  size : (headerOf 0 0 written l).footerOffset + 64 < u64Limit

theorem createBytes_eq (h : FileFits tableId durableSequence written entries.entries)
    (hversion : formatVersion = legacyFormatVersion ∨ formatVersion = sstableFormatVersion)
    (hsection : bloomSection formatVersion entries = .ok written) :
    createBytes formatVersion tableId level durableSequence entries =
      .ok (fileOf formatVersion tableId durableSequence written entries.entries,
        descriptorOf formatVersion tableId level durableSequence written entries) := by
  have hsize := h.size
  have hcount := h.count
  rw [← u64Limit_eq_pow] at hcount
  have hfooterLen : sstableFooterLen = 64 := rfl
  simp only [headerOf] at hsize
  have hrecords : writeRecords entries.entries (sstableHeaderLen + written.length) =
      .ok (place entries.entries (sstableHeaderLen + written.length), dataBytes entries.entries) :=
    writeRecords_eq h.entries (by omega)
  have hindex : writeIndex (place entries.entries (sstableHeaderLen + written.length)) =
      .ok (indexBytes (place entries.entries (sstableHeaderLen + written.length))) :=
    writeIndex_eq fun record hrecord => (h.entries _ (mem_place hrecord)).key
  have hknown : ¬ (formatVersion ≠ legacyFormatVersion ∧ formatVersion ≠ sstableFormatVersion) := by
    rintro ⟨hlegacy, hcurrent⟩
    exact hversion.elim hlegacy hcurrent
  unfold createBytes
  rw [(failWhen_eq_ok (u := ())).2 h.nonempty, Checked.ok_bind, (failWhen_eq_ok (u := ())).2 hknown, Checked.ok_bind,
    (failWhen_eq_ok (u := ())).2 (by omega), Checked.ok_bind, hsection, Checked.ok_bind]
  dsimp only
  rw [(failWhen_eq_ok (u := ())).2 (by omega), Checked.ok_bind, hrecords, Checked.ok_bind]
  dsimp only
  rw [(failWhen_eq_ok (u := ())).2 (by omega), Checked.ok_bind, hindex, Checked.ok_bind,
    (failWhen_eq_ok (u := ())).2 (by omega), Checked.ok_bind, (failWhen_eq_ok (u := ())).2 (by omega), Checked.ok_bind]
  rfl

/-- What stands where in the file. -/
theorem fileOf_holds (hne : l ≠ []) :
    HoldsAt (fileOf formatVersion tableId durableSequence written l) sstableHeaderLen written ∧
      HoldsAt (fileOf formatVersion tableId durableSequence written l) (sstableHeaderLen + written.length) (dataBytes l) ∧
      HoldsAt (fileOf formatVersion tableId durableSequence written l)
        (sstableHeaderLen + written.length + (dataBytes l).length)
        (indexBytes (place l (sstableHeaderLen + written.length))) := by
  have hpos : 0 < (contentOf written l).length := by
    cases l with
    | nil => exact absurd rfl hne
    | cons e rest =>
      rw [contentOf, dataBytes_cons]
      simp only [List.length_append, recordImage_length]
      omega
  have hfront : HoldsAt (frontOf formatVersion tableId written l) sstableHeaderLen (contentOf written l) :=
    holdsAt_append_right encodeHeader_length
  have hfile : HoldsAt (fileOf formatVersion tableId durableSequence written l) sstableHeaderLen (contentOf written l) :=
    hfront.append hpos
  rw [contentOf, holdsAt_append, holdsAt_append] at hfile
  exact hfile

/-- The records and the index are read back. -/
theorem read_fileOf (h : FileFits tableId durableSequence written l) (hsorted : SortedBy Prod.fst l) :
    readRecords (fileOf formatVersion tableId durableSequence written l)
        (headerOf formatVersion tableId written l).indexOffset (sstableHeaderLen + written.length) =
      .ok (place l (sstableHeaderLen + written.length), (headerOf formatVersion tableId written l).indexOffset) ∧
    readIndex (fileOf formatVersion tableId durableSequence written l)
        (headerOf formatVersion tableId written l).footerOffset (headerOf formatVersion tableId written l).indexOffset =
      .ok ((place l (sstableHeaderLen + written.length)).map .of,
        (headerOf formatVersion tableId written l).footerOffset) := by
  obtain ⟨-, hdata, hindex⟩ := @fileOf_holds formatVersion tableId durableSequence l written h.nonempty
  have hsize := h.size
  simp only [headerOf] at hsize
  have hplaced := @sorted_place l (sstableHeaderLen + written.length) hsorted
  constructor
  · exact readSorted_eq (laid_records hdata h.entries le_rfl (by simp only [headerOf]; omega)) hplaced (by simp)
  · have hrecords : ∀ record ∈ place l (sstableHeaderLen + written.length),
        EntryFits (record.1, record.2.1) ∧ record.2.2 < 256 ^ 8 := by
      intro record hrecord
      have hlt := place_lt hrecord
      have hpow := u64Limit_eq_pow
      exact ⟨h.entries _ (mem_place hrecord), by omega⟩
    have hkeys : SortedBy IndexEntry.key ((place l (sstableHeaderLen + written.length)).map .of) :=
      sortedBy_map.2 hplaced
    exact readSorted_eq (laid_index hindex hrecords le_rfl (by simp only [headerOf]; omega)) hkeys (by simp)

/-- Every index entry describes its record. -/
theorem describe_zip (records : List TableRecord) : (records.zip (records.map .of)).forM describe = .ok () := by
  rw [Checked.forM_eq_ok, ← List.map_prod_left_eq_zip]
  intro pair hpair
  obtain ⟨record, -, rfl⟩ := List.mem_map.1 hpair
  exact failWhen_eq_ok.2 fun hne => hne rfl

/-- The first and the last key of the index are those of the map. -/
theorem ends_of_index (hne : entries.entries ≠ []) :
    ((place entries.entries offset).map .of).head?.map IndexEntry.key = some ((entries.keys.head?).getD []) ∧
      ((place entries.entries offset).map .of).getLast?.map IndexEntry.key = some ((entries.keys.getLast?).getD []) := by
  have hkeys : ((place entries.entries offset).map .of).map IndexEntry.key = entries.keys := by
    rw [List.map_map]
    exact place_keys
  have hkeysNe : entries.keys ≠ [] := by simpa [SortedMap.keys] using hne
  rw [← List.head?_map, ← List.getLast?_map, hkeys, List.head?_eq_some_head hkeysNe, List.getLast?_eq_some_getLast hkeysNe]
  exact ⟨rfl, rfl⟩

/-- **The file opens.** -/
theorem openBytes_eq {bloom : Option BloomFilter} (h : FileFits tableId durableSequence written entries.entries)
    (hversion : formatVersion = legacyFormatVersion ∨ formatVersion = sstableFormatVersion)
    (hbloom : readBloom (headerOf formatVersion tableId written entries.entries)
      (fileOf formatVersion tableId durableSequence written entries.entries) = .ok bloom)
    (hbelow : ∀ e ∈ entries.entries, e.2.sequence ≤ durableSequence)
    (hcovered : ∀ filter ∈ bloom, ∀ key ∈ entries.keys, filter.mayContain key = true) :
    openBytes (descriptorOf formatVersion tableId level durableSequence written entries)
        (fileOf formatVersion tableId durableSequence written entries.entries) =
      .ok ⟨descriptorOf formatVersion tableId level durableSequence written entries,
        fileOf formatVersion tableId durableSequence written entries.entries,
        (place entries.entries (sstableHeaderLen + written.length)).map .of, bloom⟩ := by
  have hsize := h.size
  have hpow := u64Limit_eq_pow
  have hheaderLen : sstableHeaderLen = 64 := rfl
  have hoffsets : (headerOf formatVersion tableId written entries.entries).footerOffset =
      (headerOf 0 0 written entries.entries).footerOffset := rfl
  have hwide : (headerOf formatVersion tableId written entries.entries).Wide := by
    simp only [headerOf] at hsize
    exact ⟨hversion, h.tableId, h.count, by simp only [headerOf]; omega, by simp only [headerOf]; omega,
      by simp only [headerOf]; omega⟩
  have hfooterWide : (footerOf formatVersion tableId durableSequence written entries.entries).Wide :=
    ⟨hversion, h.tableId, h.count, hwide.indexOffset, hwide.footerOffset, h.durableSequence, crc32_lt _⟩
  -- The header, the footer and what the checksum of the footer covers are slices of the file.
  have hheader : slice (fileOf formatVersion tableId durableSequence written entries.entries) 0 sstableHeaderLen =
      encodeHeader (headerOf formatVersion tableId written entries.entries) := by
    rw [fileOf, frontOf, List.append_assoc]
    exact slice_append_self encodeHeader_length
  have hfooter : slice (fileOf formatVersion tableId durableSequence written entries.entries)
      (headerOf formatVersion tableId written entries.entries).footerOffset sstableFooterLen =
      encodeFooter (footerOf formatVersion tableId durableSequence written entries.entries) := by
    have hat : HoldsAt (fileOf formatVersion tableId durableSequence written entries.entries)
        (headerOf formatVersion tableId written entries.entries).footerOffset
        (encodeFooter (footerOf formatVersion tableId durableSequence written entries.entries)) :=
      holdsAt_append_right frontOf_length
    rw [HoldsAt, encodeFooter_length] at hat
    exact hat
  have htake : (fileOf formatVersion tableId durableSequence written entries.entries).take
      (headerOf formatVersion tableId written entries.entries).footerOffset =
      frontOf formatVersion tableId written entries.entries := List.take_left' frontOf_length
  obtain ⟨hrecords, hindex⟩ := @read_fileOf formatVersion tableId durableSequence entries.entries written h entries.sorted
  obtain ⟨hfirst, hlast⟩ := @ends_of_index entries (sstableHeaderLen + written.length) h.nonempty
  have hplaced : (place entries.entries (sstableHeaderLen + written.length)).length = entries.entries.length := place_length
  -- The index has one entry for each entry of the table, so it is not empty.
  have hindexNe : (place entries.entries (sstableHeaderLen + written.length)).map IndexEntry.of ≠ [] := by
    intro hnil
    rw [List.map_eq_nil_iff] at hnil
    rw [hnil] at hplaced
    exact h.nonempty (List.length_eq_zero_iff.1 hplaced.symm)
  have hparseHeader := parseHeader_eq hwide
  rw [← hheader] at hparseHeader
  have hparseFooter : parseFooter (encodeFooter (footerOf formatVersion tableId durableSequence written entries.entries))
      (headerOf formatVersion tableId written entries.entries).footerOffset = .ok _ := parseFooter_eq hfooterWide
  rw [← hfooter] at hparseFooter
  -- Every check of the open is met, one after another.
  unfold openBytes
  simp only [Checked.bind_eq_ok, failWhen_eq_ok, checkedAdd_eq_ok, Prod.exists]
  refine ⟨(), by simp [descriptorOf], (), ?_, _, hparseHeader, (), ?_, _, ⟨?_, rfl⟩, (), ?_, _, hparseFooter, (), ?_, (), ?_, (), ?_, bloom, hbloom, _, _, hrecords, (), ?_, _, _, hindex,
    (), ?_, (), describe_zip _, (), hindexNe, (), ?_, (), ?_, (), ?_, ?_⟩
  · rw [fileOf_length, not_lt, hoffsets]
    simp only [headerOf, hheaderLen, sstableFooterLen]
    omega
  · simp [headerOf, descriptorOf]
  · rw [hoffsets]
    exact hsize
  · rw [fileOf_length]
    exact fun hne => hne rfl
  · simp [footerOf, headerOf, descriptorOf]
  · rw [htake]
    exact fun hne => hne rfl
  · simp only [headerOf]
    omega
  · simp [headerOf, hplaced]
  · simp [headerOf, hplaced]
  · rw [hfirst, hlast]
    simp [descriptorOf]
  · obtain ⟨-, -, hmax⟩ := foldl_max IndexEntry.sequence ((place entries.entries (sstableHeaderLen + written.length)).map
      .of) 0
    have hlt := hmax (durableSequence + 1) (Nat.succ_pos _) fun e he => by
      obtain ⟨record, hrecord, rfl⟩ := List.mem_map.1 he
      exact Nat.lt_succ_of_le (hbelow _ (mem_place hrecord))
    exact (Nat.le_of_lt_succ hlt).not_gt
  · intro hneg
    obtain ⟨filter, hfilter, hany⟩ := (Option.any_eq_true ..).1 hneg
    obtain ⟨e, he, hnot⟩ := List.any_eq_true.1 hany
    obtain ⟨record, hrecord, rfl⟩ := List.mem_map.1 he
    have hkey : record.1 ∈ entries.keys := List.mem_map.2 ⟨_, mem_place hrecord, rfl⟩
    have hadmits := hcovered filter hfilter record.1 hkey
    rw [show (IndexEntry.of record).key = record.1 from rfl, hadmits] at hnot
    cases hnot
  · trivial

/-- The records that are laid in a file are those that its index leads to. -/
theorem forall₂_of_laid {bytes : Bytes} {records : List TableRecord} {limit last : ℕ}
    (h : Laid (decodeTableRecord bytes limit) offset records last) (hlimit : limit ≤ bytes.length) :
    List.Forall₂ (fun (e : Bytes × VersionedEntry) (entry : IndexEntry) => entry.key = e.1 ∧
      ∃ next, decodeRecord bytes bytes.length entry.recordOffset = .ok (e.1, e.2, next))
      (records.map fun record => (record.1, record.2.1)) (records.map IndexEntry.of) := by
  rw [List.forall₂_map_left_iff, List.forall₂_map_right_iff, List.forall₂_same]
  intro record hrecord
  obtain ⟨start, next, hdecode⟩ := h.exists_decode hrecord
  unfold decodeTableRecord at hdecode
  rw [Checked.bind_eq_ok] at hdecode
  obtain ⟨⟨key, entry, next'⟩, hdecode, hresult⟩ := hdecode
  cases hresult
  exact ⟨rfl, _, decodeRecord_mono hdecode hlimit⟩

theorem describes_fileOf {bloom : Option BloomFilter} (h : FileFits tableId durableSequence written entries.entries)
    (hcovered : ∀ filter ∈ bloom, ∀ key ∈ entries.keys, filter.mayContain key = true) :
    (TableImage.mk (descriptorOf formatVersion tableId level durableSequence written entries)
      (fileOf formatVersion tableId durableSequence written entries.entries)
      ((place entries.entries (sstableHeaderLen + written.length)).map .of) bloom).Describes entries := by
  obtain ⟨-, hdata, -⟩ := @fileOf_holds formatVersion tableId durableSequence entries.entries written h.nonempty
  have hsize := h.size
  simp only [headerOf] at hsize
  have hlaid : Laid (decodeTableRecord (fileOf formatVersion tableId durableSequence written entries.entries)
      (headerOf formatVersion tableId written entries.entries).indexOffset) (sstableHeaderLen + written.length)
      (place entries.entries (sstableHeaderLen + written.length))
      (sstableHeaderLen + written.length + (dataBytes entries.entries).length) :=
    laid_records hdata h.entries le_rfl (by simp only [headerOf]; omega)
  have hkeysNe : entries.keys ≠ [] := by simpa [SortedMap.keys] using h.nonempty
  constructor
  · have hindex := forall₂_of_laid hlaid (by rw [fileOf_length]; simp only [headerOf]; omega)
    rw [place_entries] at hindex
    exact hindex
  · refine bounds_of_ends ?_ ?_
    · rw [← List.head?_map]
      show entries.keys.head? = some ((entries.keys.head?).getD [])
      rw [List.head?_eq_some_head hkeysNe]
      rfl
    · rw [← List.getLast?_map]
      show entries.keys.getLast? = some ((entries.keys.getLast?).getD [])
      rw [List.getLast?_eq_some_getLast hkeysNe]
      rfl
  · exact hcovered

theorem length_le_dataBytes : l.length ≤ (dataBytes l).length := by
  induction l with
  | nil => exact Nat.zero_le _
  | cons e rest ih =>
    obtain ⟨key, entry⟩ := e
    rw [dataBytes_cons, List.length_cons, List.length_append, recordImage_length]
    omega

theorem WithinLimits.fileFits (h : WithinLimits formatVersion tableId durableSequence entries) (hne : entries.entries ≠ [])
    (hdurable : ∀ e ∈ entries.entries, e.2.sequence ≤ durableSequence)
    (hwritten : written.length = sectionLength formatVersion entries.entries.length) :
    FileFits tableId durableSequence written entries.entries := by
  have hsize := h.size
  have hcontent : (dataBytes entries.entries).length +
      (indexBytes (place entries.entries (sstableHeaderLen + written.length))).length =
      SsTable.recordBytes entries.entries := data_index_length
  have hcount := @length_le_dataBytes entries.entries
  have hfooterLen : sstableFooterLen = 64 := rfl
  rw [fileLength, ← hwritten, ← hcontent, hfooterLen] at hsize
  refine ⟨hne, h.tableId, h.durableSequence, fun e he => ?_, by omega, ?_⟩
  · exact ⟨(h.bounds e he).1, (valueBytes_length _).le.trans (h.bounds e he).2,
      (hdurable e he).trans_lt h.durableSequence⟩
  · rw [u64Limit_eq_pow]
    simp only [headerOf]
    omega

/-- **The round trip of a sorted table.** The file of a map within the limits is created and opens again as the
same table, in either version; its lookups find the entries of the map, and its range scans merge those in the
range. -/
theorem sstable_round_trip (h : WithinLimits formatVersion tableId durableSequence entries)
    (hne : entries.entries ≠ []) (hdurable : ∀ e ∈ entries.entries, e.2.sequence ≤ durableSequence) :
    ∃ bytes table, createNewWithFormat formatVersion tableId level durableSequence entries = .ok (bytes, table) ∧
      openBytes table.descriptor bytes = .ok table ∧
      bytes.length = fileLength formatVersion entries ∧
      table.descriptor =
        { tableId := tableId
          level := level
          fileBytes := bytes.length
          entryCount := entries.entries.length
          durableSequence := durableSequence
          smallestKey := (entries.keys.head?).getD []
          largestKey := (entries.keys.getLast?).getD [] } ∧
      (∀ key, table.get key = .ok (entries.find key)) ∧
      ∀ start stop visible, ∃ decoded merged, table.overlayRange start stop visible = .ok (decoded, merged) ∧
        ∀ key, merged.find key =
          if SsTable.InRange start stop key then newer (visible.find key) (entries.find key) else visible.find key := by
  obtain ⟨written, bloom, hsection, hlength, hread, hcovered⟩ := exists_bloom hne h.formatVersion h.filter
  have hfits := h.fileFits hne hdurable hlength
  obtain ⟨hwritten, -, -⟩ := @fileOf_holds formatVersion tableId durableSequence entries.entries written hne
  have hbloom := hread _ (headerOf formatVersion tableId written entries.entries) rfl rfl rfl hwritten
  have hcreate := @createBytes_eq formatVersion tableId level durableSequence entries written hfits h.formatVersion hsection
  have hopen := @openBytes_eq formatVersion tableId level durableSequence entries written bloom hfits h.formatVersion hbloom
    hdurable hcovered
  have hdescribes := @describes_fileOf formatVersion tableId level durableSequence entries written bloom hfits hcovered
  refine ⟨_, _, ?_, hopen, ?_, rfl, fun key => hdescribes.get_eq, fun start stop visible => hdescribes.overlayRange_eq⟩
  · rw [createNewWithFormat, hcreate, Checked.ok_bind]
    dsimp only
    rw [hopen, Checked.ok_bind]
  · have hcontent : (dataBytes entries.entries).length +
        (indexBytes (place entries.entries (sstableHeaderLen + written.length))).length =
        SsTable.recordBytes entries.entries := data_index_length
    rw [fileOf_length, fileLength, ← hlength, ← hcontent]
    simp only [headerOf, sstableFooterLen]
    omega

/-- A value and a tombstone. -/
def twoEntries : VersionMap := (SortedMap.empty.insert [1] ⟨3, some [7]⟩).insert [2] ⟨5, none⟩

theorem sstable_round_trip_two : ∃ bytes table,
    createNewWithFormat sstableFormatVersion 4 0 5 twoEntries = .ok (bytes, table) ∧
      openBytes table.descriptor bytes = .ok table ∧ table.get [2] = .ok (some ⟨5, none⟩) := by
  have hlimits : WithinLimits sstableFormatVersion 4 5 twoEntries :=
    ⟨.inr rfl, by norm_num, by norm_num, by decide, fun _ => by decide, by decide⟩
  obtain ⟨bytes, table, hcreate, hopen, -, -, hget, -⟩ :=
    @sstable_round_trip sstableFormatVersion 4 0 5 twoEntries hlimits (by decide) (by decide)
  exact ⟨bytes, table, hcreate, hopen, hget [2]⟩

end RoundTrip

/-! ### Every table that opens -/

section Opened

variable {descriptor : SstableDescriptor} {bytes : Bytes} {table : TableImage}

/-- An index that describes records entry by entry is theirs. -/
theorem index_of_describe {records : List TableRecord} {index : List IndexEntry} (hlength : records.length = index.length)
    (h : (records.zip index).forM describe = .ok ()) : index = records.map .of := by
  rw [Checked.forM_eq_ok] at h
  induction records generalizing index with
  | nil => exact List.length_eq_zero_iff.1 hlength.symm
  | cons record records ih =>
    cases index with
    | nil => cases hlength
    | cons e index =>
      rw [List.zip_cons_cons, List.forall_mem_cons] at h
      obtain ⟨hfirst, hrest⟩ := h
      have he : e = .of record := not_not.1 (failWhen_eq_ok.1 hfirst)
      rw [List.map_cons, he, ih (Nat.succ.inj hlength) hrest]

/-- **What `open` has checked**: the index leads to the entries of a map whose keys lie between the bounds, whose
sequence numbers are at most the durable one, and whose keys the filter admits. -/
theorem openBytes_spec (h : openBytes descriptor bytes = .ok table) :
    ∃ entries : VersionMap, table.descriptor = descriptor ∧ table.bytes = bytes ∧ table.Describes entries ∧
      bytes.length = descriptor.fileBytes ∧ entries.entries.length = descriptor.entryCount ∧ entries.entries ≠ [] ∧
      entries.entries.head?.map Prod.fst = some descriptor.smallestKey ∧
      entries.entries.getLast?.map Prod.fst = some descriptor.largestKey ∧
      ∀ e ∈ entries.entries, e.2.sequence ≤ descriptor.durableSequence := by
  unfold openBytes at h
  simp only [Checked.bind_eq_ok, failWhen_eq_ok, checkedAdd_eq_ok, Prod.exists, Except.ok.injEq] at h
  obtain ⟨-, hfileBytes, -, -, header, -, -, hheader, _, ⟨-, rfl⟩, -, hfooterEnd, footer, -, -, -, -, -, -, horder, bloom, -,
    records, dataEnd, hrecords, -, hdata, index, indexEnd, -, -, hindex, _, hdescribe, -, hne, -, hends, -, hbelow, -,
    hcovered, rfl⟩ := h
  -- The records that the open reads are the entries; the index and the ends agree with them.
  obtain ⟨hlaid, hsorted, -⟩ := readSorted_spec hrecords
  obtain ⟨hdataEnd, hcount⟩ : dataEnd = header.indexOffset ∧ records.length = header.entryCount := by simpa using hdata
  obtain ⟨-, hindexCount⟩ : indexEnd = header.footerOffset ∧ index.length = header.entryCount := by simpa using hindex
  obtain rfl := index_of_describe (hcount.trans hindexCount.symm) hdescribe
  have hkeys : (records.map fun record => (record.1, record.2.1)).map Prod.fst = records.map Prod.fst := by
    rw [List.map_map]
    rfl
  have hsortedEntries : SortedBy Prod.fst (records.map fun record => (record.1, record.2.1)) := sortedBy_map.2 hsorted
  obtain ⟨hfirst, hlast⟩ : ((records.map IndexEntry.of).head?.map IndexEntry.key = some descriptor.smallestKey) ∧
      (records.map IndexEntry.of).getLast?.map IndexEntry.key = some descriptor.largestKey := by simpa using hends
  have hhead : (records.map fun record => (record.1, record.2.1)).head?.map Prod.fst = some descriptor.smallestKey := by
    rw [← List.head?_map, List.map_map] at hfirst ⊢
    exact hfirst
  have hgetLast : (records.map fun record => (record.1, record.2.1)).getLast?.map Prod.fst = some descriptor.largestKey := by
    rw [← List.getLast?_map, List.map_map] at hlast ⊢
    exact hlast
  refine ⟨⟨records.map fun record => (record.1, record.2.1), hsortedEntries⟩, rfl, rfl, ⟨?_, ?_, ?_⟩, not_not.1 hfileBytes,
    ?_, ?_, hhead, hgetLast, ?_⟩
  · have hend : header.indexOffset ≤ bytes.length := by omega
    exact forall₂_of_laid hlaid hend
  · exact bounds_of_ends hhead hgetLast
  · intro filter hfilter key hkey
    obtain ⟨e, he, rfl⟩ := List.mem_map.1 hkey
    obtain ⟨record, hrecord, rfl⟩ := List.mem_map.1 he
    by_contra hnot
    refine hcovered ((Option.any_eq_true ..).2 ⟨filter, hfilter, List.any_eq_true.2 ⟨_, List.mem_map_of_mem hrecord, ?_⟩⟩)
    simpa [IndexEntry.of] using hnot
  · rw [List.length_map, hcount]
    exact (not_not.1 (not_or.1 hheader).2)
  · intro hnil
    rw [List.map_eq_nil_iff] at hnil
    exact hne (by rw [hnil]; rfl)
  · intro e he
    obtain ⟨record, hrecord, rfl⟩ := List.mem_map.1 he
    have hmax := (foldl_max IndexEntry.sequence (records.map IndexEntry.of) 0).2.1 _ (List.mem_map_of_mem hrecord)
    exact hmax.trans (not_lt.1 hbelow)

/-- **The bytes refine the contents.** A table that opens from the bytes of its file opens from what they hold, with the
same lookups and the same merges. -/
theorem openBytes_refines (h : openBytes descriptor bytes = .ok table) :
    ∃ content opened, SsTable.openContent descriptor content = .ok opened ∧ content.fileBytes = bytes.length ∧
      (∀ key, table.get key = .ok (opened.get key)) ∧
      ∀ start stop visible, ∃ decoded,
        table.overlayRange start stop visible = .ok (decoded, opened.overlayRange start stop visible) := by
  obtain ⟨entries, hdescriptor, hbytes, hdescribes, hfileBytes, hcount, hne, hfirst, hlast, hbelow⟩ := openBytes_spec h
  have hcovered : ∀ filter ∈ table.bloom.toList, ∀ e ∈ entries.entries, filter.mayContain e.1 = true := by
    intro filter hfilter e he
    exact hdescribes.covered filter (Option.mem_toList.1 hfilter) e.1 (List.mem_map_of_mem he)
  let content : TableContent :=
    { tableId := descriptor.tableId
      entryCount := descriptor.entryCount
      durableSequence := descriptor.durableSequence
      fileBytes := bytes.length
      records := entries.entries
      bloom := table.bloom }
  have hopen : ∃ opened, SsTable.openContent descriptor content = .ok opened := by
    unfold SsTable.openContent
    rw [if_neg (not_not.2 hfileBytes), if_neg (by simp [content]), if_neg (by simp [content]), dif_pos entries.sorted,
      if_neg (not_not.2 hcount), if_neg hne, dif_pos ⟨hfirst, hlast⟩, dif_pos hbelow, dif_pos hcovered]
    exact ⟨_, rfl⟩
  obtain ⟨opened, hopened⟩ := hopen
  obtain ⟨-, hindex, -⟩ := SsTable.openContent_eq_ok hopened
  refine ⟨content, opened, hopened, rfl, fun key => ?_, fun start stop visible => ?_⟩
  · rw [SsTable.get_eq_find, SortedMap.find, hindex]
    exact hdescribes.get_eq
  · rw [SsTable.overlayRange, hindex]
    exact overlayIndex_eq hdescribes.index

end Opened

end TableImage
end DbLab.Lsm
