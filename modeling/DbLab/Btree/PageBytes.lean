import DbLab.Core
import DbLab.Lib.Crc32
import DbLab.Lib.Safe
import DbLab.Lib.Tiling
import DbLab.Btree.Page

/-!
# The bytes of a page

A page is an array of 4096 bytes: a header, the slot array growing upward, free space, the cells packed from
the end downward, and a checksum. `validatePageBytes` is the reader of these bytes with every index and every
addition of the source that could go wrong: an index outside of the array and a sum past `u64` are panics. On no
array it panics, and what it accepts is a page whose cells tile the data region.
-/

namespace DbLab.Btree

/-! ### The page -/

def pageMagic : Bytes := [66, 84, 80, 71]
def formatVersion : ℕ := 1
def kindLeaf : ℕ := 1
def kindInternal : ℕ := 2
def kindOverflow : ℕ := 3

/-- The array of a page, `[u8; PAGE_SIZE]`. -/
abbrev PageBytes := { bytes : Bytes // bytes.length = pageSize }

/-- Source `PageKind::encoded`. -/
def PageKind.encoded : PageKind → ℕ
  | .leaf => kindLeaf
  | .internal => kindInternal
  | .overflow => kindOverflow

/-- Source `PageKind::decode`. -/
def PageKind.decode (encoded offset : ℕ) : Except BtreeError PageKind :=
  if encoded = kindLeaf then .ok .leaf
  else if encoded = kindInternal then .ok .internal
  else if encoded = kindOverflow then .ok .overflow
  else .error (.corruption offset s!"unknown page kind {encoded}")

/-- Fail with a corruption `k` bytes behind the beginning of the page. -/
def corruptAt {α : Type} (base k : ℕ) (reason : String) : Panicking BtreeError α := do
  let offset ← addAt u64Bound base k
  throw (.corruption offset reason)

/-- A check of the page. -/
def rejectAt (p : Prop) [Decidable p] (base k : ℕ) (reason : String) : Panicking BtreeError Unit :=
  if p then corruptAt base k reason else pure ()

/-- Source `validate_checksum`. -/
def validateChecksum (bytes : Bytes) (base : ℕ) : Panicking BtreeError Unit := do
  let expected ← readAt bytes checksumOffset 4
  let body ← sliceAt bytes 0 checksumOffset
  let actual := crc32 body
  rejectAt (expected ≠ actual) base checksumOffset
    s!"page checksum mismatch: expected {hexPad 8 expected}, computed {hexPad 8 actual}"

/-- The range of the cell that a slot points to. -/
def cellRange (bytes : Bytes) (base upper index : ℕ) : Panicking BtreeError Interval := do
  let slots ← mulAt u64Bound index slotLen
  let slot ← addAt u64Bound dataHeaderLen slots
  let start ← readAt bytes slot 2
  let length ← readAt bytes (slot + 2) 2
  rejectAt (length = 0) base (slot + 2) s!"slot {index} has zero-length cell"
  rejectAt (u64Bound ≤ start + length) base slot "cell extent overflowed usize"
  rejectAt (start < upper ∨ checksumOffset < start + length) base slot
    s!"slot {index} cell range {start}..{start + length} lies outside packed payload {upper}..{checksumOffset}"
  return (start, start + length)

/-- The ranges of `left` slots from `index` on. -/
def readRanges (bytes : Bytes) (base upper : ℕ) : ℕ → ℕ → Panicking BtreeError (List Interval)
  | _, 0 => pure []
  | index, left + 1 => do
    let range ← cellRange bytes base upper index
    let ranges ← readRanges bytes base upper (index + 1) left
    return range :: ranges

/-- The ranges by their beginnings. Which of two ranges with one beginning comes first is left open in the source;
the second of them is rejected. -/
def sortRanges (ranges : List Interval) : List Interval :=
  ranges.mergeSort fun r s => decide (r.1 ≤ s.1)

/-- The walk over the ordered ranges; the value is the end of the last one. -/
def checkTiles (base : ℕ) : ℕ → List Interval → Panicking BtreeError ℕ
  | expectedStart, [] => pure expectedStart
  | expectedStart, (start, stop) :: ranges => do
    rejectAt (start ≠ expectedStart) base (min start checksumOffset)
      s!"packed cell payload has a gap or overlap at byte {start}; expected next cell at {expectedStart}"
    checkTiles base stop ranges

/-- Source `validate_page_bytes`. -/
def validatePageBytes (bytes : Bytes) (expectedPageId : ℕ) : Panicking BtreeError PageKind := do
  let base ← ofResult (pageOffset expectedPageId)
  validateChecksum bytes base
  let magic ← sliceAt bytes 0 4
  rejectAt (magic ≠ pageMagic) base 0 "data-page magic mismatch"
  let version ← readAt bytes 4 1
  rejectWhen (version ≠ formatVersion) (.unsupportedVersion version formatVersion)
  let encodedKind ← readAt bytes 5 1
  let kindOffset ← addAt u64Bound base 5
  let kind ← ofResult (PageKind.decode encodedKind kindOffset)
  let flags ← readAt bytes 6 2
  rejectAt (flags ≠ 0) base 6 s!"unsupported data-page flags 0x{hexPad 4 flags}"
  let encodedPageId ← readAt bytes 8 8
  rejectAt (encodedPageId ≠ expectedPageId) base 8
    s!"page header id is {encodedPageId}; physical page id is {expectedPageId}"
  let pageGeneration ← readAt bytes 16 8
  rejectAt (pageGeneration ≠ 0) base 16 s!"page generation {pageGeneration} is reserved in format v1"
  let lower ← readAt bytes 24 2
  let upper ← readAt bytes 26 2
  let cellCount ← readAt bytes 28 2
  let reserved ← readAt bytes 30 2
  rejectAt (reserved ≠ 0) base 30 "nonzero reserved page-header bytes"
  rejectAt (u64Bound ≤ cellCount * slotLen) base 28 "slot-array length overflowed usize"
  rejectAt (u64Bound ≤ dataHeaderLen + cellCount * slotLen) base 28 "slot-array end overflowed usize"
  let expectedLower := dataHeaderLen + cellCount * slotLen
  rejectAt (lower ≠ expectedLower) base 24
    s!"lower free-space boundary is {lower}; {cellCount} slots require {expectedLower}"
  rejectAt (upper < lower ∨ checksumOffset < upper) base 24
    s!"invalid free-space boundaries lower={lower}, upper={upper}, payload_end={checksumOffset}"
  let free ← sliceAt bytes lower upper
  rejectAt (free.any (· != 0)) base lower "nonzero bytes in declared free-space region"
  let sibling ← readAt bytes 32 8
  rejectAt (kind = .internal ∧ sibling ≠ rootNone) base 32
    "internal page must not encode a leaf right-sibling pointer"
  rejectAt (sibling ≠ rootNone ∧ sibling < superblockCount) base 32
    s!"right sibling {sibling} overlaps mirrored superblocks"
  rejectAt (sibling = expectedPageId) base 32 "leaf right sibling points to itself"
  let ranges ← readRanges bytes base upper 0 cellCount
  let stop ← checkTiles base upper (sortRanges ranges)
  rejectAt (stop ≠ checksumOffset) base (min stop checksumOffset)
    s!"packed cell payload ends at {stop}; expected {checksumOffset}"
  return kind

/-- Source `Page`: the array with the id and the kind that were read from it. -/
structure RawPage where
  bytes : PageBytes
  pageId : ℕ
  kind : PageKind
  deriving DecidableEq

namespace RawPage

/-- Source `Page::decode`. -/
def decode (bytes : PageBytes) (expectedPageId : ℕ) : Panicking BtreeError RawPage := do
  let kind ← validatePageBytes bytes.1 expectedPageId
  return ⟨bytes, expectedPageId, kind⟩

/-- Source `Page::validate`. -/
def validate (page : RawPage) : Panicking BtreeError Unit := do
  let decodedKind ← validatePageBytes page.bytes.1 page.pageId
  if decodedKind ≠ page.kind then
    let offset ← ofResult (pageOffset page.pageId)
    throw (.corruption offset "decoded page kind differs from in-memory page metadata")

/-- Source `cell_count`. -/
def cellCount (page : RawPage) : Panicking BtreeError ℕ := readAt page.bytes.1 28 2

/-- Source `free_bytes`. -/
def freeBytes (page : RawPage) : Panicking BtreeError ℕ := do
  let lower ← readAt page.bytes.1 24 2
  let upper ← readAt page.bytes.1 26 2
  return upper - lower

/-- Source `page_link`. -/
def pageLink (page : RawPage) : Panicking BtreeError (Option ℕ) := do
  let link ← readAt page.bytes.1 32 8
  return if link = rootNone then none else some link

/-- Source `cell`. -/
def cell (page : RawPage) (index : ℕ) : Panicking BtreeError Bytes := do
  page.validate
  let count ← page.cellCount
  rejectWhen (count ≤ index)
    (.invalidInput s!"cell index {index} is outside page {page.pageId} with {count} cells")
  let slots ← mulAt u64Bound index slotLen
  let slot ← addAt u64Bound dataHeaderLen slots
  let offset ← readAt page.bytes.1 slot 2
  let length ← readAt page.bytes.1 (slot + 2) 2
  sliceAt page.bytes.1 offset (offset + length)

end RawPage

/-! ### What the reader accepts -/

/-- The range of the cell of a slot, by the two numbers of the slot. -/
def slotRange (bytes : Bytes) (index : ℕ) : Interval :=
  let start := leNat (slice bytes (dataHeaderLen + index * slotLen) 2)
  (start, start + leNat (slice bytes (dataHeaderLen + index * slotLen + 2) 2))

variable {bytes : Bytes} {base upper id index left i j k : ℕ} {ranges : List Interval} {kind : PageKind}

theorem rejectAt_bind {β : Type} {R : β → Prop} {p : Prop} [Decidable p] {reason : String}
    {f : Unit → Panicking BtreeError β} (hbase : base + k < u64Bound) (h : ¬ p → Safe (f ()) R) :
    Safe (rejectAt p base k reason >>= f) R := by
  unfold rejectAt
  split_ifs with hp
  · rw [corruptAt, addAt_eq hbase]
    exact Safe.throw _
  · exact h hp

/-- The first byte of a page leaves room for the others. -/
theorem pageOffset_room (h : pageOffset id = .ok base) (hk : k < pageSize) : base + k < u64Bound := by
  unfold pageOffset at h
  split_ifs at h with hlt
  cases h
  rw [u64Bound_eq] at hlt ⊢
  have hid : id * pageSize < 4503599627370496 * pageSize := hlt
  have hnext : (id + 1) * pageSize ≤ 4503599627370496 * pageSize :=
    Nat.mul_le_mul_right _ (Nat.lt_of_mul_lt_mul_right hid)
  calc id * pageSize + k < id * pageSize + pageSize := Nat.add_lt_add_left hk _
    _ = (id + 1) * pageSize := (Nat.succ_mul _ _).symm
    _ ≤ 18446744073709551616 := hnext

section Room

variable (hroom : ∀ k < pageSize, base + k < u64Bound) (hlen : bytes.length = pageSize)
include hroom hlen

theorem cellRange_safe (hindex : dataHeaderLen + (index + 1) * slotLen ≤ checksumOffset) :
    Safe (cellRange bytes base upper index) fun r =>
      r = slotRange bytes index ∧ upper ≤ r.1 ∧ r.1 < r.2 ∧ r.2 ≤ checksumOffset := by
  have hslot : dataHeaderLen + index * slotLen + 4 ≤ checksumOffset := by
    rw [Nat.add_mul, slotLen_eq] at hindex
    rw [slotLen_eq]
    omega
  have hsize : checksumOffset = 4092 := rfl
  rw [hsize] at hslot
  simp only [pageSize_eq] at hlen hroom
  have h64 := u64Bound_eq
  unfold cellRange
  refine Safe.mulAt_bind (by omega) (Safe.addAt_bind (by omega) ?_)
  refine Safe.readAt_bind (by omega) (Safe.readAt_bind (by omega) ?_)
  refine rejectAt_bind (hroom _ (by omega)) fun hlength => ?_
  refine rejectAt_bind (hroom _ (by omega)) fun _ => ?_
  refine rejectAt_bind (hroom _ (by omega)) fun hrange => ?_
  refine Safe.pure ⟨rfl, ?_, ?_, ?_⟩
  · exact not_lt.1 fun hlt => hrange (.inl hlt)
  · exact Nat.lt_add_of_pos_right (Nat.pos_of_ne_zero hlength)
  · exact not_lt.1 fun hlt => hrange (.inr hlt)

/-- The walk over the slots reads the range of each of them. -/
theorem readRanges_safe (hleft : dataHeaderLen + (index + left) * slotLen ≤ checksumOffset) :
    Safe (readRanges bytes base upper index left) fun ranges =>
      ranges = (List.range' index left).map (slotRange bytes) ∧
        ∀ r ∈ ranges, upper ≤ r.1 ∧ r.1 < r.2 ∧ r.2 ≤ checksumOffset := by
  induction left generalizing index with
  | zero => exact Safe.pure ⟨rfl, fun r hr => by cases hr⟩
  | succ left ih =>
    have hone : dataHeaderLen + (index + 1) * slotLen ≤ checksumOffset := by
      simp only [slotLen_eq] at *
      omega
    refine (cellRange_safe hroom hlen hone).bind fun r hr => ?_
    have hrest : dataHeaderLen + (index + 1 + left) * slotLen ≤ checksumOffset := by
      rwa [Nat.add_assoc, Nat.add_comm 1 left]
    refine (ih hrest).bind fun ranges hranges => ?_
    obtain ⟨rfl, hr⟩ := hr
    obtain ⟨rfl, hranges⟩ := hranges
    refine Safe.pure ⟨by rw [List.range'_succ, List.map_cons], fun r hmem => ?_⟩
    rcases List.mem_cons.1 hmem with rfl | hmem
    · exact hr
    · exact hranges r hmem

omit hlen in
/-- The walk over the ordered ranges accepts tilings only. -/
theorem checkTiles_safe (hranges : ∀ r ∈ ranges, r.1 < r.2) :
    Safe (checkTiles base upper ranges) fun stop => Tiles upper stop ranges := by
  induction ranges generalizing upper with
  | nil => exact Safe.pure rfl
  | cons r ranges ih =>
    obtain ⟨start, stop⟩ := r
    refine rejectAt_bind (hroom _ ((min_le_right _ _).trans_lt (by decide))) fun hstart => ?_
    refine (ih fun r hr => hranges r (List.mem_cons_of_mem _ hr)).mono fun stop' htiles => ?_
    exact ⟨not_not.1 hstart, hranges _ List.mem_cons_self, htiles⟩

end Room

/-- The number of slots in the header. -/
def slotCount (bytes : Bytes) : ℕ := leNat (slice bytes 28 2)

/-- The end of the free space in the header. -/
def payloadStart (bytes : Bytes) : ℕ := leNat (slice bytes 26 2)

/-- The ranges of all slots, in slot order. -/
def slotRanges (bytes : Bytes) : List Interval := (List.range (slotCount bytes)).map (slotRange bytes)

/-- The link field of the header. -/
def linkField (bytes : Bytes) : ℕ := leNat (slice bytes 32 8)

/-- The bytes of the ranges, in slot order. -/
def slotCells (bytes : Bytes) : List Bytes := (slotRanges bytes).map fun r => slice bytes r.1 (r.2 - r.1)

/-- What holds of an array that the reader accepts as a page. -/
structure Accepted (bytes : Bytes) (id : ℕ) (kind : PageKind) : Prop where
  slots : dataHeaderLen + slotCount bytes * slotLen ≤ payloadStart bytes
  tiles : Tiles (payloadStart bytes) checksumOffset (sortRanges (slotRanges bytes))
  link_ok : linkField bytes = rootNone ∨
    kind ≠ .internal ∧ superblockCount ≤ linkField bytes ∧ linkField bytes ≠ id

theorem sortRanges_perm : (sortRanges ranges).Perm ranges := List.mergeSort_perm _ _

/-- **The reader of a page does not panic, and it accepts tilings only.** -/
theorem validatePageBytes_safe (hlen : bytes.length = pageSize) :
    Safe (validatePageBytes bytes id) fun kind => Accepted bytes id kind := by
  have hsize : bytes.length = 4096 := hlen
  unfold validatePageBytes
  refine (Safe.ofResult fun base hbase => hbase).bind fun base hbase => ?_
  have hroom : ∀ k < pageSize, base + k < u64Bound := fun k => pageOffset_room hbase
  have hroom' : ∀ k < 4096, base + k < u64Bound := hroom
  -- The checksum and the fields of the header lie within the page.
  unfold validateChecksum
  rw [bind_assoc]
  refine Safe.readAt_bind (by rw [hsize]; decide) ?_
  rw [bind_assoc]
  refine Safe.sliceAt_bind (Nat.zero_le _) (by rw [hsize]; decide) ?_
  refine rejectAt_bind (hroom' _ (by decide)) fun _ => ?_
  refine Safe.sliceAt_bind (Nat.zero_le _) (by omega) ?_
  refine rejectAt_bind (hroom' _ (by decide)) fun _ => ?_
  refine Safe.readAt_bind (by omega) ?_
  refine Safe.rejectWhen_bind fun _ => ?_
  refine Safe.readAt_bind (by omega) ?_
  refine Safe.addAt_bind (hroom' _ (by decide)) ?_
  refine (Safe.ofResult fun _ _ => trivial).bind fun kind _ => ?_
  refine Safe.readAt_bind (by omega) (rejectAt_bind (hroom' _ (by decide)) fun _ => ?_)
  refine Safe.readAt_bind (by omega) (rejectAt_bind (hroom' _ (by decide)) fun _ => ?_)
  refine Safe.readAt_bind (by omega) (rejectAt_bind (hroom' _ (by decide)) fun _ => ?_)
  refine Safe.readAt_bind (by omega) (Safe.readAt_bind (by omega) ?_)
  refine Safe.readAt_bind (by omega) (Safe.readAt_bind (by omega) ?_)
  refine rejectAt_bind (hroom' _ (by decide)) fun _ => ?_
  refine rejectAt_bind (hroom' _ (by decide)) fun _ => ?_
  refine rejectAt_bind (hroom' _ (by decide)) fun _ => ?_
  refine rejectAt_bind (hroom' _ (by decide)) fun hlower => ?_
  refine rejectAt_bind (hroom' _ (by decide)) fun hbounds => ?_
  -- From here on the slots end before the payloads, so that both are within the page.
  have hslots : dataHeaderLen + slotCount bytes * slotLen ≤ payloadStart bytes := by
    rw [not_not] at hlower
    have hle := not_lt.1 fun hlt => hbounds (.inl hlt)
    rw [hlower] at hle
    exact hle
  have hupper : payloadStart bytes ≤ checksumOffset := not_lt.1 fun hlt => hbounds (.inr hlt)
  have hend : leNat (slice bytes 26 2) ≤ bytes.length := hupper.trans (by rw [hsize]; decide)
  have hfree : leNat (slice bytes 24 2) ≤ leNat (slice bytes 26 2) := not_lt.1 fun hlt => hbounds (.inl hlt)
  have hstart : base + leNat (slice bytes 24 2) < u64Bound :=
    hroom' _ ((hfree.trans hupper).trans_lt (by decide))
  refine Safe.sliceAt_bind hfree hend ?_
  refine rejectAt_bind hstart fun _ => ?_
  refine Safe.readAt_bind (by omega) ?_
  refine rejectAt_bind (hroom' _ (by decide)) fun hinternal => ?_
  refine rejectAt_bind (hroom' _ (by decide)) fun hsmall => ?_
  refine rejectAt_bind (hroom' _ (by decide)) fun hself => ?_
  have hlink : linkField bytes = rootNone ∨
      kind ≠ .internal ∧ superblockCount ≤ linkField bytes ∧ linkField bytes ≠ id := by
    by_cases h0 : linkField bytes = rootNone
    · exact .inl h0
    · exact .inr ⟨fun hk => hinternal ⟨hk, h0⟩, not_lt.1 fun hlt => hsmall ⟨h0, hlt⟩, hself⟩
  -- The ranges of the slots, sorted, tile the payloads up to the checksum.
  have hfits : dataHeaderLen + (0 + slotCount bytes) * slotLen ≤ checksumOffset := by
    rw [Nat.zero_add]
    exact hslots.trans hupper
  refine (readRanges_safe hroom hlen hfits).bind fun ranges hranges => ?_
  obtain ⟨rfl, hranges⟩ := hranges
  have hlt : ∀ r ∈ sortRanges ((List.range' 0 (slotCount bytes)).map (slotRange bytes)), r.1 < r.2 :=
    fun r hr => (hranges r (sortRanges_perm.mem_iff.1 hr)).2.1
  refine (checkTiles_safe hroom hlt).bind fun stop htiles => ?_
  refine rejectAt_bind (hroom' _ ((min_le_right _ _).trans_lt (by decide))) fun hstop => ?_
  obtain rfl : stop = checksumOffset := not_not.1 hstop
  refine Safe.pure ⟨hslots, ?_, hlink⟩
  rw [slotRanges, List.range_eq_range']
  exact htiles

theorem mem_sortRanges (hindex : index < slotCount bytes) :
    slotRange bytes index ∈ sortRanges (slotRanges bytes) :=
  sortRanges_perm.mem_iff.2 (List.mem_map_of_mem (List.mem_range.2 hindex))

namespace Accepted

variable (h : Accepted bytes id kind)
include h

theorem range_mem (hindex : index < slotCount bytes) :
    payloadStart bytes ≤ (slotRange bytes index).1 ∧
      (slotRange bytes index).1 < (slotRange bytes index).2 ∧
      (slotRange bytes index).2 ≤ checksumOffset :=
  h.tiles.mem (mem_sortRanges hindex)

/-- Distinct slots have cells that do not overlap. -/
theorem apart (hi : i < slotCount bytes) (hj : j < slotCount bytes) (hij : i ≠ j) :
    Apart (slotRange bytes i) (slotRange bytes j) := by
  have hpairwise := h.tiles.apart_of_perm sortRanges_perm.symm
  rw [slotRanges, List.pairwise_map] at hpairwise
  have hsymm : Std.Symm fun a b => Apart (slotRange bytes a) (slotRange bytes b) :=
    ⟨fun _ _ => Apart.symm⟩
  exact hpairwise.forall (List.mem_range.2 hi) (List.mem_range.2 hj) hij

/-- Every byte of the data region belongs to a cell. -/
theorem cover {x : ℕ} (hx : payloadStart bytes ≤ x) (hlt : x < checksumOffset) :
    ∃ i < slotCount bytes, (slotRange bytes i).1 ≤ x ∧ x < (slotRange bytes i).2 := by
  obtain ⟨r, hr, hrx⟩ := h.tiles.cover hx hlt
  obtain ⟨i, hi, rfl⟩ := List.mem_map.1 (sortRanges_perm.mem_iff.1 hr)
  exact ⟨i, List.mem_range.1 hi, hrx⟩

end Accepted

namespace RawPage

variable {page : RawPage}

theorem decode_eq_ok {bytes : PageBytes} (h : decode bytes id = ofResult (.ok page)) :
    validatePageBytes page.bytes.1 page.pageId = ofResult (.ok page.kind) ∧
      page.bytes = bytes ∧ page.pageId = id := by
  unfold decode at h
  obtain ⟨r, hr, -⟩ := (@validatePageBytes_safe _ id bytes.2).exists_result
  rw [hr] at h
  cases r with
  | error e => cases h
  | ok kind =>
    cases h
    exact ⟨hr, rfl, rfl⟩

/-- A page that was read passes its own check. -/
theorem validate_eq (h : validatePageBytes page.bytes.1 page.pageId = ofResult (.ok page.kind)) :
    page.validate = ofResult (.ok ()) := by
  unfold validate
  rw [h, ofResult_ok_bind, if_neg (by simp)]
  rfl

theorem cellCount_eq : page.cellCount = ofResult (.ok (slotCount page.bytes.1)) :=
  readAt_eq (by rw [page.bytes.2]; decide)

/-- The cell of a slot is the slice of its range. -/
theorem cell_eq (hvalid : page.validate = ofResult (.ok ())) (h : Accepted page.bytes.1 page.pageId page.kind) (index : ℕ) :
    page.cell index = ofResult (if index < slotCount page.bytes.1 then
      .ok (slice page.bytes.1 (slotRange page.bytes.1 index).1
        ((slotRange page.bytes.1 index).2 - (slotRange page.bytes.1 index).1))
      else .error (.invalidInput
        s!"cell index {index} is outside page {page.pageId} with {slotCount page.bytes.1} cells")) := by
  have hlen : page.bytes.1.length = 4096 := page.bytes.2
  unfold cell
  rw [hvalid, ofResult_ok_bind, cellCount_eq, ofResult_ok_bind]
  by_cases hindex : index < slotCount page.bytes.1
  · obtain ⟨-, hrange, hstop⟩ := h.range_mem hindex
    have hslot : dataHeaderLen + index * slotLen + 4 ≤ 4092 := by
      have hslots := h.slots.trans h.tiles.le
      have hnext : (index + 1) * slotLen ≤ slotCount page.bytes.1 * slotLen := Nat.mul_le_mul_right _ hindex
      have hsize : checksumOffset = 4092 := rfl
      rw [slotLen_eq] at *
      omega
    have h64 := u64Bound_eq
    rw [rejectWhen_neg (not_le.2 hindex), if_pos hindex, mulAt_eq (by omega), ofResult_ok_bind,
      addAt_eq (by omega), ofResult_ok_bind, readAt_eq (by omega), ofResult_ok_bind, readAt_eq (by omega),
      ofResult_ok_bind]
    exact sliceAt_eq hrange.le (hstop.trans (by rw [hlen]; decide))
  · rw [rejectWhen_pos (not_lt.1 hindex), if_neg hindex]

/-- The cells are read back. -/
theorem cell_of_slotCells (hvalid : page.validate = ofResult (.ok ()))
    (h : Accepted page.bytes.1 page.pageId page.kind) {cell : Bytes}
    (hcell : (slotCells page.bytes.1)[index]? = some cell) : page.cell index = ofResult (.ok cell) := by
  have hlen : (slotCells page.bytes.1).length = slotCount page.bytes.1 := by
    rw [slotCells, slotRanges, List.length_map, List.length_map, List.length_range]
  have hindex : index < slotCount page.bytes.1 := by
    rw [← hlen]
    exact (List.getElem?_eq_some_iff.1 hcell).1
  rw [cell_eq hvalid h, if_pos hindex]
  rw [slotCells, slotRanges, List.map_map, List.getElem?_map, List.getElem?_range hindex] at hcell
  exact congrArg (fun c => ofResult (.ok c)) (Option.some.inj hcell)

/-- What is true of a page that was read: each slot has its cell in the data region, the cells tile this region
without overlap, and reading a cell gives the bytes of its range. -/
structure Tiled (page : RawPage) : Prop where
  slots : dataHeaderLen + slotCount page.bytes.1 * slotLen ≤ payloadStart page.bytes.1
  inside : ∀ i < slotCount page.bytes.1, payloadStart page.bytes.1 ≤ (slotRange page.bytes.1 i).1 ∧
    (slotRange page.bytes.1 i).1 < (slotRange page.bytes.1 i).2 ∧
    (slotRange page.bytes.1 i).2 ≤ checksumOffset
  apart : ∀ i < slotCount page.bytes.1, ∀ j < slotCount page.bytes.1, i ≠ j →
    Apart (slotRange page.bytes.1 i) (slotRange page.bytes.1 j)
  cover : ∀ x, payloadStart page.bytes.1 ≤ x → x < checksumOffset →
    ∃ i < slotCount page.bytes.1, (slotRange page.bytes.1 i).1 ≤ x ∧ x < (slotRange page.bytes.1 i).2
  cell : ∀ i, page.cell i = ofResult (if i < slotCount page.bytes.1 then
      .ok (slice page.bytes.1 (slotRange page.bytes.1 i).1
        ((slotRange page.bytes.1 i).2 - (slotRange page.bytes.1 i).1))
      else .error (.invalidInput
        s!"cell index {i} is outside page {page.pageId} with {slotCount page.bytes.1} cells"))

/-- **Decoding an array of bytes never indexes out of range or overflows, and the cells of a decoded page tile its
data region.** -/
theorem decode_tiled (bytes : PageBytes) (id : ℕ) :
    Safe (decode bytes id) fun page => page.bytes = bytes ∧ page.pageId = id ∧ page.Tiled := by
  have hsafe := @validatePageBytes_safe _ id bytes.2
  obtain ⟨r, hr, haccepted⟩ := hsafe.exists_result
  have hdecode : decode bytes id = ofResult (r.map fun kind => ⟨bytes, id, kind⟩) := by
    unfold decode
    rw [hr]
    cases r <;> rfl
  rw [hdecode]
  refine Safe.ofResult fun page hpage => ?_
  cases r with
  | error e => cases hpage
  | ok kind =>
    cases hpage
    have h := haccepted kind rfl
    exact ⟨rfl, rfl, h.slots, fun _ => h.range_mem, fun _ hi _ hj => h.apart hi hj, fun _ => h.cover,
      cell_eq (validate_eq hr) h⟩

end RawPage
end DbLab.Btree
