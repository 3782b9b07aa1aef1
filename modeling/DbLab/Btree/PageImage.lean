import DbLab.Btree.PageBytes

/-!
# The image of a page

The `image` of a `Page` lays its cells out from the end of the page downward, with the slots growing upward, and
ends with the checksum. The reader accepts an image, and what it reads is what the page holds.
-/

namespace DbLab.Btree

/-! ### The layout -/

/-- The 40 bytes of the header. -/
def header (kind id lower upper count link : ℕ) : Bytes :=
  pageMagic ++ leBytes 1 formatVersion ++ leBytes 1 kind ++ leBytes 2 0 ++ leBytes 8 id ++ leBytes 8 0 ++
    leBytes 2 lower ++ leBytes 2 upper ++ leBytes 2 count ++ leBytes 2 0 ++ leBytes 8 link

/-- The slots of cells that are packed downward from `top`. -/
def slotsFrom (top : ℕ) : List Bytes → Bytes
  | [] => []
  | cell :: cells =>
    leBytes 2 (top - cell.length) ++ (leBytes 2 cell.length ++ slotsFrom (top - cell.length) cells)

/-- The ranges of cells that are packed downward from `top`. -/
def rangesFrom (top : ℕ) : List Bytes → List Interval
  | [] => []
  | cell :: cells => (top - cell.length, top) :: rangesFrom (top - cell.length) cells

/-- The bytes of all cells. -/
def cellBytes (cells : List Bytes) : ℕ := (cells.map List.length).sum

/-- The cells in the order of their bytes: the last one is the lowest. -/
def packed (cells : List Bytes) : Bytes := cells.reverse.flatten

/-- What the checksum is taken of. -/
def imageBody (kind id link : ℕ) (cells : List Bytes) : Bytes :=
  header kind id (dataHeaderLen + cells.length * slotLen) (checksumOffset - cellBytes cells) cells.length link ++
    (slotsFrom checksumOffset cells ++
      (List.replicate (checksumOffset - cellBytes cells - (dataHeaderLen + cells.length * slotLen)) 0 ++
        packed cells))

/-- A body with its checksum. -/
def withChecksum (body : Bytes) : Bytes := body ++ leBytes 4 (crc32 body)

variable {kind id link lower upper count top base v i n : ℕ} {rest bytes : Bytes} {cell : Bytes} {cells : List Bytes}
  {α : Type}

theorem header_length : (header kind id lower upper count link).length = dataHeaderLen := rfl

/-- What is read in the header of an array. -/
structure HeaderFields (bytes : Bytes) (kind : PageKind) (id lower upper count link : ℕ) : Prop where
  magic : slice bytes 0 (4 - 0) = pageMagic
  version : leNat (slice bytes 4 1) = formatVersion
  encodedKind : leNat (slice bytes 5 1) = kind.encoded
  flags : leNat (slice bytes 6 2) = 0
  pageId : leNat (slice bytes 8 8) = id
  generation : leNat (slice bytes 16 8) = 0
  lower : leNat (slice bytes 24 2) = lower
  upper : leNat (slice bytes 26 2) = upper
  cellCount : leNat (slice bytes 28 2) = count
  reserved : leNat (slice bytes 30 2) = 0
  sibling : leNat (slice bytes 32 8) = link

section Header

/-- A field of a header is a slice of it. -/
theorem leNat_field {w : ℕ} (hfield : slice bytes i w = leBytes w v) (hv : v < 256 ^ w) :
    leNat (slice bytes i w) = v := by
  rw [hfield, leNat_leBytes hv]

theorem header_flags :
    leNat (slice (header kind id lower upper count link ++ rest) 6 2) = 0 :=
  leNat_field (by simp [slice, header, pageMagic, leBytes]) (by decide)

theorem header_id (h : id < 256 ^ 8) :
    leNat (slice (header kind id lower upper count link ++ rest) 8 8) = id :=
  leNat_field (by simp [slice, header, pageMagic, leBytes]) h

theorem header_generation :
    leNat (slice (header kind id lower upper count link ++ rest) 16 8) = 0 :=
  leNat_field (by simp [slice, header, pageMagic, leBytes]) (by decide)

theorem header_lower (h : lower < 256 ^ 2) :
    leNat (slice (header kind id lower upper count link ++ rest) 24 2) = lower :=
  leNat_field (by simp [slice, header, pageMagic, leBytes]) h

theorem header_upper (h : upper < 256 ^ 2) :
    leNat (slice (header kind id lower upper count link ++ rest) 26 2) = upper :=
  leNat_field (by simp [slice, header, pageMagic, leBytes]) h

theorem header_count (h : count < 256 ^ 2) :
    leNat (slice (header kind id lower upper count link ++ rest) 28 2) = count :=
  leNat_field (by simp [slice, header, pageMagic, leBytes]) h

theorem header_reserved :
    leNat (slice (header kind id lower upper count link ++ rest) 30 2) = 0 :=
  leNat_field (by simp [slice, header, pageMagic, leBytes]) (by decide)

theorem header_link (h : link < 256 ^ 8) :
    leNat (slice (header kind id lower upper count link ++ rest) 32 8) = link :=
  leNat_field (by simp [slice, header, pageMagic, leBytes]) h

/-- The header of an image is read back. -/
theorem headerFields_header {kind : PageKind} (hid : id < 256 ^ 8) (hlower : lower < 256 ^ 2)
    (hupper : upper < 256 ^ 2) (hcount : count < 256 ^ 2) (hlink : link < 256 ^ 8) :
    HeaderFields (header kind.encoded id lower upper count link ++ rest) kind id lower upper count link where
  magic := rfl
  version := rfl
  encodedKind := by cases kind <;> rfl
  flags := header_flags
  pageId := header_id hid
  generation := header_generation
  lower := header_lower hlower
  upper := header_upper hupper
  cellCount := header_count hcount
  reserved := header_reserved
  sibling := header_link hlink

theorem header_setLower : setSlice (header kind id lower upper count link ++ rest) 24 (leBytes 2 v) =
    header kind id v upper count link ++ rest := by
  simp [setSlice, header, pageMagic, leBytes]

theorem header_setUpper : setSlice (header kind id lower upper count link ++ rest) 26 (leBytes 2 v) =
    header kind id lower v count link ++ rest := by
  simp [setSlice, header, pageMagic, leBytes]

theorem header_setCount : setSlice (header kind id lower upper count link ++ rest) 28 (leBytes 2 v) =
    header kind id lower upper v link ++ rest := by
  simp [setSlice, header, pageMagic, leBytes]

theorem header_setLink : setSlice (header kind id lower upper count link ++ rest) 32 (leBytes 8 v) =
    header kind id lower upper count v ++ rest := by
  simp [setSlice, header, pageMagic, leBytes]

end Header

@[simp] theorem cellBytes_nil : cellBytes [] = 0 := rfl

@[simp] theorem cellBytes_cons : cellBytes (cell :: cells) = cell.length + cellBytes cells := by
  simp [cellBytes]

@[simp] theorem cellBytes_append (l m : List Bytes) : cellBytes (l ++ m) = cellBytes l + cellBytes m := by
  simp [cellBytes]

theorem usedBytes_eq : usedBytes cells = cells.length * slotLen + cellBytes cells := by
  induction cells with
  | nil => rfl
  | cons cell cells ih =>
    rw [usedBytes_cons, ih, List.length_cons, cellBytes_cons, slotLen_eq]
    omega

theorem slotsFrom_length : (slotsFrom top cells).length = cells.length * slotLen := by
  induction cells generalizing top with
  | nil => rfl
  | cons cell cells ih =>
    simp only [slotsFrom, List.length_append, leBytes_length, ih, List.length_cons, slotLen_eq]
    omega

theorem packed_length : (packed cells).length = cellBytes cells := by
  simp [packed, cellBytes, List.length_flatten, List.map_reverse, List.sum_reverse]

theorem packed_append : packed (cells ++ [cell]) = cell ++ packed cells := by
  simp [packed]

theorem packed_cons : packed (cell :: cells) = packed cells ++ cell := by
  simp [packed]

/-- The slot of one more cell. -/
theorem slotsFrom_append : slotsFrom top (cells ++ [cell]) =
    slotsFrom top cells ++
      (leBytes 2 (top - cellBytes cells - cell.length) ++ leBytes 2 cell.length) := by
  induction cells generalizing top with
  | nil => simp [slotsFrom]
  | cons c cells ih =>
    rw [List.cons_append, slotsFrom, ih, slotsFrom, cellBytes_cons, Nat.sub_add_eq]
    simp only [List.append_assoc]

/-- The ranges of the cells, from the lowest one upward, tile what the cells take. -/
theorem tiles_rangesFrom (hne : ∀ cell ∈ cells, cell ≠ []) (hfits : cellBytes cells ≤ top) :
    Tiles (top - cellBytes cells) top (rangesFrom top cells).reverse := by
  induction cells generalizing top with
  | nil => exact Nat.sub_zero top
  | cons cell cells ih =>
    rw [cellBytes_cons] at hfits
    have hpos : 0 < cell.length := List.length_pos_of_ne_nil (hne cell List.mem_cons_self)
    have hrest := @ih (top - cell.length) (fun c hc => hne c (List.mem_cons_of_mem _ hc)) (by omega)
    rw [rangesFrom, List.reverse_cons, cellBytes_cons, Nat.sub_add_eq]
    exact hrest.append ⟨rfl, by omega, rfl⟩

/-! ### Reading an image -/

theorem rejectAt_neg {p : Prop} [Decidable p] {k : ℕ} {reason : String} {f : Unit → Panicking BtreeError α}
    (h : ¬ p) : (rejectAt p base k reason >>= f) = f () := by
  rw [rejectAt, if_neg h]
  rfl

/-- A tiling passes the walk over the ranges. -/
theorem checkTiles_eq {a b : ℕ} {ranges : List Interval} (h : Tiles a b ranges) :
    checkTiles base a ranges = ofResult (.ok b) := by
  induction ranges generalizing a with
  | nil =>
    obtain rfl : a = b := h
    rfl
  | cons r ranges ih =>
    obtain ⟨rfl, -, hrest⟩ := h
    rw [checkTiles, rejectAt_neg (by simp)]
    exact ih hrest

/-- The slot of a cell of `length` bytes at `start`. -/
theorem cellRange_eq {index start length : ℕ} {front : Bytes}
    (hfront : front.length = dataHeaderLen + index * slotLen)
    (hbytes : bytes = front ++ (leBytes 2 start ++ (leBytes 2 length ++ rest))) (hlength : 0 < length)
    (hstart : upper ≤ start) (hstop : start + length ≤ checksumOffset) (hindex : index ≤ checksumOffset) :
    cellRange bytes base upper index = ofResult (.ok (start, start + length)) := by
  have hsize : checksumOffset = 4092 := rfl
  have h64 := u64Bound_eq
  have hlen : dataHeaderLen + index * slotLen + 4 ≤ bytes.length := by
    rw [hbytes, ← hfront]
    simp only [List.length_append, leBytes_length]
    omega
  have hread : leNat (slice bytes (dataHeaderLen + index * slotLen) 2) = start := by
    rw [hbytes, slice_append_middle hfront (leBytes_length 2 start)]
    exact leNat_leBytes (by omega)
  have hread' : leNat (slice bytes (dataHeaderLen + index * slotLen + 2) 2) = length := by
    rw [hbytes, slice_append_right hfront]
    exact @leNat_leBytes 2 length (by omega)
  have hmul : index * slotLen < u64Bound := by
    rw [slotLen_eq]
    omega
  have hadd : dataHeaderLen + index * slotLen < u64Bound := by
    have hheader : dataHeaderLen = 40 := rfl
    rw [slotLen_eq]
    omega
  rw [cellRange, mulAt_eq hmul, ofResult_ok_bind, addAt_eq hadd, ofResult_ok_bind,
    readAt_bind (by omega) hread, readAt_bind (by omega) hread', rejectAt_neg hlength.ne',
    rejectAt_neg (by omega), rejectAt_neg (by omega)]
  rfl

/-- The walk over the slots of packed cells. -/
theorem readRanges_eq {index : ℕ} {front : Bytes} (hfront : front.length = dataHeaderLen + index * slotLen)
    (hbytes : bytes = front ++ (slotsFrom top cells ++ rest)) (hne : ∀ cell ∈ cells, cell ≠ [])
    (hfits : upper + cellBytes cells ≤ top) (htop : top ≤ checksumOffset)
    (hindex : index + cells.length ≤ checksumOffset) :
    readRanges bytes base upper index cells.length = ofResult (.ok (rangesFrom top cells)) := by
  induction cells generalizing index top front with
  | nil => rfl
  | cons cell cells ih =>
    rw [cellBytes_cons] at hfits
    rw [List.length_cons] at hindex
    have hpos : 0 < cell.length := List.length_pos_of_ne_nil (hne cell List.mem_cons_self)
    have hslot : bytes = front ++ (leBytes 2 (top - cell.length) ++ (leBytes 2 cell.length ++
        (slotsFrom (top - cell.length) cells ++ rest))) := by
      rw [hbytes, slotsFrom, List.append_assoc, List.append_assoc]
    have hone : cellRange bytes base upper index =
        ofResult (.ok (top - cell.length, top - cell.length + cell.length)) :=
      cellRange_eq hfront hslot hpos (by omega) (by omega) (by omega)
    have hfront' : (front ++ (leBytes 2 (top - cell.length) ++ leBytes 2 cell.length)).length =
        dataHeaderLen + (index + 1) * slotLen := by
      simp only [List.length_append, leBytes_length, hfront, slotLen_eq]
      omega
    have hnext : bytes = (front ++ (leBytes 2 (top - cell.length) ++ leBytes 2 cell.length)) ++
        (slotsFrom (top - cell.length) cells ++ rest) := by
      rw [hslot]
      simp only [List.append_assoc]
    have hrest : readRanges bytes base upper (index + 1) cells.length =
        ofResult (.ok (rangesFrom (top - cell.length) cells)) :=
      ih hfront' hnext (fun c hc => hne c (List.mem_cons_of_mem _ hc)) (by omega) (by omega) (by omega)
    rw [List.length_cons, readRanges, hone, ofResult_ok_bind, hrest, rangesFrom,
      Nat.sub_add_cancel (by omega)]
    rfl

theorem imageBody_length (hfits : usedBytes cells ≤ pageBodyCapacity) :
    (imageBody kind id link cells).length = checksumOffset := by
  have hsize : checksumOffset = 4092 := rfl
  have hheader : dataHeaderLen = 40 := rfl
  rw [usedBytes_eq, pageBodyCapacity_eq] at hfits
  simp only [imageBody, List.length_append, header_length, slotsFrom_length, List.length_replicate, packed_length]
  omega

theorem withChecksum_length {body : Bytes} (h : body.length = checksumOffset) :
    (withChecksum body).length = pageSize := by
  rw [withChecksum, List.length_append, leBytes_length, h]
  rfl

/-- The array whose checksum is refreshed. -/
theorem validateChecksum_eq {body : Bytes} (h : body.length = checksumOffset) :
    validateChecksum (withChecksum body) base = ofResult (.ok ()) := by
  have hlen := withChecksum_length h
  have hexpected : leNat (slice (withChecksum body) checksumOffset 4) = crc32 body := by
    have hslice := @slice_append_middle body (leBytes 4 (crc32 body)) _ _ [] h (leBytes_length 4 _)
    rw [List.append_nil] at hslice
    rw [withChecksum, hslice]
    exact leNat_leBytes (crc32_lt body)
  have hbody : slice (withChecksum body) 0 (checksumOffset - 0) = body := slice_append_self h
  rw [validateChecksum, readAt_bind (by rw [hlen]; decide) hexpected,
    sliceAt_eq (Nat.zero_le _) (by rw [hlen]; decide), ofResult_ok_bind, hbody]
  exact if_neg (by simp)

theorem PageKind.decode_encoded (kind : PageKind) (offset : ℕ) :
    PageKind.decode kind.encoded offset = .ok kind := by
  cases kind <;> rfl

/-- The link of a page passes the checks of the reader. -/
theorem link_passes {kind : PageKind} (hid : superblockCount ≤ id)
    (hlink_ok : link = rootNone ∨ kind ≠ .internal ∧ superblockCount ≤ link ∧ link ≠ id) :
    ¬ (kind = .internal ∧ link ≠ rootNone) ∧ ¬ (link ≠ rootNone ∧ link < superblockCount) ∧ ¬ link = id := by
  rcases hlink_ok with rfl | ⟨hkind, hle, hne⟩
  · refine ⟨fun h => h.2 rfl, fun h => h.1 rfl, fun h => ?_⟩
    rw [superblockCount_eq, ← h, rootNone_eq] at hid
    omega
  · exact ⟨fun h => hkind h.1, fun h => absurd h.2 (not_lt.2 hle), hne⟩

/-- **The reader accepts the image of a page.** -/
theorem validatePageBytes_image {kind : PageKind} (hbase : pageOffset id = .ok base)
    (hid : superblockCount ≤ id) (hlink : link < u64Bound)
    (hlink_ok : link = rootNone ∨ kind ≠ .internal ∧ superblockCount ≤ link ∧ link ≠ id)
    (hne : ∀ cell ∈ cells, cell ≠ []) (hfits : usedBytes cells ≤ pageBodyCapacity) :
    validatePageBytes (withChecksum (imageBody kind.encoded id link cells)) id = ofResult (.ok kind) := by
  have hbody := @imageBody_length kind.encoded id link cells hfits
  have hlen : (withChecksum (imageBody kind.encoded id link cells)).length = 4096 := withChecksum_length hbody
  have hroom : base + 5 < u64Bound := pageOffset_room hbase (by decide)
  have hused := hfits
  rw [usedBytes_eq, pageBodyCapacity_eq] at hused
  have hsize : checksumOffset = 4092 := rfl
  have hheader : dataHeaderLen = 40 := rfl
  have h64 := u64Bound_eq
  have hid64 : id < 256 ^ 8 := by
    unfold pageOffset at hbase
    split_ifs at hbase with hlt
    rw [pageSize_eq] at hlt
    omega
  have hchecksum : validateChecksum (withChecksum (imageBody kind.encoded id link cells)) base = ofResult (.ok ()) :=
    validateChecksum_eq hbody
  rw [slotLen_eq] at hused
  -- What the header says, and what lies behind it.
  generalize hl : dataHeaderLen + cells.length * slotLen = lower at *
  generalize hu : checksumOffset - cellBytes cells = upper at *
  have hbytes : withChecksum (imageBody kind.encoded id link cells) =
      header kind.encoded id lower upper cells.length link ++ (slotsFrom checksumOffset cells ++
        (List.replicate (upper - lower) 0 ++ (packed cells ++
          leBytes 4 (crc32 (imageBody kind.encoded id link cells))))) := by
    rw [withChecksum]
    nth_rewrite 1 [imageBody]
    rw [hl, hu]
    simp only [List.append_assoc]
  have hfree : slice (withChecksum (imageBody kind.encoded id link cells)) lower (upper - lower) =
      List.replicate (upper - lower) 0 := by
    have hfront : (header kind.encoded id lower upper cells.length link ++ slotsFrom checksumOffset cells).length =
        lower := by
      rw [List.length_append, header_length, slotsFrom_length, hl]
    rw [hbytes, ← List.append_assoc]
    exact slice_append_middle hfront List.length_replicate
  have hranges : readRanges (withChecksum (imageBody kind.encoded id link cells)) base upper 0 cells.length =
      ofResult (.ok (rangesFrom checksumOffset cells)) :=
    readRanges_eq (by rw [header_length]; rfl) hbytes hne (by omega) le_rfl (by omega)
  have htiles := tiles_rangesFrom hne (show cellBytes cells ≤ checksumOffset by omega)
  rw [hu] at htiles
  have hsort : sortRanges (rangesFrom checksumOffset cells) = (rangesFrom checksumOffset cells).reverse :=
    htiles.mergeSort_eq (List.reverse_perm _).symm
  generalize withChecksum (imageBody kind.encoded id link cells) = bytes at *
  generalize slotsFrom checksumOffset cells ++ _ = rest at hbytes
  have hlower4 : lower = dataHeaderLen + cells.length * 4 := by rw [← hl, slotLen_eq]
  have hfields : HeaderFields bytes kind id lower upper cells.length link := by
    rw [hbytes]
    exact headerFields_header hid64 (by omega) (by omega) (by omega) (by omega)
  rw [validatePageBytes, hbase, ofResult_ok_bind, hchecksum, ofResult_ok_bind,
    sliceAt_eq (Nat.zero_le _) (by omega), ofResult_ok_bind, rejectAt_neg (not_not.2 hfields.magic),
    readAt_bind (by omega) hfields.version, rejectWhen_neg (not_not.2 rfl),
    readAt_bind (by omega) hfields.encodedKind, addAt_eq hroom, ofResult_ok_bind, PageKind.decode_encoded,
    ofResult_ok_bind, readAt_bind (by omega) hfields.flags, rejectAt_neg (not_not.2 rfl),
    readAt_bind (by omega) hfields.pageId, rejectAt_neg (not_not.2 rfl),
    readAt_bind (by omega) hfields.generation, rejectAt_neg (not_not.2 rfl),
    readAt_bind (by omega) hfields.lower, readAt_bind (by omega) hfields.upper,
    readAt_bind (by omega) hfields.cellCount, readAt_bind (by omega) hfields.reserved,
    rejectAt_neg (not_not.2 rfl)]
  have hslots : cells.length * slotLen < u64Bound := by
    rw [slotLen_eq]
    omega
  have hzeros : ¬ (List.replicate (upper - lower) (0 : Byte)).any (· != 0) = true := by simp
  obtain ⟨hinternal, hsmall, hself⟩ := link_passes hid hlink_ok
  rw [rejectAt_neg (not_le.2 hslots), rejectAt_neg (by omega)]
  dsimp only
  rw [rejectAt_neg (not_not.2 hl.symm), rejectAt_neg (by omega), sliceAt_eq (by omega) (by omega),
    ofResult_ok_bind, hfree, rejectAt_neg hzeros, readAt_bind (by omega) hfields.sibling, rejectAt_neg hinternal,
    rejectAt_neg hsmall, rejectAt_neg hself, hranges, ofResult_ok_bind, hsort, checkTiles_eq htiles,
    ofResult_ok_bind, rejectAt_neg (not_not.2 rfl)]
  rfl

/-! ### Pages and their images -/

/-- The array that a page is written as. -/
def Page.raw (page : Page) : RawPage where
  bytes := ⟨withChecksum (imageBody page.kind.encoded page.pageId page.link page.cells),
    withChecksum_length (imageBody_length page.fits)⟩
  pageId := page.pageId
  kind := page.kind

/-- The page has an id behind the superblocks and a link of 64 bits. -/
structure Page.Encodable (page : Page) : Prop where
  id_ge : superblockCount ≤ page.pageId
  link_lt : page.link < u64Bound

variable {page : Page}

theorem raw_bytes : page.raw.bytes.1 =
    header page.kind.encoded page.pageId (dataHeaderLen + page.cells.length * slotLen)
      (checksumOffset - cellBytes page.cells) page.cells.length page.link ++
    (slotsFrom checksumOffset page.cells ++
      (List.replicate (checksumOffset - cellBytes page.cells - (dataHeaderLen + page.cells.length * slotLen)) 0 ++
        (packed page.cells ++
          leBytes 4 (crc32 (imageBody page.kind.encoded page.pageId page.link page.cells))))) := by
  show withChecksum _ = _
  rw [withChecksum]
  nth_rewrite 1 [imageBody]
  simp only [List.append_assoc]

theorem raw_eq {bytes : PageBytes}
    (h : bytes.1 = withChecksum (imageBody page.kind.encoded page.pageId page.link page.cells)) :
    (⟨bytes, page.pageId, page.kind⟩ : RawPage) = page.raw := by
  unfold Page.raw
  congr 1
  exact Subtype.ext h

theorem raw_validatePageBytes (h : page.Encodable) :
    validatePageBytes page.raw.bytes.1 page.pageId = ofResult (page.validate.map fun _ => page.kind) := by
  unfold Page.validate
  cases hbase : pageOffset page.pageId with
  | error e =>
    rw [validatePageBytes, hbase]
    rfl
  | ok base => exact validatePageBytes_image hbase h.id_ge h.link_lt page.link_ok page.cells_ne page.fits

/-- The image of a page passes the check of the page. -/
theorem raw_validate (h : page.Encodable) : page.raw.validate = ofResult page.validate := by
  have hbytes := raw_validatePageBytes h
  cases hvalid : page.validate with
  | error e =>
    rw [RawPage.validate]
    show (validatePageBytes page.raw.bytes.1 page.pageId >>= _) = _
    rw [hbytes, hvalid]
    rfl
  | ok u =>
    rw [hvalid] at hbytes
    exact RawPage.validate_eq hbytes

theorem sizes_le (page : Page) : 40 + page.cells.length * 4 + cellBytes page.cells ≤ 4092 := by
  have hfits := page.fits
  rw [usedBytes_eq, slotLen_eq, pageBodyCapacity_eq] at hfits
  omega

theorem freeBytes_eq (page : Page) :
    page.freeBytes = checksumOffset - cellBytes page.cells - (dataHeaderLen + page.cells.length * slotLen) := by
  have hsizes := sizes_le page
  have hsize : checksumOffset = 4092 := rfl
  have hheader : dataHeaderLen = 40 := rfl
  rw [Page.freeBytes, usedBytes_eq, pageBodyCapacity_eq, slotLen_eq]
  omega

theorem raw_lower : (readAt page.raw.bytes.1 24 2 : Panicking BtreeError ℕ) =
    ofResult (.ok (dataHeaderLen + page.cells.length * slotLen)) := by
  have hsizes := sizes_le page
  have hheader : dataHeaderLen = 40 := rfl
  rw [readAt_eq (by rw [page.raw.bytes.2]; decide), raw_bytes]
  rw [header_lower]
  rw [slotLen_eq]
  omega

theorem raw_upper : (readAt page.raw.bytes.1 26 2 : Panicking BtreeError ℕ) =
    ofResult (.ok (checksumOffset - cellBytes page.cells)) := by
  have hsize : checksumOffset = 4092 := rfl
  rw [readAt_eq (by rw [page.raw.bytes.2]; decide), raw_bytes,
    header_upper (by omega)]

theorem raw_slotCount : slotCount page.raw.bytes.1 = page.cells.length := by
  have hsizes := sizes_le page
  rw [slotCount, raw_bytes, header_count (by omega)]

theorem raw_cellCount : page.raw.cellCount = ofResult (.ok page.cells.length) := by
  rw [RawPage.cellCount_eq, raw_slotCount]

theorem raw_freeBytes : page.raw.freeBytes = ofResult (.ok page.freeBytes) := by
  rw [RawPage.freeBytes, raw_lower, ofResult_ok_bind, raw_upper, ofResult_ok_bind, freeBytes_eq]
  rfl

theorem raw_pageLink (h : page.Encodable) : page.raw.pageLink = ofResult (.ok page.pageLink) := by
  have hlink := h.link_lt
  rw [u64Bound_eq] at hlink
  have hread : leNat (slice page.raw.bytes.1 32 8) = page.link := by
    rw [raw_bytes]
    exact header_link (by omega)
  rw [RawPage.pageLink, readAt_bind (by rw [page.raw.bytes.2]; decide) hread]
  rfl

/-! ### The cells of an image -/

/-- The slots of an image say where its cells are. -/
theorem raw_slotRanges (page : Page) : slotRanges page.raw.bytes.1 = rangesFrom checksumOffset page.cells := by
  have hsizes := sizes_le page
  have hsize : checksumOffset = 4092 := rfl
  have hroom : ∀ k < pageSize, 0 + k < u64Bound := by
    intro k hk
    rw [pageSize_eq] at hk
    rw [u64Bound_eq]
    omega
  have hread : readRanges page.raw.bytes.1 0 (checksumOffset - cellBytes page.cells) 0 page.cells.length =
      ofResult (.ok (rangesFrom checksumOffset page.cells)) :=
    readRanges_eq (by rw [header_length]; rfl) raw_bytes page.cells_ne (by omega) le_rfl (by omega)
  have hsafe := @readRanges_safe page.raw.bytes.1 0 (checksumOffset - cellBytes page.cells) 0 page.cells.length
    hroom page.raw.bytes.2 (by rw [slotLen_eq, hsize]; show 40 + (0 + page.cells.length) * 4 ≤ 4092; omega)
  rw [slotRanges, raw_slotCount, List.range_eq_range', (hsafe.of_ok hread).1]

/-- The bytes at the ranges of packed cells are the cells. -/
theorem packed_slices {xs ys : Bytes} (h : bytes = xs ++ (packed cells ++ ys))
    (htop : xs.length + cellBytes cells = top) :
    (rangesFrom top cells).map (fun r => slice bytes r.1 (r.2 - r.1)) = cells := by
  induction cells generalizing top ys with
  | nil => rfl
  | cons cell cells ih =>
    rw [cellBytes_cons] at htop
    have hcell : bytes = (xs ++ packed cells) ++ (cell ++ ys) := by
      rw [h, packed_cons]
      simp only [List.append_assoc]
    have hlen : (xs ++ packed cells).length = top - cell.length := by
      rw [List.length_append, packed_length]
      omega
    have hone : slice bytes (top - cell.length) (top - (top - cell.length)) = cell := by
      rw [hcell]
      exact slice_append_middle hlen (by omega)
    have hrest : bytes = xs ++ (packed cells ++ (cell ++ ys)) := by rw [hcell, List.append_assoc]
    rw [rangesFrom, List.map_cons, hone, ih hrest (by omega)]

/-- The cells of an image are read back. -/
theorem raw_cells (page : Page) :
    slotCells page.raw.bytes.1 = page.cells := by
  have hsizes := sizes_le page
  have hsize : checksumOffset = 4092 := rfl
  have hheader : dataHeaderLen = 40 := rfl
  rw [slotCells, raw_slotRanges]
  have hbytes := @raw_bytes page
  rw [← List.append_assoc (slotsFrom _ _), ← List.append_assoc (header _ _ _ _ _ _)] at hbytes
  refine packed_slices hbytes ?_
  simp only [List.length_append, header_length, slotsFrom_length, List.length_replicate, slotLen_eq]
  omega

theorem raw_accepted (hvalid : page.Encodable) (hok : page.validate = .ok ()) :
    Accepted page.raw.bytes.1 page.pageId page.kind := by
  have hbytes := raw_validatePageBytes hvalid
  rw [hok] at hbytes
  exact (validatePageBytes_safe page.raw.bytes.2).of_ok hbytes

theorem raw_cell (hvalid : page.Encodable) (hok : page.validate = .ok ()) (h : page.cells[i]? = some cell) :
    page.raw.cell i = ofResult (.ok cell) := by
  rw [← raw_cells page] at h
  exact RawPage.cell_of_slotCells (by rw [raw_validate hvalid, hok]) (raw_accepted hvalid hok) h

theorem raw_cell_none (hvalid : page.Encodable) (hok : page.validate = .ok ()) (h : page.cells.length ≤ i) :
    page.raw.cell i = ofResult (.error (.invalidInput
      s!"cell index {i} is outside page {page.pageId} with {page.cells.length} cells")) := by
  rw [RawPage.cell_eq (by rw [raw_validate hvalid, hok]) (raw_accepted hvalid hok), raw_slotCount,
    if_neg (not_lt.2 h)]
  rfl

/-! ### Accepted arrays are pages -/

/-- The cells of an accepted array are those of a page. -/
theorem Accepted.exists_page {kind : PageKind} (h : Accepted bytes id kind) (hlen : bytes.length = pageSize) :
    ∃ page : Page, page.pageId = id ∧ page.kind = kind ∧ page.link = linkField bytes ∧
      page.cells = slotCells bytes := by
  have hmem : ∀ r ∈ slotRanges bytes, r.1 < r.2 ∧ r.2 ≤ checksumOffset :=
    fun r hr => (h.tiles.mem (sortRanges_perm.mem_iff.2 hr)).2
  have hlength : ∀ r ∈ slotRanges bytes, (slice bytes r.1 (r.2 - r.1)).length = r.2 - r.1 := by
    intro r hr
    obtain ⟨hlt, hle⟩ := hmem r hr
    have hsize : checksumOffset ≤ bytes.length := by
      rw [hlen]
      decide
    exact slice_length (by omega)
  have hne : ∀ cell ∈ slotCells bytes, cell ≠ [] := by
    intro cell hcell
    obtain ⟨r, hr, rfl⟩ := List.mem_map.1 hcell
    obtain ⟨hlt, -⟩ := hmem r hr
    exact List.ne_nil_of_length_pos (by rw [hlength r hr]; omega)
  have hbytes : cellBytes (slotCells bytes) = checksumOffset - payloadStart bytes := by
    have hmap : (slotRanges bytes).map (List.length ∘ fun r => slice bytes r.1 (r.2 - r.1)) =
        (slotRanges bytes).map fun r => r.2 - r.1 := List.map_congr_left hlength
    rw [← h.tiles.sum, cellBytes, slotCells, List.map_map, hmap]
    exact (sortRanges_perm.map _).sum_eq.symm
  have hfits : usedBytes (slotCells bytes) ≤ pageBodyCapacity := by
    have hslots := h.slots
    have hle := h.tiles.le
    have hcount : (slotCells bytes).length = slotCount bytes := by
      rw [slotCells, slotRanges, List.length_map, List.length_map, List.length_range]
    rw [usedBytes_eq, hbytes, hcount, pageBodyCapacity]
    omega
  exact ⟨⟨id, kind, linkField bytes, slotCells bytes, h.link_ok, hne, hfits⟩, rfl, rfl, rfl, rfl⟩

/-- **A decoded array is a page**: its cells and its link are those of a `Page`. -/
theorem RawPage.decode_page {bytes : PageBytes} {raw : RawPage} (h : RawPage.decode bytes id = ofResult (.ok raw)) :
    ∃ page : Page, page.pageId = id ∧ page.kind = raw.kind ∧ raw.pageLink = ofResult (.ok page.pageLink) ∧
      raw.cellCount = ofResult (.ok page.cellCount) ∧
      ∀ i cell, page.cells[i]? = some cell → raw.cell i = ofResult (.ok cell) := by
  obtain ⟨hvalid, rfl, rfl⟩ := RawPage.decode_eq_ok h
  have haccepted := (validatePageBytes_safe raw.bytes.2).of_ok hvalid
  obtain ⟨page, hid, hkind, hlink, hcells⟩ := haccepted.exists_page raw.bytes.2
  refine ⟨page, hid, hkind, ?_, ?_, fun i cell hcell => ?_⟩
  · rw [RawPage.pageLink, readAt_bind (by rw [raw.bytes.2]; decide) rfl, Page.pageLink, hlink]
    rfl
  · rw [RawPage.cellCount_eq, Page.cellCount, hcells, slotCells, slotRanges, List.length_map, List.length_map,
      List.length_range]
  · rw [hcells] at hcell
    exact RawPage.cell_of_slotCells (RawPage.validate_eq hvalid) haccepted hcell

end DbLab.Btree
