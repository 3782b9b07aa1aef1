import DbLab.Btree.PageImage

/-!
# Writing pages

The operations on the array of a page, as the source computes them: an update checks the page, writes its slices
in place, and refreshes the checksum. Each operation on the image of a page does what the operation of `Page` does,
errors included.
-/

namespace DbLab.Btree

/-! ### Operations -/

namespace PageBytes

/-- The slice `bytes[i..j]` overwritten by `copy_from_slice`; no array is the panic. -/
def copyAt (bytes : PageBytes) (i j : ℕ) (data : Bytes) : Option PageBytes :=
  if h : i ≤ j ∧ j ≤ pageSize ∧ data.length = j - i then
    some ⟨setSlice bytes.1 i data, by rw [setSlice_length (by rw [bytes.2]; omega), bytes.2]⟩
  else none

/-- `[0_u8; PAGE_SIZE]` -/
def zeros : PageBytes := ⟨List.replicate pageSize 0, List.length_replicate⟩

/-- Source `refresh_checksum`. -/
def refreshChecksum (bytes : PageBytes) : Option PageBytes :=
  bytes.copyAt checksumOffset pageSize (leBytes 4 (crc32 (slice bytes.1 0 checksumOffset)))

end PageBytes

/-- An operation on `&mut self`: the page is there whatever the outcome is; nothing is the panic. -/
abbrev PageOp := ExceptT BtreeError (StateT RawPage Option)

namespace PageOp

variable {α β : Type}

/-- An operation on `&self`. -/
def query (f : RawPage → Panicking BtreeError α) : PageOp α :=
  ExceptT.mk fun page => (f page).run.map fun r => (r, page)

/-- A write to the array. -/
def update (f : PageBytes → Option PageBytes) : PageOp Unit :=
  ExceptT.mk fun page => (f page.bytes).map fun bytes => (.ok (), { page with bytes })

def reject (p : Prop) [Decidable p] (e : BtreeError) : PageOp Unit := query fun _ => rejectWhen p e

/-- The outcome of an operation. -/
def outcome (op : PageOp α) (page : RawPage) : Option (Except BtreeError α × RawPage) := op.run.run page

end PageOp

namespace RawPage

open PageOp PageBytes

/-- Source `Page::new`. -/
def new (pageId : ℕ) (kind : PageKind) : Panicking BtreeError RawPage := do
  rejectWhen (pageId < superblockCount)
    (.invalidInput s!"data page id {pageId} overlaps mirrored superblocks")
  let bytes ← orPanic (zeros.copyAt 0 4 pageMagic)
  let bytes ← orPanic (bytes.copyAt 4 5 (leBytes 1 formatVersion))
  let bytes ← orPanic (bytes.copyAt 5 6 (leBytes 1 kind.encoded))
  let bytes ← orPanic (bytes.copyAt 6 8 (leBytes 2 0))
  let bytes ← orPanic (bytes.copyAt 8 16 (leBytes 8 pageId))
  let bytes ← orPanic (bytes.copyAt 16 24 (leBytes 8 0))
  let bytes ← orPanic (bytes.copyAt 24 26 (leBytes 2 dataHeaderLen))
  let bytes ← orPanic (bytes.copyAt 26 28 (leBytes 2 checksumOffset))
  let bytes ← orPanic (bytes.copyAt 28 30 (leBytes 2 0))
  let bytes ← orPanic (bytes.copyAt 30 32 (leBytes 2 0))
  let bytes ← orPanic (bytes.copyAt 32 40 (leBytes 8 0))
  let bytes ← orPanic bytes.refreshChecksum
  return ⟨bytes, pageId, kind⟩

/-- The link field written in place. -/
def writeLink (encoded : ℕ) : PageOp Unit := do
  update (·.copyAt 32 40 (leBytes 8 encoded))
  update refreshChecksum

/-- The link field of a page of some kind; the texts of the errors are the ones of the operation. -/
def setLink (kind : PageKind) (kindReason : String) (overlapReason : ℕ → String) (selfReason : String)
    (link : Option ℕ) : PageOp Unit := do
  query validate
  let page ← get
  reject (page.kind ≠ kind) (.invalidInput kindReason)
  let encoded := link.getD rootNone
  reject (encoded ≠ rootNone ∧ encoded < superblockCount) (.invalidInput (overlapReason encoded))
  reject (encoded = page.pageId) (.invalidInput selfReason)
  writeLink encoded

/-- Source `set_right_sibling`. -/
def setRightSibling : Option ℕ → PageOp Unit :=
  setLink .leaf "right sibling is only defined for leaf pages"
    (fun encoded => s!"right sibling {encoded} overlaps mirrored superblocks")
    "leaf cannot point to itself as right sibling"

/-- Source `set_overflow_next`. -/
def setOverflowNext : Option ℕ → PageOp Unit :=
  setLink .overflow "overflow next-page link is only defined for overflow pages"
    (fun encoded => s!"overflow next page {encoded} overlaps mirrored superblocks")
    "overflow page cannot point to itself"

/-- The writes of `insert_cell`, behind its checks. -/
def writeCell (cell : Bytes) (lower newLower upper newUpper count : ℕ) : PageOp ℕ := do
  update (·.copyAt newUpper upper cell)
  update (·.copyAt lower (lower + 2) (leBytes 2 newUpper))
  update (·.copyAt (lower + 2) (lower + 4) (leBytes 2 cell.length))
  update (·.copyAt 24 26 (leBytes 2 newLower))
  update (·.copyAt 26 28 (leBytes 2 newUpper))
  update (·.copyAt 28 30 (leBytes 2 (count + 1)))
  update refreshChecksum
  query validate
  return count

/-- Source `insert_cell`. -/
def insertCell (cell : Bytes) : PageOp ℕ := do
  query validate
  reject (cell = []) (.invalidInput "slotted-page cells must be non-empty")
  reject (65535 < cell.length) (.invalidInput s!"cell has {cell.length} bytes; length does not fit u16")
  let needed := slotLen + cell.length
  reject (u64Bound ≤ needed) (.invalidInput "cell extent overflowed usize")
  let available ← query freeBytes
  let page ← get
  reject (available < needed)
    (.invalidInput s!"page {page.pageId} has {available} free bytes; cell requires {needed}")
  let lower ← query fun page => readAt page.bytes.1 24 2
  let upper ← query fun page => readAt page.bytes.1 26 2
  let count ← query cellCount
  reject (65535 < count + 1) (.invalidInput "slotted-page cell counter exhausted")
  reject (upper < cell.length) (.invalidInput "cell underflowed page payload")
  reject (u64Bound ≤ lower + slotLen) (.invalidInput "slot array overflowed usize")
  writeCell cell lower (lower + slotLen) upper (upper - cell.length) count

end RawPage

variable {link i : ℕ} {rest cell : Bytes} {page page' : Page} {α : Type}

/-! ### The operations on an image -/

namespace PageOp

variable {β : Type} {f : RawPage → Panicking BtreeError α} {g : α → PageOp β} {page : RawPage} {a : α} {e : BtreeError}

theorem query_ok (h : f page = ofResult (.ok a)) : (query f >>= g).outcome page = (g a).outcome page := by
  show ((query f >>= g).run.run page) = _
  have hrun : (f page).run = some (.ok a) := h
  simp only [query, ExceptT.run_bind, StateT.run_bind, ExceptT.run_mk]
  show (((f page).run.map fun r => (r, page)) >>= _) = _
  rw [hrun]
  rfl

theorem query_error (h : f page = ofResult (.error e)) :
    (query f >>= g).outcome page = some (.error e, page) := by
  show ((query f >>= g).run.run page) = _
  have hrun : (f page).run = some (.error e) := h
  simp only [query, ExceptT.run_bind, StateT.run_bind, ExceptT.run_mk]
  show (((f page).run.map fun r => (r, page)) >>= _) = _
  rw [hrun]
  rfl

theorem update_some {w : PageBytes → Option PageBytes} {g : Unit → PageOp β} {bytes : PageBytes}
    (h : w page.bytes = some bytes) :
    (update w >>= g).outcome page = (g ()).outcome { page with bytes } := by
  show ((update w >>= g).run.run page) = _
  simp only [update, ExceptT.run_bind, StateT.run_bind, ExceptT.run_mk]
  show (((w page.bytes).map fun bytes => (Except.ok (), { page with bytes })) >>= _) = _
  rw [h]
  rfl

theorem update_last {w : PageBytes → Option PageBytes} {bytes : PageBytes} (h : w page.bytes = some bytes) :
    (update w).outcome page = some (.ok (), { page with bytes }) := by
  show ((w page.bytes).map fun bytes => (Except.ok (), { page with bytes })) = _
  rw [h]
  rfl

theorem reject_neg {p : Prop} [Decidable p] {g : Unit → PageOp β} (h : ¬ p) :
    (reject p e >>= g).outcome page = (g ()).outcome page :=
  query_ok (if_neg h)

theorem reject_pos {p : Prop} [Decidable p] {g : Unit → PageOp β} (h : p) :
    (reject p e >>= g).outcome page = some (.error e, page) :=
  query_error (if_pos h)

/-- An operation whose value is dropped. -/
theorem bind_pure_outcome {op : PageOp α} {r : Except BtreeError α × RawPage} (h : op.outcome page = some r) :
    (op >>= fun _ => pure () : PageOp Unit).outcome page = some (r.1.map fun _ => (), r.2) := by
  show (op.outcome page >>= _) = _
  rw [h]
  obtain ⟨_ | a, page'⟩ := r <;> rfl

theorem get_bind {g : RawPage → PageOp β} : (get >>= g).outcome page = (g page).outcome page := rfl

end PageOp

namespace PageBytes

variable {bytes : PageBytes} {xs ys zs data body : Bytes} {j : ℕ}

/-- A write overwrites the bytes between two others. -/
theorem copyAt_append (h : bytes.1 = xs ++ (ys ++ zs)) (hx : xs.length = i) (hy : ys.length = data.length)
    (hj : i + data.length = j) :
    ∃ bytes', bytes.copyAt i j data = some bytes' ∧ bytes'.1 = xs ++ (data ++ zs) := by
  have hlen := bytes.2
  rw [h, List.length_append, List.length_append] at hlen
  unfold copyAt
  rw [dif_pos ⟨by omega, by omega, by omega⟩]
  exact ⟨_, rfl, by rw [← setSlice_append hx hy, ← h]⟩

/-- A write to the header. -/
theorem copyAt_header {head head' : Bytes} (h : bytes.1 = head ++ rest)
    (hset : ∀ rest, setSlice (head ++ rest) i data = head' ++ rest) (hj : i + data.length = j)
    (hle : j ≤ pageSize) :
    ∃ bytes', bytes.copyAt i j data = some bytes' ∧ bytes'.1 = head' ++ rest := by
  unfold copyAt
  rw [dif_pos ⟨by omega, hle, by omega⟩]
  exact ⟨_, rfl, by rw [← hset, ← h]⟩

/-- A refreshed checksum is the one of the body. -/
theorem refreshChecksum_append {old : Bytes} (h : bytes.1 = body ++ old) (hbody : body.length = checksumOffset) :
    ∃ bytes', bytes.refreshChecksum = some bytes' ∧ bytes'.1 = withChecksum body := by
  have hlen := bytes.2
  rw [h, List.length_append, hbody] at hlen
  have hold : old.length = 4 := by
    have hsize : checksumOffset = 4092 := rfl
    rw [pageSize_eq] at hlen
    omega
  have hslice : slice bytes.1 0 checksumOffset = body := by
    rw [h]
    exact slice_append_self hbody
  rw [refreshChecksum, hslice]
  have hfull : bytes.1 = body ++ (old ++ []) := by rw [h, List.append_nil]
  obtain ⟨bytes', hcopy, hbytes'⟩ := copyAt_append hfull hbody
    (show old.length = (leBytes 4 (crc32 body)).length by rw [hold, leBytes_length])
    (show checksumOffset + (leBytes 4 (crc32 body)).length = pageSize by rw [leBytes_length]; rfl)
  exact ⟨bytes', hcopy, by rw [hbytes', List.append_nil]; rfl⟩

end PageBytes

/-! ### Inserting a cell -/

/-- What `insertCell` gives when its checks pass. -/
theorem insertCell_eq_ok (h : page.insertCell cell = .ok page') :
    page.validate = .ok () ∧ cell ≠ [] ∧ cell.length ≤ 65535 ∧ slotLen + cell.length ≤ page.freeBytes ∧
      page'.pageId = page.pageId ∧ page'.kind = page.kind ∧ page'.link = page.link ∧
      page'.cells = page.cells ++ [cell] := by
  unfold Page.insertCell at h
  cases hvalid : page.validate with
  | error e =>
    rw [hvalid] at h
    cases h
  | ok u =>
    rw [hvalid] at h
    replace h : (if hne : cell = [] then _ else _ : Except BtreeError Page) = .ok page' := h
    split_ifs at h with hne hlong hfit
    cases h
    exact ⟨rfl, hne, not_lt.1 hlong, not_lt.1 hfit, rfl, rfl, rfl, rfl⟩

/-- The free space is what the slot, the gap and the cell take. -/
theorem zeros_split {k free length : ℕ} (h : 4 + length + k = free) :
    (List.replicate free (0 : Byte)) = List.replicate 2 0 ++
      (List.replicate 2 0 ++ (List.replicate k 0 ++ List.replicate length 0)) := by
  simp only [List.replicate_append_replicate]
  congr 1
  omega

/-- **The writes of an insertion make the image of the page with the cell.** -/
theorem writeCell_raw {lower upper : ℕ} (hvalid : page'.Encodable) (hok : page'.validate = .ok ())
    (hlower : dataHeaderLen + page.cells.length * slotLen = lower)
    (hupper : checksumOffset - cellBytes page.cells = upper) (hfit : lower + slotLen + cell.length ≤ upper)
    (hid : page'.pageId = page.pageId) (hkind : page'.kind = page.kind) (hlink : page'.link = page.link)
    (hcells : page'.cells = page.cells ++ [cell]) :
    (RawPage.writeCell cell lower (lower + slotLen) upper (upper - cell.length) page.cells.length).outcome page.raw =
      some (.ok page.cells.length, page'.raw) := by
  have hsizes := sizes_le page
  have hsize : checksumOffset = 4092 := rfl
  have hheader : dataHeaderLen = 40 := rfl
  rw [slotLen_eq] at hfit
  obtain ⟨k, hk⟩ : ∃ k, 4 + cell.length + k = upper - lower := ⟨upper - lower - 4 - cell.length, by omega⟩
  have hbytes := @raw_bytes page
  rw [hlower, hupper, zeros_split hk] at hbytes
  generalize hold : leBytes 4 (crc32 (imageBody page.kind.encoded page.pageId page.link page.cells)) = old at hbytes
  have hslots : (header page.kind.encoded page.pageId lower upper page.cells.length page.link ++
      slotsFrom checksumOffset page.cells).length = lower := by
    rw [List.length_append, header_length, slotsFrom_length, hlower]
  unfold RawPage.writeCell
  -- The cell, in front of the cells that are there.
  have h1 : page.raw.bytes.1 = ((header page.kind.encoded page.pageId lower upper page.cells.length page.link ++
      slotsFrom checksumOffset page.cells) ++ (List.replicate 2 0 ++ (List.replicate 2 0 ++ List.replicate k 0))) ++
      (List.replicate cell.length 0 ++ (packed page.cells ++ old)) := by
    rw [hbytes]
    simp only [List.append_assoc]
  obtain ⟨b1, hcopy1, hb1⟩ := PageBytes.copyAt_append h1
    (show _ = upper - cell.length by
      rw [List.length_append, hslots]
      simp only [List.length_append, List.length_replicate]
      omega)
    (List.length_replicate) (show upper - cell.length + cell.length = upper by omega)
  refine (PageOp.update_some hcopy1).trans ?_
  -- The slot, behind the slots that are there.
  have h2 : b1.1 = (header page.kind.encoded page.pageId lower upper page.cells.length page.link ++
      slotsFrom checksumOffset page.cells) ++ (List.replicate 2 0 ++ (List.replicate 2 0 ++
        (List.replicate k 0 ++ (cell ++ (packed page.cells ++ old))))) := by
    rw [hb1]
    simp only [List.append_assoc]
  obtain ⟨b2, hcopy2, hb2⟩ := @PageBytes.copyAt_append _ b1 _ _ _ (leBytes 2 (upper - cell.length)) _ h2 hslots
    (by rw [leBytes_length]; rfl) rfl
  refine (PageOp.update_some hcopy2).trans ?_
  have h3 : b2.1 = ((header page.kind.encoded page.pageId lower upper page.cells.length page.link ++
      slotsFrom checksumOffset page.cells) ++ leBytes 2 (upper - cell.length)) ++ (List.replicate 2 0 ++
        (List.replicate k 0 ++ (cell ++ (packed page.cells ++ old)))) := by
    rw [hb2]
    simp only [List.append_assoc]
  obtain ⟨b3, hcopy3, hb3⟩ := @PageBytes.copyAt_append (lower + 2) b2 _ _ _ (leBytes 2 cell.length) (lower + 4) h3
    (by rw [List.length_append, hslots, leBytes_length]) (by rw [leBytes_length]; rfl) (by rw [leBytes_length])
  refine (PageOp.update_some hcopy3).trans ?_
  -- The header.
  have h4 : b3.1 = header page.kind.encoded page.pageId lower upper page.cells.length page.link ++
      (slotsFrom checksumOffset page'.cells ++ (List.replicate k 0 ++ (packed page'.cells ++ old))) := by
    rw [hb3, hcells, slotsFrom_append, packed_append, hupper]
    simp only [List.append_assoc]
  obtain ⟨b4, hcopy4, hb4⟩ : ∃ b, b3.copyAt 24 26 (leBytes 2 (lower + slotLen)) = some b ∧
      b.1 = header page.kind.encoded page.pageId (lower + slotLen) upper page.cells.length page.link ++ _ :=
    PageBytes.copyAt_header h4 (fun _ => header_setLower) rfl (by decide)
  refine (PageOp.update_some hcopy4).trans ?_
  obtain ⟨b5, hcopy5, hb5⟩ : ∃ b, b4.copyAt 26 28 (leBytes 2 (upper - cell.length)) = some b ∧
      b.1 = header page.kind.encoded page.pageId (lower + slotLen) (upper - cell.length) page.cells.length
        page.link ++ _ :=
    PageBytes.copyAt_header hb4 (fun _ => header_setUpper) rfl (by decide)
  refine (PageOp.update_some hcopy5).trans ?_
  obtain ⟨b6, hcopy6, hb6⟩ : ∃ b, b5.copyAt 28 30 (leBytes 2 (page.cells.length + 1)) = some b ∧
      b.1 = header page.kind.encoded page.pageId (lower + slotLen) (upper - cell.length) (page.cells.length + 1)
        page.link ++ _ :=
    PageBytes.copyAt_header hb5 (fun _ => header_setCount) rfl (by decide)
  refine (PageOp.update_some hcopy6).trans ?_
  -- All of the array but its checksum is now the body of the image.
  have hbody : b6.1 = imageBody page'.kind.encoded page'.pageId page'.link page'.cells ++ old := by
    have hlower' : dataHeaderLen + page'.cells.length * slotLen = lower + slotLen := by
      rw [hcells, List.length_append, List.length_singleton, Nat.add_mul, Nat.one_mul, ← Nat.add_assoc, hlower]
    have hupper' : checksumOffset - cellBytes page'.cells = upper - cell.length := by
      rw [hcells, cellBytes_append, cellBytes_cons, cellBytes_nil, Nat.add_zero, Nat.sub_add_eq, hupper]
    have hgap : upper - cell.length - (lower + slotLen) = k := by
      rw [slotLen_eq]
      omega
    have hcount : page'.cells.length = page.cells.length + 1 := by
      rw [hcells, List.length_append, List.length_singleton]
    rw [hb6, imageBody, hlower', hupper', hgap, hcount, hid, hkind, hlink]
    simp only [List.append_assoc]
  obtain ⟨b7, hrefresh, hb7⟩ := PageBytes.refreshChecksum_append hbody (imageBody_length page'.fits)
  refine (PageOp.update_some hrefresh).trans ?_
  have hraw : (⟨b7, page.raw.pageId, page.raw.kind⟩ : RawPage) = page'.raw := by
    show (⟨b7, page.pageId, page.kind⟩ : RawPage) = _
    rw [← hid, ← hkind]
    exact raw_eq hb7
  dsimp only
  rw [hraw]
  refine (PageOp.query_ok (by rw [raw_validate hvalid, hok])).trans ?_
  rfl

/-- The slices that an insertion writes, in place. -/
theorem insertCell_writes (hvalid : page.Encodable) (h : page.insertCell cell = .ok page') :
    (RawPage.insertCell cell).outcome page.raw = some (.ok page.cells.length, page'.raw) := by
  obtain ⟨hok, hne, hlong, hfit, hid, hkind, hlink, hcells⟩ := insertCell_eq_ok h
  have hsizes := sizes_le page
  have hsize : checksumOffset = 4092 := rfl
  have hheader : dataHeaderLen = 40 := rfl
  have h64 := u64Bound_eq
  have hfree := freeBytes_eq page
  unfold RawPage.insertCell
  refine (PageOp.query_ok (by rw [raw_validate hvalid, hok])).trans ?_
  refine (PageOp.reject_neg hne).trans ?_
  refine (PageOp.reject_neg (not_lt.2 hlong)).trans ?_
  refine (PageOp.reject_neg (by rw [slotLen_eq]; omega)).trans ?_
  refine (PageOp.query_ok raw_freeBytes).trans ?_
  refine PageOp.get_bind.trans ?_
  refine (PageOp.reject_neg (not_lt.2 hfit)).trans ?_
  refine (PageOp.query_ok (f := fun page => readAt page.bytes.1 24 2) raw_lower).trans ?_
  refine (PageOp.query_ok (f := fun page => readAt page.bytes.1 26 2) raw_upper).trans ?_
  refine (PageOp.query_ok (f := RawPage.cellCount) raw_cellCount).trans ?_
  refine (PageOp.reject_neg (by omega)).trans ?_
  refine (PageOp.reject_neg (by omega)).trans ?_
  refine (PageOp.reject_neg (by rw [slotLen_eq]; omega)).trans ?_
  exact writeCell_raw ⟨by rw [hid]; exact hvalid.id_ge, by rw [hlink]; exact hvalid.link_lt⟩
    (by rw [← hok, Page.validate, Page.validate, hid]) rfl rfl (by rw [slotLen_eq] at *; omega) hid hkind hlink hcells

/-- The outcome on the image of a page, by the outcome on the page. -/
def imageOutcome (page : Page) (a : α) : Except BtreeError Page → Except BtreeError α × RawPage
  | .ok page' => (.ok a, page'.raw)
  | .error e => (.error e, page.raw)

/-- **Inserting into the image of a page is inserting into the page**, also when it fails. -/
theorem insertCell_raw (hvalid : page.Encodable) (cell : Bytes) :
    (RawPage.insertCell cell).outcome page.raw =
      some (imageOutcome page page.cells.length (page.insertCell cell)) := by
  cases h : page.insertCell cell with
  | ok page' => exact insertCell_writes hvalid h
  | error e =>
    unfold RawPage.insertCell
    unfold Page.insertCell at h
    cases hok : page.validate with
    | error e' =>
      rw [hok] at h
      cases h
      exact PageOp.query_error (by rw [raw_validate hvalid, hok])
    | ok u =>
      rw [hok] at h
      replace h : (if hne : cell = [] then _ else _ : Except BtreeError Page) = .error e := h
      refine (PageOp.query_ok (by rw [raw_validate hvalid, hok])).trans ?_
      by_cases hne : cell = []
      · rw [dif_pos hne] at h
        cases h
        exact PageOp.reject_pos hne
      rw [dif_neg hne] at h
      refine (PageOp.reject_neg hne).trans ?_
      by_cases hlong : 65535 < cell.length
      · rw [if_pos hlong] at h
        cases h
        exact PageOp.reject_pos hlong
      rw [if_neg hlong] at h
      refine (PageOp.reject_neg hlong).trans ?_
      have hneeded : ¬ u64Bound ≤ slotLen + cell.length := by
        have h64 := u64Bound_eq
        rw [slotLen_eq]
        omega
      refine (PageOp.reject_neg hneeded).trans ?_
      refine (PageOp.query_ok raw_freeBytes).trans ?_
      refine PageOp.get_bind.trans ?_
      by_cases hfit : page.freeBytes < slotLen + cell.length
      · rw [dif_pos hfit] at h
        cases h
        exact PageOp.reject_pos hfit
      · rw [dif_neg hfit] at h
        cases h

/-! ### Links -/

/-- A page with another link. -/
def Page.withLink (page : Page) (link : ℕ)
    (h : link = rootNone ∨ page.kind ≠ .internal ∧ superblockCount ≤ link ∧ link ≠ page.pageId) : Page :=
  { page with link, link_ok := h }

/-- The write of a link makes the image of the page with the link. -/
theorem writeLink_raw (h : link = rootNone ∨ page.kind ≠ .internal ∧ superblockCount ≤ link ∧ link ≠ page.pageId) :
    (RawPage.writeLink link).outcome page.raw = some (.ok (), (page.withLink link h).raw) := by
  unfold RawPage.writeLink
  obtain ⟨b1, hcopy, hb1⟩ : ∃ b, page.raw.bytes.copyAt 32 40 (leBytes 8 link) = some b ∧
      b.1 = header page.kind.encoded page.pageId (dataHeaderLen + page.cells.length * slotLen)
        (checksumOffset - cellBytes page.cells) page.cells.length link ++ _ :=
    PageBytes.copyAt_header raw_bytes (fun _ => header_setLink) rfl (by decide)
  refine (PageOp.update_some hcopy).trans ?_
  have hbody : b1.1 = imageBody page.kind.encoded page.pageId link page.cells ++
      leBytes 4 (crc32 (imageBody page.kind.encoded page.pageId page.link page.cells)) := by
    rw [hb1]
    nth_rewrite 2 [imageBody]
    simp only [List.append_assoc]
  obtain ⟨b2, hrefresh, hb2⟩ := PageBytes.refreshChecksum_append hbody (imageBody_length page.fits)
  have hraw : (⟨b2, page.raw.pageId, page.raw.kind⟩ : RawPage) = (page.withLink link h).raw :=
    @raw_eq (page.withLink link h) b2 hb2
  rw [← hraw]
  exact PageOp.update_last hrefresh

/-- The link of a page, with the texts of the errors. -/
def Page.setLink (page : Page) (kind : PageKind) (hkind : kind ≠ .internal) (kindReason : String)
    (overlapReason : ℕ → String) (selfReason : String) (link : Option ℕ) : Except BtreeError Page := do
  page.validate
  if hk : page.kind ≠ kind then
    throw (.invalidInput kindReason)
  else if h0 : link.getD rootNone ≠ rootNone ∧ link.getD rootNone < superblockCount then
    throw (.invalidInput (overlapReason (link.getD rootNone)))
  else if hs : link.getD rootNone = page.pageId then
    throw (.invalidInput selfReason)
  else
    pure (page.withLink (link.getD rootNone) (by
      by_cases h : link.getD rootNone = rootNone
      · exact .inl h
      · exact .inr ⟨not_not.1 hk ▸ hkind, not_lt.1 fun hlt => h0 ⟨h, hlt⟩, hs⟩))

theorem Page.setRightSibling_eq (sibling : Option ℕ) : page.setRightSibling sibling =
    page.setLink .leaf (by decide) "right sibling is only defined for leaf pages"
      (fun encoded => s!"right sibling {encoded} overlaps mirrored superblocks")
      "leaf cannot point to itself as right sibling" sibling := rfl

theorem Page.setOverflowNext_eq (next : Option ℕ) : page.setOverflowNext next =
    page.setLink .overflow (by decide) "overflow next-page link is only defined for overflow pages"
      (fun encoded => s!"overflow next page {encoded} overlaps mirrored superblocks")
      "overflow page cannot point to itself" next := rfl

/-- **Linking the image of a page is linking the page**, also when it fails. -/
theorem setLink_raw (hvalid : page.Encodable) {kind : PageKind} (hkind : kind ≠ .internal) (kindReason : String)
    (overlapReason : ℕ → String) (selfReason : String) (link : Option ℕ) :
    (RawPage.setLink kind kindReason overlapReason selfReason link).outcome page.raw =
      some (imageOutcome page () (page.setLink kind hkind kindReason overlapReason selfReason link)) := by
  unfold RawPage.setLink Page.setLink
  cases hok : page.validate with
  | error e => exact PageOp.query_error (by rw [raw_validate hvalid, hok])
  | ok u =>
    refine (PageOp.query_ok (by rw [raw_validate hvalid, hok])).trans ?_
    refine PageOp.get_bind.trans ?_
    rw [show (Except.ok u : Except BtreeError Unit) >>= _ = _ from rfl]
    by_cases hk : page.kind ≠ kind
    · rw [dif_pos hk]
      exact PageOp.reject_pos hk
    rw [dif_neg hk]
    refine (PageOp.reject_neg hk).trans ?_
    by_cases h0 : link.getD rootNone ≠ rootNone ∧ link.getD rootNone < superblockCount
    · rw [dif_pos h0]
      exact PageOp.reject_pos h0
    rw [dif_neg h0]
    refine (PageOp.reject_neg h0).trans ?_
    by_cases hs : link.getD rootNone = page.pageId
    · rw [dif_pos hs]
      exact PageOp.reject_pos hs
    rw [dif_neg hs]
    refine (PageOp.reject_neg hs).trans ?_
    exact writeLink_raw _

theorem setRightSibling_raw (hvalid : page.Encodable) (sibling : Option ℕ) :
    (RawPage.setRightSibling sibling).outcome page.raw =
      some (imageOutcome page () (page.setRightSibling sibling)) := by
  have h := @setLink_raw page hvalid .leaf (by decide) "right sibling is only defined for leaf pages"
    (fun encoded => s!"right sibling {encoded} overlaps mirrored superblocks")
    "leaf cannot point to itself as right sibling" sibling
  rw [← Page.setRightSibling_eq] at h
  exact h

theorem setOverflowNext_raw (hvalid : page.Encodable) (next : Option ℕ) :
    (RawPage.setOverflowNext next).outcome page.raw =
      some (imageOutcome page () (page.setOverflowNext next)) := by
  have h := @setLink_raw page hvalid .overflow (by decide)
    "overflow next-page link is only defined for overflow pages"
    (fun encoded => s!"overflow next page {encoded} overlaps mirrored superblocks")
    "overflow page cannot point to itself" next
  rw [← Page.setOverflowNext_eq] at h
  exact h

/-! ### A new page -/

/-- A write that continues what is written of an array of zeros. -/
theorem PageBytes.copyAt_zeros {bytes : PageBytes} {xs data : Bytes} {j : ℕ}
    (h : bytes.1 = xs ++ List.replicate (pageSize - xs.length) 0) (hi : xs.length = i)
    (hj : i + data.length = j) (hle : j ≤ pageSize) :
    ∃ bytes', bytes.copyAt i j data = some bytes' ∧
      bytes'.1 = (xs ++ data) ++ List.replicate (pageSize - (xs ++ data).length) 0 := by
  have hzeros : List.replicate (pageSize - xs.length) (0 : Byte) = List.replicate data.length 0 ++
      List.replicate (pageSize - (xs ++ data).length) 0 := by
    rw [List.replicate_append_replicate, List.length_append]
    congr 1
    omega
  rw [hzeros] at h
  obtain ⟨bytes', hcopy, hbytes'⟩ := copyAt_append h hi List.length_replicate hj
  exact ⟨bytes', hcopy, by rw [hbytes', List.append_assoc]⟩

/-- **A new page is the image of the new page.** -/
theorem new_raw (id : ℕ) (kind : PageKind) : RawPage.new id kind = ofResult ((Page.new id kind).map Page.raw) := by
  unfold RawPage.new Page.new
  by_cases hid : id < superblockCount
  · rw [rejectWhen_pos hid, if_pos hid]
    rfl
  rw [rejectWhen_neg hid, if_neg hid]
  have h0 : PageBytes.zeros.1 = [] ++ List.replicate (pageSize - List.length ([] : Bytes)) 0 := rfl
  obtain ⟨b1, h, h1⟩ := @PageBytes.copyAt_zeros 0 _ _ pageMagic 4 h0 rfl rfl (by decide)
  rw [h, orPanic_some_bind]
  obtain ⟨b2, h, h2⟩ := @PageBytes.copyAt_zeros 4 _ _ (leBytes 1 formatVersion) 5 h1 rfl rfl (by decide)
  rw [h, orPanic_some_bind]
  obtain ⟨b3, h, h3⟩ := @PageBytes.copyAt_zeros 5 _ _ (leBytes 1 kind.encoded) 6 h2 rfl rfl (by decide)
  rw [h, orPanic_some_bind]
  obtain ⟨b4, h, h4⟩ := @PageBytes.copyAt_zeros 6 _ _ (leBytes 2 0) 8 h3 rfl rfl (by decide)
  rw [h, orPanic_some_bind]
  obtain ⟨b5, h, h5⟩ := @PageBytes.copyAt_zeros 8 _ _ (leBytes 8 id) 16 h4 rfl rfl (by decide)
  rw [h, orPanic_some_bind]
  obtain ⟨b6, h, h6⟩ := @PageBytes.copyAt_zeros 16 _ _ (leBytes 8 0) 24 h5 rfl rfl (by decide)
  rw [h, orPanic_some_bind]
  obtain ⟨b7, h, h7⟩ := @PageBytes.copyAt_zeros 24 _ _ (leBytes 2 dataHeaderLen) 26 h6 rfl rfl (by decide)
  rw [h, orPanic_some_bind]
  obtain ⟨b8, h, h8⟩ := @PageBytes.copyAt_zeros 26 _ _ (leBytes 2 checksumOffset) 28 h7 rfl rfl (by decide)
  rw [h, orPanic_some_bind]
  obtain ⟨b9, h, h9⟩ := @PageBytes.copyAt_zeros 28 _ _ (leBytes 2 0) 30 h8 rfl rfl (by decide)
  rw [h, orPanic_some_bind]
  obtain ⟨b10, h, h10⟩ := @PageBytes.copyAt_zeros 30 _ _ (leBytes 2 0) 32 h9 rfl rfl (by decide)
  rw [h, orPanic_some_bind]
  obtain ⟨b11, h, h11⟩ := @PageBytes.copyAt_zeros 32 _ _ (leBytes 8 0) 40 h10 rfl rfl (by decide)
  rw [h, orPanic_some_bind]
  have hbody : b11.1 = imageBody kind.encoded id rootNone [] ++ List.replicate 4 0 := by
    rw [h11]
    show header kind.encoded id dataHeaderLen checksumOffset 0 0 ++ List.replicate (4052 + 4) 0 =
      (header kind.encoded id dataHeaderLen checksumOffset 0 0 ++ ([] ++ (List.replicate 4052 0 ++ []))) ++ _
    rw [← List.replicate_append_replicate, List.nil_append, List.append_nil, List.append_assoc]
  obtain ⟨b12, h, h12⟩ := PageBytes.refreshChecksum_append hbody (imageBody_length (by simp))
  rw [h, orPanic_some_bind]
  have hraw := @raw_eq ⟨id, kind, rootNone, [], .inl rfl, by simp, by simp⟩ b12 h12
  exact congrArg (fun page => ofResult (.ok page)) hraw

end DbLab.Btree
