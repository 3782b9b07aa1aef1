import DbLab.Btree.PageWrites

/-!
# Slotted pages

Operations on the array of a new page, some of which fail, build the image of a page that holds the cells of the
insertions that did not fail, in their order. Reading the cells, decoding the array and inserting one more cell are
then the operations on that page.
-/

namespace DbLab.Btree

variable {id link i : ℕ} {cell : Bytes} {cells : List Bytes} {page page' : Page}

/-! ### Runs -/

/-- An operation on a page that is not committed yet. -/
inductive PageCall
  | insertCell (cell : Bytes)
  | setRightSibling (sibling : Option (Fin u64Bound))
  | setOverflowNext (next : Option (Fin u64Bound))

theorem rootNone_lt : rootNone < u64Bound := by
  rw [u64Bound_eq]
  decide

namespace PageCall

/-- The link field of an optional page id. -/
def encodedLink (link : Option (Fin u64Bound)) : ℕ := (link.map Fin.val).getD rootNone

def run : PageCall → PageOp Unit
  | insertCell cell => do
    let _ ← RawPage.insertCell cell
  | setRightSibling sibling => RawPage.setRightSibling (sibling.map Fin.val)
  | setOverflowNext next => RawPage.setOverflowNext (next.map Fin.val)

/-- The cells behind the operation when it succeeds. -/
def cellsAfter (cells : List Bytes) : PageCall → List Bytes
  | insertCell cell => cells ++ [cell]
  | _ => cells

/-- The link behind the operation when it succeeds. -/
def linkAfter (link : ℕ) : PageCall → ℕ
  | insertCell _ => link
  | setRightSibling sibling => encodedLink sibling
  | setOverflowNext next => encodedLink next

theorem encodedLink_lt (link : Option (Fin u64Bound)) : encodedLink link < u64Bound := by
  cases link with
  | none => exact rootNone_lt
  | some id => exact id.isLt

end PageCall

/-- A page that operations made of a new page, some of which may have failed, with the cells that were inserted
and the link that was set. -/
inductive Built (id : ℕ) (kind : PageKind) : RawPage → List Bytes → ℕ → Prop
  | new {page : RawPage} (h : RawPage.new id kind = ofResult (.ok page)) : Built id kind page [] rootNone
  | succeeded {page page' : RawPage} {cells : List Bytes} {link : ℕ} (call : PageCall)
      (h : Built id kind page cells link) (hrun : call.run.outcome page = some (.ok (), page')) :
      Built id kind page' (call.cellsAfter cells) (call.linkAfter link)
  | failed {page page' : RawPage} {cells : List Bytes} {link : ℕ} {e : BtreeError} (call : PageCall)
      (h : Built id kind page cells link) (hrun : call.run.outcome page = some (.error e, page')) :
      Built id kind page' cells link

theorem setLink_eq_ok {kind : PageKind} {hkind : kind ≠ .internal} {kindReason selfReason : String}
    {overlapReason : ℕ → String} {link : Option ℕ}
    (h : page.setLink kind hkind kindReason overlapReason selfReason link = .ok page') :
    page'.pageId = page.pageId ∧ page'.kind = page.kind ∧ page'.cells = page.cells ∧
      page'.link = link.getD rootNone := by
  unfold Page.setLink at h
  cases hvalid : page.validate with
  | error e =>
    rw [hvalid] at h
    cases h
  | ok u =>
    rw [hvalid] at h
    replace h : (if hk : page.kind ≠ kind then _ else _ : Except BtreeError Page) = .ok page' := h
    split_ifs at h
    cases h
    exact ⟨rfl, rfl, rfl, rfl⟩

/-- The operation of a call on pages. -/
def PageCall.onPage (page : Page) : PageCall → Except BtreeError Page
  | insertCell cell => page.insertCell cell
  | setRightSibling sibling => page.setRightSibling (sibling.map Fin.val)
  | setOverflowNext next => page.setOverflowNext (next.map Fin.val)

/-- A call on the image of a page is the call on the page. -/
theorem run_raw (hvalid : page.Encodable) (call : PageCall) :
    call.run.outcome page.raw = some (imageOutcome page () (call.onPage page)) := by
  cases call with
  | insertCell cell =>
    show _ = some (imageOutcome page () (page.insertCell cell))
    refine (PageOp.bind_pure_outcome (insertCell_raw hvalid cell)).trans ?_
    cases page.insertCell cell <;> rfl
  | setRightSibling sibling => exact setRightSibling_raw hvalid _
  | setOverflowNext next => exact setOverflowNext_raw hvalid _

/-- The page behind a call that succeeds. -/
theorem onPage_eq_ok {call : PageCall} (h : call.onPage page = .ok page') :
    page'.pageId = page.pageId ∧ page'.kind = page.kind ∧ page'.cells = call.cellsAfter page.cells ∧
      page'.link = call.linkAfter page.link := by
  cases call with
  | insertCell cell =>
    obtain ⟨-, -, -, -, hid, hkind, hlink, hcells⟩ := insertCell_eq_ok h
    exact ⟨hid, hkind, hcells, hlink⟩
  | setRightSibling sibling =>
    replace h : page.setRightSibling _ = .ok page' := h
    rw [Page.setRightSibling_eq] at h
    exact setLink_eq_ok h
  | setOverflowNext next =>
    replace h : page.setOverflowNext _ = .ok page' := h
    rw [Page.setOverflowNext_eq] at h
    exact setLink_eq_ok h

/-- **Operations on the array of a new page build images of pages.** -/
theorem Built.exists_page {raw : RawPage} {kind : PageKind} (h : Built id kind raw cells link) :
    ∃ page : Page, raw = page.raw ∧ page.Encodable ∧ page.pageId = id ∧ page.kind = kind ∧
      page.cells = cells ∧ page.link = link := by
  induction h with
  | new h =>
    rw [new_raw, Page.new] at h
    split_ifs at h with hid
    · cases h
    cases h
    exact ⟨_, rfl, ⟨not_lt.1 hid, rootNone_lt⟩, rfl, rfl, rfl, rfl⟩
  | succeeded call h hrun ih =>
    obtain ⟨page, rfl, hvalid, hid, hkind, hcells, hlink⟩ := ih
    rw [run_raw hvalid call] at hrun
    cases hpage : call.onPage page with
    | error e =>
      rw [hpage] at hrun
      cases hrun
    | ok page' =>
      rw [hpage] at hrun
      cases hrun
      obtain ⟨hid', hkind', hcells', hlink'⟩ := onPage_eq_ok hpage
      refine ⟨page', rfl, ⟨hid' ▸ hvalid.id_ge, ?_⟩, hid'.trans hid, hkind'.trans hkind, ?_, ?_⟩
      · rw [hlink']
        cases call with
        | insertCell cell => exact hvalid.link_lt
        | setRightSibling sibling => exact PageCall.encodedLink_lt sibling
        | setOverflowNext next => exact PageCall.encodedLink_lt next
      · rw [hcells', hcells]
      · rw [hlink', hlink]
  | failed call h hrun ih =>
    obtain ⟨page, rfl, hvalid, hid, hkind, hcells, hlink⟩ := ih
    rw [run_raw hvalid call] at hrun
    cases hpage : call.onPage page with
    | error e =>
      rw [hpage] at hrun
      cases hrun
      exact ⟨page, rfl, hvalid, hid, hkind, hcells, hlink⟩
    | ok page' =>
      rw [hpage] at hrun
      cases hrun

/-! ### Round trip -/

/-- What is true of a page whose byte offset fits into 64 bits, by the cells that were inserted and the link that
was set. -/
structure RoundTrip (id : ℕ) (kind : PageKind) (raw : RawPage) (cells : List Bytes) (link : ℕ) : Prop where
  cell : ∀ i cell, cells[i]? = some cell → raw.cell i = ofResult (.ok cell)
  cell_none : ∀ i, cells.length ≤ i → ∃ e, raw.cell i = ofResult (.error e)
  free : raw.freeBytes = ofResult (.ok (pageBodyCapacity - usedBytes cells))
  insert : ∀ cell, ∃ r raw', (RawPage.insertCell cell).outcome raw = some (r, raw') ∧
    (∀ e, r = .error e → raw' = raw) ∧
    (cell ≠ [] → ((∃ e, r = .error e) ↔ pageBodyCapacity - usedBytes cells < slotLen + cell.length))
  decode : RawPage.decode raw.bytes id = ofResult (.ok raw)
  kind_eq : raw.kind = kind
  link_eq : raw.pageLink = ofResult (.ok (if link = rootNone then none else some link))

theorem validate_eq_ok (h : page.pageId * pageSize < u64Bound) : page.validate = .ok () := by
  rw [Page.validate, pageOffset, if_pos h]
  rfl

theorem Built.roundTrip {raw : RawPage} {kind : PageKind} (h : Built id kind raw cells link)
    (hid : id * pageSize < u64Bound) : RoundTrip id kind raw cells link := by
  obtain ⟨page, rfl, hvalid, rfl, rfl, rfl, rfl⟩ := h.exists_page
  have hok := validate_eq_ok hid
  refine ⟨fun i cell => raw_cell hvalid hok, fun i hi => ⟨_, raw_cell_none hvalid hok hi⟩, raw_freeBytes,
    fun cell => ?_, ?_, rfl, raw_pageLink hvalid⟩
  · cases hinsert : page.insertCell cell with
    | ok page' =>
      refine ⟨.ok page.cells.length, page'.raw, ?_, fun e he => (by cases he), fun hne => ⟨?_, fun hfull => ?_⟩⟩
      · rw [insertCell_raw hvalid, hinsert]
        rfl
      · rintro ⟨e, he⟩
        cases he
      · obtain ⟨-, -, -, hfit, -⟩ := insertCell_eq_ok hinsert
        exact absurd hfit (not_le.2 hfull)
    | error e =>
      refine ⟨.error e, page.raw, ?_, fun _ _ => rfl, fun hne => ⟨fun _ => ?_, fun _ => ⟨e, rfl⟩⟩⟩
      · rw [insertCell_raw hvalid, hinsert]
        rfl
      · by_contra hfit
        rw [not_lt] at hfit
        have hlong : ¬ 65535 < cell.length := by
          rw [pageBodyCapacity_eq] at hfit
          omega
        rw [Page.insertCell, hok] at hinsert
        replace hinsert : (if hne : cell = [] then _ else _ : Except BtreeError Page) = .error e := hinsert
        rw [dif_neg hne, if_neg hlong, dif_neg (show ¬ page.freeBytes < _ from not_lt.2 hfit)] at hinsert
        cases hinsert
  · have hbytes := raw_validatePageBytes hvalid
    rw [hok] at hbytes
    rw [RawPage.decode, hbytes]
    rfl

theorem validate_eq_error (h : u64Bound ≤ page.pageId * pageSize) :
    page.validate = .error (.corruption 0 "page offset overflowed u64") := by
  rw [Page.validate, pageOffset, if_neg (not_lt.2 h)]
  rfl

/-- No call succeeds on a page without a byte offset. -/
theorem onPage_unaddressed (h : u64Bound ≤ page.pageId * pageSize) (call : PageCall) :
    call.onPage page = .error (.corruption 0 "page offset overflowed u64") := by
  have herror := validate_eq_error h
  cases call with
  | insertCell cell =>
    show page.insertCell cell = _
    rw [Page.insertCell, herror]
    rfl
  | setRightSibling sibling =>
    show page.setRightSibling _ = _
    rw [Page.setRightSibling, herror]
    rfl
  | setOverflowNext next =>
    show page.setOverflowNext _ = _
    rw [Page.setOverflowNext, herror]
    rfl

/-- **Slotted pages round trip.** As long as the byte offset of the page fits into 64 bits: whatever operations
made the page, the cells that were inserted are read back, a failed insertion changes nothing, an insertion fails
exactly when there is no room, and decoding the array gives the page. On the ids behind these every operation fails
and changes nothing. -/
theorem slotted_page {raw : RawPage} {kind : PageKind} (h : Built id kind raw cells link) :
    (id * pageSize < u64Bound → RoundTrip id kind raw cells link) ∧
      (u64Bound ≤ id * pageSize →
        cells = [] ∧ ∀ call : PageCall, ∃ e, call.run.outcome raw = some (.error e, raw)) := by
  refine ⟨h.roundTrip, fun hid => ⟨?_, fun call => ?_⟩⟩
  · induction h with
    | new h => rfl
    | failed call h hrun ih => exact ih
    | succeeded call h hrun ih =>
      obtain ⟨page, rfl, hvalid, rfl, -⟩ := h.exists_page
      rw [run_raw hvalid, onPage_unaddressed hid] at hrun
      cases hrun
  · obtain ⟨page, rfl, hvalid, rfl, -⟩ := h.exists_page
    exact ⟨_, by rw [run_raw hvalid, onPage_unaddressed hid]; rfl⟩

/-- A leaf with one cell. -/
theorem slotted_page_first : ∃ raw, Built 2 .leaf raw [[7]] rootNone ∧ raw.cell 0 = ofResult (.ok [7]) := by
  let page : Page := ⟨2, .leaf, rootNone, [], .inl rfl, by simp, by simp⟩
  have hnew : Built 2 .leaf page.raw [] rootNone := .new (new_raw 2 .leaf)
  have hok : (page.insertCell [7]).isOk = true := by decide +kernel
  cases hinsert : page.insertCell [7] with
  | error e =>
    rw [hinsert] at hok
    cases hok
  | ok page' =>
    have hrun : (PageCall.insertCell [7]).run.outcome page.raw = some (.ok (), page'.raw) := by
      rw [run_raw ⟨le_rfl, rootNone_lt⟩]
      show some (imageOutcome page () (page.insertCell [7])) = _
      rw [hinsert]
      rfl
    have hbuilt : Built 2 .leaf page'.raw [[7]] rootNone := hnew.succeeded (.insertCell [7]) hrun
    have hid : 2 * pageSize < u64Bound := by
      rw [u64Bound_eq]
      decide
    exact ⟨page'.raw, hbuilt, ((slotted_page hbuilt).1 hid).cell 0 [7] rfl⟩

/-- A page id that `new` accepts and whose byte offset does not fit into 64 bits: a cell that would fit is not
inserted, and the array is not decoded. -/
theorem slotted_page_unaddressed : ∃ raw, Built 4503599627370496 .leaf raw [] rootNone ∧
    raw.freeBytes = ofResult (.ok 4052) ∧
    (RawPage.insertCell [7]).outcome raw = some (.error (.corruption 0 "page offset overflowed u64"), raw) ∧
    RawPage.decode raw.bytes 4503599627370496 =
      ofResult (.error (.corruption 0 "page offset overflowed u64")) := by
  let page : Page := ⟨4503599627370496, .leaf, rootNone, [], .inl rfl, by simp, by simp⟩
  have hvalid : page.Encodable := ⟨by decide, rootNone_lt⟩
  have hid : u64Bound ≤ page.pageId * pageSize := by
    rw [u64Bound_eq]
    decide
  have hinsert : page.insertCell [7] = .error (.corruption 0 "page offset overflowed u64") :=
    onPage_unaddressed hid (.insertCell [7])
  refine ⟨page.raw, .new (new_raw 4503599627370496 .leaf), raw_freeBytes, ?_, ?_⟩
  · rw [insertCell_raw hvalid, hinsert]
    rfl
  · show RawPage.decode page.raw.bytes page.pageId = _
    rw [RawPage.decode, raw_validatePageBytes hvalid, validate_eq_error hid]
    rfl

end DbLab.Btree
