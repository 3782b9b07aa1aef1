import DbLab.Lib.Prog
import DbLab.Btree.Page

/-!
# The pager

A page file is two superblock positions followed by 4 KiB blocks and, after an interrupted
allocation, a partial block. A block is represented by what the reader makes of it: the decoded
superblock or page, or the error that its checksum and structure checks report. Whether the decoded
slot or page id is the one of the position is checked on every read. The pager keeps the
metadata it committed last, and every durable write passes through `writeDurableBytes`, where the
fault hook of the source can stop it before the write, inside the write or after the sync.

The bounded cache of validated pages and the instrumentation counters are not part of this model:
a read goes to the file.
-/

namespace DbLab.Btree

/-- The metadata a superblock can carry; the fields with proofs are the checks of
`Superblock::decode` and the widths of the encoded integers. -/
structure Superblock where
  slot : Fin 2
  generation : ℕ
  pageCount : ℕ
  rootPageId : ℕ
  generation_lt : generation < u64Bound
  count_ok : superblockCount ≤ pageCount
  count_lt : pageCount < u64Bound
  root_ok : rootPageId = rootNone ∨ superblockCount ≤ rootPageId ∧ rootPageId < pageCount
  deriving DecidableEq

/-- Source `Superblock::initial`. -/
def Superblock.initial (slot : Fin 2) : Superblock :=
  ⟨slot, 0, superblockCount, rootNone, by simp [u64Bound_eq], le_refl _, by simp [u64Bound_eq], .inl rfl⟩

/-- Source `alternate_slot`. -/
def alternateSlot (slot : Fin 2) : Fin 2 := if slot = 0 then 1 else 0

namespace Superblock

variable (sb : Superblock) (hg : sb.generation + 1 < u64Bound)

/-- The successor in the other slot that commits one more page. -/
def withPage (hc : sb.pageCount + 1 < u64Bound) : Superblock where
  slot := alternateSlot sb.slot
  generation := sb.generation + 1
  pageCount := sb.pageCount + 1
  rootPageId := sb.rootPageId
  generation_lt := hg
  count_ok := Nat.le_succ_of_le sb.count_ok
  count_lt := hc
  root_ok := sb.root_ok.imp_right fun h => ⟨h.1, Nat.lt_succ_of_lt h.2⟩

/-- The successor in the other slot that publishes another root. -/
def withRoot (encoded : ℕ)
    (hroot : encoded = rootNone ∨ superblockCount ≤ encoded ∧ encoded < sb.pageCount) :
    Superblock where
  slot := alternateSlot sb.slot
  generation := sb.generation + 1
  pageCount := sb.pageCount
  rootPageId := encoded
  generation_lt := hg
  count_ok := sb.count_ok
  count_lt := sb.count_lt
  root_ok := hroot

end Superblock

/-- What decoding the bytes of a block gives. -/
abbrev Block (α : Type) := Except BtreeError α

/-- The page file. -/
structure PageFile where
  slots : Fin 2 → Block Superblock
  /-- The whole blocks behind the superblocks; the first one has page id `2`. -/
  pages : List (Block Page)
  /-- Bytes behind the last whole block. -/
  tail : Fin pageSize

/-- The length of the file. -/
def PageFile.physicalBytes (file : PageFile) : ℕ :=
  (superblockCount + file.pages.length) * pageSize + file.tail

/-- The role of a durable write. -/
inductive DurableWriteKind
  | appendPage (kind : PageKind)
  | recycledPage (kind : PageKind)
  | allocationSuperblock
  | rootSuperblock
  deriving DecidableEq, Repr

instance : ToString DurableWriteKind where
  toString
    | .appendPage kind => s!"AppendPage({kind})"
    | .recycledPage kind => s!"RecycledPage({kind})"
    | .allocationSuperblock => "AllocationSuperblock"
    | .rootSuperblock => "RootSuperblock"

/-- Where a durable write is stopped. A torn write puts a proper prefix of the new bytes in the
place of the old ones; `left` is what the reader then makes of an overwritten block: the old
contents (`none`), or an error. A prefix after which the block already equals the new one is the
case of a finished write. -/
inductive FaultMode
  | beforeWrite
  | tornWrite (bytes : Fin pageSize) (left : Option BtreeError)
  | afterSync

instance : ToString FaultMode where
  toString
    | .beforeWrite => "BeforeWrite"
    | .tornWrite _ _ => "TornWrite"
    | .afterSync => "AfterSync"

/-- The durable write to stop, counted from the start of the trace. -/
structure FaultSpec where
  eventIndex : ℕ
  mode : FaultMode

/-- Source `injected_fault`. -/
def injectedFault (kind : DurableWriteKind) (mode : FaultMode) : BtreeError :=
  .io s!"injected durable-write fault at {kind} with mode {mode}"

/-- The bytes of one durable write with their position. -/
inductive Image
  | superblock (sb : Superblock)
  | page (page : Page)

/-- The index of a data page among the blocks behind the superblocks. -/
def pageIndex (pageId : ℕ) : ℕ := pageId - superblockCount

namespace PageFile

/-- A complete read of one block and what it decodes to. -/
def readBlock (file : PageFile) (index : ℕ) : Block Page :=
  match file.pages[index]? with
  | some block => block
  | none => .error (.io "failed to fill whole buffer")

/-- A complete write at the position of the image. -/
def write (file : PageFile) : Image → PageFile
  | .superblock sb => { file with slots := Function.update file.slots sb.slot (.ok sb) }
  | .page page =>
    if pageIndex page.pageId < file.pages.length then
      { file with pages := file.pages.set (pageIndex page.pageId) (.ok page) }
    else
      { file with pages := file.pages ++ [.ok page], tail := 0 }

/-- A write stopped after a prefix of the bytes. -/
def writePrefix (file : PageFile) (bytes : Fin pageSize) (left : Option BtreeError) :
    Image → PageFile
  | .superblock sb =>
    match left with
    | none => file
    | some e => { file with slots := Function.update file.slots sb.slot (.error e) }
  | .page page =>
    if pageIndex page.pageId < file.pages.length then
      match left with
      | none => file
      | some e => { file with pages := file.pages.set (pageIndex page.pageId) (.error e) }
    else
      { file with tail := bytes }

/-- The file that a stopped write leaves. -/
def writeStopped (file : PageFile) (mode : FaultMode) (image : Image) : PageFile :=
  match mode with
  | .beforeWrite => file
  | .tornWrite bytes left => file.writePrefix bytes left image
  | .afterSync => file.write image

/-- The file cannot grow by the image: its length would leave `u64`. -/
def NoRoom (file : PageFile) : Image → Prop
  | .superblock _ => False
  | .page page =>
    file.pages.length ≤ pageIndex page.pageId ∧ u64Bound ≤ file.physicalBytes + pageSize

instance (file : PageFile) (image : Image) : Decidable (file.NoRoom image) := by
  cases image <;> unfold NoRoom <;> infer_instance

end PageFile

/-- A trailing extent that `open` cut off. -/
structure RecoveredAllocation where
  pageId : ℕ
  availableBytes : ℕ
  deriving DecidableEq, Repr

/-- The file-backed pager. -/
structure Pager where
  file : PageFile
  active : Superblock
  recoveredAllocation : Option RecoveredAllocation
  poisoned : Bool
  faultSpec : Option FaultSpec
  faultTrace : List DurableWriteKind

/-- Source `committed_file_bytes`. -/
def committedFileBytes (pageCount : ℕ) : Except BtreeError ℕ :=
  if pageCount * pageSize < u64Bound then .ok (pageCount * pageSize)
  else .error (.corruption 24 "committed file extent overflowed u64")

instance : ToString BtreeError where
  toString
    | .invalidInput reason => s!"invalid input: {reason}"
    | .io reason => s!"I/O error: {reason}"
    | .corruption offset reason => s!"corrupt B+ tree storage at byte offset {offset}: {reason}"
    | .unsupportedVersion found supported =>
      s!"unsupported B+ tree format version {found}; this build supports version {supported}"
    | .poisoned => "pager is poisoned by a previous write failure; reopen it before continuing"

/-- Source `choose_superblock`. -/
def chooseSuperblock (first second : Block Superblock) : Except BtreeError Superblock :=
  match first, second with
  | .ok first, .ok second =>
    let gap := max first.generation second.generation - min first.generation second.generation
    if 1 < gap then
      .error (.corruption 0 <|
        s!"mirrored superblock generations differ by {gap}: " ++
        s!"slot0={first.generation}, slot1={second.generation}")
    else if first.generation = second.generation ∧
        (first.pageCount ≠ second.pageCount ∨ first.rootPageId ≠ second.rootPageId) then
      .error (.corruption 0 "equal-generation superblocks disagree on committed metadata")
    else if first.generation < second.generation then
      .ok second
    else
      .ok first
  | .ok valid, .error _ => .ok valid
  | .error _, .ok valid => .ok valid
  | .error first, .error second =>
    .error (.corruption 0
      s!"both mirrored superblocks are invalid: slot0=({first}); slot1=({second})")

namespace Pager

/-- Source `read_superblock`, with the check of the slot id that `Superblock::decode` makes. -/
def readSuperblock (file : PageFile) (slot : Fin 2) : Block Superblock := do
  let sb ← file.slots slot
  if sb.slot ≠ slot then
    throw (.corruption (slot * pageSize + 12)
      s!"superblock slot id is {sb.slot}; physical slot is {slot}")
  else
    pure sb

/-- Source `Pager::create_new` on a fresh path. -/
def createNew : Pager where
  file := ⟨fun slot => .ok (Superblock.initial slot), [], 0⟩
  active := Superblock.initial 0
  recoveredAllocation := none
  poisoned := false
  faultSpec := none
  faultTrace := []

/-- Source `Pager::open`. -/
def openFile (file : PageFile) : Except BtreeError Pager := do
  let active ← chooseSuperblock (readSuperblock file 0) (readSuperblock file 1)
  let committed ← committedFileBytes active.pageCount
  if file.physicalBytes < committed then
    throw (.corruption file.physicalBytes
      s!"file ends before committed extent: superblock commits {committed} bytes")
  else if committed < file.physicalBytes then
    let extra := file.physicalBytes - committed
    if pageSize < extra then
      throw (.corruption committed <|
        s!"found {extra} bytes beyond committed extent; " ++
        "one interrupted page is the maximum recoverable tail")
    else
      pure ⟨{ file with pages := file.pages.take (active.pageCount - superblockCount), tail := 0 },
        active, some ⟨active.pageCount, extra⟩, false, none, []⟩
  else
    pure ⟨file, active, none, false, none, []⟩

/-- Committed data pages, without the two superblocks. -/
def dataPageCount (pager : Pager) : ℕ := pager.active.pageCount - superblockCount

def rootPageId (pager : Pager) : Option ℕ :=
  if pager.active.rootPageId = rootNone then none else some pager.active.rootPageId

def ensureUsable (pager : Pager) : Except BtreeError Unit :=
  if pager.poisoned then .error .poisoned else .ok ()

/-- A page id that is not committed. -/
abbrev Outside (pager : Pager) (pageId : ℕ) : Prop :=
  pageId < superblockCount ∨ pager.active.pageCount ≤ pageId

def outsideError (pager : Pager) (pageId : ℕ) : BtreeError :=
  .invalidInput <|
    s!"page id {pageId} is outside committed data range " ++
    s!"{superblockCount}..{pager.active.pageCount}"

/-- Source `validate_committed_page_id`. -/
def validateCommittedPageId (pager : Pager) (pageId : ℕ) : Except BtreeError Unit :=
  if pager.Outside pageId then .error (pager.outsideError pageId) else .ok ()

/-- Source `Pager::read_page`. -/
def readPage (pager : Pager) (pageId : ℕ) : Except BtreeError Page := do
  pager.ensureUsable
  pager.validateCommittedPageId pageId
  let offset ← pageOffset pageId
  let page ← pager.file.readBlock (pageIndex pageId)
  if page.pageId ≠ pageId then
    throw (.corruption (offset + 8)
      s!"page header id is {page.pageId}; physical page id is {pageId}")
  else if pager.active.pageCount ≤ page.link then
    throw (.corruption (offset + 32) <|
      s!"page {pageId} points to uncommitted linked page {page.link}; " ++
      s!"committed page_count is {pager.active.pageCount}")
  else
    pure page

/-- Source `prepare_new_page`. -/
def prepareNewPage (pager : Pager) (kind : PageKind) : Except BtreeError Page := do
  pager.ensureUsable
  Page.new pager.active.pageCount kind

/-- Source `write_durable_bytes`: the event is recorded, and it is stopped when it is the one of
the fault specification. A write that would make the file longer than a file can be fails. -/
def writeDurableBytes (image : Image) (kind : DurableWriteKind) : Prog Pager BtreeError Unit := do
  let pager ← Prog.get
  Prog.modify fun p => { p with faultTrace := p.faultTrace ++ [kind] }
  match pager.faultSpec.filter fun spec => spec.eventIndex = pager.faultTrace.length with
  | some spec =>
    Prog.modify fun p => { p with file := p.file.writeStopped spec.mode image }
    Prog.throw (injectedFault kind spec.mode)
  | none =>
    if pager.file.NoRoom image then
      Prog.throw (.io "file too large")
    else
      Prog.modify fun p => { p with file := p.file.write image }

/-- Poison the pager when the write fails. -/
def poisonOnError (write : Prog Pager BtreeError Unit) : Prog Pager BtreeError Unit := fun pager =>
  match write pager with
  | (.ok (), pager) => (.ok (), pager)
  | (.error e, pager) => (.error e, { pager with poisoned := true })

/-- Source `commit_new_page`. -/
def commitNewPage (page : Page) : Prog Pager BtreeError ℕ := do
  let pager ← Prog.get
  Prog.ofExcept pager.ensureUsable
  Prog.ofExcept page.validate
  if page.pageId ≠ pager.active.pageCount then
    Prog.throw (.invalidInput <|
      s!"prepared page id {page.pageId} is stale; " ++
      s!"next committed page id is {pager.active.pageCount}")
  else if hg : u64Bound ≤ pager.active.generation + 1 then
    Prog.throw (.corruption 0 "superblock generation exhausted before page allocation")
  else if hc : u64Bound ≤ pager.active.pageCount + 1 then
    Prog.throw (.corruption 0 "superblock page counter exhausted before page allocation")
  else
    let next := pager.active.withPage (not_le.1 hg) (not_le.1 hc)
    let expected ← Prog.ofExcept (committedFileBytes pager.active.pageCount)
    let physical := pager.file.physicalBytes
    if physical ≠ expected then
      Prog.throw (.corruption (min physical expected) <|
        s!"live pager physical extent is {physical} bytes; expected {expected} before allocation")
    else
      poisonOnError (writeDurableBytes (.page page) (.appendPage page.kind))
      poisonOnError (writeDurableBytes (.superblock next) .allocationSuperblock)
      Prog.modify fun p => { p with active := next }
      pure page.pageId

/-- Source `commit_recycled_page`. -/
def commitRecycledPage (page : Page) : Prog Pager BtreeError ℕ := do
  let pager ← Prog.get
  Prog.ofExcept pager.ensureUsable
  Prog.ofExcept page.validate
  Prog.ofExcept (pager.validateCommittedPageId page.pageId)
  let _ ← Prog.ofExcept (pageOffset page.pageId)
  poisonOnError (writeDurableBytes (.page page) (.recycledPage page.kind))
  pure page.pageId

/-- The second half of `set_root`: publish an encoded root id through the inactive slot. -/
def publishRoot (pager : Pager) (encoded : ℕ)
    (hroot : encoded = rootNone ∨ superblockCount ≤ encoded ∧ encoded < pager.active.pageCount) :
    Prog Pager BtreeError Unit :=
  if encoded = pager.active.rootPageId then
    pure ()
  else if hg : u64Bound ≤ pager.active.generation + 1 then
    Prog.throw (.corruption 0 "superblock generation exhausted before root update")
  else do
    let next := pager.active.withRoot (not_le.1 hg) encoded hroot
    poisonOnError (writeDurableBytes (.superblock next) .rootSuperblock)
    Prog.modify fun p => { p with active := next }

/-- Source `set_root`. -/
def setRoot (root : Option ℕ) : Prog Pager BtreeError Unit := do
  let pager ← Prog.get
  Prog.ofExcept pager.ensureUsable
  match root with
  | none => publishRoot pager rootNone (.inl rfl)
  | some pageId =>
    if h : pager.Outside pageId then
      Prog.throw (pager.outsideError pageId)
    else
      let _ ← Prog.ofExcept (pager.readPage pageId)
      publishRoot pager pageId (.inr ⟨not_lt.1 fun hlt => h (.inl hlt), not_le.1 fun hle => h (.inr hle)⟩)

end Pager
end DbLab.Btree
