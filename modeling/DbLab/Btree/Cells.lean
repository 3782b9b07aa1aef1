import DbLab.Btree.Page

/-!
# Cells of tree pages

Keys and values are kept inside their cell or, when they are too long, in a chain of overflow pages
that the cell refers to. This file has the stored forms, the byte layout of leaf and internal cells,
the order checks, the choice of a child and the choice of a split.
-/

namespace DbLab.Btree

def maxTreeKeyBytes : ℕ := 4 * 1024
def maxTreeValueBytes : ℕ := 1024 * 1024
def leafCellHeaderLen : ℕ := 6
/-- The top bit of the `u16` key field; the lower bits are the key length, so that `|` with a length
below the flag is addition. -/
def keyOverflowFlag : ℕ := 2 ^ 15
def keyLengthMask : ℕ := keyOverflowFlag - 1
def keyOverflowRefLen : ℕ := 8
/-- The top bit of the `u32` value field. -/
def valueOverflowFlag : ℕ := 2 ^ 31
def valueLengthMask : ℕ := valueOverflowFlag - 1
def overflowValueRefLen : ℕ := 8
def internalCellHeaderLen : ℕ := 10
def maxTreeHeight : ℕ := 64
def maxInlineKeyBytes : ℕ := pageBodyCapacity - slotLen - leafCellHeaderLen - overflowValueRefLen
def minPageFill : ℕ := pageBodyCapacity / 2

@[simp] theorem maxTreeKeyBytes_eq : maxTreeKeyBytes = 4096 := rfl
@[simp] theorem maxTreeValueBytes_eq : maxTreeValueBytes = 1048576 := rfl
@[simp] theorem leafCellHeaderLen_eq : leafCellHeaderLen = 6 := rfl
@[simp] theorem keyOverflowFlag_eq : keyOverflowFlag = 32768 := rfl
@[simp] theorem keyLengthMask_eq : keyLengthMask = 32767 := rfl
@[simp] theorem keyOverflowRefLen_eq : keyOverflowRefLen = 8 := rfl
@[simp] theorem valueOverflowFlag_eq : valueOverflowFlag = 2147483648 := rfl
@[simp] theorem valueLengthMask_eq : valueLengthMask = 2147483647 := rfl
@[simp] theorem overflowValueRefLen_eq : overflowValueRefLen = 8 := rfl
@[simp] theorem internalCellHeaderLen_eq : internalCellHeaderLen = 10 := rfl
@[simp] theorem maxTreeHeight_eq : maxTreeHeight = 64 := rfl
@[simp] theorem maxInlineKeyBytes_eq : maxInlineKeyBytes = 4034 := rfl
@[simp] theorem minPageFill_eq : minPageFill = 2026 := rfl

/-- A key as a cell holds it. -/
inductive StoredKey
  | inline (bytes : Bytes)
  | overflow (bytes : Bytes) (firstPageId : ℕ)
  deriving DecidableEq

/-- A value as a cell holds it. -/
inductive StoredValue
  | inline (bytes : Bytes)
  | overflow (len firstPageId : ℕ)
  deriving DecidableEq

/-- One decoded leaf cell. -/
structure LeafEntry where
  key : StoredKey
  value : StoredValue
  deriving DecidableEq

/-- One decoded internal cell: a child and its separator. -/
structure ChildRef where
  minKey : Bytes
  pageId : ℕ
  deriving DecidableEq

def validateKey (key : Bytes) : Except BtreeError Unit :=
  if maxTreeKeyBytes < key.length then
    .error (.invalidInput
      s!"B+ tree key has {key.length} bytes; maximum is {maxTreeKeyBytes}")
  else
    .ok ()

/-- The length check of a value, made by `put`, by `store_value` and by the leaf encoder. -/
def validateValueLen (value : Bytes) : Except BtreeError Unit :=
  if maxTreeValueBytes < value.length then
    .error (.invalidInput
      s!"B+ tree value has {value.length} bytes; maximum is {maxTreeValueBytes}")
  else
    .ok ()

def validateKeyValue (key value : Bytes) : Except BtreeError Unit := do
  validateKey key
  validateValueLen value
  if 2 ^ 32 ≤ value.length then
    throw (.invalidInput "value length does not fit the on-page u32 field")
  else if valueLengthMask < value.length then
    throw (.invalidInput "value length collides with the overflow marker bit")

namespace StoredKey

def asSlice : StoredKey → Bytes
  | .inline bytes => bytes
  | .overflow bytes _ => bytes

def encodedPayloadLen : StoredKey → ℕ
  | .inline bytes => bytes.length
  | .overflow _ _ => keyOverflowRefLen

def encodedField (key : StoredKey) : Except BtreeError ℕ :=
  if 65535 < key.asSlice.length then
    .error (.invalidInput "key length does not fit the on-page u16 field")
  else if keyLengthMask < key.asSlice.length then
    .error (.invalidInput "key length collides with the overflow marker bit")
  else
    match key with
    | .inline bytes => .ok bytes.length
    | .overflow bytes _ => .ok (keyOverflowFlag + bytes.length)

/-- The bytes a cell has in the place of the key. -/
def payload : StoredKey → Bytes
  | .inline bytes => bytes
  | .overflow _ firstPageId => leBytes 8 firstPageId

end StoredKey

/-- The value field of a leaf cell with the checks of the leaf encoder. -/
def StoredValue.encodedField : StoredValue → Except BtreeError ℕ
  | .inline value => do
    validateValueLen value
    pure value.length
  | .overflow len firstPageId =>
    if len = 0 ∨ maxTreeValueBytes < len then
      .error (.invalidInput "overflow value length is outside supported bounds")
    else if firstPageId < superblockCount then
      .error (.invalidInput
        s!"overflow value page {firstPageId} overlaps mirrored superblocks")
    else
      .ok (valueOverflowFlag + len)

def StoredValue.payload : StoredValue → Bytes
  | .inline value => value
  | .overflow _ firstPageId => leBytes 8 firstPageId

/-- Source `encode_leaf_cell`. -/
def encodeLeafCell (entry : LeafEntry) : Except BtreeError Bytes := do
  validateKey entry.key.asSlice
  let keyField ← entry.key.encodedField
  let valueField ← entry.value.encodedField
  pure (leBytes 2 keyField ++ leBytes 4 valueField ++ entry.key.payload ++ entry.value.payload)

/-- Source `encode_internal_cell`: the preview of a cell whose separator is not stored yet. -/
def encodeInternalCell (child : ChildRef) : Except BtreeError Bytes := do
  validateKey child.minKey
  if child.pageId < superblockCount then
    throw (.invalidInput s!"child page {child.pageId} overlaps mirrored superblocks")
  else if 65535 < child.minKey.length then
    throw (.invalidInput "separator length does not fit the on-page u16 field")
  else if maxInlineKeyBytes < child.minKey.length then
    pure (leBytes 2 (keyOverflowFlag + child.minKey.length) ++ leBytes 8 child.pageId ++ leBytes 8 0)
  else
    pure (leBytes 2 child.minKey.length ++ leBytes 8 child.pageId ++ child.minKey)

/-- Source `encode_internal_cell_stored`. -/
def encodeInternalCellStored (key : StoredKey) (pageId : ℕ) : Except BtreeError Bytes := do
  validateKey key.asSlice
  if pageId < superblockCount then
    throw (.invalidInput s!"child page {pageId} overlaps mirrored superblocks")
  else
    let field ← key.encodedField
    pure (leBytes 2 field ++ leBytes 8 pageId ++ key.payload)

/-- Neighbouring keys are in strictly increasing order. -/
abbrev StrictlyIncreasing (keys : List Bytes) : Prop := keys.IsChain (· < ·)

def validateLeafOrder (entries : List LeafEntry) (pageId : ℕ) : Except BtreeError Unit :=
  if StrictlyIncreasing (entries.map fun entry => entry.key.asSlice) then .ok ()
  else .error (.corruption 0 s!"leaf page {pageId} keys are not strictly increasing")

/-- The checks on one child of `validate_child_refs`. -/
def validateChildRef (child : ChildRef) : Except BtreeError Unit := do
  validateKey child.minKey
  if child.pageId < superblockCount then
    throw (.invalidInput s!"internal child {child.pageId} overlaps mirrored superblocks")

/-- Source `validate_child_refs`. -/
def validateChildRefs (children : List ChildRef) : Except BtreeError Unit := do
  if children = [] then
    throw (.invalidInput "internal page requires at least one child")
  else
    children.forM validateChildRef
    if ¬ StrictlyIncreasing (children.map ChildRef.minKey) then
      throw (.corruption 0 "internal separator keys are not strictly increasing")

/-- Binary search in strictly increasing keys: the index of the key, or the index where it would
be inserted. -/
def binarySearch (keys : List Bytes) (key : Bytes) : ℕ ⊕ ℕ :=
  let index := (keys.takeWhile (· < key)).length
  if keys[index]? = some key then .inl index else .inr index

/-- The index that `route_child` takes from the outcome of the binary search. -/
def routeIndex (keys : List Bytes) (key : Bytes) : ℕ :=
  match binarySearch keys key with
  | .inl index => index
  | .inr index => index - 1

/-- Source `route_child`. -/
def routeChild (children : List ChildRef) (key : Bytes) : Except BtreeError ℕ := do
  validateChildRefs children
  pure (routeIndex (children.map ChildRef.minKey) key)

/-- Replace the element at an index by a list. -/
def splice {α : Type} (items : List α) (index : ℕ) (replacements : List α) : List α :=
  items.take index ++ replacements ++ items.drop (index + 1)

/-- Source `cells_fit`. -/
def cellsFit (cells : List Bytes) : Bool := usedBytes cells ≤ pageBodyCapacity

/-- The byte sizes of cells with their slots. -/
def cellSizes (cells : List Bytes) : List ℕ := cells.map fun cell => slotLen + cell.length

/-- Both sides of a cut fit in a page. -/
abbrev CutFits (sizes : List ℕ) (split : ℕ) : Prop :=
  (sizes.take split).sum ≤ pageBodyCapacity ∧ (sizes.drop split).sum ≤ pageBodyCapacity

/-- The difference in bytes between the two sides of a cut. -/
def imbalance (sizes : List ℕ) (split : ℕ) : ℕ :=
  max (sizes.take split).sum (sizes.drop split).sum -
    min (sizes.take split).sum (sizes.drop split).sum

/-- One round of the loop over the cuts: keep the best admitted cut so far. -/
def betterCut (admits : ℕ → Bool) (sizes : List ℕ) (best : Option ℕ) (split : ℕ) : Option ℕ :=
  if admits split ∧ CutFits sizes split ∧
      (∀ current ∈ best, imbalance sizes split < imbalance sizes current) then
    some split
  else
    best

/-- The loop over the cuts `1..sizes.len()`. -/
def bestCut (admits : ℕ → Bool) (sizes : List ℕ) : Option ℕ :=
  (List.range' 1 (sizes.length - 1)).foldl (betterCut admits sizes) none

/-- The choice of `choose_split` from the sizes of the cells. -/
def splitSizes (sizes : List ℕ) : Option ℕ :=
  if sizes.length < 2 then none else bestCut (fun _ => true) sizes

/-- Source `choose_split`. -/
def chooseSplit (cells : List Bytes) : Option ℕ := splitSizes (cellSizes cells)

/-- Source `choose_internal_rebalance_split`. -/
def chooseInternalRebalanceSplit (cells : List Bytes) : Option ℕ :=
  if cells.length < 4 then none
  else bestCut (fun split => 2 ≤ split ∧ 2 ≤ cells.length - split) (cellSizes cells)

/-- Source `page_is_underfull`. -/
def pageIsUnderfull (page : Page) : Except BtreeError Bool :=
  match page.kind with
  | .overflow => .error (.corruption 0 "overflow page appeared as a B+ tree child")
  | .internal => .ok (page.cellCount < 2 ∨ usedBytes page.cells < minPageFill)
  | .leaf => .ok (usedBytes page.cells < minPageFill)

end DbLab.Btree
