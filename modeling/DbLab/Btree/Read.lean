import DbLab.Btree.Pager
import DbLab.Btree.Cells

/-!
# Reading the tree

Point lookup, range scan and the validation walk over a committed root. Reading does not change the
pager of this model, so these are functions of the pager. The source hands an optional set of page
ids to the decoders; here they take the set and return the enlarged one. A recursion that the source
bounds by `MAX_TREE_HEIGHT` counts the levels that are left.
-/

namespace DbLab.Btree

def overflowCellCapacity : ℕ := pageBodyCapacity - slotLen

@[simp] theorem overflowCellCapacity_eq : overflowCellCapacity = 4048 := rfl

/-- The page ids met so far, when the caller collects them. -/
abbrev Seen := Option (Finset ℕ)

/-- The page id is already collected. -/
def Seen.Contains (seen : Seen) (pageId : ℕ) : Prop := ∃ ids ∈ seen, pageId ∈ ids

instance (seen : Seen) (pageId : ℕ) : Decidable (seen.Contains pageId) :=
  match seen with
  | none => .isFalse (by rintro ⟨_, h, _⟩; cases h)
  | some ids => decidable_of_iff (pageId ∈ ids) (by simp [Seen.Contains])

/-- Collect a page id. -/
def Seen.insert (seen : Seen) (pageId : ℕ) : Seen := Option.map (Insert.insert pageId) seen

namespace Pager

/-! ### Overflow chains -/

/-- The loop of `read_overflow_blob`: `left` of the `pageCount` pages are still to be read. -/
def readOverflowPages (pager : Pager) (pageCount firstChunkLen : ℕ) :
    ℕ → Option ℕ → Finset ℕ → Seen → Bytes → Except BtreeError (Bytes × Option ℕ × Seen)
  | 0, current, _, seen, output => .ok (output, current, seen)
  | left + 1, current, localSeen, seen, output => do
    let index := pageCount - (left + 1)
    match current with
    | none =>
      throw (.corruption 0 s!"overflow chain ended after {index} of {pageCount} pages")
    | some pageId =>
      if pageId ∈ localSeen then
        throw (.corruption 0 s!"overflow chain contains cycle at page {pageId}")
      else if seen.Contains pageId then
        throw (.corruption 0 s!"overflow page {pageId} is referenced more than once")
      else
        let page ← pager.readPage pageId
        if page.kind ≠ .overflow then
          throw (.corruption 0 s!"overflow chain page {pageId} has kind {page.kind}")
        else
          match page.cells with
          | [chunk] =>
            let expected := if index = 0 then firstChunkLen else overflowCellCapacity
            if chunk.length ≠ expected then
              throw (.corruption 0 <|
                s!"overflow page {pageId} stores {chunk.length} bytes; " ++
                s!"canonical chain position {index} requires {expected}")
            else
              pager.readOverflowPages pageCount firstChunkLen left page.overflowNext
                (insert pageId localSeen) (seen.insert pageId) (output ++ chunk)
          | cells =>
            throw (.corruption 0
              s!"overflow page {pageId} has {cells.length} cells; expected exactly one")

/-- Source `read_overflow_blob`. -/
def readOverflowBlob (pager : Pager) (firstPageId encodedLen : ℕ) (seen : Seen) (maxLen : ℕ)
    (blobKind : String) : Except BtreeError (Bytes × Seen) := do
  if encodedLen = 0 ∨ maxLen < encodedLen then
    throw (.corruption 0 s!"overflow {blobKind} encodes invalid length {encodedLen}")
  else
    let pageCount := (encodedLen + (overflowCellCapacity - 1)) / overflowCellCapacity
    let firstChunkLen := encodedLen - (pageCount - 1) * overflowCellCapacity
    let (output, current, seen) ←
      pager.readOverflowPages pageCount firstChunkLen pageCount (some firstPageId) ∅ seen []
    match current with
    | some extra =>
      throw (.corruption 0 s!"overflow chain continues to unexpected extra page {extra}")
    | none =>
      if output.length ≠ encodedLen then
        throw (.corruption 0
          s!"overflow chain reconstructed {output.length} bytes; expected {encodedLen}")
      else
        pure (output, seen)

/-- Source `load_key_blob`. -/
def loadKeyBlob (pager : Pager) (firstPageId encodedLen : ℕ) (seen : Seen) :
    Except BtreeError (StoredKey × Seen) := do
  let (bytes, seen) ← pager.readOverflowBlob firstPageId encodedLen seen maxTreeKeyBytes "key"
  pure (.overflow bytes firstPageId, seen)

/-- Source `load_value`. -/
def loadValue (pager : Pager) : StoredValue → Except BtreeError Bytes
  | .inline bytes => .ok bytes
  | .overflow len firstPageId => do
    let (bytes, _) ← pager.readOverflowBlob firstPageId len none maxTreeValueBytes "value"
    pure bytes

/-- Source `validate_value_reachability`. -/
def validateValueReachability (pager : Pager) (value : StoredValue) (seen : Seen) :
    Except BtreeError Seen :=
  match value with
  | .inline _ => .ok seen
  | .overflow len firstPageId => do
    let (_, seen) ← pager.readOverflowBlob firstPageId len seen maxTreeValueBytes "value"
    pure seen

/-! ### Decoding tree pages -/

/-- The key of a cell from its `u16` field and payload. -/
def loadKey (pager : Pager) (keyField : ℕ) (payload : Bytes) (seen : Seen) :
    Except BtreeError (StoredKey × Seen) :=
  if keyOverflowFlag ≤ keyField then
    pager.loadKeyBlob (leNat payload) (keyField % keyOverflowFlag) seen
  else
    .ok (.inline payload, seen)

/-- Bytes that the key of a cell takes. -/
def keyPayloadLen (keyField : ℕ) : ℕ :=
  if keyOverflowFlag ≤ keyField then keyOverflowRefLen else keyField % keyOverflowFlag

/-- A key field that no encoder writes. -/
def BadKeyField (keyField : ℕ) : Prop :=
  maxTreeKeyBytes < keyField % keyOverflowFlag ∨
    keyOverflowFlag ≤ keyField ∧ keyField % keyOverflowFlag = 0

instance : DecidablePred BadKeyField := fun _ => inferInstanceAs (Decidable (_ ∨ _))

/-- One turn of the loop of `decode_leaf`. -/
def decodeLeafCell (pager : Pager) (pageId index : ℕ) (cell : Bytes) (seen : Seen) :
    Except BtreeError (LeafEntry × Seen) := do
  let keyField := leNat (cell.take 2)
  let valueField := leNat ((cell.drop 2).take 4)
  let valueLen := valueField % valueOverflowFlag
  let valuePayloadLen := if valueOverflowFlag ≤ valueField then overflowValueRefLen else valueLen
  let expected := leafCellHeaderLen + keyPayloadLen keyField + valuePayloadLen
  if cell.length < leafCellHeaderLen then
    throw (.corruption 0
      s!"leaf page {pageId} slot {index} is shorter than its cell header")
  else if BadKeyField keyField then
    throw (.corruption 0
      s!"leaf page {pageId} contains invalid key length {keyField % keyOverflowFlag}")
  else if maxTreeValueBytes < valueLen ∨ valueOverflowFlag ≤ valueField ∧ valueLen = 0 then
    throw (.corruption 0 s!"leaf page {pageId} contains invalid value length {valueLen}")
  else if expected ≠ cell.length then
    throw (.corruption 0 <|
      s!"leaf page {pageId} slot {index} encodes {expected} bytes " ++
      s!"but slot contains {cell.length}")
  else
    let body := cell.drop leafCellHeaderLen
    let (key, seen) ← pager.loadKey keyField (body.take (keyPayloadLen keyField)) seen
    let payload := body.drop (keyPayloadLen keyField)
    if valueOverflowFlag ≤ valueField then
      if leNat payload < superblockCount then
        throw (.corruption 0
          s!"leaf page {pageId} references invalid overflow value page {leNat payload}")
      else
        pure (⟨key, .overflow valueLen (leNat payload)⟩, seen)
    else
      pure (⟨key, .inline payload⟩, seen)

/-- One turn of the loop of `decode_internal`. -/
def decodeInternalCell (pager : Pager) (pageId index : ℕ) (cell : Bytes) (seen : Seen) :
    Except BtreeError (ChildRef × Seen) := do
  let keyField := leNat (cell.take 2)
  let childId := leNat ((cell.drop 2).take 8)
  let expected := internalCellHeaderLen + keyPayloadLen keyField
  if cell.length < internalCellHeaderLen then
    throw (.corruption 0
      s!"internal page {pageId} slot {index} is shorter than its cell header")
  else if BadKeyField keyField then
    throw (.corruption 0
      s!"internal page {pageId} contains invalid separator length {keyField % keyOverflowFlag}")
  else if expected ≠ cell.length then
    throw (.corruption 0 <|
      s!"internal page {pageId} slot {index} encodes {expected} bytes " ++
      s!"but slot contains {cell.length}")
  else if childId < superblockCount then
    throw (.corruption 0 s!"internal page {pageId} references invalid child {childId}")
  else
    let (key, seen) ← pager.loadKey keyField (cell.drop internalCellHeaderLen) seen
    pure (⟨key.asSlice, childId⟩, seen)

/-- Decode the cells of a page from slot `index` on. -/
def decodeCells {α : Type} (decode : ℕ → Bytes → Seen → Except BtreeError (α × Seen)) :
    ℕ → List Bytes → Seen → Except BtreeError (List α × Seen)
  | _, [], seen => .ok ([], seen)
  | index, cell :: cells, seen => do
    let (entry, seen) ← decode index cell seen
    let (entries, seen) ← decodeCells decode (index + 1) cells seen
    pure (entry :: entries, seen)

/-- Source `decode_leaf`. -/
def decodeLeaf (pager : Pager) (page : Page) (seen : Seen) :
    Except BtreeError (List LeafEntry × Seen) := do
  if page.kind ≠ .leaf then
    throw (.corruption 0 "attempted leaf decoding on a non-leaf page")
  else
    let (entries, seen) ← decodeCells (pager.decodeLeafCell page.pageId) 0 page.cells seen
    validateLeafOrder entries page.pageId
    pure (entries, seen)

/-- Source `decode_internal`. -/
def decodeInternal (pager : Pager) (page : Page) (seen : Seen) :
    Except BtreeError (List ChildRef × Seen) := do
  if page.kind ≠ .internal then
    throw (.corruption 0 "attempted internal decoding on a non-internal page")
  else
    let (children, seen) ← decodeCells (pager.decodeInternalCell page.pageId) 0 page.cells seen
    validateChildRefs children
    pure (children, seen)

/-! ### Lookup -/

/-- An element at an index that the caller has computed; the source would panic outside. -/
def elementAt {α : Type} (items : List α) (index : ℕ) : Except BtreeError α :=
  match items[index]? with
  | some item => .ok item
  | none => .error (.corruption 0 "index out of bounds")

/-- The descent of `get` with `levels` rounds of its loop left. -/
def getFrom (pager : Pager) (key : Bytes) : ℕ → ℕ → Except BtreeError (Option Bytes)
  | 0, _ =>
    .error (.corruption 0 s!"B+ tree traversal exceeded maximum height {maxTreeHeight}")
  | levels + 1, pageId => do
    let page ← pager.readPage pageId
    match page.kind with
    | .leaf =>
      let (entries, _) ← pager.decodeLeaf page none
      match binarySearch (entries.map fun entry => entry.key.asSlice) key with
      | .inl index =>
        let entry ← elementAt entries index
        some <$> pager.loadValue entry.value
      | .inr _ => pure none
    | .internal =>
      let (children, _) ← pager.decodeInternal page none
      let index ← routeChild children key
      let child ← elementAt children index
      pager.getFrom key levels child.pageId
    | .overflow =>
      throw (.corruption 0 s!"lookup reached overflow page {pageId} as a tree node")

/-- Source `get`. -/
def get (pager : Pager) (key : Bytes) : Except BtreeError (Option Bytes) := do
  validateKey key
  match pager.rootPageId with
  | none => pure none
  | some root => pager.getFrom key maxTreeHeight root

/-! ### Range scan -/

/-- The loop of `scan_subtree` over the entries of a leaf; the flag says that the scan is over. -/
def scanEntries (pager : Pager) (start : Bytes) (stop : Option Bytes) (limit : ℕ) :
    List LeafEntry → List (Bytes × Bytes) → Except BtreeError (List (Bytes × Bytes) × Bool)
  | [], rows => .ok (rows, false)
  | entry :: entries, rows => do
    let key := entry.key.asSlice
    if key < start then
      pager.scanEntries start stop limit entries rows
    else if ∃ e ∈ stop, e ≤ key then
      pure (rows, true)
    else
      let value ← pager.loadValue entry.value
      let rows := rows ++ [(key, value)]
      if limit ≤ rows.length then
        pure (rows, true)
      else
        pager.scanEntries start stop limit entries rows

/-- The loop of `scan_subtree` over the children of an internal page. -/
def scanChildren (scan : ℕ → List (Bytes × Bytes) → Except BtreeError (List (Bytes × Bytes) × Bool))
    (start : Bytes) (stop : Option Bytes) :
    List ChildRef → List (Bytes × Bytes) → Except BtreeError (List (Bytes × Bytes) × Bool)
  | [], rows => .ok (rows, false)
  | child :: children, rows => do
    if ∃ next ∈ children.head?, next.minKey ≤ start then
      scanChildren scan start stop children rows
    else if ∃ e ∈ stop, e ≤ child.minKey then
      pure (rows, true)
    else
      let (rows, done) ← scan child.pageId rows
      if done then pure (rows, true) else scanChildren scan start stop children rows

/-- Source `scan_subtree` with `levels` levels left. -/
def scanSubtree (pager : Pager) (start : Bytes) (stop : Option Bytes) (limit : ℕ) :
    ℕ → ℕ → List (Bytes × Bytes) → Except BtreeError (List (Bytes × Bytes) × Bool)
  | 0, _, _ =>
    .error (.corruption 0 s!"B+ tree range scan exceeded maximum height {maxTreeHeight}")
  | levels + 1, pageId, rows => do
    let page ← pager.readPage pageId
    match page.kind with
    | .leaf =>
      let (entries, _) ← pager.decodeLeaf page none
      pager.scanEntries start stop limit entries rows
    | .internal =>
      let (children, _) ← pager.decodeInternal page none
      scanChildren (pager.scanSubtree start stop limit levels) start stop children rows
    | .overflow =>
      throw (.corruption 0 s!"range traversal reached overflow page {pageId} as a tree node")

/-- Source `range_scan`. -/
def rangeScan (pager : Pager) (start : Bytes) (stop : Option Bytes) (limit : ℕ) :
    Except BtreeError (List (Bytes × Bytes)) := do
  validateKey start
  match stop with
  | none => pure ()
  | some stop =>
    validateKey stop
    if stop < start then
      throw (.invalidInput "ordered range end must not sort before start")
  if limit = 0 ∨ stop = some start then
    pure []
  else
    match pager.rootPageId with
    | none => pure []
    | some root =>
      let (rows, _) ← pager.scanSubtree start stop limit maxTreeHeight root []
      pure rows

/-! ### Validation -/

/-- What the validation of a subtree reports to its parent. -/
structure SubtreeBounds where
  minKey : Bytes
  maxKey : Bytes
  height : ℕ
  deriving DecidableEq

/-- The reachability check of all values of a leaf. -/
def validateValues (pager : Pager) : List LeafEntry → Seen → Except BtreeError Seen
  | [], seen => .ok seen
  | entry :: entries, seen => do
    let seen ← pager.validateValueReachability entry.value seen
    pager.validateValues entries seen

/-- The loop of `validate_subtree` over the children of an internal page. -/
def validateChildren (validate : ℕ → Finset ℕ → Except BtreeError (SubtreeBounds × Finset ℕ))
    (pageId : ℕ) :
    List ChildRef → Finset ℕ → Except BtreeError (List SubtreeBounds × Finset ℕ)
  | [], seen => .ok ([], seen)
  | child :: children, seen => do
    let (bounds, seen) ← validate child.pageId seen
    if bounds.minKey ≠ child.minKey then
      throw (.corruption 0 <|
        s!"internal page {pageId} separator does not equal child {child.pageId} minimum key")
    else
      let (rest, seen) ← validateChildren validate pageId children seen
      pure (bounds :: rest, seen)

/-- The bounds of a leaf from its entries. -/
def leafBounds (pageId : ℕ) (entries : List LeafEntry) : Except BtreeError SubtreeBounds :=
  match entries.head?, entries.getLast? with
  | some first, some last => .ok ⟨first.key.asSlice, last.key.asSlice, 1⟩
  | _, _ => .error (.corruption 0 s!"reachable leaf page {pageId} is empty")

/-- The bounds of an internal page from those of its children. -/
def internalBounds (pageId : ℕ) (bounds : List SubtreeBounds) : Except BtreeError SubtreeBounds :=
  match bounds.head?, bounds.getLast? with
  | some first, some last =>
    if ¬ ∀ b ∈ bounds, b.height = first.height then
      .error (.corruption 0 s!"internal page {pageId} has children at different heights")
    else if ¬ bounds.IsChain (fun a b => a.maxKey < b.minKey) then
      .error (.corruption 0 s!"internal page {pageId} has overlapping child key ranges")
    else
      .ok ⟨first.minKey, last.maxKey, first.height + 1⟩
  | _, _ => .error (.corruption 0 "index out of bounds")

/-- Source `validate_subtree` with `levels` levels left. -/
def validateSubtree (pager : Pager) :
    ℕ → ℕ → Finset ℕ → Except BtreeError (SubtreeBounds × Finset ℕ)
  | 0, _, _ =>
    .error (.corruption 0 s!"reachable tree exceeds maximum height {maxTreeHeight}")
  | levels + 1, pageId, seen => do
    if pageId ∈ seen then
      throw (.corruption 0
        s!"reachable B+ tree contains a cycle or duplicate page reference at {pageId}")
    else
      let page ← pager.readPage pageId
      match page.kind with
      | .leaf =>
        if page.rightSibling ≠ none then
          throw (.corruption 0 <|
            s!"reachable tree leaf page {pageId} has a sibling pointer; " ++
            "point-tree v1 requires zero")
        else
          let (entries, seen) ← pager.decodeLeaf page (some (insert pageId seen))
          let seen ← pager.validateValues entries seen
          let bounds ← leafBounds pageId entries
          pure (bounds, seen.getD ∅)
      | .internal =>
        let (children, seen) ← pager.decodeInternal page (some (insert pageId seen))
        if children.length < 2 then
          throw (.corruption 0
            s!"reachable internal page {pageId} has fewer than two children")
        else
          let (bounds, seen) ←
            validateChildren (pager.validateSubtree levels) pageId children (seen.getD ∅)
          let bounds ← internalBounds pageId bounds
          pure (bounds, seen)
      | .overflow =>
        throw (.corruption 0
          s!"tree edge references overflow page {pageId} as a B+ tree node")

/-- The page ids reachable from the committed root, found while validating them. -/
def reachablePages (pager : Pager) : Except BtreeError (Finset ℕ) :=
  match pager.rootPageId with
  | none => .ok ∅
  | some root => do
    let (_, seen) ← pager.validateSubtree maxTreeHeight root ∅
    pure seen

/-- Source `validate_reachable_tree`. -/
def validateReachableTree (pager : Pager) : Except BtreeError Unit := do
  let _ ← pager.reachablePages

/-- Source `height`. -/
def height (pager : Pager) : Except BtreeError ℕ :=
  match pager.rootPageId with
  | none => .ok 0
  | some root => do
    let (bounds, _) ← pager.validateSubtree maxTreeHeight root ∅
    pure bounds.height

end Pager
end DbLab.Btree
