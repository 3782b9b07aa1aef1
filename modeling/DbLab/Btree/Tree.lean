import DbLab.Btree.Read

/-!
# Mutations of the tree

`put` and `delete` rewrite a root-to-leaf path into fresh pages and publish the new root last. The
tree state is the pager with the pool of committed pages that the published root does not reach.
The instrumentation counters of the source are not modelled.
-/

namespace DbLab.Btree

/-- The persistent tree. -/
structure BPlusTree where
  pager : Pager
  reusablePages : List ℕ

/-- A computation on the tree. -/
abbrev TreeProg := Prog BPlusTree BtreeError

/-- The maximal chunks of a list counted from its end, last chunk first. -/
def rchunks {α : Type} (size : ℕ) (items : List α) : List (List α) :=
  (List.range ((items.length + (size - 1)) / size)).map fun i =>
    (items.take (items.length - i * size)).drop (items.length - (i + 1) * size)

namespace BPlusTree

/-- Run a pager operation. -/
def onPager {α : Type} (x : Prog Pager BtreeError α) : TreeProg α :=
  Prog.zoom BPlusTree.pager (fun tree pager => { tree with pager }) x

/-- Run a read of the pager. -/
def query {α : Type} (f : Pager → Except BtreeError α) : TreeProg α :=
  Prog.reads fun tree => f tree.pager

/-- Source `create_new`. -/
def createNew : BPlusTree := ⟨Pager.createNew, []⟩

/-! ### Page allocation -/

/-- The pool of `refresh_reusable_pages`: committed pages outside the reachable set. -/
def unreachablePages (pager : Pager) (reachable : Finset ℕ) : List ℕ :=
  (List.range' superblockCount pager.dataPageCount).filter (· ∉ reachable)

/-- Source `refresh_reusable_pages`. -/
def refreshReusablePages : TreeProg Unit := do
  let reachable ← query Pager.reachablePages
  Prog.modify fun tree =>
    { tree with reusablePages := unreachablePages tree.pager reachable }

/-- Source `prepare_tree_page`; the flag says that the page id is recycled. -/
def prepareTreePage (kind : PageKind) : TreeProg (Page × Bool) := do
  let tree ← Prog.get
  match tree.reusablePages with
  | pageId :: rest =>
    Prog.set { tree with reusablePages := rest }
    let page ← Prog.ofExcept (Page.new pageId kind)
    pure (page, true)
  | [] =>
    let page ← query fun pager => pager.prepareNewPage kind
    pure (page, false)

/-- Source `commit_tree_page`. -/
def commitTreePage (page : Page) (recycled : Bool) : TreeProg ℕ :=
  if recycled then onPager (Pager.commitRecycledPage page)
  else onPager (Pager.commitNewPage page)

/-- Write one page with the given cells and overflow link. -/
def writeTreePage (kind : PageKind) (fill : Page → Except BtreeError Page) : TreeProg ℕ := do
  let (page, recycled) ← prepareTreePage kind
  let page ← Prog.ofExcept (fill page)
  commitTreePage page recycled

/-! ### Overflow chains -/

/-- The cell and the link of one overflow page. -/
def fillOverflow (chunk : Bytes) (next : Option ℕ) (page : Page) : Except BtreeError Page := do
  let page ← page.insertCell chunk
  page.setOverflowNext next

/-- The loop of `commit_overflow_blob`: chunks are written last first, each linked to the one
behind it. -/
def commitChunks : List Bytes → Option ℕ → TreeProg (Option ℕ)
  | [], next => pure next
  | chunk :: chunks, next => do
    let pageId ← writeTreePage .overflow (fillOverflow chunk next)
    commitChunks chunks (some pageId)

/-- Source `commit_overflow_blob`. -/
def commitOverflowBlob (value : Bytes) : TreeProg ℕ := do
  if value = [] then
    Prog.throw (.invalidInput "empty values must remain inline instead of using overflow pages")
  else
    match ← commitChunks (rchunks overflowCellCapacity value) none with
    | some pageId => pure pageId
    | none => Prog.throw (.corruption 0 "overflow value produced no pages")

/-- Source `store_key`. -/
def storeKey (key : Bytes) : TreeProg StoredKey := do
  Prog.ofExcept (validateKey key)
  if key.length ≤ maxInlineKeyBytes then
    pure (.inline key)
  else
    let firstPageId ← commitOverflowBlob key
    pure (.overflow key firstPageId)

/-- Source `store_value`. -/
def storeValue (key : StoredKey) (value : Bytes) : TreeProg StoredValue := do
  Prog.ofExcept (validateValueLen value)
  if slotLen + leafCellHeaderLen + key.encodedPayloadLen + value.length ≤ pageBodyCapacity then
    pure (.inline value)
  else
    let firstPageId ← commitOverflowBlob value
    pure (.overflow value.length firstPageId)

/-! ### Tree pages -/

/-- Source `commit_leaf_with_cells`. -/
def commitLeafWithCells (entries : List LeafEntry) (cells : List Bytes) : TreeProg ChildRef :=
  match entries with
  | [] => Prog.throw (.invalidInput "cannot persist an empty leaf page")
  | first :: _ => do
    let pageId ← writeTreePage .leaf fun page => page.insertCells cells
    pure ⟨first.key.asSlice, pageId⟩

/-- Source `commit_leaf`. -/
def commitLeaf (entries : List LeafEntry) : TreeProg ChildRef := do
  let cells ← Prog.ofExcept (entries.mapM encodeLeafCell)
  if ¬ cellsFit cells then
    Prog.throw (.invalidInput "leaf entries exceed one 4 KiB page")
  else
    commitLeafWithCells entries cells

/-- Store the separators of the children and encode their cells. -/
def storeSeparators : List ChildRef → TreeProg (List Bytes)
  | [] => pure []
  | child :: children => do
    let stored ← storeKey child.minKey
    let cell ← Prog.ofExcept (encodeInternalCellStored stored child.pageId)
    let cells ← storeSeparators children
    pure (cell :: cells)

/-- Source `commit_internal_with_cells`. -/
def commitInternalWithCells (children : List ChildRef) (previewCells : List Bytes) :
    TreeProg ChildRef :=
  match children with
  | [] => Prog.throw (.invalidInput "cannot persist an empty internal page")
  | first :: _ => do
    if previewCells.length ≠ children.length ∨ ¬ cellsFit previewCells then
      Prog.throw (.corruption 0 "internal cell preview disagrees with committed page shape")
    else
      let cells ← storeSeparators children
      if (cells.zip previewCells).any (fun p => p.1.length ≠ p.2.length) ∨ ¬ cellsFit cells then
        Prog.throw (.corruption 0
          "materialized internal separator cells changed their previewed size")
      else
        let pageId ← writeTreePage .internal fun page => page.insertCells cells
        pure ⟨first.minKey, pageId⟩

/-- Source `commit_internal`. -/
def commitInternal (children : List ChildRef) : TreeProg ChildRef := do
  Prog.ofExcept (validateChildRefs children)
  let cells ← Prog.ofExcept (children.mapM encodeInternalCell)
  if ¬ cellsFit cells then
    Prog.throw (.invalidInput "internal separators exceed one 4 KiB page")
  else
    commitInternalWithCells children cells

/-! ### Insertion -/

/-- Source `commit_leaf_level`. -/
def commitLeafLevel (entries : List LeafEntry) : TreeProg (List ChildRef) := do
  if entries = [] then
    Prog.throw (.corruption 0 "attempted to persist an empty reachable leaf")
  else
    let cells ← Prog.ofExcept (entries.mapM encodeLeafCell)
    if cellsFit cells then
      let child ← commitLeafWithCells entries cells
      pure [child]
    else
      match chooseSplit cells with
      | none =>
        Prog.throw (.invalidInput "leaf entries cannot be divided into two valid 4 KiB pages")
      | some split =>
        let left ← commitLeaf (entries.take split)
        let right ← commitLeaf (entries.drop split)
        pure [left, right]

/-- Source `commit_internal_level`. -/
def commitInternalLevel (children : List ChildRef) : TreeProg (List ChildRef) := do
  Prog.ofExcept (validateChildRefs children)
  let cells ← Prog.ofExcept (children.mapM encodeInternalCell)
  if cellsFit cells then
    let child ← commitInternalWithCells children cells
    pure [child]
  else
    match chooseSplit cells with
    | none =>
      Prog.throw
        (.invalidInput "internal separators cannot be divided into two valid 4 KiB pages")
    | some split =>
      let left ← commitInternal (children.take split)
      let right ← commitInternal (children.drop split)
      pure [left, right]

/-- Put an entry into the decoded entries of a leaf, over an equal key or at its place. -/
def insertEntry (entries : List LeafEntry) (entry : LeafEntry) : List LeafEntry :=
  match binarySearch (entries.map fun e => e.key.asSlice) entry.key.asSlice with
  | .inl index => entries.set index entry
  | .inr index => entries.insertIdx index entry

/-- Source `rewrite_insert` with `levels` levels left. -/
def rewriteInsert (entry : LeafEntry) : ℕ → ℕ → TreeProg (List ChildRef)
  | 0, _ =>
    Prog.throw (.corruption 0 s!"B+ tree insert exceeded maximum height {maxTreeHeight}")
  | levels + 1, pageId => do
    let page ← query fun pager => pager.readPage pageId
    match page.kind with
    | .leaf =>
      let (entries, _) ← query fun pager => pager.decodeLeaf page none
      commitLeafLevel (insertEntry entries entry)
    | .internal =>
      let (children, _) ← query fun pager => pager.decodeInternal page none
      let index ← Prog.ofExcept (routeChild children entry.key.asSlice)
      let child ← Prog.ofExcept (Pager.elementAt children index)
      let replacements ← rewriteInsert entry levels child.pageId
      commitInternalLevel (splice children index replacements)
    | .overflow =>
      Prog.throw (.corruption 0
        s!"insert traversal reached overflow page {pageId} as a tree node")

/-- The replacements of the root that hold the new entry. -/
def insertAtRoot (entry : LeafEntry) : TreeProg (List ChildRef) := do
  let tree ← Prog.get
  match tree.pager.rootPageId with
  | some root => rewriteInsert entry maxTreeHeight root
  | none =>
    let child ← commitLeaf [entry]
    pure [child]

/-- The root over the replacements. -/
def growRoot (replacements : List ChildRef) : TreeProg ℕ :=
  match replacements with
  | [only] => pure only.pageId
  | [_, _] => do
    let root ← commitInternal replacements
    pure root.pageId
  | _ =>
    Prog.throw (.corruption 0
      "insert rewrite returned an invalid number of root replacements")

/-- Source `put`. -/
def put (key value : Bytes) : TreeProg (Option Bytes) := do
  Prog.ofExcept (validateKeyValue key value)
  let previous ← query fun pager => pager.get key
  refreshReusablePages
  let storedKey ← storeKey key
  let storedValue ← storeValue storedKey value
  let replacements ← insertAtRoot ⟨storedKey, storedValue⟩
  let newRoot ← growRoot replacements
  onPager (Pager.setRoot (some newRoot))
  pure previous

/-! ### Deletion -/

/-- Source `rebalance_leaf_pair`. -/
def rebalanceLeafPair (left right : Page) : TreeProg (List ChildRef) := do
  let (leftEntries, _) ← query fun pager => pager.decodeLeaf left none
  let (rightEntries, _) ← query fun pager => pager.decodeLeaf right none
  let entries := leftEntries ++ rightEntries
  if ¬ StrictlyIncreasing (entries.map fun entry => entry.key.asSlice) then
    Prog.throw (.corruption 0 "delete leaf rebalance encountered overlapping sibling key ranges")
  else
    let cells ← Prog.ofExcept (entries.mapM encodeLeafCell)
    if cellsFit cells then
      let child ← commitLeaf entries
      pure [child]
    else
      match chooseSplit cells with
      | none =>
        Prog.throw (.invalidInput
          "delete leaf redistribution cannot divide sibling entries into two pages")
      | some split =>
        let left ← commitLeaf (entries.take split)
        let right ← commitLeaf (entries.drop split)
        pure [left, right]

/-- Source `rebalance_internal_pair`. -/
def rebalanceInternalPair (left right : Page) : TreeProg (List ChildRef) := do
  let (leftChildren, _) ← query fun pager => pager.decodeInternal left none
  let (rightChildren, _) ← query fun pager => pager.decodeInternal right none
  let grandchildren := leftChildren ++ rightChildren
  Prog.ofExcept (validateChildRefs grandchildren)
  let cells ← Prog.ofExcept (grandchildren.mapM encodeInternalCell)
  if cellsFit cells then
    let child ← commitInternal grandchildren
    pure [child]
  else
    match chooseInternalRebalanceSplit cells with
    | none =>
      Prog.throw (.invalidInput
        "delete internal redistribution cannot keep two children on each sibling")
    | some split =>
      let left ← commitInternal (grandchildren.take split)
      let right ← commitInternal (grandchildren.drop split)
      pure [left, right]

/-- The merge or redistribution of two siblings of one kind. -/
def rebalancePair (left right : Page) : TreeProg (List ChildRef) :=
  if left.kind ≠ right.kind then
    Prog.throw (.corruption 0 <|
      "delete rebalance found sibling kind mismatch " ++
      s!"between pages {left.pageId} and {right.pageId}")
  else
    match left.kind with
    | .leaf => rebalanceLeafPair left right
    | .internal => rebalanceInternalPair left right
    | .overflow =>
      Prog.throw (.corruption 0 "overflow page appeared as a B+ tree sibling")

/-- Source `rebalance_after_delete`. -/
def rebalanceAfterDelete (children : List ChildRef) (affected : ℕ) : TreeProg (List ChildRef) := do
  if children.length < 2 then
    pure children
  else
    Prog.ofExcept (validateChildRefs children)
    let affected := min affected (children.length - 1)
    let child ← Prog.ofExcept (Pager.elementAt children affected)
    let page ← query fun pager => pager.readPage child.pageId
    if ¬ (← Prog.ofExcept (pageIsUnderfull page)) then
      pure children
    else
      let leftIndex := if 0 < affected then affected - 1 else 0
      let left ← Prog.ofExcept (Pager.elementAt children leftIndex)
      let right ← Prog.ofExcept (Pager.elementAt children (leftIndex + 1))
      let leftPage ← query fun pager => pager.readPage left.pageId
      let rightPage ← query fun pager => pager.readPage right.pageId
      let replacements ← rebalancePair leftPage rightPage
      let children := children.take leftIndex ++ replacements ++ children.drop (leftIndex + 2)
      Prog.ofExcept (validateChildRefs children)
      pure children

/-- Source `rewrite_delete` with `levels` levels left. -/
def rewriteDelete (key : Bytes) : ℕ → ℕ → TreeProg (Option ChildRef)
  | 0, _ =>
    Prog.throw (.corruption 0 s!"B+ tree delete exceeded maximum height {maxTreeHeight}")
  | levels + 1, pageId => do
    let page ← query fun pager => pager.readPage pageId
    match page.kind with
    | .leaf =>
      let (entries, _) ← query fun pager => pager.decodeLeaf page none
      match binarySearch (entries.map fun entry => entry.key.asSlice) key with
      | .inr _ =>
        Prog.throw (.corruption 0 "delete rewrite could not find previously located key")
      | .inl index =>
        let entries := entries.eraseIdx index
        if entries = [] then
          pure none
        else
          some <$> commitLeaf entries
    | .internal =>
      let (children, _) ← query fun pager => pager.decodeInternal page none
      let index ← Prog.ofExcept (routeChild children key)
      let child ← Prog.ofExcept (Pager.elementAt children index)
      let replacement ← rewriteDelete key levels child.pageId
      let children := splice children index replacement.toList
      if children = [] then
        pure none
      else
        let children ← rebalanceAfterDelete children (min index (children.length - 1))
        if children = [] then
          pure none
        else
          some <$> commitInternal children
    | .overflow =>
      Prog.throw (.corruption 0
        s!"delete traversal reached overflow page {pageId} as a tree node")

/-- The loop of `delete` that replaces a root of one child by that child. It is given one round for
every committed page; a descent through more pages would meet one of them twice and not end. -/
def contractRoot : ℕ → ChildRef → TreeProg ChildRef
  | 0, _ => Prog.throw (.corruption 0 "root contraction does not end")
  | rounds + 1, root => do
    let page ← query fun pager => pager.readPage root.pageId
    if page.kind ≠ .internal then
      pure root
    else
      let (children, _) ← query fun pager => pager.decodeInternal page none
      match children with
      | [child] => contractRoot rounds child
      | _ => pure root

/-- The root that `delete` publishes for the outcome of the rewriting. -/
def contractedRoot (replacement : Option ChildRef) : TreeProg (Option ℕ) :=
  match replacement with
  | none => pure none
  | some root => do
    let tree ← Prog.get
    let root ← contractRoot (tree.pager.dataPageCount + 1) root
    pure (some root.pageId)

/-- Source `delete`. -/
def delete (key : Bytes) : TreeProg (Option Bytes) := do
  Prog.ofExcept (validateKey key)
  match ← query fun pager => pager.get key with
  | none => pure none
  | some previous =>
    refreshReusablePages
    let tree ← Prog.get
    match tree.pager.rootPageId with
    | none =>
      Prog.throw (.corruption 0 "B+ tree lookup found a value while committed root is empty")
    | some root =>
      let replacement ← rewriteDelete key maxTreeHeight root
      let newRoot ← contractedRoot replacement
      onPager (Pager.setRoot newRoot)
      pure (some previous)

/-! ### Opening -/

/-- Source `BPlusTree::open`. -/
def openFile (file : PageFile) : Except BtreeError BPlusTree := do
  let pager ← Pager.openFile file
  pager.validateReachableTree
  let reachable ← pager.reachablePages
  pure ⟨pager, unreachablePages pager reachable⟩

end BPlusTree
end DbLab.Btree
