import DbLab.Lib.Checked
import DbLab.Btree.Tree

/-!
# What mutations are made of

`put` and `delete` read pages, write pages with `writeTreePage`, and publish a root. `Steps P` says that a property
of tree programs holds of these steps and that sequences keep it; it then holds of a whole mutation behind the
collection of its pool, however many pages the mutation writes.
-/

namespace DbLab.Btree

open Checked

/-! ### Filled pages -/

namespace Page

variable {page page' : Page}

theorem insertCell_pageId {cell : Bytes} (h : page.insertCell cell = .ok page') : page'.pageId = page.pageId := by
  unfold insertCell at h
  obtain ⟨_, -, h⟩ := bind_eq_ok.1 h
  split_ifs at h
  cases h
  rfl

theorem insertCells_pageId {cells : List Bytes} (h : page.insertCells cells = .ok page') :
    page'.pageId = page.pageId := by
  induction cells generalizing page with
  | nil =>
    cases h
    rfl
  | cons cell cells ih =>
    obtain ⟨page₁, h₁, h⟩ := bind_eq_ok.1 h
    rw [ih h, insertCell_pageId h₁]

theorem setOverflowNext_pageId {next : Option ℕ} (h : page.setOverflowNext next = .ok page') :
    page'.pageId = page.pageId := by
  unfold setOverflowNext at h
  obtain ⟨_, -, h⟩ := bind_eq_ok.1 h
  split_ifs at h
  cases h
  rfl

end Page

namespace BPlusTree

/-- A page that is filled keeps its id. -/
def KeepsId (fill : Page → Except BtreeError Page) : Prop :=
  ∀ page page', fill page = .ok page' → page'.pageId = page.pageId

theorem keepsId_insertCells (cells : List Bytes) : KeepsId fun page => page.insertCells cells :=
  fun _ _ h => Page.insertCells_pageId h

theorem keepsId_fillOverflow (chunk : Bytes) (next : Option ℕ) : KeepsId (fillOverflow chunk next) := by
  intro page page' h
  obtain ⟨page₁, h₁, h⟩ := bind_eq_ok.1 h
  rw [Page.setOverflowNext_pageId h, Page.insertCell_pageId h₁]

/-! ### Fresh pages -/

section Prepare

variable {kind : PageKind} {s : BPlusTree}

/-- The page of an allocation behind an empty pool. -/
theorem prepareTreePage_nil (hs : s.reusablePages = []) :
    prepareTreePage kind s = ((s.pager.prepareNewPage kind).map fun page => (page, false), s) := by
  rw [prepareTreePage, Prog.get_bind, hs]
  cases hp : s.pager.prepareNewPage kind with
  | error e => exact Prog.bind_error (by rw [query, Prog.reads, hp])
  | ok page => exact Prog.bind_ok (by rw [query, Prog.reads, hp])

/-- The first page of the pool. -/
theorem prepareTreePage_cons {id : ℕ} {rest : List ℕ} (hs : s.reusablePages = id :: rest) :
    prepareTreePage kind s =
      ((Page.new id kind).map fun page => (page, true), { s with reusablePages := rest }) := by
  have hset : ∀ {β : Type} (f : Unit → TreeProg β) (s t : BPlusTree), (Prog.set t >>= f) s = f () t :=
    fun _ _ _ => rfl
  rw [prepareTreePage, Prog.get_bind, hs]
  dsimp only
  rw [hset]
  cases hp : Page.new id kind with
  | error e => exact Prog.bind_error rfl
  | ok page => exact Prog.bind_ok rfl

end Prepare

/-! ### Steps -/

/-- The property holds of the steps of a mutation and of their sequences. -/
structure Steps (P : ∀ {α : Type}, TreeProg α → Prop) : Prop where
  pure : ∀ {α : Type} (a : α), P (Pure.pure a)
  throw : ∀ {α : Type} (e : BtreeError), P (Prog.throw e : TreeProg α)
  ofExcept : ∀ {α : Type} (x : Except BtreeError α), P (Prog.ofExcept x)
  bind : ∀ {α β : Type} {x : TreeProg α} {f : α → TreeProg β}, P x → (∀ a, P (f a)) → P (x >>= f)
  /-- A program that looks at the committed metadata. -/
  get_bind : ∀ {α : Type} {f : BPlusTree → TreeProg α}, (∀ s s', s.pager.active = s'.pager.active → f s = f s') →
    (∀ s, P (f s)) → P (Prog.get >>= f)
  readPage : ∀ id, P (query fun pager => pager.readPage id)
  decodeLeaf : ∀ page, P (query fun pager => pager.decodeLeaf page none)
  decodeInternal : ∀ page, P (query fun pager => pager.decodeInternal page none)
  writeTreePage : ∀ kind fill, KeepsId fill → P (writeTreePage kind fill)
  setRoot : ∀ root, P (onPager (Pager.setRoot root))

/-- `put` behind the collection of its pool. -/
def putCollected (key value : Bytes) (previous : Option Bytes) : TreeProg (Option Bytes) := do
  let storedKey ← storeKey key
  let storedValue ← storeValue storedKey value
  let replacements ← insertAtRoot ⟨storedKey, storedValue⟩
  let newRoot ← growRoot replacements
  onPager (Pager.setRoot (some newRoot))
  pure previous

/-- `delete` behind the collection of its pool. -/
def deleteCollected (key previous : Bytes) : TreeProg (Option Bytes) := do
  let tree ← Prog.get
  match tree.pager.rootPageId with
  | none =>
    Prog.throw (.corruption 0 "B+ tree lookup found a value while committed root is empty")
  | some root =>
    let replacement ← rewriteDelete key maxTreeHeight root
    let newRoot ← contractedRoot replacement
    onPager (Pager.setRoot newRoot)
    pure (some previous)

theorem put_eq (key value : Bytes) : put key value = (do
    Prog.ofExcept (validateKeyValue key value)
    let previous ← query fun pager => pager.get key
    refreshReusablePages
    putCollected key value previous) := rfl

theorem delete_eq (key : Bytes) : delete key = (do
    Prog.ofExcept (validateKey key)
    match ← query fun pager => pager.get key with
    | none => pure none
    | some previous =>
      refreshReusablePages
      deleteCollected key previous) := rfl

namespace Steps

variable {P : ∀ {α : Type}, TreeProg α → Prop} (h : Steps @P)
include h

theorem map {α β : Type} {x : TreeProg α} {f : α → β} (hx : P x) : P (f <$> x) :=
  h.bind hx fun a => h.pure (f a)

theorem commitOverflowBlob_steps {value : Bytes} :
    P (commitOverflowBlob value) := by
  have hchunks : ∀ chunks next, P (commitChunks chunks next) := by
    intro chunks
    induction chunks with
    | nil => exact fun _ => h.pure _
    | cons chunk chunks ih => exact fun _ => h.bind (h.writeTreePage _ _ (keepsId_fillOverflow _ _)) fun _ => ih _
  unfold commitOverflowBlob
  split_ifs
  · exact h.throw _
  · refine h.bind (hchunks _ _) fun first => ?_
    cases first with
    | none => exact h.throw _
    | some id => exact h.pure _

theorem storeKey_steps {key : Bytes} : P (storeKey key) := by
  refine h.bind (h.ofExcept _) fun _ => ?_
  split_ifs
  · exact h.pure _
  · exact h.bind h.commitOverflowBlob_steps fun _ => h.pure _

theorem storeValue_steps {key : StoredKey} {value : Bytes} :
    P (storeValue key value) := by
  refine h.bind (h.ofExcept _) fun _ => ?_
  split_ifs
  · exact h.pure _
  · exact h.bind h.commitOverflowBlob_steps fun _ => h.pure _

theorem commitLeafWithCells_steps {entries : List LeafEntry} {cells : List Bytes} :
    P (commitLeafWithCells entries cells) := by
  cases entries with
  | nil => exact h.throw _
  | cons first rest => exact h.bind (h.writeTreePage _ _ (keepsId_insertCells _)) fun _ => h.pure _

theorem commitLeaf_steps {entries : List LeafEntry} :
    P (commitLeaf entries) := by
  refine h.bind (h.ofExcept _) fun _ => ?_
  split_ifs
  · exact h.commitLeafWithCells_steps
  · exact h.throw _

theorem storeSeparators_steps {children : List ChildRef} :
    P (storeSeparators children) := by
  induction children with
  | nil => exact h.pure _
  | cons child children ih =>
    exact h.bind h.storeKey_steps fun _ => h.bind (h.ofExcept _) fun _ => h.bind ih fun _ => h.pure _

theorem commitInternalWithCells_steps {children : List ChildRef} {cells : List Bytes} :
    P (commitInternalWithCells children cells) := by
  cases children with
  | nil => exact h.throw _
  | cons first rest =>
    unfold commitInternalWithCells
    dsimp only
    split_ifs
    · exact h.throw _
    · refine h.bind h.storeSeparators_steps fun _ => ?_
      split_ifs
      · exact h.throw _
      · exact h.bind (h.writeTreePage _ _ (keepsId_insertCells _)) fun _ => h.pure _

theorem commitInternal_steps {children : List ChildRef} :
    P (commitInternal children) := by
  refine h.bind (h.ofExcept _) fun _ => h.bind (h.ofExcept _) fun _ => ?_
  split_ifs
  · exact h.commitInternalWithCells_steps
  · exact h.throw _

theorem commitLeafLevel_steps {entries : List LeafEntry} :
    P (commitLeafLevel entries) := by
  unfold commitLeafLevel
  split_ifs
  · exact h.throw _
  · refine h.bind (h.ofExcept _) fun cells => ?_
    split_ifs
    · exact h.bind h.commitLeafWithCells_steps fun _ => h.pure _
    · cases chooseSplit cells with
      | none => exact h.throw _
      | some k => exact h.bind h.commitLeaf_steps fun _ => h.bind h.commitLeaf_steps fun _ => h.pure _

theorem commitInternalLevel_steps {children : List ChildRef} :
    P (commitInternalLevel children) := by
  refine h.bind (h.ofExcept _) fun _ => h.bind (h.ofExcept _) fun cells => ?_
  split_ifs
  · exact h.bind h.commitInternalWithCells_steps fun _ => h.pure _
  · cases chooseSplit cells with
    | none => exact h.throw _
    | some k =>
      exact h.bind h.commitInternal_steps fun _ => h.bind h.commitInternal_steps fun _ => h.pure _

theorem rewriteInsert_steps {entry : LeafEntry} {levels : ℕ} :
    ∀ {id : ℕ}, P (rewriteInsert entry levels id) := by
  induction levels with
  | zero => exact h.throw _
  | succ levels ih =>
    intro id
    refine h.bind (h.readPage _) fun page => ?_
    cases page.kind with
    | leaf => exact h.bind (h.decodeLeaf _) fun _ => h.commitLeafLevel_steps
    | internal =>
      exact h.bind (h.decodeInternal _) fun _ => h.bind (h.ofExcept _) fun _ =>
        h.bind (h.ofExcept _) fun _ => h.bind ih fun _ => h.commitInternalLevel_steps
    | overflow => exact h.throw _

/-- **A `put` behind the collection of its pool** has the property. -/
theorem putCollected_steps {key value : Bytes} {previous : Option Bytes} : P (putCollected key value previous) := by
  refine h.bind h.storeKey_steps fun k => h.bind h.storeValue_steps fun v => h.bind ?_ fun replacements =>
    h.bind ?_ fun _ => h.bind (h.setRoot _) fun _ => h.pure _
  · refine h.get_bind (fun s s' hs => by simp only [Pager.rootPageId, hs]) fun s => ?_
    cases s.pager.rootPageId with
    | none => exact h.bind h.commitLeaf_steps fun _ => h.pure _
    | some root => exact h.rewriteInsert_steps
  · unfold growRoot
    split
    · exact h.pure _
    · exact h.bind h.commitInternal_steps fun _ => h.pure _
    · exact h.throw _

theorem rebalanceLeafPair_steps {left right : Page} :
    P (rebalanceLeafPair left right) := by
  refine h.bind (h.decodeLeaf _) fun _ => h.bind (h.decodeLeaf _) fun _ => ?_
  dsimp only
  split_ifs
  · refine h.bind (h.ofExcept _) fun cells => ?_
    split_ifs
    · exact h.bind h.commitLeaf_steps fun _ => h.pure _
    · cases chooseSplit cells with
      | none => exact h.throw _
      | some k => exact h.bind h.commitLeaf_steps fun _ => h.bind h.commitLeaf_steps fun _ => h.pure _
  · exact h.throw _

theorem rebalanceInternalPair_steps {left right : Page} :
    P (rebalanceInternalPair left right) := by
  refine h.bind (h.decodeInternal _) fun _ => h.bind (h.decodeInternal _) fun _ =>
    h.bind (h.ofExcept _) fun _ => h.bind (h.ofExcept _) fun cells => ?_
  split_ifs
  · exact h.bind h.commitInternal_steps fun _ => h.pure _
  · cases chooseInternalRebalanceSplit cells with
    | none => exact h.throw _
    | some k =>
      exact h.bind h.commitInternal_steps fun _ => h.bind h.commitInternal_steps fun _ => h.pure _

theorem rebalancePair_steps {left right : Page} :
    P (rebalancePair left right) := by
  unfold rebalancePair
  split_ifs
  · exact h.throw _
  · cases left.kind with
    | leaf => exact h.rebalanceLeafPair_steps
    | internal => exact h.rebalanceInternalPair_steps
    | overflow => exact h.throw _

theorem rebalanceAfterDelete_steps {children : List ChildRef} {affected : ℕ} :
    P (rebalanceAfterDelete children affected) := by
  unfold rebalanceAfterDelete
  split_ifs
  · exact h.pure _
  · refine h.bind (h.ofExcept _) fun _ => h.bind (h.ofExcept _) fun _ => h.bind (h.readPage _) fun _ =>
      h.bind (h.ofExcept _) fun underfull => ?_
    by_cases hfull : ¬ underfull
    · rw [if_pos hfull]
      exact h.pure _
    · rw [if_neg hfull]
      exact h.bind (h.ofExcept _) fun _ => h.bind (h.ofExcept _) fun _ => h.bind (h.readPage _) fun _ =>
        h.bind (h.readPage _) fun _ => h.bind h.rebalancePair_steps fun _ => h.bind (h.ofExcept _) fun _ =>
        h.pure _

theorem rewriteDelete_steps {key : Bytes} {levels : ℕ} :
    ∀ {id : ℕ}, P (rewriteDelete key levels id) := by
  induction levels with
  | zero => exact h.throw _
  | succ levels ih =>
    intro id
    refine h.bind (h.readPage _) fun page => ?_
    cases page.kind with
    | leaf =>
      refine h.bind (h.decodeLeaf _) fun entries => ?_
      dsimp only
      cases binarySearch (entries.1.map fun entry => entry.key.asSlice) key with
      | inr _ => exact h.throw _
      | inl index =>
        dsimp only
        split_ifs
        · exact h.pure _
        · exact h.map h.commitLeaf_steps
    | internal =>
      refine h.bind (h.decodeInternal _) fun _ => h.bind (h.ofExcept _) fun _ =>
        h.bind (h.ofExcept _) fun _ => h.bind ih fun _ => ?_
      dsimp only
      split_ifs
      · exact h.pure _
      · refine h.bind h.rebalanceAfterDelete_steps fun _ => ?_
        split_ifs
        · exact h.pure _
        · exact h.map h.commitInternal_steps
    | overflow => exact h.throw _

theorem contractRoot_steps {rounds : ℕ} :
    ∀ {root : ChildRef}, P (contractRoot rounds root) := by
  induction rounds with
  | zero => exact h.throw _
  | succ rounds ih =>
    intro root
    refine h.bind (h.readPage _) fun page => ?_
    split_ifs
    · exact h.pure _
    · refine h.bind (h.decodeInternal _) fun children => ?_
      dsimp only
      split
      · exact ih
      · exact h.pure _

/-- **A `delete` behind the collection of its pool** has the property. -/
theorem deleteCollected_steps {key previous : Bytes} : P (deleteCollected key previous) := by
  refine h.get_bind (fun s s' hs => by simp only [Pager.rootPageId, hs]) fun s => ?_
  cases s.pager.rootPageId with
  | none => exact h.throw _
  | some root =>
    refine h.bind h.rewriteDelete_steps fun replacement => h.bind ?_ fun _ =>
      h.bind (h.setRoot _) fun _ => h.pure _
    cases replacement with
    | none => exact h.pure _
    | some child =>
      refine h.get_bind (fun s s' hs => by simp only [Pager.dataPageCount, hs]) fun s => ?_
      exact h.bind h.contractRoot_steps fun _ => h.pure _

end Steps
end BPlusTree
end DbLab.Btree
