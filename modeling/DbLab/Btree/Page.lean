import DbLab.Lib.Bytes

/-!
# Slotted pages of the B+ tree file

A `Page` is what the reader of a 4 KiB block gets once its checksum, header and slot array are
accepted: the page id, the kind, the link field (right sibling of a leaf, next page of an overflow
page) and the cells in slot order. The fields `link_ok`, `cells_ne` and `fits` are the checks of
`validate_page_bytes` that say something about these values, so a page that the reader would
reject cannot be built.
-/

namespace DbLab.Btree

def pageSize : ℕ := 4096
/-- The mirrored metadata pages at the beginning of the file. -/
def superblockCount : ℕ := 2
def checksumOffset : ℕ := pageSize - 4
def dataHeaderLen : ℕ := 40
def slotLen : ℕ := 4
/-- The encoded root page id of an empty tree. -/
def rootNone : ℕ := 0
/-- Bytes of a page that cells and slots share. -/
def pageBodyCapacity : ℕ := checksumOffset - dataHeaderLen
/-- One past the largest `u64`. -/
def u64Bound : ℕ := 2 ^ 64

@[simp] theorem pageSize_eq : pageSize = 4096 := rfl
theorem mul_pageSize (n : ℕ) : n * pageSize = 4096 * n := Nat.mul_comm n 4096
@[simp] theorem superblockCount_eq : superblockCount = 2 := rfl
@[simp] theorem slotLen_eq : slotLen = 4 := rfl
@[simp] theorem rootNone_eq : rootNone = 0 := rfl
@[simp] theorem pageBodyCapacity_eq : pageBodyCapacity = 4052 := rfl
theorem u64Bound_eq : u64Bound = 18446744073709551616 := rfl

attribute [irreducible] u64Bound

instance : NeZero pageSize := ⟨by decide⟩

/-- Errors of the page file and the tree. -/
inductive BtreeError
  | invalidInput (reason : String)
  | io (reason : String)
  | corruption (offset : ℕ) (reason : String)
  | unsupportedVersion (found supported : ℕ)
  | poisoned
  deriving DecidableEq, Repr

/-- Physical role of a data page. -/
inductive PageKind
  | leaf
  | internal
  | overflow
  deriving DecidableEq, Repr

instance : ToString PageKind where
  toString
    | .leaf => "Leaf"
    | .internal => "Internal"
    | .overflow => "Overflow"

/-- Bytes of the page body taken by cells and their slots. -/
def usedBytes (cells : List Bytes) : ℕ := (cells.map fun cell => slotLen + cell.length).sum

@[simp] theorem usedBytes_nil : usedBytes [] = 0 := rfl

@[simp] theorem usedBytes_cons (cell : Bytes) (cells : List Bytes) :
    usedBytes (cell :: cells) = 4 + cell.length + usedBytes cells := by
  simp [usedBytes]

@[simp] theorem usedBytes_append (l m : List Bytes) :
    usedBytes (l ++ m) = usedBytes l + usedBytes m := by
  simp [usedBytes]

/-- One validated slotted page. -/
structure Page where
  pageId : ℕ
  kind : PageKind
  /-- The link field: `0`, or a right sibling, or the next overflow page. -/
  link : ℕ
  cells : List Bytes
  link_ok : link = rootNone ∨ kind ≠ .internal ∧ superblockCount ≤ link ∧ link ≠ pageId
  cells_ne : ∀ cell ∈ cells, cell ≠ []
  fits : usedBytes cells ≤ pageBodyCapacity
  deriving DecidableEq

/-- Source `page_offset`. -/
def pageOffset (pageId : ℕ) : Except BtreeError ℕ :=
  if pageId * pageSize < u64Bound then .ok (pageId * pageSize)
  else .error (.corruption 0 "page offset overflowed u64")

namespace Page

/-- Source `Page::new`. -/
def new (pageId : ℕ) (kind : PageKind) : Except BtreeError Page :=
  if pageId < superblockCount then
    .error (.invalidInput s!"data page id {pageId} overlaps mirrored superblocks")
  else
    .ok ⟨pageId, kind, rootNone, [], .inl rfl, by simp, by simp⟩

/-- Source `Page::validate`: what remains to check of a page whose fields are valid by construction. -/
def validate (page : Page) : Except BtreeError Unit := do
  let _ ← pageOffset page.pageId

def cellCount (page : Page) : ℕ := page.cells.length

/-- The gap between the slot array and the packed cells. -/
def freeBytes (page : Page) : ℕ := pageBodyCapacity - usedBytes page.cells

def pageLink (page : Page) : Option ℕ := if page.link = rootNone then none else some page.link

def rightSibling (page : Page) : Option ℕ := if page.kind = .leaf then page.pageLink else none

def overflowNext (page : Page) : Option ℕ := if page.kind = .overflow then page.pageLink else none

/-- Source `Page::insert_cell`. -/
def insertCell (page : Page) (cell : Bytes) : Except BtreeError Page := do
  page.validate
  if hne : cell = [] then
    throw (.invalidInput "slotted-page cells must be non-empty")
  else if 65535 < cell.length then
    throw (.invalidInput s!"cell has {cell.length} bytes; length does not fit u16")
  else if hfit : page.freeBytes < slotLen + cell.length then
    throw (.invalidInput
      s!"page {page.pageId} has {page.freeBytes} free bytes; cell requires {slotLen + cell.length}")
  else
    pure { page with
      cells := page.cells ++ [cell]
      cells_ne := by
        intro c hc
        rcases List.mem_append.1 hc with h | h
        · exact page.cells_ne c h
        · rw [List.mem_singleton.1 h]; exact hne
      fits := by
        have := page.fits
        simp only [freeBytes] at hfit
        simp at *
        omega }

/-- Source `set_right_sibling`. -/
def setRightSibling (page : Page) (sibling : Option ℕ) : Except BtreeError Page := do
  page.validate
  if hk : page.kind ≠ .leaf then
    throw (.invalidInput "right sibling is only defined for leaf pages")
  else if h0 : sibling.getD rootNone ≠ rootNone ∧ sibling.getD rootNone < superblockCount then
    throw (.invalidInput s!"right sibling {sibling.getD rootNone} overlaps mirrored superblocks")
  else if hs : sibling.getD rootNone = page.pageId then
    throw (.invalidInput "leaf cannot point to itself as right sibling")
  else
    pure { page with
      link := sibling.getD rootNone
      link_ok := by
        by_cases h : sibling.getD rootNone = rootNone
        · exact .inl h
        · refine .inr ⟨?_, ?_, hs⟩
          · intro hi
            rw [not_not] at hk
            rw [hk] at hi
            cases hi
          · by_contra hlt
            exact h0 ⟨h, not_le.1 hlt⟩ }

/-- Source `Page::set_overflow_next`. -/
def setOverflowNext (page : Page) (next : Option ℕ) : Except BtreeError Page := do
  page.validate
  if hk : page.kind ≠ .overflow then
    throw (.invalidInput "overflow next-page link is only defined for overflow pages")
  else if h0 : next.getD rootNone ≠ rootNone ∧ next.getD rootNone < superblockCount then
    throw (.invalidInput
      s!"overflow next page {next.getD rootNone} overlaps mirrored superblocks")
  else if hs : next.getD rootNone = page.pageId then
    throw (.invalidInput "overflow page cannot point to itself")
  else
    pure { page with
      link := next.getD rootNone
      link_ok := by
        by_cases h : next.getD rootNone = rootNone
        · exact .inl h
        · refine .inr ⟨?_, ?_, hs⟩
          · intro hi; rw [not_not] at hk; rw [hk] at hi; cases hi
          · by_contra hlt; exact h0 ⟨h, not_le.1 hlt⟩ }

/-- Insert several cells in order. -/
def insertCells (page : Page) : List Bytes → Except BtreeError Page
  | [] => .ok page
  | cell :: cells => do
    let page ← page.insertCell cell
    page.insertCells cells

end Page
end DbLab.Btree
