import DbLab.Lib.Checked
import DbLab.Btree.PagerRun
import DbLab.Btree.Read
import DbLab.Btree.Shape

/-!
# Trees on pages

A stored tree is a tree with the page ids that hold it: `PTree n` has a page id for every leaf and
internal page and the overflow chain of every key, value and separator. `PTree.On read t` says that
the pages hold exactly this, `PTree.footprint` is the multiset of page ids that it takes, and
`PTree.tree` forgets the pages. The reader of the source succeeds exactly on stored trees; this is
stated for each of its functions with the page ids that it adds to the collected set.
-/

namespace DbLab.Btree

open Checked

/-! ### Collected page ids -/

namespace Seen

variable {seen seen' seen'' : Seen} {a b : Multiset ℕ} {id : ℕ}

/-- The ids are new, each is met once, and they are added to the collected ones. -/
def Adds (seen : Seen) (ids : Multiset ℕ) (seen' : Seen) : Prop :=
  match seen with
  | none => seen' = none
  | some s => ids.Nodup ∧ (∀ x ∈ ids, x ∉ s) ∧ seen' = some (s ∪ ids.toFinset)

@[simp] theorem adds_none : Adds none a seen' ↔ seen' = none := Iff.rfl

theorem adds_some {s : Finset ℕ} :
    Adds (some s) a seen' ↔ a.Nodup ∧ (∀ x ∈ a, x ∉ s) ∧ seen' = some (s ∪ a.toFinset) := Iff.rfl

@[simp] theorem adds_zero : seen.Adds 0 seen' ↔ seen' = seen := by
  cases seen with
  | none => rfl
  | some s => simp [adds_some]

/-- Ids are collected one group after the other. -/
theorem adds_add : seen.Adds (a + b) seen'' ↔ ∃ seen', seen.Adds a seen' ∧ seen'.Adds b seen'' := by
  cases seen with
  | none => simp
  | some s =>
    simp only [adds_some]
    constructor
    · rintro ⟨hn, hs, rfl⟩
      rw [Multiset.nodup_add] at hn
      refine ⟨some (s ∪ a.toFinset), ⟨hn.1, fun x hx => hs x (by simp [hx]), rfl⟩, ?_⟩
      refine ⟨hn.2.1, fun x hx => ?_, by simp [Finset.union_assoc]⟩
      rw [Finset.mem_union, Multiset.mem_toFinset, not_or]
      exact ⟨hs x (by simp [hx]), fun hxa => Multiset.disjoint_left.1 hn.2.2 hxa hx⟩
    · rintro ⟨_, ⟨hna, hsa, rfl⟩, hnb, hsb, rfl⟩
      refine ⟨Multiset.nodup_add.2 ⟨hna, hnb, Multiset.disjoint_left.2 fun hxa hxb => ?_⟩, ?_, ?_⟩
      · exact hsb _ hxb (by simp [hxa])
      · intro x hx
        rcases Multiset.mem_add.1 hx with hx | hx
        · exact hsa x hx
        · exact fun hxs => hsb x hx (by simp [hxs])
      · simp [Finset.union_assoc]

theorem adds_singleton : seen.Adds {id} seen' ↔ ¬ seen.Contains id ∧ seen' = seen.insert id := by
  cases seen with
  | none => simp [Contains, insert]
  | some s =>
    simp only [adds_some, Contains, insert, Multiset.nodup_singleton, Multiset.mem_singleton,
      forall_eq, true_and, Option.mem_def, Option.some.injEq, exists_eq_left', Option.map_some,
      Multiset.toFinset_singleton]
    rw [Finset.insert_eq, Finset.union_comm]

end Seen

/-! ### Blobs -/

/-- A key or value with the overflow pages that hold it; the chain is empty when it is inline. -/
structure Blob where
  bytes : Bytes
  chain : List ℕ

namespace Blob

/-- The key a cell holds for the blob. -/
def storedKey (b : Blob) : StoredKey :=
  match b.chain with
  | [] => .inline b.bytes
  | first :: _ => .overflow b.bytes first

/-- The value a cell holds for the blob. -/
def storedValue (b : Blob) : StoredValue :=
  match b.chain with
  | [] => .inline b.bytes
  | first :: _ => .overflow b.bytes.length first

@[simp] theorem asSlice_storedKey (b : Blob) : b.storedKey.asSlice = b.bytes := by
  unfold storedKey
  cases b.chain <;> rfl

/-- Whether the bytes stay in the cell. -/
def inline (b : Blob) : Bool := b.chain.isEmpty

end Blob

variable {read read' : ℕ → Option Page}

/-- The pages `ids` hold the chunks one by one and are linked from `current` on up to `last`. -/
def ChainTo (read : ℕ → Option Page) : Option ℕ → List ℕ → List Bytes → Option ℕ → Prop
  | current, [], [], last => current = last
  | current, id :: ids, chunk :: chunks, last => current = some id ∧ ∃ page, read id = some page ∧
      page.kind = .overflow ∧ page.cells = [chunk] ∧
      ChainTo read page.overflowNext ids chunks last
  | _, _, _, _ => False

/-- A non-empty blob cut into chunks of full size behind a first one that may be shorter. -/
structure Chunks (bytes first : Bytes) (rest : List Bytes) : Prop where
  flatten : bytes = first ++ rest.flatten
  first_pos : 0 < first.length
  first_le : first.length ≤ overflowCellCapacity
  rest_full : ∀ c ∈ rest, c.length = overflowCellCapacity

/-- The pages of the chain hold the blob. -/
def Blob.On (read : ℕ → Option Page) (b : Blob) : Prop :=
  b.chain = [] ∨ b.chain.Nodup ∧ ∃ first rest, Chunks b.bytes first rest ∧
    ChainTo read b.chain.head? b.chain (first :: rest) none

theorem ChainTo.mono {current last : Option ℕ} {ids : List ℕ} {chunks : List Bytes}
    (h : ChainTo read current ids chunks last)
    (hr : ∀ id ∈ ids, ∀ page, read id = some page → read' id = some page) :
    ChainTo read' current ids chunks last := by
  induction ids generalizing current chunks with
  | nil =>
    cases chunks with
    | nil => exact h
    | cons c cs => exact h.elim
  | cons id ids ih =>
    cases chunks with
    | nil => exact h.elim
    | cons c cs =>
      obtain ⟨hc, page, hp, hk, hcell, hrest⟩ := h
      exact ⟨hc, page, hr id (by simp) page hp, hk, hcell,
        ih hrest fun x hx => hr x (by simp [hx])⟩

theorem Blob.On.mono {b : Blob} (h : b.On read)
    (hr : ∀ id ∈ b.chain, ∀ page, read id = some page → read' id = some page) : b.On read' := by
  rcases h with h | ⟨hn, first, rest, hc, hch⟩
  · exact .inl h
  · exact .inr ⟨hn, first, rest, hc, hch.mono hr⟩

theorem ChainTo.read_mem {current last : Option ℕ} {ids : List ℕ} {chunks : List Bytes}
    (h : ChainTo read current ids chunks last) : ∀ id ∈ ids, ∃ page, read id = some page := by
  induction ids generalizing current chunks with
  | nil => simp
  | cons id ids ih =>
    cases chunks with
    | nil => exact h.elim
    | cons c cs =>
      obtain ⟨-, page, hp, -, -, hrest⟩ := h
      exact List.forall_mem_cons.2 ⟨⟨page, hp⟩, ih hrest⟩

theorem Blob.On.read_mem {b : Blob} (h : b.On read) : ∀ id ∈ b.chain, ∃ page, read id = some page := by
  rcases h with h | ⟨-, first, rest, -, hch⟩
  · simp [h]
  · exact hch.read_mem

theorem ChainTo.length_eq {current last : Option ℕ} {ids : List ℕ} {chunks : List Bytes}
    (h : ChainTo read current ids chunks last) : ids.length = chunks.length := by
  induction ids generalizing current chunks with
  | nil =>
    cases chunks with
    | nil => rfl
    | cons c cs => exact h.elim
  | cons id ids ih =>
    cases chunks with
    | nil => exact h.elim
    | cons c cs =>
      obtain ⟨-, page, -, -, -, hrest⟩ := h
      simp [ih hrest]

/-- The chain from a page is determined by the pages. -/
theorem ChainTo.unique {current : Option ℕ} {ids ids' : List ℕ} {chunks chunks' : List Bytes}
    (h : ChainTo read current ids chunks none) (h' : ChainTo read current ids' chunks' none) :
    ids = ids' ∧ chunks = chunks' := by
  induction ids generalizing current chunks ids' chunks' with
  | nil =>
    cases chunks with
    | cons c cs => exact h.elim
    | nil =>
      obtain rfl : current = none := h
      cases ids' with
      | nil =>
        cases chunks' with
        | nil => exact ⟨rfl, rfl⟩
        | cons c cs => exact h'.elim
      | cons id ids' =>
        cases chunks' with
        | nil => exact h'.elim
        | cons c cs => cases h'.1
  | cons id ids ih =>
    cases chunks with
    | nil => exact h.elim
    | cons c cs =>
      obtain ⟨rfl, page, hp, -, hcell, hrest⟩ := h
      cases ids' with
      | nil =>
        cases chunks' with
        | nil => cases (show some id = none from h')
        | cons c cs => exact h'.elim
      | cons id' ids' =>
        cases chunks' with
        | nil => exact h'.elim
        | cons c' cs' =>
          obtain ⟨hid, page', hp', -, hcell', hrest'⟩ := h'
          cases hid
          obtain rfl : page = page' := Option.some.inj (hp.symm.trans hp')
          obtain rfl : c = c' := by simpa [hcell] using hcell'
          obtain ⟨rfl, rfl⟩ := ih hrest hrest'
          exact ⟨rfl, rfl⟩

/-! ### Reading blobs -/

section Reading

variable {p : Pager} {seen seen' : Seen} {current last : Option ℕ} {out out' : Bytes}

/-- One page of the loop of `read_overflow_blob`. -/
theorem readOverflowPages_succ (hp : p.poisoned = false) {pageCount firstLen left : ℕ}
    {local' : Finset ℕ} :
    p.readOverflowPages pageCount firstLen (left + 1) current local' seen out
        = .ok (out', last, seen') ↔
      ∃ id page chunk, current = some id ∧ p.view id = some page ∧ page.kind = .overflow ∧
        page.cells = [chunk] ∧
        chunk.length = (if pageCount - (left + 1) = 0 then firstLen else overflowCellCapacity) ∧
        id ∉ local' ∧ ¬ seen.Contains id ∧
        p.readOverflowPages pageCount firstLen left page.overflowNext (insert id local')
          (seen.insert id) (out ++ chunk) = .ok (out', last, seen') := by
  cases current with
  | none => simp [Pager.readOverflowPages]
  | some id =>
    rw [Pager.readOverflowPages]
    simp only [throw_eq, guard_eq_ok, bind_eq_ok, Pager.readPage_eq_ok, hp, true_and, not_not,
      Option.some.injEq]
    constructor
    · rintro ⟨hloc, hseen, page, hview, hkind, hrest⟩
      split at hrest
      · rename_i chunk hcells
        rw [guard_eq_ok, not_not] at hrest
        exact ⟨id, page, chunk, rfl, hview, hkind, hcells, hrest.1, hloc, hseen, hrest.2⟩
      · cases hrest
    · rintro ⟨_, page, chunk, rfl, hview, hkind, hcells, hlen, hloc, hseen, hrest⟩
      refine ⟨hloc, hseen, page, hview, hkind, ?_⟩
      rw [hcells]
      simp only [guard_eq_ok, not_not]
      exact ⟨hlen, hrest⟩

/-- The loop behind the first page reads full chunks. -/
theorem readOverflowPages_rest (hp : p.poisoned = false) {pageCount firstLen left : ℕ}
    (hlt : left < pageCount) {local' : Finset ℕ} :
    p.readOverflowPages pageCount firstLen left current local' seen out
        = .ok (out', last, seen') ↔
      ∃ ids chunks, ids.length = left ∧ ChainTo p.view current ids chunks last ∧
        (∀ c ∈ chunks, c.length = overflowCellCapacity) ∧ ids.Nodup ∧ (∀ x ∈ ids, x ∉ local') ∧
        seen.Adds ids seen' ∧ out' = out ++ chunks.flatten := by
  induction left generalizing current local' seen out with
  | zero =>
    simp only [Pager.readOverflowPages, Except.ok.injEq, Prod.mk.injEq]
    constructor
    · rintro ⟨rfl, rfl, rfl⟩
      exact ⟨[], [], rfl, rfl, by simp, by simp, by simp, by simp, by simp⟩
    · rintro ⟨ids, chunks, hlen, hch, -, -, -, hadds, rfl⟩
      obtain rfl := List.length_eq_zero_iff.1 hlen
      cases chunks with
      | nil => exact ⟨by simp, hch, (Seen.adds_zero.1 hadds).symm⟩
      | cons c cs => exact hch.elim
  | succ left ih =>
    have hidx : ¬ pageCount - (left + 1) = 0 := by omega
    simp only [readOverflowPages_succ hp, if_neg hidx, ih (by omega)]
    constructor
    · rintro ⟨id, page, chunk, rfl, hview, hkind, hcells, hlen, hloc, hseen, ids, chunks, rfl, hch,
        hfull, hnodup, hfresh, hadds, rfl⟩
      refine ⟨id :: ids, chunk :: chunks, rfl, ⟨rfl, page, hview, hkind, hcells, hch⟩,
        List.forall_mem_cons.2 ⟨hlen, hfull⟩, ?_, ?_, ?_, by simp⟩
      · exact List.nodup_cons.2 ⟨fun hx => hfresh id hx (by simp), hnodup⟩
      · exact List.forall_mem_cons.2 ⟨hloc, fun x hx hxl => hfresh x hx (by simp [hxl])⟩
      · rw [← Multiset.cons_coe, ← Multiset.singleton_add, Seen.adds_add]
        exact ⟨_, Seen.adds_singleton.2 ⟨hseen, rfl⟩, hadds⟩
    · rintro ⟨ids, chunks, hlen, hch, hfull, hnodup, hfresh, hadds, rfl⟩
      obtain ⟨id, ids, rfl⟩ := List.exists_cons_of_length_eq_add_one hlen
      cases chunks with
      | nil => exact hch.elim
      | cons chunk chunks =>
        obtain ⟨rfl, page, hview, hkind, hcells, hch⟩ := hch
        rw [← Multiset.cons_coe, ← Multiset.singleton_add, Seen.adds_add] at hadds
        obtain ⟨_, hone, hadds⟩ := hadds
        obtain ⟨hseen, rfl⟩ := Seen.adds_singleton.1 hone
        rw [List.nodup_cons] at hnodup
        refine ⟨id, page, chunk, rfl, hview, hkind, hcells, hfull chunk (by simp),
          hfresh id (by simp), hseen, ids, chunks, by simpa using hlen, hch,
          fun c hc => hfull c (by simp [hc]), hnodup.2, fun x hx => ?_, hadds, by simp⟩
        rw [Finset.mem_insert, not_or]
        exact ⟨fun he => hnodup.1 (he ▸ hx), hfresh x (by simp [hx])⟩

/-- The number of chunks and the length of the first one follow from the length of the blob. -/
theorem Chunks.arith {bytes first : Bytes} {rest : List Bytes} (h : Chunks bytes first rest) :
    (bytes.length + (overflowCellCapacity - 1)) / overflowCellCapacity = rest.length + 1 ∧
      bytes.length - rest.length * overflowCellCapacity = first.length := by
  have hsum : rest.flatten.length = rest.length * overflowCellCapacity := by
    rw [List.length_flatten]
    have : rest.map List.length = List.replicate rest.length overflowCellCapacity := by
      rw [List.eq_replicate_iff]
      refine ⟨by simp, ?_⟩
      simpa using h.rest_full
    rw [this, List.sum_replicate, smul_eq_mul]
  have hlen : bytes.length = first.length + rest.length * overflowCellCapacity := by
    rw [h.flatten, List.length_append, hsum]
  have h1 := h.first_pos
  have h2 := h.first_le
  simp only [overflowCellCapacity_eq] at *
  omega

/-- **Reading an overflow blob** succeeds exactly when a chain of pages from the first one holds
it. -/
theorem readOverflowBlob_eq_ok (hp : p.poisoned = false) {first len maxLen : ℕ} {kind : String}
    {bytes : Bytes} :
    p.readOverflowBlob first len seen maxLen kind = .ok (bytes, seen') ↔
      ∃ b : Blob, b.bytes = bytes ∧ b.chain.head? = some first ∧ b.On p.view ∧
        bytes.length = len ∧ len ≤ maxLen ∧ seen.Adds b.chain seen' := by
  unfold Pager.readOverflowBlob
  simp only [throw_eq, guard_eq_ok, not_or, not_lt, bind_eq_ok, Prod.exists]
  constructor
  · rintro ⟨⟨hpos, hmax⟩, out, last, seen'', hread, hrest⟩
    cases last with
    | some extra => cases hrest
    | none =>
      rw [guard_eq_ok, not_not] at hrest
      obtain ⟨hlen, heq⟩ := hrest
      obtain ⟨rfl, rfl⟩ : out = bytes ∧ seen'' = seen' := by simpa using heq
      -- A chain of positive length has a first page, and the rest is read from its link.
      obtain ⟨left, hleft⟩ : ∃ left, (len + (overflowCellCapacity - 1)) / overflowCellCapacity
          = left + 1 := by
        simp only [overflowCellCapacity_eq]
        exact ⟨_, (Nat.succ_pred_eq_of_pos (by omega)).symm⟩
      rw [hleft, readOverflowPages_succ hp, Nat.sub_self, if_pos rfl] at hread
      obtain ⟨id, page, chunk, hid, hview, hkind, hcells, hclen, -, hseen, hread⟩ := hread
      cases hid
      rw [readOverflowPages_rest hp (Nat.lt_succ_self _)] at hread
      obtain ⟨ids, chunks, hidlen, hch, hfull, hnodup, hfresh, hadds, hout⟩ := hread
      rw [List.nil_append] at hout
      have hpos' := List.length_pos_of_ne_nil (page.cells_ne chunk (by simp [hcells]))
      refine ⟨⟨out, first :: ids⟩, rfl, rfl, .inr ⟨?_, chunk, chunks, ⟨hout, hpos', ?_, hfull⟩, rfl,
        page, hview, hkind, hcells, hch⟩, hlen, hmax, ?_⟩
      · exact List.nodup_cons.2 ⟨fun hx => hfresh _ hx (by simp), hnodup⟩
      · rw [hclen]
        simp only [overflowCellCapacity_eq] at hleft ⊢
        omega
      · show seen.Adds ((first :: ids : List ℕ) : Multiset ℕ) seen''
        rw [← Multiset.cons_coe, ← Multiset.singleton_add, Seen.adds_add]
        exact ⟨_, Seen.adds_singleton.2 ⟨hseen, rfl⟩, hadds⟩
  · rintro ⟨⟨bytes, chain⟩, rfl, hhead, hon, rfl, hmax, hadds⟩
    -- Back: a stored chain is read page by page, each of them for the first time.
    rcases hon with hnil | ⟨hnodup, chunk, chunks, hchunks, hch⟩
    · simp only at hnil
      simp [hnil] at hhead
    simp only at hhead hnodup hchunks hch hadds ⊢
    cases chain with
    | nil => cases hhead
    | cons id ids =>
      cases hhead
      obtain ⟨-, page, hview, hkind, hcells, hch⟩ := hch
      obtain ⟨hcount, hfirst⟩ := hchunks.arith
      have hpos : bytes.length ≠ 0 := by
        rw [hchunks.flatten, List.length_append]
        have := hchunks.first_pos
        omega
      rw [← Multiset.cons_coe, ← Multiset.singleton_add, Seen.adds_add] at hadds
      obtain ⟨_, hone, hadds⟩ := hadds
      obtain ⟨hseen, rfl⟩ := Seen.adds_singleton.1 hone
      rw [List.nodup_cons] at hnodup
      refine ⟨⟨hpos, hmax⟩, bytes, none, seen', ?_, ?_⟩
      · rw [hcount, readOverflowPages_succ hp, Nat.sub_self, if_pos rfl, Nat.add_sub_cancel, hfirst]
        refine ⟨_, page, chunk, rfl, hview, hkind, hcells, rfl, by simp, hseen, ?_⟩
        rw [readOverflowPages_rest hp (Nat.lt_succ_self _)]
        refine ⟨ids, chunks, hch.length_eq, hch, hchunks.rest_full, hnodup.2, fun x hx => ?_, hadds, ?_⟩
        · rw [Finset.mem_insert, not_or]
          exact ⟨fun he => hnodup.1 (he ▸ hx), by simp⟩
        · exact hchunks.flatten
      · simp

/-! ### Decoding cells -/

/-- The value field of a stored key. -/
def StoredKey.field : StoredKey → ℕ
  | .inline bytes => bytes.length
  | .overflow bytes _ => keyOverflowFlag + bytes.length

theorem StoredKey.encodedField_eq {key : StoredKey} (h : key.asSlice.length ≤ maxTreeKeyBytes) :
    key.encodedField = .ok key.field := by
  simp only [maxTreeKeyBytes_eq] at h
  unfold StoredKey.encodedField
  rw [if_neg (by omega), if_neg (by simp only [keyLengthMask_eq]; omega)]
  cases key <;> rfl

/-- The layout of a leaf cell. -/
theorem encodeLeafCell_eq_ok {entry : LeafEntry} {cell : Bytes} :
    encodeLeafCell entry = .ok cell ↔ entry.key.asSlice.length ≤ maxTreeKeyBytes ∧
      ∃ valueField, entry.value.encodedField = .ok valueField ∧
        cell = leBytes 2 entry.key.field ++ leBytes 4 valueField ++ entry.key.payload ++
          entry.value.payload := by
  simp only [encodeLeafCell, validateKey, bind_eq_ok, guard_eq_ok, not_lt, pure_eq, Except.ok.injEq]
  constructor
  · rintro ⟨_, ⟨hlen, -⟩, kf, hkf, vf, hvf, rfl⟩
    rw [StoredKey.encodedField_eq hlen] at hkf
    cases hkf
    exact ⟨hlen, vf, hvf, rfl⟩
  · rintro ⟨hlen, vf, hvf, rfl⟩
    exact ⟨(), ⟨hlen, trivial⟩, _, StoredKey.encodedField_eq hlen, vf, hvf, rfl⟩

/-- The layout of an internal cell. -/
theorem encodeInternalCellStored_eq_ok {key : StoredKey} {id : ℕ} {cell : Bytes} :
    encodeInternalCellStored key id = .ok cell ↔ key.asSlice.length ≤ maxTreeKeyBytes ∧
      superblockCount ≤ id ∧ cell = leBytes 2 key.field ++ leBytes 8 id ++ key.payload := by
  simp only [encodeInternalCellStored, validateKey, bind_eq_ok, guard_eq_ok, not_lt, pure_eq,
    throw_eq, Except.ok.injEq]
  constructor
  · rintro ⟨_, ⟨hlen, -⟩, hid, kf, hkf, rfl⟩
    rw [StoredKey.encodedField_eq hlen] at hkf
    cases hkf
    exact ⟨hlen, hid, rfl⟩
  · rintro ⟨hlen, hid, rfl⟩
    exact ⟨(), ⟨hlen, trivial⟩, hid, _, StoredKey.encodedField_eq hlen, rfl⟩

theorem view_lt {id : ℕ} (h : ∃ page, p.view id = some page) : id < 256 ^ 8 := by
  obtain ⟨page, h⟩ := h
  have h1 := (Pager.view_eq_some.1 h).2.1
  have h2 := p.active.count_lt
  have h3 : (256 : ℕ) ^ 8 = u64Bound := by rw [u64Bound_eq]; norm_num
  omega

/-- **The key of a cell** is a blob whose chain the pages hold. -/
theorem loadKey_eq_ok (hp : p.poisoned = false) {field : ℕ} {payload : Bytes} {key : StoredKey}
    (hbad : ¬ Pager.BadKeyField field) (hfield : field < 65536) (hlen : payload.length = Pager.keyPayloadLen field) :
    p.loadKey field payload seen = .ok (key, seen') ↔
      ∃ b : Blob, key = b.storedKey ∧ key.field = field ∧ key.payload = payload ∧ b.On p.view ∧
        seen.Adds b.chain seen' := by
  simp only [Pager.BadKeyField, maxTreeKeyBytes_eq, keyOverflowFlag_eq, not_or, not_lt, not_and] at hbad
  unfold Pager.loadKey
  by_cases hflag : keyOverflowFlag ≤ field
  · rw [if_pos hflag]
    simp only [Pager.keyPayloadLen, if_pos hflag, keyOverflowRefLen_eq] at hlen
    simp only [Pager.loadKeyBlob, bind_eq_ok, Prod.exists, readOverflowBlob_eq_ok hp, pure_eq,
      Except.ok.injEq, Prod.mk.injEq]
    simp only [keyOverflowFlag_eq] at hflag ⊢
    constructor
    · rintro ⟨bytes, seen'', ⟨b, rfl, hhead, hon, hblen, hmax, hadds⟩, rfl, rfl⟩
      have hkey : b.storedKey = .overflow b.bytes (leNat payload) := by
        unfold Blob.storedKey
        cases hc : b.chain with
        | nil => rw [hc] at hhead; cases hhead
        | cons id ids => rw [hc] at hhead; cases hhead; rfl
      refine ⟨b, hkey.symm, ?_, ?_, hon, hadds⟩
      · simp only [StoredKey.field, keyOverflowFlag_eq]; omega
      · simp only [StoredKey.payload]; rw [← hlen, leBytes_leNat]
    · rintro ⟨⟨bytes, chain⟩, rfl, hfield', rfl, hon, hadds⟩
      cases chain with
      | nil =>
        simp only [Blob.storedKey, StoredKey.field] at hfield'
        simp only [Blob.storedKey, StoredKey.payload] at hlen
        omega
      | cons id ids =>
        simp only [Blob.storedKey, StoredKey.field, keyOverflowFlag_eq] at hfield'
        have hid : id < 256 ^ 8 := view_lt (hon.read_mem id (by simp))
        refine ⟨bytes, seen', ⟨⟨bytes, id :: ids⟩, rfl, ?_, hon, by omega, ?_, hadds⟩, ?_, rfl⟩
        · simp [Blob.storedKey, StoredKey.payload, leNat_leBytes hid]
        · simp only [maxTreeKeyBytes_eq]; omega
        · simp [Blob.storedKey, StoredKey.payload, leNat_leBytes hid]
  · rw [if_neg hflag]
    rw [Pager.keyPayloadLen, if_neg hflag] at hlen
    simp only [keyOverflowFlag_eq] at hlen hflag
    simp only [Except.ok.injEq, Prod.mk.injEq]
    constructor
    · rintro ⟨rfl, rfl⟩
      refine ⟨⟨payload, []⟩, rfl, ?_, rfl, .inl rfl, by simp⟩
      simp only [StoredKey.field]; omega
    · rintro ⟨⟨bytes, chain⟩, rfl, hfield', rfl, hon, hadds⟩
      cases chain with
      | nil => exact ⟨rfl, (Seen.adds_zero.1 hadds).symm⟩
      | cons id ids =>
        simp only [Blob.storedKey, StoredKey.field, keyOverflowFlag_eq] at hfield'
        omega

theorem leBytes_append_take {w n : ℕ} {rest : Bytes} : (leBytes w n ++ rest).take w = leBytes w n := by
  rw [List.take_left' (leBytes_length w n)]

theorem leBytes_append_drop {w n : ℕ} {rest : Bytes} : (leBytes w n ++ rest).drop w = rest := by
  rw [List.drop_left' (leBytes_length w n)]

/-- A prefix of known length read as a number and written again. -/
theorem leBytes_leNat_take {w : ℕ} {bs : Bytes} (h : w ≤ bs.length) :
    leBytes w (leNat (bs.take w)) = bs.take w := by
  have hlen : (bs.take w).length = w := by simp [h]
  have hread := leBytes_leNat (bs.take w)
  rwa [hlen] at hread

theorem StoredKey.payload_length (key : StoredKey) : key.payload.length = key.encodedPayloadLen := by
  cases key <;> simp [StoredKey.payload, StoredKey.encodedPayloadLen]

/-- The fields of a key that the decoders accept. -/
theorem Blob.field_ok {b : Blob} (hon : b.On p.view) (hlen : b.bytes.length ≤ maxTreeKeyBytes) :
    ¬ Pager.BadKeyField b.storedKey.field ∧ b.storedKey.field < 65536 ∧
      b.storedKey.payload.length = Pager.keyPayloadLen b.storedKey.field := by
  obtain ⟨bytes, chain⟩ := b
  simp only [maxTreeKeyBytes_eq] at hlen
  cases chain with
  | nil =>
    have hflag : ¬ keyOverflowFlag ≤ bytes.length := by simp only [keyOverflowFlag_eq]; omega
    have hmod : bytes.length % keyOverflowFlag = bytes.length := by
      simp only [keyOverflowFlag_eq]; omega
    show ¬ Pager.BadKeyField bytes.length ∧ bytes.length < 65536 ∧
      bytes.length = Pager.keyPayloadLen bytes.length
    rw [Pager.keyPayloadLen, if_neg hflag, Pager.BadKeyField, hmod, maxTreeKeyBytes_eq]
    omega
  | cons id ids =>
    have hpos : 0 < bytes.length := by
      rcases hon with hnil | ⟨-, first, rest, hchunks, -⟩
      · cases hnil
      · have h1 := hchunks.first_pos
        have h2 := congrArg List.length hchunks.flatten
        rw [List.length_append] at h2
        simp only at h2
        omega
    have hmod : (keyOverflowFlag + bytes.length) % keyOverflowFlag = bytes.length := by
      simp only [keyOverflowFlag_eq]; omega
    show ¬ Pager.BadKeyField (keyOverflowFlag + bytes.length) ∧
      keyOverflowFlag + bytes.length < 65536 ∧
      (leBytes 8 id).length = Pager.keyPayloadLen (keyOverflowFlag + bytes.length)
    rw [Pager.keyPayloadLen, if_pos (Nat.le_add_right _ _), Pager.BadKeyField, hmod,
      maxTreeKeyBytes_eq, leBytes_length, keyOverflowRefLen_eq]
    simp only [keyOverflowFlag_eq]
    exact ⟨by omega, by omega, trivial⟩

/-- The first page of the value can be written in eight bytes. -/
def StoredValue.Small : StoredValue → Prop
  | .inline _ => True
  | .overflow _ id => id < 256 ^ 8

/-- The value field that the leaf decoder accepts, with its value. -/
theorem encodedField_value {value : StoredValue} {field : ℕ} (hsmall : value.Small) :
    value.encodedField = .ok field ↔
      field < 2 ^ 32 ∧ field % valueOverflowFlag ≤ maxTreeValueBytes ∧
      (valueOverflowFlag ≤ field ∧ field % valueOverflowFlag ≠ 0 ∧ value.payload.length = 8 ∧
          superblockCount ≤ leNat value.payload ∧
          value = .overflow (field % valueOverflowFlag) (leNat value.payload) ∨
        field < valueOverflowFlag ∧ value.payload.length = field % valueOverflowFlag ∧
          value = .inline value.payload) := by
  cases value with
  | inline bytes =>
    simp only [StoredValue.encodedField, validateValueLen, bind_eq_ok, guard_eq_ok, not_lt, pure_eq,
      Except.ok.injEq, StoredValue.payload, reduceCtorEq, and_false, false_or]
    simp only [maxTreeValueBytes_eq, valueOverflowFlag_eq]
    constructor
    · rintro ⟨-, ⟨hle, -⟩, rfl⟩
      refine ⟨by omega, by omega, by omega, by omega, trivial⟩
    · rintro ⟨-, hle, hlt, hlen, -⟩
      exact ⟨(), ⟨by omega, trivial⟩, by omega⟩
  | overflow len id =>
    simp only [StoredValue.encodedField, guard_eq_ok, not_or, not_lt, Except.ok.injEq,
      StoredValue.payload, leBytes_length, StoredValue.overflow.injEq, reduceCtorEq, and_false,
      or_false, leNat_leBytes hsmall]
    simp only [maxTreeValueBytes_eq, valueOverflowFlag_eq, superblockCount_eq]
    constructor
    · rintro ⟨⟨hpos, hle⟩, hid, rfl⟩
      refine ⟨by omega, by omega, by omega, by omega, trivial, hid, by omega, trivial⟩
    · rintro ⟨h32, hle, hge, hpos, -, hid, hlen, -⟩
      exact ⟨⟨by omega, by omega⟩, hid, by omega⟩

/-- A key with an accepted field is not too long. -/
theorem Blob.length_le {b : Blob} (hbad : ¬ Pager.BadKeyField b.storedKey.field)
    (hlt : b.storedKey.field < 65536)
    (hlen : b.storedKey.payload.length = Pager.keyPayloadLen b.storedKey.field) :
    b.bytes.length ≤ maxTreeKeyBytes := by
  obtain ⟨bytes, chain⟩ := b
  rw [Pager.BadKeyField, not_or, not_lt] at hbad
  cases chain with
  | nil =>
    have hlen' : bytes.length = Pager.keyPayloadLen bytes.length := hlen
    show bytes.length ≤ maxTreeKeyBytes
    rw [Pager.keyPayloadLen] at hlen'
    split_ifs at hlen' with hflag
    · have h8 := keyOverflowRefLen_eq
      have h4 := maxTreeKeyBytes_eq
      omega
    · exact hlen'.trans_le hbad.1
  | cons id ids =>
    simp only [Blob.storedKey, StoredKey.field, keyOverflowFlag_eq] at hbad hlt
    show bytes.length ≤ maxTreeKeyBytes
    have := hbad.1
    omega

/-- The parts of a leaf cell. -/
theorem leafCell_parts {kf vf : ℕ} (hkf : kf < 65536) (hvf : vf < 2 ^ 32) (rest : Bytes) :
    leNat ((leBytes 2 kf ++ leBytes 4 vf ++ rest).take 2) = kf ∧
      leNat (((leBytes 2 kf ++ leBytes 4 vf ++ rest).drop 2).take 4) = vf ∧
      (leBytes 2 kf ++ leBytes 4 vf ++ rest).drop leafCellHeaderLen = rest := by
  refine ⟨?_, ?_, ?_⟩
  · rw [List.append_assoc, leBytes_append_take, leNat_leBytes (by omega)]
  · rw [List.append_assoc, leBytes_append_drop, leBytes_append_take, leNat_leBytes]
    have h256 : (256 : ℕ) ^ 4 = 2 ^ 32 := by norm_num
    omega
  · rw [List.drop_left' (by simp)]

/-- A byte string with room for the header is a leaf cell of some fields. -/
theorem exists_leafCell {cell : Bytes} (h : leafCellHeaderLen ≤ cell.length) :
    ∃ kf vf, kf < 65536 ∧ vf < 2 ^ 32 ∧
      cell = leBytes 2 kf ++ leBytes 4 vf ++ cell.drop leafCellHeaderLen := by
  have h6 := leafCellHeaderLen_eq
  have h256 : (256 : ℕ) ^ 4 = 2 ^ 32 := by norm_num
  refine ⟨leNat (cell.take 2), leNat ((cell.drop 2).take 4), ?_, ?_, ?_⟩
  · have := leNat_lt (cell.take 2)
    rw [List.length_take, Nat.min_eq_left (by omega)] at this
    simpa using this
  · have := leNat_lt ((cell.drop 2).take 4)
    rw [List.length_take, List.length_drop, Nat.min_eq_left (by omega)] at this
    omega
  · rw [leBytes_leNat_take (by omega), leBytes_leNat_take (by simp; omega), List.append_assoc,
      show leafCellHeaderLen = 2 + 4 from rfl, ← List.drop_drop, List.take_append_drop, List.take_append_drop]

theorem decodeLeafCell_eq_ok (hp : p.poisoned = false) {pageId index : ℕ} {cell : Bytes}
    {entry : LeafEntry} :
    p.decodeLeafCell pageId index cell seen = .ok (entry, seen') ↔
      ∃ key : Blob, entry.key = key.storedKey ∧ encodeLeafCell entry = .ok cell ∧
        entry.value.Small ∧ key.On p.view ∧ seen.Adds key.chain seen' := by
  unfold Pager.decodeLeafCell
  simp only [throw_eq, pure_eq, guard_eq_ok, not_or, not_lt, not_not, bind_eq_ok, Prod.exists]
  constructor
  · rintro ⟨hlen, hbad, ⟨hvmax, hvzero⟩, hexp, key, seen'', hkey, hrest⟩
    have h6 := leafCellHeaderLen_eq
    -- The cell is its two length fields and a body, which the key takes from the front.
    obtain ⟨kf, vf, hkflt, hvflt, hcell⟩ := exists_leafCell hlen
    set body := cell.drop leafCellHeaderLen with hbody
    have hbodylen : body.length = cell.length - leafCellHeaderLen := by rw [hbody, List.length_drop]
    obtain ⟨hkf, hvf, -⟩ := leafCell_parts hkflt hvflt body
    rw [← hcell] at hkf hvf
    rw [hkf] at hbad hexp hkey hrest
    rw [hvf] at hvmax hvzero hexp hrest
    have hklen : (body.take (Pager.keyPayloadLen kf)).length = Pager.keyPayloadLen kf := by
      rw [List.length_take, hbodylen]; omega
    obtain ⟨b, rfl, hfield, hpay, hon, hadds⟩ := (loadKey_eq_ok hp hbad hkflt hklen).1 hkey
    have hvlen : (body.drop (Pager.keyPayloadLen kf)).length =
        if valueOverflowFlag ≤ vf then overflowValueRefLen else vf % valueOverflowFlag := by
      rw [List.length_drop, hbodylen]; omega
    have hcell' : cell = leBytes 2 b.storedKey.field ++ leBytes 4 vf ++ b.storedKey.payload ++
        body.drop (Pager.keyPayloadLen kf) := by
      rw [hfield, hpay, List.append_assoc _ (body.take _), List.take_append_drop]
      exact hcell
    have hkey4 : b.storedKey.asSlice.length ≤ maxTreeKeyBytes := by
      rw [Blob.asSlice_storedKey]
      exact Blob.length_le (by rwa [hfield]) (by rwa [hfield]) (by rw [hpay, hfield, hklen])
    rw [encodeLeafCell_eq_ok]
    -- The value is a reference to an overflow chain, or it is the rest of the body.
    by_cases hvo : valueOverflowFlag ≤ vf
    · rw [if_pos hvo] at hrest hvlen
      rw [guard_eq_ok, not_lt, Except.ok.injEq, Prod.mk.injEq] at hrest
      obtain ⟨hge, rfl, rfl⟩ := hrest
      have hsmall : leNat (body.drop (Pager.keyPayloadLen kf)) < 256 ^ 8 := by
        have := leNat_lt (body.drop (Pager.keyPayloadLen kf))
        rwa [hvlen] at this
      have hpayload : leBytes 8 (leNat (body.drop (Pager.keyPayloadLen kf)))
          = body.drop (Pager.keyPayloadLen kf) := by
        have := leBytes_leNat (body.drop (Pager.keyPayloadLen kf))
        rwa [hvlen] at this
      refine ⟨b, rfl, ⟨hkey4, vf, ?_, ?_⟩, hsmall, hon, hadds⟩
      · have hsmall' : (StoredValue.overflow (vf % valueOverflowFlag)
            (leNat (body.drop (Pager.keyPayloadLen kf)))).Small := hsmall
        rw [encodedField_value hsmall']
        refine ⟨hvflt, hvmax, .inl ⟨hvo, fun h0 => hvzero ⟨hvo, h0⟩, leBytes_length _ _, ?_, ?_⟩⟩
        · simpa [StoredValue.payload, leNat_leBytes hsmall] using hge
        · simp [StoredValue.payload, leNat_leBytes hsmall]
      · simp only [StoredValue.payload, hpayload]
        exact hcell'
    · rw [if_neg hvo] at hrest hvlen
      rw [Except.ok.injEq, Prod.mk.injEq] at hrest
      obtain ⟨rfl, rfl⟩ := hrest
      refine ⟨b, rfl, ⟨hkey4, vf, ?_, hcell'⟩, trivial, hon, hadds⟩
      have hsmall : (StoredValue.inline (body.drop (Pager.keyPayloadLen kf))).Small := trivial
      rw [encodedField_value hsmall]
      exact ⟨hvflt, hvmax, .inr ⟨not_le.1 hvo, hvlen, rfl⟩⟩
  · -- Back: the encoded cell splits into the same two fields and payloads.
    obtain ⟨key, value⟩ := entry
    rintro ⟨b, rfl, henc, hsmall, hon, hadds⟩
    obtain ⟨hkey4, vf, hvf, rfl⟩ := encodeLeafCell_eq_ok.1 henc
    simp only at hkey4 hvf hsmall ⊢
    rw [Blob.asSlice_storedKey] at hkey4
    obtain ⟨hbad, hkflt, hklen⟩ := Blob.field_ok hon hkey4
    obtain ⟨hvflt, hvmax, hvcase⟩ := (encodedField_value hsmall).1 hvf
    rw [List.append_assoc (leBytes 2 _ ++ leBytes 4 _)]
    obtain ⟨h1, h2, h3⟩ := leafCell_parts hkflt hvflt (b.storedKey.payload ++ value.payload)
    rw [h1, h2, h3]
    have hload : p.loadKey b.storedKey.field b.storedKey.payload seen
        = .ok (b.storedKey, seen') :=
      (loadKey_eq_ok hp hbad hkflt hklen).2 ⟨b, rfl, rfl, rfl, hon, hadds⟩
    have hlength : (leBytes 2 b.storedKey.field ++ leBytes 4 vf ++
        (b.storedKey.payload ++ value.payload)).length
        = leafCellHeaderLen + Pager.keyPayloadLen b.storedKey.field + value.payload.length := by
      simp only [List.length_append, leBytes_length, hklen, leafCellHeaderLen_eq]
      omega
    rw [hlength, ← hklen, List.take_left' rfl, List.drop_left' rfl]
    refine ⟨by omega, hbad, ?_⟩
    rcases hvcase with ⟨hvo, hvpos, hvlen, hvid, hveq⟩ | ⟨hvo, hvlen, hveq⟩
    · refine ⟨⟨hvmax, fun h => hvpos h.2⟩, ?_, _, _, hload, ?_⟩
      · rw [if_pos hvo, hvlen]; rfl
      · rw [if_pos hvo, guard_eq_ok, not_lt]
        exact ⟨hvid, by rw [← hveq]⟩
    · refine ⟨⟨hvmax, fun h => absurd h.1 (not_le.2 hvo)⟩, ?_, _, _, hload, ?_⟩
      · rw [if_neg (not_le.2 hvo), hvlen]
      · rw [if_neg (not_le.2 hvo), ← hveq]

/-- The parts of an internal cell. -/
theorem internalCell_parts {kf id : ℕ} (hkf : kf < 65536) (hid : id < 256 ^ 8) (rest : Bytes) :
    leNat ((leBytes 2 kf ++ leBytes 8 id ++ rest).take 2) = kf ∧
      leNat (((leBytes 2 kf ++ leBytes 8 id ++ rest).drop 2).take 8) = id ∧
      (leBytes 2 kf ++ leBytes 8 id ++ rest).drop internalCellHeaderLen = rest := by
  refine ⟨?_, ?_, ?_⟩
  · rw [List.append_assoc, leBytes_append_take, leNat_leBytes (by omega)]
  · rw [List.append_assoc, leBytes_append_drop, leBytes_append_take, leNat_leBytes hid]
  · rw [List.drop_left' (by simp)]

theorem exists_internalCell {cell : Bytes} (h : internalCellHeaderLen ≤ cell.length) :
    ∃ kf id, kf < 65536 ∧ id < 256 ^ 8 ∧
      cell = leBytes 2 kf ++ leBytes 8 id ++ cell.drop internalCellHeaderLen := by
  have h10 := internalCellHeaderLen_eq
  refine ⟨leNat (cell.take 2), leNat ((cell.drop 2).take 8), ?_, ?_, ?_⟩
  · have := leNat_lt (cell.take 2)
    rw [List.length_take, Nat.min_eq_left (by omega)] at this
    simpa using this
  · have := leNat_lt ((cell.drop 2).take 8)
    rwa [List.length_take, List.length_drop, Nat.min_eq_left (by omega)] at this
  · rw [leBytes_leNat_take (by omega), leBytes_leNat_take (by simp; omega), List.append_assoc,
      show internalCellHeaderLen = 2 + 8 from rfl, ← List.drop_drop, List.take_append_drop,
      List.take_append_drop]

theorem decodeInternalCell_eq_ok (hp : p.poisoned = false) {pageId index : ℕ} {cell : Bytes}
    {child : ChildRef} :
    p.decodeInternalCell pageId index cell seen = .ok (child, seen') ↔
      ∃ key : Blob, child.minKey = key.bytes ∧
        encodeInternalCellStored key.storedKey child.pageId = .ok cell ∧
        child.pageId < 256 ^ 8 ∧ key.On p.view ∧ seen.Adds key.chain seen' := by
  unfold Pager.decodeInternalCell
  simp only [throw_eq, pure_eq, guard_eq_ok, not_lt, not_not, bind_eq_ok, Prod.exists, ne_eq]
  constructor
  · rintro ⟨hlen, hbad, hexp, hid2, key, seen'', hkey, hrest⟩
    obtain ⟨kf, id, hkflt, hidlt, hcell⟩ := exists_internalCell hlen
    set body := cell.drop internalCellHeaderLen with hbody
    obtain ⟨hkf, hid, -⟩ := internalCell_parts hkflt hidlt body
    rw [← hcell] at hkf hid
    rw [hkf] at hbad hexp hkey
    rw [hid] at hid2 hrest
    have hklen : body.length = Pager.keyPayloadLen kf := by
      rw [hbody, List.length_drop]; omega
    obtain ⟨b, rfl, hfield, hpay, hon, hadds⟩ := (loadKey_eq_ok hp hbad hkflt hklen).1 hkey
    rw [Except.ok.injEq, Prod.mk.injEq] at hrest
    obtain ⟨rfl, rfl⟩ := hrest
    refine ⟨b, Blob.asSlice_storedKey b, encodeInternalCellStored_eq_ok.2 ⟨?_, hid2, ?_⟩, hidlt, hon,
      hadds⟩
    · rw [Blob.asSlice_storedKey]
      exact Blob.length_le (by rwa [hfield]) (by rwa [hfield]) (by rw [hpay, hfield, hklen])
    · rw [hfield, hpay]; exact hcell
  · obtain ⟨minKey, id⟩ := child
    rintro ⟨b, rfl, henc, hidlt, hon, hadds⟩
    obtain ⟨hkey4, hid2, rfl⟩ := encodeInternalCellStored_eq_ok.1 henc
    simp only at hid2 hidlt ⊢
    rw [Blob.asSlice_storedKey] at hkey4
    obtain ⟨hbad, hkflt, hklen⟩ := Blob.field_ok hon hkey4
    obtain ⟨h1, h2, h3⟩ := internalCell_parts hkflt hidlt b.storedKey.payload
    rw [h1, h2, h3]
    have hlength : (leBytes 2 b.storedKey.field ++ leBytes 8 id ++ b.storedKey.payload).length
        = internalCellHeaderLen + Pager.keyPayloadLen b.storedKey.field := by
      simp only [List.length_append, leBytes_length, hklen, internalCellHeaderLen_eq]
    refine ⟨by omega, hbad, hlength.symm, hid2, _, _,
      (loadKey_eq_ok hp hbad hkflt hklen).2 ⟨b, rfl, rfl, rfl, hon, hadds⟩, ?_⟩
    rw [Blob.asSlice_storedKey]

/-- Decoding a list of cells, when `P` says what one decoded cell is made of. -/
theorem decodeCells_eq_ok {γ δ : Type} {decode : ℕ → Bytes → Seen → Except BtreeError (γ × Seen)}
    {P : Bytes → δ → Prop} {value : δ → γ} {ids : δ → Multiset ℕ}
    (h : ∀ index cell seen seen' entry, decode index cell seen = .ok (entry, seen') ↔
      ∃ d, entry = value d ∧ P cell d ∧ seen.Adds (ids d) seen')
    {index : ℕ} {cells : List Bytes} {entries : List γ} :
    Pager.decodeCells decode index cells seen = .ok (entries, seen') ↔
      ∃ ds, entries = ds.map value ∧ List.Forall₂ P cells ds ∧ seen.Adds (ds.map ids).sum seen' := by
  induction cells generalizing index seen seen' entries with
  | nil =>
    simp only [Pager.decodeCells, Except.ok.injEq, Prod.mk.injEq]
    constructor
    · rintro ⟨rfl, rfl⟩
      exact ⟨[], rfl, .nil, by simp⟩
    · rintro ⟨ds, rfl, hds, hadds⟩
      cases hds
      exact ⟨rfl, (Seen.adds_zero.1 hadds).symm⟩
  | cons cell cells ih =>
    simp only [Pager.decodeCells, bind_eq_ok, Prod.exists, pure_eq, Except.ok.injEq, Prod.mk.injEq,
      h, ih]
    constructor
    · rintro ⟨_, s1, ⟨d, rfl, hP, hadd⟩, _, s2, ⟨ds, rfl, hds, hadds⟩, rfl, rfl⟩
      refine ⟨d :: ds, rfl, .cons hP hds, ?_⟩
      rw [List.map_cons, List.sum_cons, Seen.adds_add]
      exact ⟨s1, hadd, hadds⟩
    · rintro ⟨ds, rfl, hds, hadds⟩
      cases hds with
      | cons hP hds =>
        rw [List.map_cons, List.sum_cons, Seen.adds_add] at hadds
        obtain ⟨s1, hadd, hadds⟩ := hadds
        exact ⟨_, s1, ⟨_, rfl, hP, hadd⟩, _, _, ⟨_, rfl, hds, hadds⟩, rfl, rfl⟩

end Reading

/-! ### Stored trees -/

/-- A stored leaf entry. -/
structure PEntry where
  key : Blob
  value : Blob

namespace PEntry

/-- The cell contents of the entry. -/
def stored (e : PEntry) : LeafEntry := ⟨e.key.storedKey, e.value.storedValue⟩

/-- The entry without its pages. -/
def entry (e : PEntry) : Entry := ⟨e.key.bytes, e.value.bytes, e.key.inline, e.value.inline⟩

/-- The overflow pages of the entry. -/
def pages (e : PEntry) : Multiset ℕ := (e.key.chain : Multiset ℕ) + e.value.chain

/-- The overflow pages hold the key and the value. -/
def On (read : ℕ → Option Page) (e : PEntry) : Prop := e.key.On read ∧ e.value.On read

end PEntry

/-- A leaf or internal page with the things in it. -/
structure PPage (α : Type) where
  pid : ℕ
  items : List α

/-- A stored tree with `n` levels of internal pages. An internal page has separators, with their
overflow chains, and subtrees. -/
def PTree : ℕ → Type
  | 0 => PPage PEntry
  | n + 1 => PPage (Blob × PTree n)

namespace PTree

variable {n : ℕ}

def leaf (pid : ℕ) (es : List PEntry) : PTree 0 := PPage.mk pid es

def node (pid : ℕ) (cs : List (Blob × PTree n)) : PTree (n + 1) := PPage.mk pid cs

def cells (t : PTree 0) : List PEntry := PPage.items t

def children (t : PTree (n + 1)) : List (Blob × PTree n) := PPage.items t

def pid : {n : ℕ} → PTree n → ℕ
  | 0, t => PPage.pid t
  | _ + 1, t => PPage.pid t

@[simp] theorem pid_leaf (id : ℕ) (es : List PEntry) : (leaf id es).pid = id := rfl
@[simp] theorem cells_leaf (id : ℕ) (es : List PEntry) : (leaf id es).cells = es := rfl
@[simp] theorem pid_node (id : ℕ) (cs : List (Blob × PTree n)) : (node id cs).pid = id := rfl
@[simp] theorem children_node (id : ℕ) (cs : List (Blob × PTree n)) :
    (node id cs).children = cs := rfl
theorem leaf_cells (t : PTree 0) : leaf t.pid t.cells = t := rfl
theorem node_children (t : PTree (n + 1)) : node t.pid t.children = t := rfl

/-- The tree without its pages. -/
def tree : {n : ℕ} → PTree n → Tree n
  | 0, t => Tree.leaf (t.cells.map PEntry.entry)
  | _ + 1, t => Tree.node (t.children.map fun c => tree c.2)

/-- All pages of the tree. -/
def footprint : {n : ℕ} → PTree n → Multiset ℕ
  | 0, t => {t.pid} + (t.cells.map PEntry.pages).sum
  | _ + 1, t => {t.pid} + (t.children.map fun c => (c.1.chain : Multiset ℕ) + footprint c.2).sum

/-- What the decoder of internal pages gives for a child. -/
def ref (c : Blob × PTree n) : ChildRef := ⟨c.1.bytes, c.2.pid⟩

/-- The cell of a child. -/
def InternalCell (cell : Bytes) (c : Blob × PTree n) : Prop :=
  encodeInternalCellStored c.1.storedKey c.2.pid = .ok cell

/-- The pages hold the tree. -/
def On (read : ℕ → Option Page) : {n : ℕ} → PTree n → Prop
  | 0, t =>
    (∃ page, read t.pid = some page ∧ page.kind = .leaf ∧ page.link = rootNone ∧
      List.Forall₂ (fun cell (e : PEntry) => encodeLeafCell e.stored = .ok cell) page.cells t.cells) ∧
    ∀ e ∈ t.cells, e.On read
  | _ + 1, t =>
    (∃ page, read t.pid = some page ∧ page.kind = .internal ∧
      List.Forall₂ InternalCell page.cells t.children) ∧
    ∀ c ∈ t.children, c.1.On read ∧ c.1.bytes = c.2.tree.minKey ∧ On read c.2

@[simp] theorem tree_leaf (id : ℕ) (es : List PEntry) :
    (leaf id es).tree = Tree.leaf (es.map PEntry.entry) := rfl

@[simp] theorem tree_node (id : ℕ) (cs : List (Blob × PTree n)) :
    (node id cs).tree = Tree.node (cs.map fun c => c.2.tree) := rfl

theorem footprint_zero (t : PTree 0) :
    t.footprint = {t.pid} + (t.cells.map PEntry.pages).sum := rfl

theorem footprint_succ (t : PTree (n + 1)) : t.footprint =
    {t.pid} + (t.children.map fun c => (c.1.chain : Multiset ℕ) + c.2.footprint).sum := rfl

theorem pid_mem_footprint : ∀ {n : ℕ} (t : PTree n), t.pid ∈ t.footprint
  | 0, t => by rw [footprint_zero]; simp
  | n + 1, t => by rw [footprint_succ]; simp

theorem mem_sum_map {α : Type} {f : α → Multiset ℕ} {l : List α} {x : ℕ} :
    x ∈ (l.map f).sum ↔ ∃ a ∈ l, x ∈ f a := by
  induction l with
  | nil => simp
  | cons a l ih => simp [ih]

theorem chain_subset {t : PTree (n + 1)} {c : Blob × PTree n} (hc : c ∈ t.children) {x : ℕ}
    (hx : x ∈ c.1.chain) : x ∈ t.footprint := by
  rw [footprint_succ, Multiset.mem_add]
  exact .inr (mem_sum_map.2 ⟨c, hc, by simp [hx]⟩)

theorem child_subset {t : PTree (n + 1)} {c : Blob × PTree n} (hc : c ∈ t.children) {x : ℕ}
    (hx : x ∈ c.2.footprint) : x ∈ t.footprint := by
  rw [footprint_succ, Multiset.mem_add]
  exact .inr (mem_sum_map.2 ⟨c, hc, by simp [hx]⟩)

theorem entry_subset {t : PTree 0} {e : PEntry} (he : e ∈ t.cells) {x : ℕ} (hx : x ∈ e.pages) :
    x ∈ t.footprint := by
  rw [footprint_zero, Multiset.mem_add]
  exact .inr (mem_sum_map.2 ⟨e, he, hx⟩)

/-- A stored tree stays where its pages are not touched. -/
theorem On.mono : ∀ {n : ℕ} {t : PTree n}, t.On read →
    (∀ id ∈ t.footprint, ∀ page, read id = some page → read' id = some page) → t.On read'
  | 0, t, ⟨⟨page, hp, hrest⟩, hitems⟩, hr => by
    refine ⟨⟨page, hr _ t.pid_mem_footprint page hp, hrest⟩, fun e he => ?_⟩
    have hsub : ∀ {x}, x ∈ e.pages → x ∈ t.footprint := entry_subset he
    exact ⟨(hitems e he).1.mono fun id hid => hr id (hsub (by simp [PEntry.pages, hid])),
      (hitems e he).2.mono fun id hid => hr id (hsub (by simp [PEntry.pages, hid]))⟩
  | n + 1, t, ⟨⟨page, hp, hrest⟩, hitems⟩, hr => by
    refine ⟨⟨page, hr _ t.pid_mem_footprint page hp, hrest⟩, fun c hc => ?_⟩
    obtain ⟨hsep, hmin, hon⟩ := hitems c hc
    exact ⟨hsep.mono fun id hid => hr id (chain_subset hc hid), hmin,
      hon.mono fun id hid => hr id (child_subset hc hid)⟩

end PTree

end DbLab.Btree
