import DbLab.Btree.Stored

/-!
# The validation walk

`validate_subtree` accepts a page exactly when a stored tree hangs on it that is sorted, has two
children in every internal page and takes no page twice (`validateSubtree_eq_ok`). The height limit
of the walk is no further condition, since a tree with two children in every internal page is
higher than the limit only with more pages than a file can have (`PTree.levels_lt`).
-/

namespace DbLab.Btree

open Checked

section Decode

variable {p : Pager} {seen seen' : Seen} {page : Page}

/-- The decoded parts of a leaf entry. -/
abbrev PEntry.header (e : PEntry) : Blob × StoredValue := (e.key, e.value.storedValue)

/-- What the decoder makes of a leaf cell. -/
abbrev headerEntry (d : Blob × StoredValue) : LeafEntry := ⟨d.1.storedKey, d.2⟩

/-- A cell with a readable key. -/
def LeafHeader (p : Pager) (cell : Bytes) (d : Blob × StoredValue) : Prop :=
  encodeLeafCell (headerEntry d) = .ok cell ∧ d.2.Small ∧ d.1.On p.view

theorem decodeLeaf_eq_ok (hp : p.poisoned = false) {entries : List LeafEntry} :
    p.decodeLeaf page seen = .ok (entries, seen') ↔ page.kind = .leaf ∧
      ∃ ds, entries = ds.map headerEntry ∧ List.Forall₂ (LeafHeader p) page.cells ds ∧
        StrictlyIncreasing (ds.map fun d => d.1.bytes) ∧
        seen.Adds (ds.map fun d => (d.1.chain : Multiset ℕ)).sum seen' := by
  have hcell : ∀ index cell seen seen' entry,
      p.decodeLeafCell page.pageId index cell seen = .ok (entry, seen') ↔
        ∃ d, entry = headerEntry d ∧ LeafHeader p cell d ∧
          seen.Adds (d.1.chain : Multiset ℕ) seen' := by
    intro index cell seen seen' entry
    rw [decodeLeafCell_eq_ok hp]
    constructor
    · obtain ⟨key, value⟩ := entry
      rintro ⟨b, rfl, henc, hsmall, hon, hadds⟩
      exact ⟨(b, value), rfl, ⟨henc, hsmall, hon⟩, hadds⟩
    · rintro ⟨d, rfl, ⟨henc, hsmall, hon⟩, hadds⟩
      exact ⟨d.1, rfl, henc, hsmall, hon, hadds⟩
  have hkeys : ∀ ds : List (Blob × StoredValue),
      (ds.map headerEntry).map (fun e => e.key.asSlice) = ds.map fun d => d.1.bytes := by
    intro ds
    rw [List.map_map]
    exact List.map_congr_left fun d _ => Blob.asSlice_storedKey d.1
  simp only [Pager.decodeLeaf, throw_eq, guard_eq_ok, ne_eq, not_not, bind_eq_ok, Prod.exists,
    decodeCells_eq_ok hcell, validateLeafOrder, guard_not_eq_ok, pure_eq, Except.ok.injEq,
    Prod.mk.injEq]
  refine and_congr_right fun _ => ?_
  constructor
  · rintro ⟨_, s, ⟨ds, rfl, hds, hadds⟩, _, ⟨hinc, -⟩, rfl, rfl⟩
    rw [hkeys] at hinc
    exact ⟨ds, rfl, hds, hinc, hadds⟩
  · rintro ⟨ds, rfl, hds, hinc, hadds⟩
    exact ⟨_, _, ⟨ds, rfl, hds, hadds⟩, (), ⟨by rwa [hkeys], trivial⟩, rfl, rfl⟩

theorem validateChildRefs_eq_ok {children : List ChildRef} :
    validateChildRefs children = .ok () ↔ children ≠ [] ∧
      (∀ c ∈ children, c.minKey.length ≤ maxTreeKeyBytes ∧ superblockCount ≤ c.pageId) ∧
      StrictlyIncreasing (children.map ChildRef.minKey) := by
  have hone : ∀ c : ChildRef, validateChildRef c = .ok () ↔
      c.minKey.length ≤ maxTreeKeyBytes ∧ superblockCount ≤ c.pageId := by
    intro c
    simp only [validateChildRef, validateKey, bind_eq_ok, guard_eq_ok, not_lt, throw_eq, pure_eq]
    constructor
    · rintro ⟨_, ⟨h, -⟩, h', -⟩
      exact ⟨h, h'⟩
    · rintro ⟨h, h'⟩
      exact ⟨(), ⟨h, trivial⟩, h', trivial⟩
  simp only [validateChildRefs, throw_eq, guard_eq_ok, bind_eq_ok, not_not, pure_eq]
  constructor
  · rintro ⟨hne, _, hall, hinc, -⟩
    exact ⟨hne, fun c hc => (hone c).1 (forM_eq_ok.1 hall c hc), hinc⟩
  · rintro ⟨hne, hall, hinc⟩
    exact ⟨hne, (), forM_eq_ok.2 fun c hc => (hone c).2 (hall c hc), hinc, trivial⟩

/-- A cell with a readable separator. -/
def InternalHeader (p : Pager) (cell : Bytes) (d : Blob × ℕ) : Prop :=
  encodeInternalCellStored d.1.storedKey d.2 = .ok cell ∧ d.2 < 256 ^ 8 ∧ d.1.On p.view

/-- What the decoder makes of an internal cell. -/
abbrev headerRef (d : Blob × ℕ) : ChildRef := ⟨d.1.bytes, d.2⟩

theorem decodeInternal_eq_ok (hp : p.poisoned = false) {children : List ChildRef} :
    p.decodeInternal page seen = .ok (children, seen') ↔ page.kind = .internal ∧
      ∃ ds, children = ds.map headerRef ∧ List.Forall₂ (InternalHeader p) page.cells ds ∧
        ds ≠ [] ∧ StrictlyIncreasing (ds.map fun d => d.1.bytes) ∧
        seen.Adds (ds.map fun d => (d.1.chain : Multiset ℕ)).sum seen' := by
  have hcell : ∀ index cell seen seen' child,
      p.decodeInternalCell page.pageId index cell seen = .ok (child, seen') ↔
        ∃ d, child = headerRef d ∧ InternalHeader p cell d ∧
          seen.Adds (d.1.chain : Multiset ℕ) seen' := by
    intro index cell seen seen' child
    rw [decodeInternalCell_eq_ok hp]
    constructor
    · obtain ⟨key, id⟩ := child
      rintro ⟨b, rfl, henc, hsmall, hon, hadds⟩
      exact ⟨(b, id), rfl, ⟨henc, hsmall, hon⟩, hadds⟩
    · rintro ⟨d, rfl, ⟨henc, hsmall, hon⟩, hadds⟩
      exact ⟨d.1, rfl, henc, hsmall, hon, hadds⟩
  simp only [Pager.decodeInternal, throw_eq, guard_eq_ok, ne_eq, not_not, bind_eq_ok, Prod.exists,
    decodeCells_eq_ok hcell, pure_eq, Except.ok.injEq, Prod.mk.injEq]
  refine and_congr_right fun _ => ?_
  constructor
  · rintro ⟨_, s, ⟨ds, rfl, hds, hadds⟩, _, hrefs, rfl, rfl⟩
    obtain ⟨hne, -, hinc⟩ := validateChildRefs_eq_ok.1 hrefs
    rw [List.map_map] at hinc
    exact ⟨ds, rfl, hds, by simpa using hne, hinc, hadds⟩
  · rintro ⟨ds, rfl, hds, hne, hinc, hadds⟩
    refine ⟨_, _, ⟨ds, rfl, hds, hadds⟩, (), ?_, rfl, rfl⟩
    refine validateChildRefs_eq_ok.2 ⟨by simpa using hne, fun c hc => ?_, by rwa [List.map_map]⟩
    -- the bounds on keys and ids are those of the encoder
    obtain ⟨d, hd, rfl⟩ := List.mem_map.1 hc
    obtain ⟨cell, -, hcell⟩ := exists_of_mem_right hds hd
    obtain ⟨hlen, hid, -⟩ := encodeInternalCellStored_eq_ok.1 hcell.1
    rw [Blob.asSlice_storedKey] at hlen
    exact ⟨hlen, hid⟩

/-! ### Values -/

/-- The length limit of a stored value. -/
def StoredValue.Bounded : StoredValue → Prop
  | .inline _ => True
  | .overflow len _ => len ≤ maxTreeValueBytes

theorem encodeLeafCell_bounded {e : LeafEntry} {cell : Bytes} (h : encodeLeafCell e = .ok cell) :
    e.value.Bounded := by
  obtain ⟨-, vf, hvf, -⟩ := encodeLeafCell_eq_ok.1 h
  cases hv : e.value with
  | inline bytes => trivial
  | overflow len id =>
    rw [hv] at hvf
    simp only [StoredValue.encodedField, guard_eq_ok, not_or, not_lt] at hvf
    exact hvf.1.2

theorem Blob.storedValue_of_head {b : Blob} {first : ℕ} (h : b.chain.head? = some first) :
    b.storedValue = .overflow b.bytes.length first := by
  unfold Blob.storedValue
  cases hc : b.chain with
  | nil => rw [hc] at h; cases h
  | cons id ids => rw [hc] at h; cases h; rfl

theorem loadValue_eq_ok (hp : p.poisoned = false) {v : StoredValue} (hb : v.Bounded) {bytes : Bytes} :
    p.loadValue v = .ok bytes ↔ ∃ b : Blob, v = b.storedValue ∧ b.On p.view ∧ b.bytes = bytes := by
  cases v with
  | inline bs =>
    simp only [Pager.loadValue, Except.ok.injEq]
    constructor
    · rintro rfl
      exact ⟨⟨bs, []⟩, rfl, .inl rfl, rfl⟩
    · rintro ⟨⟨bs', chain⟩, hv, -, rfl⟩
      cases chain with
      | nil => cases hv; rfl
      | cons id ids => cases hv
  | overflow len first =>
    simp only [Pager.loadValue, bind_eq_ok, Prod.exists, readOverflowBlob_eq_ok hp, pure_eq,
      Except.ok.injEq, Seen.adds_none]
    constructor
    · rintro ⟨_, _, ⟨b, rfl, hhead, hon, rfl, hmax, -⟩, rfl⟩
      exact ⟨b, (Blob.storedValue_of_head hhead).symm, hon, rfl⟩
    · rintro ⟨⟨bs, chain⟩, hv, hon, rfl⟩
      cases chain with
      | nil => cases hv
      | cons id ids =>
        cases hv
        exact ⟨_, _, ⟨⟨bs, _ :: ids⟩, rfl, rfl, hon, rfl, hb, rfl⟩, rfl⟩

theorem validateValueReachability_eq_ok (hp : p.poisoned = false) {v : StoredValue}
    (hb : v.Bounded) :
    p.validateValueReachability v seen = .ok seen' ↔
      ∃ b : Blob, v = b.storedValue ∧ b.On p.view ∧ seen.Adds b.chain seen' := by
  cases v with
  | inline bs =>
    simp only [Pager.validateValueReachability, Except.ok.injEq]
    constructor
    · rintro rfl
      exact ⟨⟨bs, []⟩, rfl, .inl rfl, by simp⟩
    · rintro ⟨⟨bs', chain⟩, hv, -, hadds⟩
      cases chain with
      | nil => exact (Seen.adds_zero.1 hadds).symm
      | cons id ids => cases hv
  | overflow len first =>
    simp only [Pager.validateValueReachability, bind_eq_ok, Prod.exists, readOverflowBlob_eq_ok hp,
      pure_eq, Except.ok.injEq]
    constructor
    · rintro ⟨_, _, ⟨b, rfl, hhead, hon, rfl, hmax, hadds⟩, rfl⟩
      exact ⟨b, (Blob.storedValue_of_head hhead).symm, hon, hadds⟩
    · rintro ⟨⟨bs, chain⟩, hv, hon, hadds⟩
      cases chain with
      | nil => cases hv
      | cons id ids =>
        cases hv
        exact ⟨_, _, ⟨⟨bs, _ :: ids⟩, rfl, rfl, hon, rfl, hb, hadds⟩, rfl⟩

/-- All values of a leaf are reachable. -/
theorem validateValues_eq_ok (hp : p.poisoned = false) {ds : List (Blob × StoredValue)}
    (hb : ∀ d ∈ ds, d.2.Bounded) :
    p.validateValues (ds.map headerEntry) seen = .ok seen' ↔
      ∃ es : List PEntry, ds = es.map PEntry.header ∧ (∀ e ∈ es, e.value.On p.view) ∧
        seen.Adds (es.map fun e => (e.value.chain : Multiset ℕ)).sum seen' := by
  induction ds generalizing seen with
  | nil =>
    simp only [List.map_nil, Pager.validateValues, Except.ok.injEq]
    constructor
    · rintro rfl
      exact ⟨[], rfl, by simp, by simp⟩
    · rintro ⟨es, hes, -, hadds⟩
      rw [eq_comm, List.map_eq_nil_iff] at hes
      subst hes
      exact (Seen.adds_zero.1 hadds).symm
  | cons d ds ih =>
    have hb' := List.forall_mem_cons.1 hb
    simp only [List.map_cons, Pager.validateValues, bind_eq_ok,
      validateValueReachability_eq_ok hp hb'.1, ih hb'.2]
    constructor
    · rintro ⟨s, ⟨b, hv, hon, hadd⟩, es, rfl, hons, hadds⟩
      refine ⟨⟨d.1, b⟩ :: es, by rw [List.map_cons, PEntry.header, ← hv],
        List.forall_mem_cons.2 ⟨hon, hons⟩, ?_⟩
      rw [List.map_cons, List.sum_cons, Seen.adds_add]
      exact ⟨s, hadd, hadds⟩
    · rintro ⟨es, hes, hons, hadds⟩
      obtain ⟨e, es', rfl, hd, hes'⟩ := List.map_eq_cons_iff.1 hes.symm
      rw [List.map_cons, List.sum_cons, Seen.adds_add] at hadds
      obtain ⟨s, hadd, hadds⟩ := hadds
      have hons' := List.forall_mem_cons.1 hons
      exact ⟨s, ⟨e.value, by rw [← hd], hons'.1, hadd⟩, es', hes'.symm, hons'.2, hadds⟩

end Decode

/-! ### Subtrees -/

/-- The bounds that the walk reports for a tree. -/
def Tree.bounds {n : ℕ} (t : Tree n) : Pager.SubtreeBounds := ⟨t.minKey, t.maxKey, n + 1⟩

section Walk

variable {p : Pager} {seen seen' : Finset ℕ} {page : Page} {n : ℕ}

theorem leafBounds_eq_ok {pid : ℕ} {es : List PEntry} {b : Pager.SubtreeBounds} :
    Pager.leafBounds pid (es.map PEntry.stored) = .ok b ↔
      es ≠ [] ∧ b = (PTree.leaf pid es).tree.bounds := by
  rcases List.eq_nil_or_concat es with rfl | ⟨l, last, rfl⟩
  · simp [Pager.leafBounds]
  · rw [List.concat_eq_append]
    obtain ⟨first, rest, hfirst⟩ := List.exists_cons_of_ne_nil (l := l ++ [last]) (by simp)
    have hhead : ((l ++ [last]).map PEntry.stored).head? = some first.stored := by simp [hfirst]
    have hlast : ((l ++ [last]).map PEntry.stored).getLast? = some last.stored := by simp
    have hmin : (PTree.leaf pid (l ++ [last])).tree.minKey = first.key.bytes := by
      simp [Tree.minKey, hfirst, PEntry.entry]
    have hmax : (PTree.leaf pid (l ++ [last])).tree.maxKey = last.key.bytes := by
      simp [Tree.maxKey, PEntry.entry]
    rw [Pager.leafBounds, hhead, hlast, Tree.bounds, hmin, hmax]
    simp only [PEntry.stored, Blob.asSlice_storedKey, Except.ok.injEq, zero_add]
    exact ⟨fun h => ⟨by simp, h.symm⟩, fun h => h.2.symm⟩

theorem internalBounds_eq_ok {pid : ℕ} {cs : List (Tree n)} (hp : ∀ c ∈ cs, c.Proper)
    (hne : cs ≠ []) {b : Pager.SubtreeBounds} :
    Pager.internalBounds pid (cs.map Tree.bounds) = .ok b ↔
      (cs.IsChain fun a b => a.maxKey < b.minKey) ∧ b = (Tree.node cs).bounds := by
  rcases List.eq_nil_or_concat cs with rfl | ⟨l, last, hcs⟩
  · exact absurd rfl hne
  · rw [List.concat_eq_append] at hcs
    obtain ⟨first, rest, hfirst⟩ := List.exists_cons_of_ne_nil hne
    have hhead : (cs.map Tree.bounds).head? = some first.bounds := by simp [hfirst]
    have hlast : (cs.map Tree.bounds).getLast? = some last.bounds := by simp [hcs]
    have hmin : (Tree.node cs).minKey = first.minKey := by
      rw [hfirst]; exact Tree.minKey_node (hp first (by simp [hfirst]))
    have hmax : (Tree.node cs).maxKey = last.maxKey := by
      rw [hcs]; exact Tree.maxKey_node (hp last (by simp [hcs]))
    have hheights : ∀ b ∈ cs.map Tree.bounds, b.height = first.bounds.height := by
      intro b hb
      obtain ⟨c, -, rfl⟩ := List.mem_map.1 hb
      rfl
    have hb : (Tree.node cs).bounds = ⟨first.minKey, last.maxKey, n + 1 + 1⟩ := by
      rw [Tree.bounds, hmin, hmax]
    rw [Pager.internalBounds, hhead, hlast]
    simp only [guard_eq_ok, not_not, Except.ok.injEq, List.isChain_map]
    rw [and_iff_right hheights, hb]
    exact and_congr Iff.rfl eq_comm

theorem rightSibling_eq_none (h : page.kind = .leaf) :
    page.rightSibling = none ↔ page.link = rootNone := by
  rw [Page.rightSibling, if_pos h, Page.pageLink]
  by_cases hl : page.link = rootNone
  · rw [if_pos hl]; exact iff_of_true rfl hl
  · rw [if_neg hl]; exact iff_of_false (by simp) hl

/-- The walk over the children, when `P` says what the walk over one child establishes. -/
theorem validateChildren_eq_ok {levels pid : ℕ}
    (ih : ∀ {id : ℕ} {seen seen' : Finset ℕ} {b : Pager.SubtreeBounds},
      p.validateSubtree levels id seen = .ok (b, seen') ↔ ∃ n, ∃ t : PTree n, n < levels ∧
        t.pid = id ∧ t.On p.view ∧ t.tree.Valid ∧
        Seen.Adds (some seen) t.footprint (some seen') ∧ b = t.tree.bounds)
    {ds : List (Blob × ℕ)} {bs : List Pager.SubtreeBounds} :
    Pager.validateChildren (p.validateSubtree levels) pid (ds.map headerRef) seen
        = .ok (bs, seen') ↔
      ∃ cs : List (Σ n, Blob × PTree n), ds = cs.map (fun c => (c.2.1, c.2.2.pid)) ∧
        (∀ c ∈ cs, c.1 < levels ∧ c.2.2.On p.view ∧ c.2.2.tree.Valid ∧
          c.2.1.bytes = c.2.2.tree.minKey) ∧
        Seen.Adds (some seen) (cs.map fun c => c.2.2.footprint).sum (some seen') ∧
        bs = cs.map fun c => c.2.2.tree.bounds := by
  induction ds generalizing seen seen' bs with
  | nil =>
    simp only [List.map_nil, Pager.validateChildren, Except.ok.injEq, Prod.mk.injEq]
    constructor
    · rintro ⟨rfl, rfl⟩
      exact ⟨[], rfl, by simp, by simp, rfl⟩
    · rintro ⟨cs, hcs, -, hadds, rfl⟩
      rw [eq_comm, List.map_eq_nil_iff] at hcs
      subst hcs
      exact ⟨rfl, (Option.some.inj (Seen.adds_zero.1 hadds)).symm⟩
  | cons d ds ihd =>
    simp only [List.map_cons, Pager.validateChildren, bind_eq_ok, Prod.exists, throw_eq, guard_eq_ok,
      ne_eq, not_not, pure_eq, Except.ok.injEq, Prod.mk.injEq, ih, ihd]
    constructor
    · rintro ⟨b, s, ⟨n, t, hlt, hpid, hon, hvalid, hadd, rfl⟩, hmin, bs', s', ⟨cs, rfl, hcs, hadds,
        rfl⟩, rfl, rfl⟩
      refine ⟨⟨n, d.1, t⟩ :: cs, by rw [List.map_cons, hpid],
        List.forall_mem_cons.2 ⟨⟨hlt, hon, hvalid, hmin.symm⟩, hcs⟩, ?_, rfl⟩
      rw [List.map_cons, List.sum_cons, Seen.adds_add]
      exact ⟨_, hadd, hadds⟩
    · rintro ⟨cs, hds, hcs, hadds, rfl⟩
      obtain ⟨c, cs, rfl, hd, rfl⟩ := List.map_eq_cons_iff.1 hds.symm
      rw [List.map_cons, List.sum_cons, Seen.adds_add] at hadds
      obtain ⟨s, hadd, hadds⟩ := hadds
      obtain ⟨⟨hlt, hon, hvalid, hmin⟩, hcs⟩ := List.forall_mem_cons.1 hcs
      obtain ⟨hn, hdis, rfl⟩ := hadd
      subst hd
      exact ⟨_, _, ⟨c.1, c.2.2, hlt, rfl, hon, hvalid, ⟨hn, hdis, rfl⟩, rfl⟩, hmin.symm, _, _,
        ⟨cs, rfl, hcs, hadds, rfl⟩, rfl, rfl⟩

/-- Trees of one height. -/
theorem exists_map_sigma {α : ℕ → Type} {cs : List (Σ n, α n)} (h : ∀ c ∈ cs, c.1 = n) :
    ∃ us : List (α n), cs = us.map (Sigma.mk n) := by
  induction cs with
  | nil => exact ⟨[], rfl⟩
  | cons c cs ih =>
    obtain ⟨hc, hcs⟩ := List.forall_mem_cons.1 h
    obtain ⟨us, rfl⟩ := ih hcs
    obtain ⟨m, a⟩ := c
    obtain rfl : m = n := hc
    exact ⟨a :: us, rfl⟩

/-- The page of a stored tree can be read. -/
theorem PTree.On.read_mem : ∀ {n : ℕ} {t : PTree n}, t.On p.view → ∃ page, p.view t.pid = some page
  | 0, _, ⟨⟨page, hview, _⟩, _⟩ => ⟨page, hview⟩
  | _ + 1, _, ⟨⟨page, hview, _⟩, _⟩ => ⟨page, hview⟩

theorem Blob.On.small {b : Blob} (h : b.On p.view) : b.storedValue.Small := by
  obtain ⟨bytes, chain⟩ := b
  cases chain with
  | nil => trivial
  | cons first ids => exact view_lt (h.read_mem first (by simp))

/-- The keys of the entries of a stored leaf are those of its cells. -/
theorem sorted_leaf_iff {es : List PEntry} :
    (Tree.leaf (es.map PEntry.entry)).Sorted ↔ StrictlyIncreasing (es.map fun e => e.key.bytes) := by
  rw [Tree.Sorted, Tree.entries_zero, Tree.cells_leaf, sortedBy_iff_isChain, List.map_map]
  rfl

/-- The pages of a stored leaf, its own page first. -/
theorem adds_leaf {pid : ℕ} {es : List PEntry} :
    Seen.Adds (some seen) (PTree.leaf pid es).footprint (some seen') ↔ pid ∉ seen ∧
      ∃ s, Seen.Adds (some (insert pid seen)) (es.map fun e => (e.key.chain : Multiset ℕ)).sum s ∧
        s.Adds (es.map fun e => (e.value.chain : Multiset ℕ)).sum (some seen') := by
  have hsum : (es.map PEntry.pages).sum = (es.map fun e => (e.key.chain : Multiset ℕ)).sum +
      (es.map fun e => (e.value.chain : Multiset ℕ)).sum := List.sum_map_add
  rw [PTree.footprint_zero, PTree.pid_leaf, PTree.cells_leaf, hsum, Seen.adds_add]
  constructor
  · rintro ⟨_, hone, hrest⟩
    obtain ⟨hnot, rfl⟩ := Seen.adds_singleton.1 hone
    exact ⟨fun hmem => hnot ⟨seen, rfl, hmem⟩, Seen.adds_add.1 hrest⟩
  · rintro ⟨hnot, hrest⟩
    refine ⟨_, Seen.adds_singleton.2 ⟨?_, rfl⟩, Seen.adds_add.2 hrest⟩
    rintro ⟨_, ⟨⟩, hmem⟩
    exact hnot hmem

/-- The walk over a leaf page. -/
theorem validateLeaf_eq_ok (hp : p.poisoned = false) {id : ℕ} {b : Pager.SubtreeBounds}
    (hview : p.view id = some page) (hkind : page.kind = .leaf) :
    (id ∉ seen ∧ page.rightSibling = none ∧ ∃ entries s,
        p.decodeLeaf page (some (insert id seen)) = .ok (entries, s) ∧
        ∃ s', p.validateValues entries s = .ok s' ∧ Pager.leafBounds id entries = .ok b ∧
          s'.getD ∅ = seen') ↔
      ∃ t : PTree 0, t.pid = id ∧ t.On p.view ∧ t.tree.Valid ∧
        Seen.Adds (some seen) t.footprint (some seen') ∧ b = t.tree.bounds := by
  rw [rightSibling_eq_none hkind]
  have hstored : ∀ es : List PEntry, (es.map PEntry.header).map headerEntry = es.map PEntry.stored := by
    intro es; rw [List.map_map]; rfl
  have hkeys : ∀ es : List PEntry, (es.map PEntry.header).map (fun d => d.1.bytes)
      = es.map fun e => e.key.bytes := by
    intro es; rw [List.map_map]; rfl
  have hchains : ∀ es : List PEntry, (es.map PEntry.header).map (fun d => (d.1.chain : Multiset ℕ))
      = es.map fun e => (e.key.chain : Multiset ℕ) := by
    intro es; rw [List.map_map]; rfl
  constructor
  · rintro ⟨hnot, hlink, _, s, hdec, s', hvals, hbounds, rfl⟩
    obtain ⟨-, ds, rfl, hcells, hinc, hadds⟩ := (decodeLeaf_eq_ok hp).1 hdec
    have hbounded : ∀ d ∈ ds, d.2.Bounded := by
      intro d hd
      obtain ⟨cell, -, henc, -⟩ := exists_of_mem_right hcells hd
      exact encodeLeafCell_bounded henc
    -- The keys and the values are read in two passes, and together they are the cells of a leaf.
    obtain ⟨es, rfl, hvon, hvadds⟩ := (validateValues_eq_ok hp hbounded).1 hvals
    rw [hstored] at hbounds
    obtain ⟨hne, rfl⟩ := leafBounds_eq_ok.1 hbounds
    rw [hkeys] at hinc
    rw [hchains] at hadds
    obtain ⟨u, rfl⟩ : ∃ u, s' = some u := by
      obtain ⟨-, -, rfl⟩ := hadds
      exact ⟨_, hvadds.2.2⟩
    refine ⟨PTree.leaf id es, rfl, ⟨⟨page, hview, hkind, hlink, ?_⟩, fun e he => ⟨?_, hvon e he⟩⟩,
      ⟨by simpa [Tree.Proper] using hne, sorted_leaf_iff.2 hinc, trivial⟩,
      adds_leaf.2 ⟨hnot, s, hadds, hvadds⟩, rfl⟩
    · exact (List.forall₂_map_right_iff.1 hcells).imp fun _ _ h => h.1
    · obtain ⟨cell, -, -, -, hkey⟩ := exists_of_mem_right hcells (List.mem_map_of_mem he)
      exact hkey
  · rintro ⟨t, rfl, ⟨⟨page', hview', -, hlink, hcells⟩, hons⟩, hvalid, hadds, rfl⟩
    obtain rfl : page' = page := Option.some.inj (hview'.symm.trans hview)
    rw [← PTree.leaf_cells t] at hadds
    -- Back: a stored leaf is met by both passes, each page of it for the first time.
    obtain ⟨hnot, s, hkadds, hvadds⟩ := adds_leaf.1 hadds
    have hheader : List.Forall₂ (LeafHeader p) page'.cells (t.cells.map PEntry.header) := by
      rw [List.forall₂_map_right_iff]
      exact forall₂_imp_right hcells fun cell e he henc => ⟨henc, (hons e he).2.small, (hons e he).1⟩
    refine ⟨hnot, hlink, _, s, (decodeLeaf_eq_ok hp).2 ⟨hkind, t.cells.map PEntry.header, rfl,
      hheader, ?_, ?_⟩, _, (validateValues_eq_ok hp ?_).2 ⟨t.cells, rfl, fun e he => (hons e he).2,
      hvadds⟩, ?_, rfl⟩
    · rw [hkeys]
      exact sorted_leaf_iff.1 hvalid.sorted
    · rw [hchains]; exact hkadds
    · intro d hd
      obtain ⟨cell, -, henc, -⟩ := exists_of_mem_right hheader hd
      exact encodeLeafCell_bounded henc
    · rw [hstored]
      exact leafBounds_eq_ok.2 ⟨by simpa [Tree.Proper, PTree.tree] using hvalid.proper, rfl⟩

/-- The pages of a stored internal page, its own page first. -/
theorem adds_node {pid : ℕ} {cs : List (Blob × PTree n)} :
    Seen.Adds (some seen) (PTree.node pid cs).footprint (some seen') ↔ pid ∉ seen ∧
      ∃ s, Seen.Adds (some (insert pid seen)) (cs.map fun c => (c.1.chain : Multiset ℕ)).sum s ∧
        s.Adds (cs.map fun c => c.2.footprint).sum (some seen') := by
  have hsum : (cs.map fun c => (c.1.chain : Multiset ℕ) + c.2.footprint).sum =
      (cs.map fun c => (c.1.chain : Multiset ℕ)).sum + (cs.map fun c => c.2.footprint).sum :=
    List.sum_map_add
  rw [PTree.footprint_succ, PTree.pid_node, PTree.children_node, hsum, Seen.adds_add]
  constructor
  · rintro ⟨_, hone, hrest⟩
    obtain ⟨hnot, rfl⟩ := Seen.adds_singleton.1 hone
    exact ⟨fun hmem => hnot ⟨seen, rfl, hmem⟩, Seen.adds_add.1 hrest⟩
  · rintro ⟨hnot, hrest⟩
    refine ⟨_, Seen.adds_singleton.2 ⟨?_, rfl⟩, Seen.adds_add.2 hrest⟩
    rintro ⟨_, ⟨⟩, hmem⟩
    exact hnot hmem

/-- Children of different heights are refused. -/
theorem internalBounds_heights {pid : ℕ} {bs : List Pager.SubtreeBounds} {b : Pager.SubtreeBounds}
    (h : Pager.internalBounds pid bs = .ok b) : ∃ k, ∀ x ∈ bs, x.height = k := by
  unfold Pager.internalBounds at h
  split at h
  · rename_i first last hfirst hlast
    rw [guard_eq_ok, not_not] at h
    exact ⟨first.height, h.1⟩
  · cases h

/-- The walk over an internal page, when `ih` is the statement for its children. -/
theorem validateInternal_eq_ok (hp : p.poisoned = false) {levels id : ℕ} {b : Pager.SubtreeBounds}
    (ih : ∀ {id : ℕ} {seen seen' : Finset ℕ} {b : Pager.SubtreeBounds},
      p.validateSubtree levels id seen = .ok (b, seen') ↔ ∃ n, ∃ t : PTree n, n < levels ∧
        t.pid = id ∧ t.On p.view ∧ t.tree.Valid ∧
        Seen.Adds (some seen) t.footprint (some seen') ∧ b = t.tree.bounds)
    (hview : p.view id = some page) (hkind : page.kind = .internal) :
    (id ∉ seen ∧ ∃ children s,
        p.decodeInternal page (some (insert id seen)) = .ok (children, s) ∧ 2 ≤ children.length ∧
        ∃ bs, Pager.validateChildren (p.validateSubtree levels) id children (s.getD ∅)
            = .ok (bs, seen') ∧ Pager.internalBounds id bs = .ok b) ↔
      ∃ n, ∃ t : PTree (n + 1), n < levels ∧ t.pid = id ∧ t.On p.view ∧ t.tree.Valid ∧
        Seen.Adds (some seen) t.footprint (some seen') ∧ b = t.tree.bounds := by
  constructor
  · rintro ⟨hnot, _, s, hdec, hlen, bs, hchildren, hbounds⟩
    obtain ⟨-, ds, rfl, hcells, -, -, hadds⟩ := (decodeInternal_eq_ok hp).1 hdec
    obtain ⟨u, rfl⟩ : ∃ u, s = some u := ⟨_, hadds.2.2⟩
    obtain ⟨cs, rfl, hcs, hcadds, rfl⟩ := (validateChildren_eq_ok ih).1 hchildren
    -- all children have one height
    obtain ⟨k, hk⟩ := internalBounds_heights hbounds
    have hheight : ∀ c ∈ cs, c.1 = k - 1 := by
      intro c hc
      have hck : c.1 + 1 = k := hk _ (List.mem_map_of_mem hc)
      omega
    obtain ⟨us, rfl⟩ := exists_map_sigma (α := fun n => Blob × PTree n) hheight
    simp only [List.map_map, List.length_map, List.forall_mem_map] at hlen hcells hadds hcs hcadds
    have hbs : (us.map (Sigma.mk (k - 1))).map (fun c : Σ n, Blob × PTree n => c.2.2.tree.bounds)
        = (us.map fun c => c.2.tree).map Tree.bounds := by
      rw [List.map_map, List.map_map]; rfl
    have hne : us ≠ [] := by rintro rfl; simp at hlen
    have hproper : ∀ c ∈ us.map fun c => c.2.tree, c.Proper :=
      List.forall_mem_map.2 fun c hc => (hcs c hc).2.2.1.proper
    rw [hbs, internalBounds_eq_ok hproper (by simpa using hne)] at hbounds
    obtain ⟨c, hc⟩ := List.exists_mem_of_ne_nil us hne
    refine ⟨k - 1, PTree.node id us, (hcs c hc).1, rfl, ⟨⟨page, hview, hkind, ?_⟩, ?_⟩,
      ⟨⟨by simpa using hne, hproper⟩, ?_, ⟨?_, ?_⟩⟩, adds_node.2 ⟨hnot, _, hadds, hcadds⟩, hbounds.2⟩
    · exact (List.forall₂_map_right_iff.1 hcells).imp fun _ _ h => h.1
    · intro d hd
      refine ⟨?_, (hcs d hd).2.2.2, (hcs d hd).2.1⟩
      obtain ⟨cell, -, -, -, hkey⟩ := exists_of_mem_right hcells (List.mem_map_of_mem hd)
      exact hkey
    · exact (Tree.sortedChildren_iff hproper).2
        ⟨List.forall_mem_map.2 fun d hd => (hcs d hd).2.2.1.sorted, hbounds.1⟩
    · simpa using hlen
    · exact List.forall_mem_map.2 fun d hd => (hcs d hd).2.2.1.wide
  · rintro ⟨n, t, hn, rfl, ⟨⟨page', hview', -, hcells⟩, hons⟩, hvalid, hadds, rfl⟩
    obtain rfl : page' = page := Option.some.inj (hview'.symm.trans hview)
    rw [← PTree.node_children t] at hadds
    obtain ⟨hnot, s, hkadds, hcadds⟩ := adds_node.1 hadds
    obtain ⟨u, rfl⟩ : ∃ u, s = some u := ⟨_, hkadds.2.2⟩
    have hproper : ∀ c ∈ t.children.map fun c => c.2.tree, c.Proper := hvalid.proper.2
    have hsorted : Tree.SortedChildren (t.children.map fun c => c.2.tree) := hvalid.sorted
    have hlen : 2 ≤ t.children.length := by simpa [PTree.tree] using hvalid.wide.1
    have hkeys : t.children.map (fun c => c.1.bytes)
        = (t.children.map fun c => c.2.tree).map Tree.minKey := by
      rw [List.map_map]
      exact List.map_congr_left fun c hc => (hons c hc).2.1
    refine ⟨hnot, _, some u, (decodeInternal_eq_ok hp).2 ⟨hkind, t.children.map fun c => (c.1, c.2.pid),
      rfl, ?_, ?_, ?_, ?_⟩, ?_, _, (validateChildren_eq_ok ih).2 ⟨t.children.map (Sigma.mk n), ?_, ?_,
      ?_, rfl⟩, ?_⟩
    · rw [List.forall₂_map_right_iff]
      exact forall₂_imp_right hcells fun cell c hc henc =>
        ⟨henc, view_lt (PTree.On.read_mem (hons c hc).2.2), (hons c hc).1⟩
    · have hne : t.children ≠ [] := by rintro hnil; simp [hnil] at hlen
      simpa using hne
    · rw [List.map_map]
      exact hkeys ▸ hsorted.minKeys hproper
    · rw [List.map_map]; exact hkadds
    · rw [List.length_map, List.length_map]; exact hlen
    · rw [List.map_map]; rfl
    · exact List.forall_mem_map.2 fun c hc => ⟨hn, (hons c hc).2.2,
        ⟨hproper _ (List.mem_map_of_mem hc), hsorted.sorted (List.mem_map_of_mem hc),
          hvalid.wide.2 _ (List.mem_map_of_mem hc)⟩, (hons c hc).2.1⟩
    · rw [List.map_map]; exact hcadds
    · have hbs : (t.children.map (Sigma.mk n)).map (fun c : Σ n, Blob × PTree n => c.2.2.tree.bounds)
          = (t.children.map fun c => c.2.tree).map Tree.bounds := by
        rw [List.map_map, List.map_map]; rfl
      rw [hbs, internalBounds_eq_ok hproper hvalid.proper.1]
      exact ⟨((Tree.sortedChildren_iff hproper).1 hsorted).2, rfl⟩

/-- **The validation walk** succeeds exactly when a valid stored tree hangs on the page; it reports
the bounds of the tree and collects its pages. -/
theorem validateSubtree_eq_ok (hp : p.poisoned = false) {levels id : ℕ}
    {b : Pager.SubtreeBounds} :
    p.validateSubtree levels id seen = .ok (b, seen') ↔ ∃ n, ∃ t : PTree n, n < levels ∧
      t.pid = id ∧ t.On p.view ∧ t.tree.Valid ∧
      Seen.Adds (some seen) t.footprint (some seen') ∧ b = t.tree.bounds := by
  induction levels generalizing id seen seen' b with
  | zero => simp [Pager.validateSubtree]
  | succ levels ih =>
    simp only [Pager.validateSubtree, throw_eq, guard_eq_ok, bind_eq_ok, Pager.readPage_eq_ok, hp,
      true_and]
    constructor
    · rintro ⟨hnot, page, hview, hrest⟩
      cases hkind : page.kind with
      | leaf =>
        rw [hkind] at hrest
        simp only [guard_eq_ok, not_not, bind_eq_ok, Prod.exists, pure_eq, Except.ok.injEq,
          Prod.mk.injEq, ne_eq] at hrest
        obtain ⟨hlink, entries, s, hdec, s', hvals, _, hbounds, rfl, rfl⟩ := hrest
        obtain ⟨t, ht⟩ := (validateLeaf_eq_ok hp hview hkind).1
          ⟨hnot, hlink, entries, s, hdec, s', hvals, hbounds, rfl⟩
        exact ⟨0, t, Nat.succ_pos _, ht⟩
      | internal =>
        rw [hkind] at hrest
        simp only [guard_eq_ok, not_lt, bind_eq_ok, Prod.exists, pure_eq, Except.ok.injEq,
          Prod.mk.injEq] at hrest
        obtain ⟨children, s, hdec, hlen, bs, _, hchildren, _, hbounds, rfl, rfl⟩ := hrest
        obtain ⟨n, t, hn, ht⟩ := (validateInternal_eq_ok hp ih hview hkind).1
          ⟨hnot, children, s, hdec, hlen, bs, hchildren, hbounds⟩
        exact ⟨n + 1, t, Nat.succ_lt_succ hn, ht⟩
      | overflow => rw [hkind] at hrest; cases hrest
    · rintro ⟨n, t, hn, ht⟩
      cases n with
      | zero =>
        -- Back: the root page of the tree has the kind that its height says.
        have hpage := ht
        obtain ⟨rfl, ⟨⟨page, hview, hkind, -⟩, -⟩, -⟩ := hpage
        obtain ⟨hnot, hlink, entries, s, hdec, s', hvals, hbounds, hs'⟩ :=
          (validateLeaf_eq_ok hp hview hkind).2 ⟨t, ht⟩
        refine ⟨hnot, page, hview, ?_⟩
        rw [hkind]
        simp only [guard_eq_ok, not_not, bind_eq_ok, Prod.exists, pure_eq, Except.ok.injEq,
          Prod.mk.injEq, ne_eq]
        exact ⟨hlink, entries, s, hdec, s', hvals, _, hbounds, rfl, hs'⟩
      | succ n =>
        have hpage := ht
        obtain ⟨rfl, ⟨⟨page, hview, hkind, -⟩, -⟩, -⟩ := hpage
        obtain ⟨hnot, children, s, hdec, hlen, bs, hchildren, hbounds⟩ :=
          (validateInternal_eq_ok hp ih hview hkind).2 ⟨n, t, Nat.lt_of_succ_lt_succ hn, ht⟩
        refine ⟨hnot, page, hview, ?_⟩
        rw [hkind]
        simp only [guard_eq_ok, not_lt, bind_eq_ok, Prod.exists, pure_eq, Except.ok.injEq,
          Prod.mk.injEq]
        exact ⟨children, s, hdec, hlen, bs, _, hchildren, _, hbounds, rfl, rfl⟩

end Walk

/-! ### Roots -/

/-- All pages of a stored tree can be read. -/
theorem PTree.On.read_all {p : Pager} : ∀ {n : ℕ} {t : PTree n}, t.On p.view →
    ∀ id ∈ t.footprint, ∃ page, p.view id = some page
  | 0, t, h, id, hid => by
    rw [PTree.footprint_zero, Multiset.mem_add, Multiset.mem_singleton] at hid
    rcases hid with rfl | hid
    · exact h.read_mem
    · obtain ⟨e, he, hid⟩ := PTree.mem_sum_map.1 hid
      obtain ⟨hkey, hvalue⟩ := h.2 e he
      rw [PEntry.pages, Multiset.mem_add, Multiset.mem_coe, Multiset.mem_coe] at hid
      exact hid.elim (hkey.read_mem id) (hvalue.read_mem id)
  | n + 1, t, h, id, hid => by
    rw [PTree.footprint_succ, Multiset.mem_add, Multiset.mem_singleton] at hid
    rcases hid with rfl | hid
    · exact h.read_mem
    · obtain ⟨c, hc, hid⟩ := PTree.mem_sum_map.1 hid
      obtain ⟨hkey, -, hchild⟩ := h.2 c hc
      rw [Multiset.mem_add, Multiset.mem_coe] at hid
      exact hid.elim (hkey.read_mem id) (hchild.read_all id)

/-- With two children in every internal page the number of pages doubles with every level. -/
theorem PTree.two_pow_le : ∀ {n : ℕ} {t : PTree n}, t.tree.Wide →
    2 ^ n ≤ Multiset.card t.footprint
  | 0, t, _ => by rw [PTree.footprint_zero]; simp
  | n + 1, t, hw => by
    have hlen : 2 ≤ t.children.length := by simpa [PTree.tree] using hw.1
    have hchild : ∀ c ∈ t.children, 2 ^ n ≤ Multiset.card c.2.footprint :=
      fun c hc => two_pow_le (hw.2 _ (List.mem_map_of_mem hc))
    have hsum : ∀ cs : List (Blob × PTree n), (∀ c ∈ cs, 2 ^ n ≤ Multiset.card c.2.footprint) →
        cs.length * 2 ^ n ≤
          Multiset.card (cs.map fun c => (c.1.chain : Multiset ℕ) + c.2.footprint).sum := by
      intro cs hcs
      induction cs with
      | nil => simp
      | cons c cs ih =>
        obtain ⟨hc, hcs⟩ := List.forall_mem_cons.1 hcs
        have ih := ih hcs
        simp only [List.length_cons, List.map_cons, List.sum_cons, Multiset.card_add, Nat.add_one_mul]
        omega
    have hmul : 2 * 2 ^ n ≤ t.children.length * 2 ^ n := Nat.mul_le_mul_right _ hlen
    have := hsum t.children hchild
    rw [PTree.footprint_succ, Multiset.card_add, pow_succ]
    omega

/-- A stored tree with two children in every internal page keeps far below the height limit. -/
theorem PTree.levels_add_one_lt {p : Pager} {n : ℕ} {t : PTree n}
    (hbound : p.active.pageCount * pageSize < u64Bound) (hon : t.On p.view)
    (hn : t.footprint.Nodup) (hw : t.tree.Wide) : n + 1 < maxTreeHeight := by
  have hsub : t.footprint ≤ Multiset.range p.active.pageCount := by
    rw [Multiset.le_iff_subset hn]
    intro id hid
    obtain ⟨page, hview⟩ := hon.read_all id hid
    exact Multiset.mem_range.2 (Pager.view_eq_some.1 hview).2.1
  have hcard := Multiset.card_le_card hsub
  rw [Multiset.card_range] at hcard
  have hpow := (PTree.two_pow_le hw).trans hcard
  rw [mul_pageSize, u64Bound_eq] at hbound
  have hlt : 2 ^ n < 2 ^ 62 := by
    have h62 : 2 ^ 62 = 4611686018427387904 := rfl
    omega
  have hn := (Nat.pow_lt_pow_iff_right (by norm_num)).1 hlt
  have hheight : maxTreeHeight = 64 := rfl
  omega

theorem PTree.levels_lt {p : Pager} {n : ℕ} {t : PTree n}
    (hbound : p.active.pageCount * pageSize < u64Bound) (hon : t.On p.view)
    (hn : t.footprint.Nodup) (hw : t.tree.Wide) : n < maxTreeHeight :=
  (Nat.lt_succ_self n).trans (PTree.levels_add_one_lt hbound hon hn hw)

/-- A stored tree of some height, or none. -/
abbrev PRoot := Option (Σ n, PTree n)

namespace PRoot

/-- The root without its pages. -/
def tree : PRoot → Tree.Root
  | none => none
  | some ⟨n, t⟩ => some ⟨n, t.tree⟩

def footprint : PRoot → Multiset ℕ
  | none => 0
  | some ⟨_, t⟩ => t.footprint

/-- The pages hold the tree at the root id. -/
def On (read : ℕ → Option Page) (root : Option ℕ) : PRoot → Prop
  | none => root = none
  | some ⟨_, t⟩ => root = some t.pid ∧ t.On read

end PRoot

/-- What the validation asks of a root. -/
structure Tree.Root.Valid (r : Tree.Root) : Prop where
  proper : r.Proper
  sorted : r.Sorted
  wide : r.Wide

/-- The committed root of a pager is a stored tree that takes no page twice. -/
structure Pager.Stores (p : Pager) (r : PRoot) : Prop where
  on : r.On p.view p.rootPageId
  nodup : r.footprint.Nodup

/-- **Reachability** is collected exactly when the committed root is a valid stored tree. -/
theorem reachablePages_eq_ok {p : Pager} (hp : p.poisoned = false)
    (hbound : p.active.pageCount * pageSize < u64Bound) {ids : Finset ℕ} :
    p.reachablePages = .ok ids ↔
      ∃ r : PRoot, p.Stores r ∧ r.tree.Valid ∧ ids = r.footprint.toFinset := by
  unfold Pager.reachablePages
  cases hroot : p.rootPageId with
  | none =>
    simp only [Except.ok.injEq]
    constructor
    · rintro rfl
      exact ⟨none, ⟨hroot, Multiset.nodup_zero⟩, ⟨trivial, by simp [PRoot.tree, Tree.Root.Sorted,
        Tree.Root.entries], trivial⟩, rfl⟩
    · rintro ⟨r, hr, -, rfl⟩
      cases r with
      | none => rfl
      | some t => exact absurd (hr.on.1.symm.trans hroot) (by simp)
  | some root =>
    simp only [bind_eq_ok, Prod.exists, validateSubtree_eq_ok hp, pure_eq, Except.ok.injEq]
    constructor
    · rintro ⟨_, _, ⟨n, t, -, rfl, hon, hvalid, ⟨hn, -, hseen⟩, rfl⟩, rfl⟩
      refine ⟨some ⟨n, t⟩, ⟨⟨hroot, hon⟩, hn⟩, ⟨hvalid.proper, hvalid.sorted, hvalid.wide⟩, ?_⟩
      show _ = t.footprint.toFinset
      simpa using hseen
    · rintro ⟨r, hr, hvalid, rfl⟩
      cases r with
      | none => exact absurd (hroot.symm.trans hr.on) (by simp)
      | some t =>
        obtain ⟨n, t⟩ := t
        have hpid : root = t.pid := Option.some.inj (hroot.symm.trans hr.on.1)
        refine ⟨_, _, ⟨n, t, PTree.levels_lt hbound hr.on.2 hr.nodup hvalid.wide, hpid.symm, hr.on.2,
          ⟨hvalid.proper, hvalid.sorted, hvalid.wide⟩, ⟨hr.nodup, by simp, rfl⟩, rfl⟩, ?_⟩
        simp [PRoot.footprint]

end DbLab.Btree
