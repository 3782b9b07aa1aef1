import DbLab.Btree.Validate

/-!
# Lookup in a stored tree

Reading a page of a stored tree gives its cells (`decodeLeaf_stored`, `decodeInternal_stored`), and
`get` finds the value of a key among the entries (`get_stored`). The tree under a page id is
determined by the pages (`PTree.On.unique`).
-/

namespace DbLab.Btree

open Checked

variable {p : Pager} {n : ℕ}

namespace PTree

/-- The entries of a stored leaf in the form the decoder gives them. -/
def storedCells (t : PTree 0) : List LeafEntry := t.cells.map PEntry.stored

/-- The children of a stored internal page in the form the decoder gives them. -/
def refs (t : PTree (n + 1)) : List ChildRef := t.children.map ref

end PTree

theorem asSlice_storedCells {es : List PEntry} :
    (es.map PEntry.stored).map (fun e => e.key.asSlice) = (es.map PEntry.entry).map Entry.key := by
  rw [List.map_map, List.map_map]
  exact List.map_congr_left fun e _ => Blob.asSlice_storedKey e.key

theorem leaf_keys_increasing {t : PTree 0} (hs : t.tree.Sorted) :
    StrictlyIncreasing ((t.cells.map PEntry.entry).map Entry.key) :=
  sortedBy_iff_isChain.1 hs

/-- Reading a stored leaf. -/
theorem decodeLeaf_stored (hp : p.poisoned = false) {t : PTree 0} (hon : t.On p.view)
    (hs : t.tree.Sorted) : ∃ page, p.readPage t.pid = .ok page ∧ page.kind = .leaf ∧
      List.Forall₂ (fun cell (e : PEntry) => encodeLeafCell e.stored = .ok cell) page.cells t.cells ∧
      p.decodeLeaf page none = .ok (t.storedCells, none) := by
  obtain ⟨⟨page, hview, hkind, -, hcells⟩, hons⟩ := hon
  refine ⟨page, Pager.readPage_eq_ok.2 ⟨hp, hview⟩, hkind, hcells, (decodeLeaf_eq_ok hp).2
    ⟨hkind, t.cells.map PEntry.header, ?_, ?_, ?_, rfl⟩⟩
  · rw [PTree.storedCells, List.map_map]; rfl
  · rw [List.forall₂_map_right_iff]
    exact forall₂_imp_right hcells fun cell e he henc => ⟨henc, (hons e he).2.small, (hons e he).1⟩
  · have hkeys := leaf_keys_increasing hs
    rw [List.map_map] at hkeys ⊢
    exact hkeys

/-- The separators of a stored internal page. -/
theorem refs_minKey {t : PTree (n + 1)} (hon : t.On p.view) :
    t.refs.map ChildRef.minKey = t.tree.children.map Tree.minKey := by
  show (t.children.map PTree.ref).map ChildRef.minKey = (t.children.map fun c => c.2.tree).map _
  rw [List.map_map, List.map_map]
  exact List.map_congr_left fun c hc => (hon.2 c hc).2.1

/-- Reading a stored internal page. -/
theorem decodeInternal_stored (hp : p.poisoned = false) {t : PTree (n + 1)} (hon : t.On p.view)
    (hproper : t.tree.Proper) (hs : t.tree.Sorted) :
    ∃ page, p.readPage t.pid = .ok page ∧ page.kind = .internal ∧
      List.Forall₂ PTree.InternalCell page.cells t.children ∧
      p.decodeInternal page none = .ok (t.refs, none) := by
  have hkeys := refs_minKey hon
  have hinc := @Tree.SortedChildren.minKeys _ t.tree.children hs hproper.2
  obtain ⟨⟨page, hview, hkind, hcells⟩, hons⟩ := hon
  refine ⟨page, Pager.readPage_eq_ok.2 ⟨hp, hview⟩, hkind, hcells, (decodeInternal_eq_ok hp).2
    ⟨hkind, t.children.map fun c => (c.1, c.2.pid), ?_, ?_, ?_, ?_, rfl⟩⟩
  · rw [PTree.refs, List.map_map]; rfl
  · rw [List.forall₂_map_right_iff]
    exact forall₂_imp_right hcells fun cell c hc henc =>
      ⟨henc, view_lt (hons c hc).2.2.read_mem, (hons c hc).1⟩
  · have hne : t.children ≠ [] := by
      intro hnil
      exact hproper.1 (by simp [PTree.tree, hnil])
    simpa using hne
  · rw [← hkeys, PTree.refs, List.map_map] at hinc
    rw [List.map_map]
    exact hinc

/-- The children of a stored internal page satisfy what the writer and the router check. -/
theorem validateChildRefs_refs (hp : p.poisoned = false) {t : PTree (n + 1)} (hon : t.On p.view)
    (hproper : t.tree.Proper) (hs : t.tree.Sorted) : validateChildRefs t.refs = .ok () := by
  obtain ⟨page, -, -, -, hdec⟩ := decodeInternal_stored hp hon hproper hs
  obtain ⟨-, ds, hrefs, -, -⟩ := (decodeInternal_eq_ok hp).1 hdec
  unfold Pager.decodeInternal at hdec
  simp only [throw_eq, guard_eq_ok, bind_eq_ok, Prod.exists, pure_eq, Except.ok.injEq,
    Prod.mk.injEq] at hdec
  obtain ⟨-, _, _, -, _, hvalid, rfl, -⟩ := hdec
  exact hvalid

/-- The children of a page around the one that a key is routed to. -/
structure PTree.Routed (key : Bytes) (t : PTree (n + 1)) (front : List (Blob × PTree n)) (c : Blob × PTree n)
    (back : List (Blob × PTree n)) : Prop where
  split : t.children = front ++ c :: back
  route : t.tree.route key = front.length
  left : ∀ e ∈ (front.map fun c => c.2.tree).flatMap Tree.entries, e.key < key
  right : ∀ e ∈ (back.map fun c => c.2.tree).flatMap Tree.entries, key < e.key

namespace PTree.Routed

variable {key : Bytes} {t : PTree (n + 1)} {front back : List (Blob × PTree n)} {c : Blob × PTree n}

theorem mem (h : Routed key t front c back) : c ∈ t.children := by simp [h.split]

theorem mem_tree (h : Routed key t front c back) : c.2.tree ∈ t.tree.children := List.mem_map_of_mem h.mem

theorem children (h : Routed key t front c back) :
    t.tree.children = (front.map fun c => c.2.tree) ++ c.2.tree :: (back.map fun c => c.2.tree) := by
  show (t.children.map fun c => c.2.tree) = _
  rw [h.split, List.map_append, List.map_cons]

theorem route_tree (h : Routed key t front c back) :
    t.tree.route key = (front.map fun c => c.2.tree).length := by
  rw [List.length_map]
  exact h.route

theorem entries (h : Routed key t front c back) :
    t.tree.entries = (front.map fun c => c.2.tree).flatMap Tree.entries ++
      (c.2.tree.entries ++ (back.map fun c => c.2.tree).flatMap Tree.entries) := by
  rw [Tree.entries_succ, h.children, List.flatMap_append, List.flatMap_cons]

/-- The entry of the key is in the routed child, if there is one. -/
theorem exists_key (h : Routed key t front c back) (hkey : ∃ e ∈ t.tree.entries, e.key = key) :
    ∃ e ∈ c.2.tree.entries, e.key = key := by
  obtain ⟨e, he, hekey⟩ := hkey
  rw [h.entries, List.mem_append, List.mem_append] at he
  rcases he with he | he | he
  · exact absurd hekey (h.left e he).ne
  · exact ⟨e, he, hekey⟩
  · exact absurd hekey (h.right e he).ne'

theorem lookupBy_entries (h : Routed key t front c back) :
    lookupBy Entry.key key t.tree.entries = lookupBy Entry.key key c.2.tree.entries := by
  rw [h.entries, lookupBy_append_right fun e he => (h.left e he).ne,
    lookupBy_append_left fun e he => (h.right e he).ne']

theorem upsertBy_entries {e : Entry} (h : Routed e.key t front c back) :
    upsertBy Entry.key e t.tree.entries = (front.map fun c => c.2.tree).flatMap Tree.entries ++
      (upsertBy Entry.key e c.2.tree.entries ++ (back.map fun c => c.2.tree).flatMap Tree.entries) := by
  rw [h.entries, upsertBy_append_right h.left, upsertBy_append_left h.right]

theorem removeBy_entries (h : Routed key t front c back) :
    removeBy Entry.key key t.tree.entries = (front.map fun c => c.2.tree).flatMap Tree.entries ++
      (removeBy Entry.key key c.2.tree.entries ++ (back.map fun c => c.2.tree).flatMap Tree.entries) := by
  rw [h.entries, removeBy_append, removeBy_append, removeBy_of_forall_ne fun e he => (h.left e he).ne,
    removeBy_of_forall_ne fun e he => (h.right e he).ne']

end PTree.Routed

/-- **Routing** in a stored internal page finds the child that the key belongs to. -/
theorem routeChild_stored (hp : p.poisoned = false) {t : PTree (n + 1)} (hon : t.On p.view)
    (hproper : t.tree.Proper) (hs : t.tree.Sorted) (key : Bytes) :
    ∃ front c back, PTree.Routed key t front c back ∧ routeChild t.refs key = .ok front.length ∧
      Pager.elementAt t.refs front.length = .ok (PTree.ref c) := by
  obtain ⟨front', u, back', hsplit, hidx, hfront, hback⟩ := Tree.route_split hproper hs key
  have hchildren : t.children.map (fun c => c.2.tree) = front' ++ u :: back' := hsplit
  obtain ⟨front, rest, hsplit', rfl, hrest⟩ := List.map_eq_append_iff.1 hchildren
  obtain ⟨c, back, rfl, rfl, rfl⟩ := List.map_eq_cons_iff.1 hrest
  rw [List.length_map] at hidx
  refine ⟨front, c, back, ⟨hsplit', hidx, hfront, hback⟩, ?_, ?_⟩
  · rw [routeChild, validateChildRefs_refs hp hon hproper hs, ok_bind, pure_eq, refs_minKey hon]
    exact congrArg Except.ok hidx
  · rw [Pager.elementAt, PTree.refs, hsplit', List.map_append, List.map_cons,
      List.getElem?_append_right (by simp)]
    simp

theorem loadValue_stored (hp : p.poisoned = false) {e : PEntry} {cell : Bytes} (hon : e.On p.view)
    (henc : encodeLeafCell e.stored = .ok cell) : p.loadValue e.stored.value = .ok e.value.bytes :=
  (loadValue_eq_ok hp (encodeLeafCell_bounded henc)).2 ⟨e.value, rfl, hon.2, rfl⟩

/-- The value that the entries give for a key. -/
def valueOf (key : Bytes) (es : List Entry) : Option Bytes :=
  (lookupBy Entry.key key es).map Entry.value

/-- The binary search in a stored leaf. -/
theorem search_leaf {t : PTree 0} (hs : t.tree.Sorted) (key : Bytes) :
    (∃ front e back, t.cells = front ++ e :: back ∧ e.key.bytes = key ∧
        binarySearch (t.storedCells.map fun e => e.key.asSlice) key = .inl front.length) ∨
    (∃ i, binarySearch (t.storedCells.map fun e => e.key.asSlice) key = .inr i) ∧
      lookupBy Entry.key key t.tree.entries = none := by
  have hinc := leaf_keys_increasing hs
  rw [PTree.storedCells, asSlice_storedCells]
  cases hb : binarySearch ((t.cells.map PEntry.entry).map Entry.key) key with
  | inl i =>
    obtain ⟨small, large, hkeys, rfl⟩ := (binarySearch_inl hinc).1 hb
    rw [List.map_map] at hkeys
    obtain ⟨front, rest, hsplit, rfl, hrest⟩ := List.map_eq_append_iff.1 hkeys
    obtain ⟨e, back, rfl, rfl, rfl⟩ := List.map_eq_cons_iff.1 hrest
    exact .inl ⟨front, e, back, hsplit, rfl, by rw [List.length_map]⟩
  | inr i =>
    refine .inr ⟨⟨i, rfl⟩, lookupBy_eq_none.2 fun e he hek => ?_⟩
    obtain ⟨small, large, hkeys, -, hsmall, hlarge⟩ := binarySearch_inr hinc hb
    have hmem : e.key ∈ small ++ large := hkeys ▸ List.mem_map_of_mem he
    rcases List.mem_append.1 hmem with h | h
    · exact absurd (hsmall _ h) (by rw [hek]; exact lt_irrefl _)
    · exact absurd (hlarge _ h) (by rw [hek]; exact lt_irrefl _)

theorem getFrom_stored (hp : p.poisoned = false) {key : Bytes} {levels : ℕ} :
    ∀ {n : ℕ} {t : PTree n}, t.On p.view → t.tree.Proper → t.tree.Sorted → n < levels →
      p.getFrom key levels t.pid = .ok (valueOf key t.tree.entries) := by
  induction levels with
  | zero => exact fun {n} _ _ _ _ hn => absurd hn (Nat.not_lt_zero n)
  | succ levels ih =>
    intro n t hon hproper hs hn
    cases n with
    | zero =>
      obtain ⟨page, hread, hkind, hcells, hdec⟩ := decodeLeaf_stored hp hon hs
      rw [Pager.getFrom, hread, ok_bind, hkind]
      simp only [hdec, ok_bind]
      rcases search_leaf hs key with ⟨front, e, back, hsplit, hkey, hb⟩ | ⟨⟨i, hb⟩, hnone⟩
      · have he : e ∈ t.cells := by simp [hsplit]
        obtain ⟨cell, -, henc⟩ := exists_of_mem_right hcells he
        have hat : Pager.elementAt t.storedCells front.length = .ok e.stored := by
          rw [Pager.elementAt, PTree.storedCells, hsplit, List.map_append, List.map_cons,
            List.getElem?_append_right (by simp)]
          simp
        have hfind : lookupBy Entry.key key t.tree.entries = some e.entry :=
          (lookupBy_eq_some hs).2 ⟨List.mem_map_of_mem he, hkey⟩
        simp only [hb, hat, ok_bind, loadValue_stored hp (hon.2 e he) henc, valueOf, hfind]
        rfl
      · simp only [hb, valueOf, hnone]
        rfl
    | succ n =>
      obtain ⟨page, hread, hkind, -, hdec⟩ := decodeInternal_stored hp hon hproper hs
      obtain ⟨front, c, back, hrouted, hroute, hat⟩ := routeChild_stored hp hon hproper hs key
      have hrec := ih (hon.2 c hrouted.mem).2.2 (hproper.2 _ hrouted.mem_tree)
        (Tree.SortedChildren.sorted hs hrouted.mem_tree) (Nat.lt_of_succ_lt_succ hn)
      rw [Pager.getFrom, hread, ok_bind, hkind]
      simp only [hdec, hroute, hat, ok_bind, PTree.ref, hrec]
      rw [valueOf, valueOf, hrouted.lookupBy_entries]

/-- **Lookup**: `get` gives the value that the entries of the stored tree have for the key. -/
theorem get_stored (hp : p.poisoned = false)
    (hbound : p.active.pageCount * pageSize < u64Bound) {r : PRoot} (hr : p.Stores r)
    (hvalid : r.tree.Valid) {key : Bytes} (hkey : key.length ≤ maxTreeKeyBytes) :
    p.get key = .ok (valueOf key r.tree.entries) := by
  rw [Pager.get, validateKey, if_neg (not_lt.2 hkey), ok_bind]
  cases r with
  | none =>
    have hroot : p.rootPageId = none := hr.on
    rw [hroot]
    rfl
  | some t =>
    obtain ⟨n, t⟩ := t
    obtain ⟨hroot, hon⟩ := hr.on
    rw [hroot]
    exact getFrom_stored hp hon hvalid.proper hvalid.sorted
      (PTree.levels_lt hbound hon hr.nodup hvalid.wide)

/-! ### The tree under a page is unique -/

/-- The blob behind a stored key is determined by the pages. -/
theorem Blob.On.eq_of_storedKey {read : ℕ → Option Page} {b b' : Blob} (hb : b.On read)
    (hb' : b'.On read) (h : b.storedKey = b'.storedKey) : b = b' := by
  obtain ⟨bytes, chain⟩ := b
  obtain ⟨bytes', chain'⟩ := b'
  cases chain with
  | nil =>
    cases chain' with
    | nil => cases h; rfl
    | cons id ids => cases h
  | cons id ids =>
    cases chain' with
    | nil => cases h
    | cons id' ids' =>
      cases h
      obtain ⟨-, first, rest, -, hchain⟩ := hb.resolve_left (List.cons_ne_nil _ _)
      obtain ⟨-, first', rest', -, hchain'⟩ := hb'.resolve_left (List.cons_ne_nil _ _)
      have hids : id :: ids = id :: ids' := (hchain.unique hchain').1
      rw [hids]

theorem Blob.On.eq_of_storedValue {read : ℕ → Option Page} {b b' : Blob} (hb : b.On read)
    (hb' : b'.On read) (h : b.storedValue = b'.storedValue) : b = b' := by
  obtain ⟨bytes, chain⟩ := b
  obtain ⟨bytes', chain'⟩ := b'
  cases chain with
  | nil =>
    cases chain' with
    | nil => cases h; rfl
    | cons id ids => cases h
  | cons id ids =>
    cases chain' with
    | nil => cases h
    | cons id' ids' =>
      obtain ⟨-, rfl⟩ := StoredValue.overflow.inj h
      obtain ⟨-, first, rest, hc, hchain⟩ := hb.resolve_left (List.cons_ne_nil _ _)
      obtain ⟨-, first', rest', hc', hchain'⟩ := hb'.resolve_left (List.cons_ne_nil _ _)
      obtain ⟨hids, hchunks⟩ := hchain.unique hchain'
      obtain ⟨rfl, rfl⟩ := List.cons.inj hchunks
      have hids' : id :: ids = id :: ids' := hids
      have hbytes : bytes = bytes' := hc.flatten.trans hc'.flatten.symm
      rw [hids', hbytes]

/-- A leaf cell belongs to one entry. -/
theorem leafCell_unique {cell : Bytes} {e e' : PEntry} (h : encodeLeafCell e.stored = .ok cell)
    (h' : encodeLeafCell e'.stored = .ok cell) (he : e.On p.view) (he' : e'.On p.view) : e = e' := by
  have hp : ({ p with poisoned := false } : Pager).poisoned = false := rfl
  have hdec := (@decodeLeafCell_eq_ok _ none none hp 0 0 _ _).2
    ⟨e.key, rfl, h, he.2.small, he.1, rfl⟩
  have hdec' := (@decodeLeafCell_eq_ok _ none none hp 0 0 _ _).2
    ⟨e'.key, rfl, h', he'.2.small, he'.1, rfl⟩
  obtain ⟨hkey, hvalue⟩ := LeafEntry.mk.inj (Prod.mk.inj (Except.ok.inj (hdec.symm.trans hdec'))).1
  obtain ⟨key, value⟩ := e
  obtain ⟨key', value'⟩ := e'
  rw [PEntry.mk.injEq]
  exact ⟨he.1.eq_of_storedKey he'.1 hkey, he.2.eq_of_storedValue he'.2 hvalue⟩

/-- An internal cell belongs to one separator and one child page. -/
theorem internalCell_unique {cell : Bytes} {b b' : Blob} {id id' : ℕ} (hid : id < 256 ^ 8)
    (hid' : id' < 256 ^ 8) (h : encodeInternalCellStored b.storedKey id = .ok cell)
    (h' : encodeInternalCellStored b'.storedKey id' = .ok cell) (hb : b.On p.view)
    (hb' : b'.On p.view) : b = b' ∧ id = id' := by
  have hp : ({ p with poisoned := false } : Pager).poisoned = false := rfl
  obtain ⟨hlen, -, hcell⟩ := encodeInternalCellStored_eq_ok.1 h
  obtain ⟨hlen', -, hcell'⟩ := encodeInternalCellStored_eq_ok.1 h'
  rw [Blob.asSlice_storedKey] at hlen hlen'
  obtain ⟨hbad, hfield, hpay⟩ := Blob.field_ok hb hlen
  obtain ⟨-, hfield', -⟩ := Blob.field_ok hb' hlen'
  obtain ⟨h₁, h₂, h₃⟩ := internalCell_parts hfield hid b.storedKey.payload
  obtain ⟨h₁', h₂', h₃'⟩ := internalCell_parts hfield' hid' b'.storedKey.payload
  rw [← hcell] at h₁ h₂ h₃
  rw [← hcell'] at h₁' h₂' h₃'
  have hload := (@loadKey_eq_ok _ none none hp _ _ _ hbad hfield hpay).2
    ⟨b, rfl, rfl, rfl, hb, rfl⟩
  have hload' := (@loadKey_eq_ok _ none none hp _ _ _ hbad hfield hpay).2
    ⟨b', rfl, h₁'.symm.trans h₁, h₃'.symm.trans h₃, hb', rfl⟩
  have hkey := (Prod.mk.inj (Except.ok.inj (hload.symm.trans hload'))).1
  exact ⟨hb.eq_of_storedKey hb' hkey, h₂.symm.trans h₂'⟩

/-- **The tree under a page** is determined by the pages. -/
theorem PTree.On.unique : ∀ {n : ℕ} {t : PTree n} {m : ℕ} {t' : PTree m}, t.tree.Proper →
    t.On p.view → t'.On p.view → t.pid = t'.pid → (⟨n, t⟩ : Σ n, PTree n) = ⟨m, t'⟩
  | 0, t, 0, t', _, ⟨⟨page, hview, _, _, hcells⟩, hons⟩, ⟨⟨page', hview', _, _, hcells'⟩, hons'⟩,
      hpid => by
    rw [← hpid] at hview'
    obtain rfl : page = page' := Option.some.inj (hview.symm.trans hview')
    have hitems : t.cells.map id = t'.cells.map id :=
      map_eq_map_of_forall₂ hcells hcells' fun _ e he e' he' h h' =>
        leafCell_unique h h' (hons e he) (hons' e' he')
    rw [List.map_id, List.map_id] at hitems
    rw [← leaf_cells t, ← leaf_cells t', hpid, hitems]
  | n + 1, t, m + 1, t', hproper, ⟨⟨page, hview, _, hcells⟩, hons⟩,
      ⟨⟨page', hview', _, hcells'⟩, hons'⟩, hpid => by
    rw [← hpid] at hview'
    obtain rfl : page = page' := Option.some.inj (hview.symm.trans hview')
    -- the children with their heights agree
    have hitems : (t.children.map fun c => (c.1, (⟨n, c.2⟩ : Σ n, PTree n)))
        = t'.children.map fun c => (c.1, (⟨m, c.2⟩ : Σ n, PTree n)) := by
      refine map_eq_map_of_forall₂ hcells hcells' fun cell c hc c' hc' h h' => ?_
      obtain ⟨hkey, -, hchild⟩ := hons c hc
      obtain ⟨hkey', -, hchild'⟩ := hons' c' hc'
      obtain ⟨hblob, hid⟩ := internalCell_unique (view_lt hchild.read_mem)
        (view_lt hchild'.read_mem) h h' hkey hkey'
      rw [hblob, PTree.On.unique (hproper.2 _ (List.mem_map_of_mem hc)) hchild hchild' hid]
    have hne : t.children ≠ [] := by
      intro hnil
      exact hproper.1 (by simp [tree, hnil])
    obtain ⟨c, cs, hc⟩ := List.exists_cons_of_ne_nil hne
    obtain rfl : n = m := by
      rw [hc, List.map_cons, eq_comm, List.map_eq_cons_iff] at hitems
      obtain ⟨c', cs', -, hcc', -⟩ := hitems
      exact (Sigma.mk.inj (Prod.mk.inj hcc').2).1.symm
    have hinj : Function.Injective fun c : Blob × PTree n => (c.1, (⟨n, c.2⟩ : Σ n, PTree n)) := by
      rintro ⟨b, c⟩ ⟨b', c'⟩ heq
      obtain ⟨hb, hc⟩ := Prod.mk.inj heq
      rw [Prod.mk.injEq]
      exact ⟨hb, eq_of_heq (Sigma.mk.inj hc).2⟩
    rw [← node_children t, ← node_children t', hpid, hinj.list_map hitems]
  | 0, _, _ + 1, _, _, ⟨⟨page, hview, hkind, _⟩, _⟩, ⟨⟨page', hview', hkind', _⟩, _⟩, hpid => by
    rw [← hpid] at hview'
    obtain rfl : page = page' := Option.some.inj (hview.symm.trans hview')
    rw [hkind] at hkind'
    cases hkind'
  | _ + 1, _, 0, _, _, ⟨⟨page, hview, hkind, _⟩, _⟩, ⟨⟨page', hview', hkind', _⟩, _⟩, hpid => by
    rw [← hpid] at hview'
    obtain rfl : page = page' := Option.some.inj (hview.symm.trans hview')
    rw [hkind] at hkind'
    cases hkind'

/-- **The stored root** is determined by the pager. -/
theorem Pager.Stores.unique {r r' : PRoot} (h : p.Stores r) (h' : p.Stores r')
    (hproper : r.tree.Proper) : r = r' := by
  cases r with
  | none =>
    cases r' with
    | none => rfl
    | some t' => exact absurd ((h.on : p.rootPageId = none).symm.trans h'.on.1) (by simp)
  | some t =>
    cases r' with
    | none => exact absurd ((h'.on : p.rootPageId = none).symm.trans h.on.1) (by simp)
    | some t' =>
      have hpid := Option.some.inj (h.on.1.symm.trans h'.on.1)
      exact congrArg some (PTree.On.unique hproper h.on.2 h'.on.2 hpid)

end DbLab.Btree
