import DbLab.Btree.Shrink
import DbLab.Btree.Write

/-!
# Writing a level of pages

The leaf and internal writers put the cells of a page, or of two pages behind the chosen cut, on
fresh pages. The parts are those of `divide`; a writer that stops without a fault stops because
there is no division.
-/

namespace DbLab.Btree

open Checked

/-- The reference by which the parent of a stored tree points to it. -/
def PTree.refOf {n : ℕ} (t : PTree n) : ChildRef := ⟨t.tree.minKey, t.pid⟩

theorem PTree.refs_eq {read : ℕ → Option Page} {n : ℕ} {t : PTree (n + 1)} (hon : t.On read) :
    t.refs = (t.children.map Prod.snd).map PTree.refOf := by
  rw [PTree.refs, List.map_map]
  refine List.map_congr_left fun c hc => ?_
  rw [PTree.ref, (hon.2 c hc).2.1]
  rfl

/-- The test for an underfull page gives what it says of the tree. -/
def PTree.Measured {n : ℕ} (t : PTree n) (s : BPlusTree) : Prop :=
  ∃ page, s.pager.view t.pid = some page ∧ pageIsUnderfull page = .ok t.tree.underfull

theorem usedBytes_eq_sum (cells : List Bytes) : usedBytes cells = (cellSizes cells).sum := rfl

theorem cellsFit_iff {cells : List Bytes} :
    cellsFit cells = true ↔ (cellSizes cells).sum ≤ pageBodyCapacity := by
  rw [cellsFit, decide_eq_true_iff, usedBytes_eq_sum]

/-- Lists with equal values have equal values in lock step. -/
theorem eq_of_mem_zip {α β γ : Type} {f : α → γ} {g : β → γ} {l : List α} {m : List β}
    (h : l.map f = m.map g) : ∀ p ∈ l.zip m, f p.1 = g p.2 := by
  induction l generalizing m with
  | nil => simp
  | cons a l ih =>
    cases m with
    | nil => simp
    | cons b m =>
      rw [List.map_cons, List.map_cons, List.cons.injEq] at h
      rw [List.zip_cons_cons]
      exact List.forall_mem_cons.2 ⟨h.1, ih h.2⟩

theorem map_eq_of_forall₂ {α β γ : Type} {R : α → β → Prop} {f : α → γ} {g : β → γ} {l : List α}
    {m : List β} (h : List.Forall₂ R l m) (hR : ∀ a b, R a b → f a = g b) : l.map f = m.map g := by
  induction h with
  | nil => rfl
  | cons hab _ ih => rw [List.map_cons, List.map_cons, hR _ _ hab, ih]

/-! ### Cells and their sizes -/

/-- The cell of an entry. -/
def LeafCell (cell : Bytes) (e : PEntry) : Prop := encodeLeafCell e.stored = .ok cell

theorem payload_storedValue (b : Blob) :
    b.storedValue.payload.length = if b.inline then b.bytes.length else overflowValueRefLen := by
  obtain ⟨bytes, chain⟩ := b
  cases chain with
  | nil => rfl
  | cons id ids => exact leBytes_length 8 id

theorem leafCell_size {cell : Bytes} {e : PEntry} (h : LeafCell cell e) :
    slotLen + cell.length = e.entry.size := by
  obtain ⟨-, vf, -, rfl⟩ := encodeLeafCell_eq_ok.1 h
  have hkey : e.stored.key.payload.length = keyCost e.key.bytes.length e.key.inline := by
    rw [StoredKey.payload_length]
    exact BPlusTree.encodedPayloadLen_storedKey e.key
  have hvalue : e.stored.value.payload.length = _ := payload_storedValue e.value
  rw [Entry.size, List.length_append, List.length_append, List.length_append, leBytes_length,
    leBytes_length, hkey, hvalue]
  rfl

theorem leafCell_ne_nil {cell : Bytes} {e : PEntry} (h : LeafCell cell e) : cell ≠ [] := by
  obtain ⟨-, vf, -, rfl⟩ := encodeLeafCell_eq_ok.1 h
  intro hnil
  have := congrArg List.length hnil
  simp at this

theorem internalCell_size {cell : Bytes} {b : Blob} {id : ℕ}
    (h : encodeInternalCellStored b.storedKey id = .ok cell)
    (hinline : b.inline = decide (b.bytes.length ≤ maxInlineKeyBytes)) :
    slotLen + cell.length = separatorSize b.bytes := by
  obtain ⟨-, -, rfl⟩ := encodeInternalCellStored_eq_ok.1 h
  have hkey : b.storedKey.payload.length = keyCost b.bytes.length b.inline := by
    rw [StoredKey.payload_length]
    exact BPlusTree.encodedPayloadLen_storedKey b
  rw [separatorSize, ← hinline, List.length_append, List.length_append, leBytes_length,
    leBytes_length, hkey, internalCellHeaderLen]

theorem internalCell_ne_nil {cell : Bytes} {key : StoredKey} {id : ℕ}
    (h : encodeInternalCellStored key id = .ok cell) : cell ≠ [] := by
  obtain ⟨-, -, rfl⟩ := encodeInternalCellStored_eq_ok.1 h
  intro hnil
  have := congrArg List.length hnil
  simp at this

/-- The preview of an internal cell has the size of the stored cell. -/
theorem encodeInternalCell_ok {child : ChildRef} (hkey : child.minKey.length ≤ maxTreeKeyBytes)
    (hid : superblockCount ≤ child.pageId) :
    ∃ cell, encodeInternalCell child = .ok cell ∧ slotLen + cell.length = separatorSize child.minKey := by
  have hlong : ¬ 65535 < child.minKey.length := by
    rw [maxTreeKeyBytes_eq] at hkey
    omega
  unfold encodeInternalCell validateKey
  rw [if_neg (not_lt.2 hkey), ok_bind, if_neg (not_lt.2 hid), if_neg hlong]
  by_cases hinline : maxInlineKeyBytes < child.minKey.length
  · rw [if_pos hinline]
    refine ⟨_, rfl, ?_⟩
    have hflag : decide (child.minKey.length ≤ maxInlineKeyBytes) = false :=
      decide_eq_false (not_le.2 hinline)
    rw [separatorSize, hflag]
    simp [keyCost]
  · rw [if_neg hinline]
    refine ⟨_, rfl, ?_⟩
    have hflag : decide (child.minKey.length ≤ maxInlineKeyBytes) = true :=
      decide_eq_true (not_lt.1 hinline)
    rw [separatorSize, hflag]
    simp only [List.length_append, leBytes_length, keyCost, internalCellHeaderLen, if_true]

/-- The cells of a stored leaf have the sizes of its entries. -/
theorem usedBytes_leaf {cells : List Bytes} {es : List PEntry} (h : List.Forall₂ LeafCell cells es) :
    usedBytes cells = ((es.map PEntry.entry).map Entry.size).sum := by
  have hsizes : cellSizes cells = (es.map PEntry.entry).map Entry.size := by
    rw [List.map_map]
    exact map_eq_of_forall₂ h fun _ _ hcell => leafCell_size hcell
  rw [usedBytes_eq_sum, hsizes]

theorem PTree.On.measured {s : BPlusTree} {t : PTree 0} (h : t.On s.pager.view) : t.Measured s := by
  obtain ⟨⟨page, hview, hkind, -, hcells⟩, -⟩ := h
  refine ⟨page, hview, ?_⟩
  rw [pageIsUnderfull, hkind]
  dsimp only
  rw [usedBytes_leaf hcells]
  rfl

theorem PTree.On.measured_of_zero {n : ℕ} {s : BPlusTree} {t : PTree n} (h : t.On s.pager.view)
    (hn : n = 0) : t.Measured s := by
  subst hn
  exact h.measured

/-- All keys of a stored tree are in the limit. -/
theorem PTree.On.key_le {read : ℕ → Option Page} : ∀ {n : ℕ} {t : PTree n}, t.On read →
    ∀ e ∈ t.tree.entries, e.key.length ≤ maxTreeKeyBytes
  | 0, t, ⟨⟨page, _, _, _, hcells⟩, _⟩, e, he => by
    obtain ⟨pe, hpe, rfl⟩ := List.mem_map.1 (show e ∈ t.cells.map PEntry.entry from he)
    obtain ⟨cell, -, henc⟩ := exists_of_mem_right hcells hpe
    have hlen := (encodeLeafCell_eq_ok.1 henc).1
    rwa [PEntry.stored, Blob.asSlice_storedKey] at hlen
  | n + 1, t, ⟨_, hons⟩, e, he => by
    obtain ⟨c, hc, he⟩ := List.mem_flatMap.1
      (show e ∈ (t.children.map fun c => c.2.tree).flatMap Tree.entries from he)
    obtain ⟨pc, hpc, rfl⟩ := List.mem_map.1 hc
    exact (hons pc hpc).2.2.key_le e he

theorem PTree.On.minKey_le {read : ℕ → Option Page} {n : ℕ} {t : PTree n} (h : t.On read)
    (hproper : t.tree.Proper) : t.tree.minKey.length ≤ maxTreeKeyBytes := by
  obtain ⟨e, he, hmin⟩ := hproper.exists_minKey
  rw [← hmin]
  exact h.key_le e he

namespace BPlusTree

variable {s s' s'' : BPlusTree} {n m : ℕ} {given given' : Multiset ℕ}

/-! ### What a writer leaves behind -/

/-- The trees `ts` were written between `s` and `s'` over things that take the pages `given`. -/
def Writes (s : BPlusTree) (given : Multiset ℕ) (ts : List (PTree n)) (s' : BPlusTree) : Prop :=
  ∃ ids, s.Takes ids s' ∧ (∀ t ∈ ts, t.Kept s') ∧ (ts.map PTree.footprint).sum ≤ given + ids

theorem Writes.append {ts ts' : List (PTree n)} (h : Writes s given ts s')
    (h' : Writes s' given' ts' s'') : Writes s (given + given') (ts ++ ts') s'' := by
  obtain ⟨ids, htakes, hkept, hsum⟩ := h
  obtain ⟨ids', htakes', hkept', hsum'⟩ := h'
  refine ⟨ids + ids', htakes.trans htakes', fun t ht => ?_, ?_⟩
  · rcases List.mem_append.1 ht with ht | ht
    · exact (hkept t ht).mono htakes'
    · exact hkept' t ht
  · rw [List.map_append, List.sum_append]
    calc (ts.map PTree.footprint).sum + (ts'.map PTree.footprint).sum
        ≤ (given + ids) + (given' + ids') := add_le_add hsum hsum'
      _ = given + given' + (ids + ids') := add_add_add_comm ..

/-- Trees that are written over other trees stand for them. -/
theorem Writes.over {ts : List (PTree n)} {us : List (PTree m)} (h : Writes s given ts s')
    (h' : Writes s' (given' + (ts.map PTree.footprint).sum) us s'') :
    Writes s (given' + given) us s'' := by
  obtain ⟨ids, htakes, hkept, hsum⟩ := h
  obtain ⟨ids', htakes', hkept', hsum'⟩ := h'
  refine ⟨ids + ids', htakes.trans htakes', hkept', hsum'.trans ?_⟩
  calc given' + (ts.map PTree.footprint).sum + ids'
      ≤ given' + (given + ids) + ids' := by gcongr
    _ = given' + given + (ids + ids') := by rw [add_assoc, add_assoc, add_assoc]

theorem Writes.mono {ts : List (PTree n)} (h : Writes s given ts s') (hle : given ≤ given') :
    Writes s given' ts s' := by
  obtain ⟨ids, htakes, hkept, hsum⟩ := h
  exact ⟨ids, htakes, hkept, hsum.trans (by gcongr)⟩

theorem Writes.ready {ts : List (PTree n)} (h : Writes s given ts s') : s'.Ready := by
  obtain ⟨ids, htakes, -⟩ := h
  exact htakes.ready

theorem Writes.wp {α : Type} {ts : List (PTree n)} {x : TreeProg α} {Q : α → BPlusTree → Prop}
    {why : Prop} (h : Writes s given ts s') (hx : Prog.wp x Q (Stops why s') s') :
    Prog.wp x Q (Stops why s) s' := by
  obtain ⟨ids, htakes, -⟩ := h
  exact htakes.wp hx

/-! ### Leaves -/

/-- What a leaf level is written from. -/
structure LeafInput (s : BPlusTree) (es : List PEntry) : Prop where
  ne : es ≠ []
  kept : ∀ e ∈ es, e.Kept s
  encodes : ∀ e ∈ es, ∃ cell, LeafCell cell e

theorem LeafInput.cells {es : List PEntry} (h : LeafInput s es) :
    ∃ cells, (es.map PEntry.stored).mapM encodeLeafCell = .ok cells ∧
      List.Forall₂ LeafCell cells es ∧ cellSizes cells = (es.map PEntry.entry).map Entry.size := by
  have hcells : ∃ cells, List.Forall₂ LeafCell cells es := by
    have henc := h.encodes
    clear h
    induction es with
    | nil => exact ⟨[], .nil⟩
    | cons e es ih =>
      obtain ⟨⟨cell, hcell⟩, henc⟩ := List.forall_mem_cons.1 henc
      obtain ⟨cells, hcells⟩ := ih henc
      exact ⟨cell :: cells, .cons hcell hcells⟩
  obtain ⟨cells, hcells⟩ := hcells
  refine ⟨cells, mapM_eq_ok.2 ?_, hcells, ?_⟩
  · rw [List.forall₂_map_left_iff]
    exact hcells.flip
  · rw [List.map_map]
    exact map_eq_of_forall₂ hcells fun _ _ hc => leafCell_size hc

theorem LeafInput.mono {es es' : List PEntry} {ids : Multiset ℕ} (h : LeafInput s es)
    (ht : s.Takes ids s') (hne : es' ≠ []) (hsub : es' ⊆ es) : LeafInput s' es' :=
  ⟨hne, fun e he => (h.kept e (hsub he)).mono ht, fun e he => h.encodes e (hsub he)⟩

theorem zero_link (h : s.Ready) :
    rootNone < s.pager.active.pageCount ∧ rootNone ∉ s.reusablePages := by
  have hcount := s.pager.active.count_ok
  rw [superblockCount_eq] at hcount
  refine ⟨by rw [rootNone_eq]; omega, fun hmem => ?_⟩
  have := (h.range _ hmem).1
  simp at this

theorem commitLeafWithCells_spec (h : s.Ready) {es : List PEntry} {cells : List Bytes}
    (hin : LeafInput s es) (hcells : List.Forall₂ LeafCell cells es)
    (hfit : (cellSizes cells).sum ≤ pageBodyCapacity) :
    Prog.wp (commitLeafWithCells (es.map PEntry.stored) cells)
      (fun ref s' => ∃ t : PTree 0, ref = t.refOf ∧ t.cells = es ∧
        Writes s (es.map PEntry.pages).sum [t] s')
      (s.Stops False) s := by
  obtain ⟨first, rest, rfl⟩ := List.exists_cons_of_ne_nil hin.ne
  have hne : ∀ cell ∈ cells, cell ≠ [] := by
    intro cell hcell
    obtain ⟨e, -, he⟩ := exists_of_mem_right hcells.flip hcell
    exact leafCell_ne_nil he
  rw [List.map_cons, commitLeafWithCells, Prog.wp_bind]
  refine Prog.wp_mono (@writeTreePage_spec _ h _ cells _ _ (zero_link h).1 (zero_link h).2 ?_) ?_
    fun _ _ he => he
  · exact fun page hkind hempty hlink hv _ => fills_insertCells hne hfit hkind hempty hlink hv
  rintro id s' ⟨htakes, page, hview, hkind, rfl, hlink⟩
  refine ⟨PTree.leaf id (first :: rest), ?_, rfl, {id}, htakes, ?_, ?_⟩
  · show (⟨first.stored.key.asSlice, id⟩ : ChildRef) = ⟨_, id⟩
    rw [PEntry.stored, Blob.asSlice_storedKey]
    rfl
  · rw [List.forall_mem_singleton]
    refine ⟨⟨⟨page, hview, hkind, hlink, hcells⟩, fun e he => ?_⟩, fun x hx => ?_⟩
    · have hkept := (hin.kept e he).mono htakes
      exact ⟨hkept.1.1, hkept.2.1⟩
    · rw [PTree.footprint_zero, Multiset.mem_add, Multiset.mem_singleton] at hx
      rcases hx with rfl | hx
      · exact (htakes.taken x (by simp)).1
      · obtain ⟨e, he, hx⟩ := PTree.mem_sum_map.1 hx
        have hkept := (hin.kept e he).mono htakes
        rw [PEntry.pages, Multiset.mem_add, Multiset.mem_coe, Multiset.mem_coe] at hx
        exact hx.elim (hkept.1.2 x) (hkept.2.2 x)
  · rw [List.map_singleton, List.sum_singleton, PTree.footprint_zero, add_comm]
    rfl

/-- Source `commit_leaf` fails only for entries that do not fit in a page. -/
theorem commitLeaf_spec (h : s.Ready) {es : List PEntry} (hin : LeafInput s es) :
    Prog.wp (commitLeaf (es.map PEntry.stored))
      (fun ref s' => ∃ t : PTree 0, ref = t.refOf ∧ t.cells = es ∧
        Writes s (es.map PEntry.pages).sum [t] s')
      (s.Stops (pageBodyCapacity < ((es.map PEntry.entry).map Entry.size).sum)) s := by
  obtain ⟨cells, hmap, hcells, hsizes⟩ := hin.cells
  rw [commitLeaf, hmap]
  simp only [Prog.wp_bind, Prog.wp_ofExcept, Except.ok.injEq, forall_eq', reduceCtorEq,
    false_implies, implies_true, and_true, cellsFit_iff]
  by_cases hfit : (cellSizes cells).sum ≤ pageBodyCapacity
  · rw [if_neg (not_not.2 hfit)]
    exact Prog.wp_mono (commitLeafWithCells_spec h hin hcells hfit) (fun _ _ hq => hq)
      fun _ _ he => he.imp False.elim
  · rw [if_pos hfit]
    exact h.wp_throw (hsizes ▸ not_le.1 hfit)

/-- Two leaves for the entries before and behind a cut. -/
theorem commitLeaves_spec (h : s.Ready) {es : List PEntry} (hin : LeafInput s es) {k : ℕ}
    (hk1 : 1 ≤ k) (hk2 : k < es.length) :
    Prog.wp (do
      let left ← commitLeaf ((es.map PEntry.stored).take k)
      let right ← commitLeaf ((es.map PEntry.stored).drop k)
      pure [left, right])
      (fun refs s' => ∃ ts : List (PTree 0), refs = ts.map PTree.refOf ∧
        ts.map PTree.cells = [es.take k, es.drop k] ∧ Writes s (es.map PEntry.pages).sum ts s')
      (s.Stops (¬ CutFits ((es.map PEntry.entry).map Entry.size) k)) s := by
  have htake : es.take k ≠ [] := by
    rw [ne_eq, List.take_eq_nil_iff]
    rintro (h0 | h0)
    · omega
    · rw [h0] at hk2; simp at hk2
  have hdrop : es.drop k ≠ [] := by
    rw [ne_eq, List.drop_eq_nil_iff]
    omega
  simp only [Prog.wp_bind, Prog.wp_pure]
  rw [← List.map_take, ← List.map_drop]
  refine Prog.wp_mono (commitLeaf_spec h (hin.mono h.takes htake (List.take_subset k es)))
    ?_ fun _ _ he => he.imp fun hlt hcut => ?_
  · rintro _ s₁ ⟨t₁, rfl, ht₁, hwrites₁⟩
    obtain ⟨ids, htakes, -⟩ := id hwrites₁
    refine hwrites₁.wp (Prog.wp_mono (commitLeaf_spec hwrites₁.ready
      (hin.mono htakes hdrop (List.drop_subset k es))) ?_ fun _ _ he => he.imp fun hlt hcut => ?_)
    · rintro _ s₂ ⟨t₂, rfl, ht₂, hwrites₂⟩
      refine ⟨[t₁, t₂], rfl, by rw [← ht₁, ← ht₂]; rfl, ?_⟩
      have hsum : (es.map PEntry.pages).sum
          = ((es.take k).map PEntry.pages).sum + ((es.drop k).map PEntry.pages).sum := by
        rw [← List.sum_append, ← List.map_append, List.take_append_drop]
      rw [hsum]
      exact hwrites₁.append hwrites₂
    · rw [List.map_drop, List.map_drop] at hlt
      exact absurd hcut.2 (not_le.2 hlt)
  · rw [List.map_take, List.map_take] at hlt
    exact absurd hcut.1 (not_le.2 hlt)

/-- Entries are written into one leaf by `one`, or into two behind the chosen cut. -/
theorem commitLeafDivided_spec (h : s.Ready) {es : List PEntry} (hin : LeafInput s es) {cells : List Bytes}
    (hsizes : cellSizes cells = (es.map PEntry.entry).map Entry.size) {one : TreeProg ChildRef} {e : BtreeError}
    (hone : ((es.map PEntry.entry).map Entry.size).sum ≤ pageBodyCapacity →
      Prog.wp one (fun ref s' => ∃ t : PTree 0, ref = t.refOf ∧ t.cells = es ∧
        Writes s (es.map PEntry.pages).sum [t] s') (s.Stops False) s) :
    Prog.wp (if cellsFit cells then do
        let child ← one
        pure [child]
      else
        match chooseSplit cells with
        | none => Prog.throw e
        | some split => do
          let left ← commitLeaf ((es.map PEntry.stored).take split)
          let right ← commitLeaf ((es.map PEntry.stored).drop split)
          pure [left, right])
      (fun refs s' => ∃ ts : List (PTree 0), refs = ts.map PTree.refOf ∧
        (ts.map PTree.cells).flatten = es ∧ (∀ t ∈ ts, t.cells ≠ []) ∧
        divide Entry.size (es.map PEntry.entry) = some (ts.map fun t => t.tree.cells) ∧
        Writes s (es.map PEntry.pages).sum ts s')
      (s.Stops (divide Entry.size (es.map PEntry.entry) = none)) s := by
  simp only [cellsFit_iff, chooseSplit, hsizes]
  by_cases hfit : ((es.map PEntry.entry).map Entry.size).sum ≤ pageBodyCapacity
  · rw [if_pos hfit, Prog.wp_bind]
    refine Prog.wp_mono (hone hfit) ?_ fun _ _ he => he.imp False.elim
    rintro _ s' ⟨t, rfl, rfl, hwrites⟩
    exact ⟨[t], rfl, by simp, by simpa using hin.ne, by rw [divide, if_pos hfit]; rfl, hwrites⟩
  · rw [if_neg hfit]
    cases hsplit : splitSizes ((es.map PEntry.entry).map Entry.size) with
    | none => exact h.wp_throw (by rw [divide, if_neg hfit, hsplit]; rfl)
    | some k =>
      -- Both halves of a cut have entries, so neither leaf is empty.
      obtain ⟨hk1, hk2, hcut⟩ := splitSizes_eq_some hsplit
      rw [List.length_map, List.length_map] at hk2
      refine Prog.wp_mono (commitLeaves_spec h hin hk1 hk2) ?_
        fun _ _ he => he.imp fun hn => absurd hcut hn
      rintro _ s' ⟨ts, rfl, hts, hwrites⟩
      refine ⟨ts, rfl, by rw [hts]; simp, fun t ht hnil => ?_, ?_, hwrites⟩
      · have hmem : t.cells ∈ ts.map PTree.cells := List.mem_map_of_mem ht
        rw [hts, hnil, List.mem_pair] at hmem
        rcases hmem with hmem | hmem
        · have := congrArg List.length hmem
          rw [List.length_nil, List.length_take] at this
          omega
        · have := congrArg List.length hmem
          rw [List.length_nil, List.length_drop] at this
          omega
      · have hcells : (ts.map fun t => t.tree.cells) = (ts.map PTree.cells).map (List.map PEntry.entry) := by
          rw [List.map_map]
          rfl
        rw [divide, if_neg hfit, hsplit, hcells, hts, Option.map_some, ← List.map_take, ← List.map_drop]
        rfl

/-- **A level of leaves** is the division of the entries. -/
theorem commitLeafLevel_spec (h : s.Ready) {es : List PEntry} (hin : LeafInput s es) :
    Prog.wp (commitLeafLevel (es.map PEntry.stored))
      (fun refs s' => ∃ ts : List (PTree 0), refs = ts.map PTree.refOf ∧
        divide Entry.size (es.map PEntry.entry) = some (ts.map fun t => t.tree.cells) ∧
        Writes s (es.map PEntry.pages).sum ts s')
      (s.Stops (divide Entry.size (es.map PEntry.entry) = none)) s := by
  obtain ⟨cells, hmap, hcells, hsizes⟩ := hin.cells
  have hempty : es.map PEntry.stored ≠ [] := by simpa using hin.ne
  rw [commitLeafLevel, if_neg hempty, hmap]
  simp only [Prog.wp_bind, Prog.wp_ofExcept, Except.ok.injEq, forall_eq', reduceCtorEq,
    false_implies, implies_true, and_true]
  refine Prog.wp_mono (commitLeafDivided_spec h hin hsizes fun hfit =>
    commitLeafWithCells_spec h hin hcells (hsizes ▸ hfit)) ?_ fun _ _ he => he
  rintro _ s' ⟨ts, rfl, -, -, hdiv, hwrites⟩
  exact ⟨ts, rfl, hdiv, hwrites⟩

/-! ### Internal pages -/

/-- What an internal level is written from. -/
structure NodeInput (s : BPlusTree) (cs : List (PTree n)) : Prop where
  ne : cs ≠ []
  kept : ∀ c ∈ cs, c.Kept s
  proper : ∀ c ∈ cs, c.tree.Proper
  sorted : Tree.SortedChildren (cs.map PTree.tree)

/-- The bytes of a separator and its slot. -/
def sepSize (t : Tree n) : ℕ := separatorSize t.minKey

theorem NodeInput.mono {cs cs' : List (PTree n)} {ids : Multiset ℕ} (h : NodeInput s cs)
    (ht : s.Takes ids s') (hne : cs' ≠ []) (hsub : cs'.Sublist cs) : NodeInput s' cs' :=
  ⟨hne, fun c hc => (h.kept c (hsub.subset hc)).mono ht, fun c hc => h.proper c (hsub.subset hc),
    h.sorted.sublist ((hsub.map PTree.tree).flatMap Tree.entries)⟩

theorem PTree.Kept.refOf_ok {c : PTree n} (h : c.Kept s) (hproper : c.tree.Proper) :
    c.refOf.minKey.length ≤ maxTreeKeyBytes ∧ superblockCount ≤ c.refOf.pageId := by
  obtain ⟨page, hview⟩ := h.1.read_mem
  exact ⟨h.1.minKey_le hproper, (Pager.view_eq_some.1 hview).1⟩

theorem NodeInput.validate {cs : List (PTree n)} (h : NodeInput s cs) :
    validateChildRefs (cs.map PTree.refOf) = .ok () := by
  refine validateChildRefs_eq_ok.2 ⟨by simpa using h.ne, ?_, ?_⟩
  · exact List.forall_mem_map.2 fun c hc => PTree.Kept.refOf_ok (h.kept c hc) (h.proper c hc)
  · have hmin := h.sorted.minKeys (List.forall_mem_map.2 h.proper)
    rw [List.map_map] at hmin ⊢
    exact hmin

/-- A reference that an internal cell can hold. -/
def RefOk (ref : ChildRef) : Prop := ref.minKey.length ≤ maxTreeKeyBytes ∧ superblockCount ≤ ref.pageId

/-- The cell of a reference whose separator is stored as the blob. -/
def RefCell (cell : Bytes) (u : Blob × ChildRef) : Prop :=
  encodeInternalCellStored u.1.storedKey u.2.pageId = .ok cell

/-- The sizes of internal cells with their slots, known before the separators are stored. -/
def refSizes (refs : List ChildRef) : List ℕ := refs.map fun ref => separatorSize ref.minKey

/-- The previews of the cells have the sizes of the separators. -/
theorem previews_ok {refs : List ChildRef} (h : ∀ ref ∈ refs, RefOk ref) :
    ∃ cells, refs.mapM encodeInternalCell = .ok cells ∧ cellSizes cells = refSizes refs := by
  have hcells : ∃ cells, List.Forall₂ (fun ref cell => encodeInternalCell ref = .ok cell) refs cells ∧
      cellSizes cells = refSizes refs := by
    induction refs with
    | nil => exact ⟨[], .nil, rfl⟩
    | cons ref refs ih =>
      obtain ⟨href, hrefs⟩ := List.forall_mem_cons.1 h
      obtain ⟨cell, hcell, hsize⟩ := encodeInternalCell_ok href.1 href.2
      obtain ⟨cells, hcells, hsizes⟩ := ih hrefs
      refine ⟨cell :: cells, .cons hcell hcells, ?_⟩
      show (slotLen + cell.length) :: cellSizes cells = separatorSize ref.minKey :: _
      rw [hsize, hsizes]
      rfl
  obtain ⟨cells, hcells, hsizes⟩ := hcells
  exact ⟨cells, mapM_eq_ok.2 hcells, hsizes⟩

/-- Storing the separators of references. -/
theorem storeSeparators_spec {refs : List ChildRef} (h : s.Ready) (hrefs : ∀ ref ∈ refs, RefOk ref) :
    Prog.wp (storeSeparators refs)
      (fun cells s' => ∃ us : List (Blob × ChildRef), us.map Prod.snd = refs ∧
        s.Takes (us.map fun u => (u.1.chain : Multiset ℕ)).sum s' ∧
        (∀ u ∈ us, u.1.Kept s' ∧ u.1.bytes = u.2.minKey) ∧
        List.Forall₂ RefCell cells us ∧ cellSizes cells = refSizes refs)
      (s.Stops False) s := by
  induction refs generalizing s with
  | nil => exact ⟨[], rfl, h.takes, by simp, .nil, rfl⟩
  | cons ref refs ih =>
    obtain ⟨⟨hkey, hid⟩, hrefs⟩ := List.forall_mem_cons.1 hrefs
    rw [storeSeparators, Prog.wp_bind]
    refine Prog.wp_mono (storeKey_spec h hkey) ?_ fun _ _ he => he
    rintro _ s₁ ⟨b, rfl, hbytes, hinline, htakes, hb⟩
    have henc : encodeInternalCellStored b.storedKey ref.pageId = .ok
        (leBytes 2 b.storedKey.field ++ leBytes 8 ref.pageId ++ b.storedKey.payload) :=
      encodeInternalCellStored_eq_ok.2 ⟨by rw [Blob.asSlice_storedKey, hbytes]; exact hkey, hid, rfl⟩
    rw [Prog.wp_bind, henc, Prog.wp_ofExcept]
    refine ⟨fun cell hcell => ?_, by simp⟩
    rw [Except.ok.injEq] at hcell
    rw [hcell] at henc
    rw [Prog.wp_bind]
    refine htakes.wp (Prog.wp_mono (ih htakes.ready hrefs) ?_ fun _ _ he => he)
    rintro cells s₂ ⟨us, rfl, htakes₂, hus, hcells, hsizes⟩
    refine ⟨(b, ref) :: us, rfl, htakes.trans htakes₂,
      List.forall_mem_cons.2 ⟨⟨hb.mono htakes₂, hbytes⟩, hus⟩, .cons henc hcells, ?_⟩
    have hsize := internalCell_size henc (by rw [hbytes]; exact hinline)
    show (slotLen + cell.length) :: cellSizes cells = separatorSize ref.minKey :: _
    rw [hsize, hsizes, hbytes]
    rfl

/-- **Writing an internal page** for references whose previews fit. -/
theorem commitInternalWithCells_spec {first : ChildRef} {rest : List ChildRef} {previews : List Bytes}
    (h : s.Ready) (hrefs : ∀ ref ∈ first :: rest, RefOk ref)
    (hsizes : cellSizes previews = refSizes (first :: rest))
    (hfit : (refSizes (first :: rest)).sum ≤ pageBodyCapacity) :
    Prog.wp (commitInternalWithCells (first :: rest) previews)
      (fun ref s' => ref.minKey = first.minKey ∧ ∃ us : List (Blob × ChildRef), us.map Prod.snd = first :: rest ∧
        s.Takes ((us.map fun u => (u.1.chain : Multiset ℕ)).sum + {ref.pageId}) s' ∧
        (∀ u ∈ us, u.1.Kept s' ∧ u.1.bytes = u.2.minKey) ∧
        ∃ page, s'.pager.view ref.pageId = some page ∧ page.kind = .internal ∧
          List.Forall₂ RefCell page.cells us ∧ cellSizes page.cells = refSizes (first :: rest))
      (s.Stops False) s := by
  have hlen : previews.length = (first :: rest).length := by
    have hlength := congrArg List.length hsizes
    simpa [cellSizes, refSizes] using hlength
  have hpre : ¬ (previews.length ≠ (first :: rest).length ∨ ¬ cellsFit previews = true) := by
    rw [not_or, not_not, not_not, cellsFit_iff, hsizes]
    exact ⟨hlen, hfit⟩
  rw [commitInternalWithCells, if_neg hpre, Prog.wp_bind]
  refine Prog.wp_mono (storeSeparators_spec h hrefs) ?_ fun _ _ he => he
  rintro cells s₁ ⟨us, hus, htakes, hkept, hcells, hcellSizes⟩
  have hcheck : ¬ ((cells.zip previews).any (fun p => p.1.length ≠ p.2.length) = true ∨
      ¬ cellsFit cells = true) := by
    rw [not_or, not_not, cellsFit_iff, hcellSizes]
    refine ⟨?_, hfit⟩
    have hsame : cellSizes cells = cellSizes previews := hcellSizes.trans hsizes.symm
    rw [Bool.not_eq_true, List.any_eq_false]
    intro p hp
    have hp' := eq_of_mem_zip hsame p hp
    simpa using hp'
  have hne : ∀ cell ∈ cells, cell ≠ [] := by
    intro cell hcell
    obtain ⟨u, -, hu⟩ := exists_of_mem_right hcells.flip hcell
    exact internalCell_ne_nil hu
  have hfits : usedBytes cells ≤ pageBodyCapacity := by
    rw [usedBytes_eq_sum, hcellSizes]; exact hfit
  rw [if_neg hcheck, Prog.wp_bind]
  refine htakes.wp (Prog.wp_mono (@writeTreePage_spec _ htakes.ready _ cells _ _
    (zero_link htakes.ready).1 (zero_link htakes.ready).2 ?_) ?_ fun _ _ he => he)
  · exact fun page hkind hempty hlink hv _ => fills_insertCells hne hfits hkind hempty hlink hv
  rintro id s₂ ⟨htakes₂, page, hview, hkind, rfl, -⟩
  exact ⟨rfl, us, hus, htakes.trans htakes₂, fun u hu => ⟨(hkept u hu).1.mono htakes₂, (hkept u hu).2⟩,
    page, hview, hkind, hcells, hcellSizes⟩

/-- Pairs whose second parts are images are images themselves. -/
theorem exists_map_snd {α β γ : Type} {g : γ → β} {l : List γ} {us : List (α × β)}
    (h : us.map Prod.snd = l.map g) :
    ∃ vs : List (α × γ), vs.map Prod.snd = l ∧ us = vs.map fun v => (v.1, g v.2) := by
  induction l generalizing us with
  | nil =>
    obtain rfl := List.map_eq_nil_iff.1 h
    exact ⟨[], rfl, rfl⟩
  | cons c l ih =>
    obtain ⟨⟨a, _⟩, us, rfl, rfl, hus⟩ := List.map_eq_cons_iff.1 h
    obtain ⟨vs, rfl, rfl⟩ := ih hus
    exact ⟨(a, c) :: vs, rfl, rfl⟩

theorem refSizes_refOf (cs : List (PTree n)) :
    refSizes (cs.map PTree.refOf) = (cs.map PTree.tree).map sepSize := by
  rw [refSizes, List.map_map, List.map_map]
  rfl

theorem NodeInput.refsOk {cs : List (PTree n)} (h : NodeInput s cs) : ∀ ref ∈ cs.map PTree.refOf, RefOk ref :=
  List.forall_mem_map.2 fun c hc => PTree.Kept.refOf_ok (h.kept c hc) (h.proper c hc)

theorem NodeInput.previews {cs : List (PTree n)} (h : NodeInput s cs) :
    ∃ cells, (cs.map PTree.refOf).mapM encodeInternalCell = .ok cells ∧
      cellSizes cells = (cs.map PTree.tree).map sepSize := by
  rw [← refSizes_refOf]
  exact previews_ok h.refsOk

theorem commitInternalWithCells_trees {cs : List (PTree n)} {previews : List Bytes} (h : s.Ready)
    (hin : NodeInput s cs) (hsizes : cellSizes previews = (cs.map PTree.tree).map sepSize)
    (hfit : ((cs.map PTree.tree).map sepSize).sum ≤ pageBodyCapacity) :
    Prog.wp (commitInternalWithCells (cs.map PTree.refOf) previews)
      (fun ref s' => ∃ t : PTree (n + 1), ref = t.refOf ∧ t.children.map Prod.snd = cs ∧
        Writes s (cs.map PTree.footprint).sum [t] s' ∧ t.Measured s')
      (s.Stops False) s := by
  obtain ⟨first, rest, rfl⟩ := List.exists_cons_of_ne_nil hin.ne
  have hrefs := hin.refsOk
  rw [← refSizes_refOf] at hsizes hfit
  rw [List.map_cons] at hsizes hfit hrefs ⊢
  refine Prog.wp_mono (commitInternalWithCells_spec h hrefs hsizes hfit) ?_ fun _ _ he => he
  rintro ⟨minKey, id⟩ s' ⟨hminKey, us', hus', htakes, hkept', page, hview, hkind, hcells', hcellSizes⟩
  rw [← List.map_cons] at hus' hcellSizes
  obtain ⟨us, hus, rfl⟩ := exists_map_snd hus'
  rw [List.map_map] at htakes
  have hcells : List.Forall₂ PTree.InternalCell page.cells us := by
    rw [List.forall₂_map_right_iff] at hcells'
    exact hcells'
  have hkept : ∀ u ∈ us, u.1.Kept s' ∧ u.1.bytes = u.2.tree.minKey :=
    fun u hu => hkept' _ (List.mem_map_of_mem hu)
  have hchild : ∀ u ∈ us, u.2 ∈ first :: rest := by
    intro u hu
    rw [← hus]
    exact List.mem_map_of_mem hu
  have hmeasured : (PTree.node id us).Measured s' := by
    refine ⟨page, hview, ?_⟩
    have hlength := congrArg List.length hcellSizes
    have hused : usedBytes page.cells = ((PTree.node id us).tree.children.map sepSize).sum := by
      have hchildren : (PTree.node id us).tree.children = us.map fun u => u.2.tree := rfl
      rw [usedBytes_eq_sum, hcellSizes, refSizes_refOf, ← hus, hchildren, List.map_map, List.map_map, List.map_map]
      rfl
    have hcount : page.cellCount = (PTree.node id us).tree.children.length := by
      have hus' : us.length = (first :: rest).length := by rw [← hus, List.length_map]
      rw [Page.cellCount, PTree.tree_node, Tree.children_node, List.length_map, hus']
      simpa [cellSizes, refSizes] using hlength
    rw [pageIsUnderfull, hkind]
    dsimp only
    rw [hused, hcount]
    rfl
  refine ⟨PTree.node id us, ?_, hus, ⟨_, htakes, ?_, ?_⟩, hmeasured⟩
  · -- the reference has the separator of the first child
    have hmin : (PTree.node id us).tree.minKey = first.tree.minKey := by
      have htree : (PTree.node id us).tree = Tree.node (first.tree :: rest.map PTree.tree) := by
        rw [PTree.tree_node, ← List.map_cons, ← hus, List.map_map]
        rfl
      rw [htree]
      exact Tree.minKey_node (hin.proper first (by simp))
    show (⟨minKey, id⟩ : ChildRef) = ⟨(PTree.node id us).tree.minKey, id⟩
    rw [hmin, show minKey = first.tree.minKey from hminKey]
  · rw [List.forall_mem_singleton]
    refine ⟨⟨⟨page, hview, hkind, hcells⟩, fun u hu => ?_⟩, fun x hx => ?_⟩
    · exact ⟨(hkept u hu).1.1, (hkept u hu).2, ((hin.kept _ (hchild u hu)).mono htakes).1⟩
    · rw [PTree.footprint_succ, Multiset.mem_add, Multiset.mem_singleton] at hx
      rcases hx with rfl | hx
      · exact (htakes.taken x (by simp)).1
      · obtain ⟨u, hu, hx⟩ := PTree.mem_sum_map.1 hx
        rw [Multiset.mem_add, Multiset.mem_coe] at hx
        exact hx.elim ((hkept u hu).1.2 x) (((hin.kept _ (hchild u hu)).mono htakes).2 x)
  · have hsum : (us.map fun u => (u.1.chain : Multiset ℕ) + u.2.footprint).sum =
        (us.map fun u => (u.1.chain : Multiset ℕ)).sum +
          ((first :: rest).map PTree.footprint).sum := by
      rw [List.sum_map_add, ← hus, List.map_map]
      rfl
    rw [List.map_singleton, List.sum_singleton, PTree.footprint_succ, PTree.children_node, hsum,
      PTree.pid_node]
    refine le_of_eq ?_
    show _ = _ + ((us.map fun u => (u.1.chain : Multiset ℕ)).sum + {id})
    abel

/-- Source `commit_internal` fails only for separators that do not fit in a page. -/
theorem commitInternal_spec {cs : List (PTree n)} (h : s.Ready) (hin : NodeInput s cs) :
    Prog.wp (commitInternal (cs.map PTree.refOf))
      (fun ref s' => ((cs.map PTree.tree).map sepSize).sum ≤ pageBodyCapacity ∧
        ∃ t : PTree (n + 1), ref = t.refOf ∧ t.children.map Prod.snd = cs ∧
          Writes s (cs.map PTree.footprint).sum [t] s' ∧ t.Measured s')
      (s.Stops (pageBodyCapacity < ((cs.map PTree.tree).map sepSize).sum)) s := by
  obtain ⟨cells, hmap, hsizes⟩ := hin.previews
  rw [commitInternal, hin.validate, hmap]
  simp only [Prog.wp_bind, Prog.wp_ofExcept, Except.ok.injEq, forall_eq', reduceCtorEq,
    false_implies, implies_true, and_true, forall_const, cellsFit_iff, hsizes]
  by_cases hfit : ((cs.map PTree.tree).map sepSize).sum ≤ pageBodyCapacity
  · rw [if_neg (not_not.2 hfit)]
    exact Prog.wp_mono (commitInternalWithCells_trees h hin hsizes hfit) (fun _ _ hq => ⟨hfit, hq⟩)
      fun _ _ he => he.imp False.elim
  · rw [if_pos hfit]
    exact h.wp_throw (not_le.1 hfit)

theorem children_tree {t : PTree (n + 1)} {cs : List (PTree n)} (h : t.children.map Prod.snd = cs) :
    t.tree.children = cs.map PTree.tree := by
  rw [← h, List.map_map]
  rfl

/-- Two internal pages for the children before and behind a cut. -/
theorem commitInternals_spec {cs : List (PTree n)} (h : s.Ready) (hin : NodeInput s cs) {k : ℕ}
    (hk1 : 1 ≤ k) (hk2 : k < cs.length) :
    Prog.wp (do
      let left ← commitInternal ((cs.map PTree.refOf).take k)
      let right ← commitInternal ((cs.map PTree.refOf).drop k)
      pure [left, right])
      (fun refs s' => ∃ ts : List (PTree (n + 1)), refs = ts.map PTree.refOf ∧
        (ts.map fun t => t.children.map Prod.snd) = [cs.take k, cs.drop k] ∧
        Writes s (cs.map PTree.footprint).sum ts s')
      (s.Stops (¬ CutFits ((cs.map PTree.tree).map sepSize) k)) s := by
  have htake : cs.take k ≠ [] := by
    rw [ne_eq, List.take_eq_nil_iff]
    rintro (h0 | h0)
    · omega
    · rw [h0] at hk2; simp at hk2
  have hdrop : cs.drop k ≠ [] := by
    rw [ne_eq, List.drop_eq_nil_iff]
    omega
  simp only [Prog.wp_bind, Prog.wp_pure]
  rw [← List.map_take, ← List.map_drop]
  refine Prog.wp_mono (commitInternal_spec h (hin.mono h.takes htake (List.take_sublist k cs)))
    ?_ fun _ _ he => he.imp fun hlt hcut => ?_
  · rintro _ s₁ ⟨-, t₁, rfl, ht₁, hwrites₁, -⟩
    obtain ⟨ids, htakes, -⟩ := id hwrites₁
    refine hwrites₁.wp (Prog.wp_mono (commitInternal_spec hwrites₁.ready
      (hin.mono htakes hdrop (List.drop_sublist k cs))) ?_ fun _ _ he => he.imp fun hlt hcut => ?_)
    · rintro _ s₂ ⟨-, t₂, rfl, ht₂, hwrites₂, -⟩
      refine ⟨[t₁, t₂], rfl, by rw [← ht₁, ← ht₂]; rfl, ?_⟩
      have hsum : (cs.map PTree.footprint).sum
          = ((cs.take k).map PTree.footprint).sum + ((cs.drop k).map PTree.footprint).sum := by
        rw [← List.sum_append, ← List.map_append, List.take_append_drop]
      rw [hsum]
      exact hwrites₁.append hwrites₂
    · rw [List.map_drop, List.map_drop] at hlt
      exact absurd hcut.2 (not_le.2 hlt)
  · rw [List.map_take, List.map_take] at hlt
    exact absurd hcut.1 (not_le.2 hlt)

/-- **A level of internal pages** is the division of the children. -/
theorem commitInternalLevel_spec {cs : List (PTree n)} (h : s.Ready) (hin : NodeInput s cs) :
    Prog.wp (commitInternalLevel (cs.map PTree.refOf))
      (fun refs s' => ∃ ts : List (PTree (n + 1)), refs = ts.map PTree.refOf ∧
        divide sepSize (cs.map PTree.tree) = some (ts.map fun t => t.tree.children) ∧
        Writes s (cs.map PTree.footprint).sum ts s')
      (s.Stops (divide sepSize (cs.map PTree.tree) = none)) s := by
  obtain ⟨cells, hmap, hsizes⟩ := hin.previews
  rw [commitInternalLevel, hin.validate, hmap]
  simp only [Prog.wp_bind, Prog.wp_ofExcept, Except.ok.injEq, forall_eq', reduceCtorEq,
    false_implies, implies_true, and_true, forall_const, cellsFit_iff, chooseSplit, hsizes]
  by_cases hfit : ((cs.map PTree.tree).map sepSize).sum ≤ pageBodyCapacity
  · rw [if_pos hfit, Prog.wp_bind]
    refine Prog.wp_mono (commitInternalWithCells_trees h hin hsizes hfit) ?_
      fun _ _ he => he.imp False.elim
    rintro _ s' ⟨t, rfl, ht, hwrites, -⟩
    exact ⟨[t], rfl, by rw [divide, if_pos hfit, ← children_tree ht]; rfl, hwrites⟩
  · rw [if_neg hfit]
    cases hsplit : splitSizes ((cs.map PTree.tree).map sepSize) with
    | none => exact h.wp_throw (by rw [divide, if_neg hfit, hsplit]; rfl)
    | some k =>
      obtain ⟨hk1, hk2, hcut⟩ := splitSizes_eq_some hsplit
      rw [List.length_map, List.length_map] at hk2
      refine Prog.wp_mono (commitInternals_spec h hin hk1 hk2) ?_
        fun _ _ he => he.imp fun hn => absurd hcut hn
      rintro _ s' ⟨ts, rfl, hts, hwrites⟩
      refine ⟨ts, rfl, ?_, hwrites⟩
      have hchildren : (ts.map fun t => t.tree.children)
          = (ts.map fun t => t.children.map Prod.snd).map (List.map PTree.tree) := by
        rw [List.map_map]
        exact List.map_congr_left fun t _ => children_tree rfl
      rw [divide, if_neg hfit, hsplit, hchildren, hts, Option.map_some, ← List.map_take,
        ← List.map_drop]
      rfl

end BPlusTree

end DbLab.Btree
