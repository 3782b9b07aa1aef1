import DbLab.Btree.Alloc

/-!
# Writing blobs and pages

The specification of every writing function of the tree, from one page up to a level of pages. A
function that succeeds leaves stored things behind (`Kept`) together with the pages it took for them;
a function that fails before the root is published leaves the state it started from recoverable.
-/

namespace DbLab.Btree

open Checked

/-! ### Filling a page -/

namespace Page

variable {page : Page}

theorem insertCell_ok {cell : Bytes} (hv : page.validate = .ok ()) (hne : cell ≠ [])
    (hfit : usedBytes page.cells + (slotLen + cell.length) ≤ pageBodyCapacity) :
    ∃ page', page.insertCell cell = .ok page' ∧ page'.pageId = page.pageId ∧
      page'.kind = page.kind ∧ page'.cells = page.cells ++ [cell] ∧ page'.link = page.link := by
  have hcap := pageBodyCapacity_eq
  have hfree : ¬ page.freeBytes < slotLen + cell.length := by rw [freeBytes]; omega
  have hlong : ¬ 65535 < cell.length := by omega
  unfold insertCell
  rw [hv, ok_bind, dif_neg hne, if_neg hlong, dif_neg hfree]
  exact ⟨_, rfl, rfl, rfl, rfl, rfl⟩

theorem validate_congr {page' : Page} (h : page'.pageId = page.pageId) :
    page'.validate = page.validate := by
  rw [validate, validate, h]

/-- Cells that fit are inserted one after the other. -/
theorem insertCells_ok {cells : List Bytes} (hv : page.validate = .ok ())
    (hne : ∀ cell ∈ cells, cell ≠ []) (hfit : usedBytes (page.cells ++ cells) ≤ pageBodyCapacity) :
    ∃ page', page.insertCells cells = .ok page' ∧ page'.pageId = page.pageId ∧
      page'.kind = page.kind ∧ page'.cells = page.cells ++ cells ∧ page'.link = page.link := by
  induction cells generalizing page with
  | nil => exact ⟨page, rfl, rfl, rfl, by simp, rfl⟩
  | cons cell cells ih =>
    obtain ⟨hcell, hcells⟩ := List.forall_mem_cons.1 hne
    rw [usedBytes_append, usedBytes_cons] at hfit
    obtain ⟨page₁, h₁, hid₁, hkind₁, hcells₁, hlink₁⟩ := insertCell_ok hv hcell
      (by have := slotLen_eq; omega)
    obtain ⟨page₂, h₂, hid₂, hkind₂, hcells₂, hlink₂⟩ := @ih page₁
      (by rw [validate_congr hid₁]; exact hv) hcells
      (by rw [hcells₁, usedBytes_append, usedBytes_append, usedBytes_cons, usedBytes_nil]; omega)
    refine ⟨page₂, ?_, hid₂.trans hid₁, hkind₂.trans hkind₁, ?_, hlink₂.trans hlink₁⟩
    · rw [insertCells, h₁, ok_bind, h₂]
    · rw [hcells₂, hcells₁, List.append_assoc]; rfl

theorem setOverflowNext_ok {next : Option ℕ} (hv : page.validate = .ok ())
    (hkind : page.kind = .overflow) (hrange : ∀ id ∈ next, superblockCount ≤ id)
    (hself : page.pageId ≠ next.getD rootNone) :
    ∃ page', page.setOverflowNext next = .ok page' ∧ page'.pageId = page.pageId ∧
      page'.kind = page.kind ∧ page'.cells = page.cells ∧ page'.link = next.getD rootNone := by
  have hlow : ¬ (next.getD rootNone ≠ rootNone ∧ next.getD rootNone < superblockCount) := by
    rintro ⟨hne, hlt⟩
    cases next with
    | none => exact hne rfl
    | some id => exact absurd (hrange id rfl) (not_le.2 hlt)
  unfold setOverflowNext
  rw [hv, ok_bind, dif_neg (by simpa using hkind), dif_neg hlow, dif_neg hself.symm]
  exact ⟨_, rfl, rfl, rfl, rfl, rfl⟩

theorem overflowNext_eq {next : Option ℕ} (hkind : page.kind = .overflow)
    (hrange : ∀ id ∈ next, superblockCount ≤ id) (hlink : page.link = next.getD rootNone) :
    page.overflowNext = next := by
  rw [overflowNext, if_pos hkind, pageLink, hlink]
  cases next with
  | none => rfl
  | some id =>
    have hne : id ≠ rootNone := by
      have := hrange id rfl
      rw [superblockCount_eq] at this
      rw [rootNone_eq]
      omega
    exact if_neg hne

end Page

/-- A fresh page takes cells that fit. -/
theorem fills_insertCells {kind : PageKind} {cells : List Bytes} (hne : ∀ cell ∈ cells, cell ≠ [])
    (hfit : usedBytes cells ≤ pageBodyCapacity) {page : Page} (hkind : page.kind = kind)
    (hempty : page.cells = []) (hlink : page.link = rootNone) (hv : page.validate = .ok ()) :
    BPlusTree.Fills kind cells rootNone (fun page => page.insertCells cells) page := by
  obtain ⟨page', h, hid, hk, hc, hl⟩ := @Page.insertCells_ok page _ hv hne
    (by rw [hempty]; exact hfit)
  exact ⟨page', h, hid, hk.trans hkind, by rw [hc, hempty]; rfl, hl.trans hlink⟩

/-- A fresh overflow page takes a chunk and a link. -/
theorem fills_overflow {chunk : Bytes} {next : Option ℕ} (hne : chunk ≠ [])
    (hfit : chunk.length ≤ overflowCellCapacity) (hrange : ∀ id ∈ next, superblockCount ≤ id)
    {page : Page} (hkind : page.kind = .overflow) (hempty : page.cells = [])
    (hv : page.validate = .ok ()) (hself : page.pageId ≠ next.getD rootNone) :
    BPlusTree.Fills .overflow [chunk] (next.getD rootNone) (BPlusTree.fillOverflow chunk next) page := by
  have hcell : usedBytes page.cells + (slotLen + chunk.length) ≤ pageBodyCapacity := by
    rw [hempty, usedBytes_nil]
    rw [overflowCellCapacity_eq] at hfit
    rw [slotLen_eq, pageBodyCapacity_eq]
    omega
  obtain ⟨page₁, h₁, hid₁, hkind₁, hcells₁, -⟩ := Page.insertCell_ok hv hne hcell
  obtain ⟨page₂, h₂, hid₂, hkind₂, hcells₂, hlink₂⟩ := @Page.setOverflowNext_ok page₁
    next (by rw [Page.validate_congr hid₁]; exact hv) (hkind₁.trans hkind) hrange
    (by rw [hid₁]; exact hself)
  refine ⟨page₂, ?_, hid₂.trans hid₁, hkind₂.trans (hkind₁.trans hkind), ?_, hlink₂⟩
  · rw [BPlusTree.fillOverflow, h₁, ok_bind, h₂]
  · rw [hcells₂, hcells₁, hempty]; rfl

/-! ### Chunks -/

/-- The chunks counted from the end, in the order of the list, give its end. -/
theorem flatten_chunks {α : Type} (size : ℕ) (items : List α) (k : ℕ) :
    ((List.range k).map fun i => (items.take (items.length - i * size)).drop
      (items.length - (i + 1) * size)).reverse.flatten = items.drop (items.length - k * size) := by
  induction k with
  | zero => simp
  | succ k ih =>
    have hle : items.length - (k + 1) * size ≤ (items.take (items.length - k * size)).length := by
      rw [List.length_take, Nat.add_one_mul]
      omega
    rw [List.range_succ, List.map_append, List.map_singleton, List.reverse_append,
      List.reverse_singleton, List.singleton_append, List.flatten_cons, ih,
      ← List.drop_append_of_le_length hle, List.take_append_drop]

/-- The chunks of a blob, first one first. -/
theorem rchunks_reverse {bytes : Bytes} (hne : bytes ≠ []) :
    ∃ first rest, (rchunks overflowCellCapacity bytes).reverse = first :: rest ∧
      Chunks bytes first rest := by
  have hpos := List.length_pos_of_ne_nil hne
  have hcap := overflowCellCapacity_eq
  obtain ⟨m, hm⟩ : ∃ m, (bytes.length + (overflowCellCapacity - 1)) / overflowCellCapacity
      = m + 1 := by
    rw [hcap]
    exact ⟨_, (Nat.succ_pred_eq_of_pos (by omega)).symm⟩
  have hflat := flatten_chunks overflowCellCapacity bytes (m + 1)
  rw [hcap] at hm hflat
  have hzero : bytes.length - (m + 1) * 4048 = 0 := by omega
  rw [hzero, List.drop_zero, List.range_succ, List.map_append, List.map_singleton,
    List.reverse_append, List.reverse_singleton, List.singleton_append] at hflat
  refine ⟨_, _, ?_, ⟨hflat.symm, ?_, ?_, ?_⟩⟩
  · rw [rchunks, hcap, hm, List.range_succ, List.map_append, List.map_singleton,
      List.reverse_append, List.reverse_singleton, List.singleton_append]
  · rw [List.length_drop, List.length_take]
    omega
  · rw [List.length_drop, List.length_take]
    omega
  · intro c hc
    obtain ⟨i, hi, rfl⟩ := List.mem_map.1 (List.mem_reverse.1 hc)
    rw [List.mem_range] at hi
    rw [List.length_drop, List.length_take]
    omega

/-! ### Kept things -/

section Kept

variable {s s' : BPlusTree} {ids : Multiset ℕ} {n : ℕ}

/-- The blob is stored on pages outside of the pool. -/
def Blob.Kept (s : BPlusTree) (b : Blob) : Prop :=
  b.On s.pager.view ∧ ∀ id ∈ b.chain, id ∉ s.reusablePages

/-- The entry is stored on pages outside of the pool. -/
def PEntry.Kept (s : BPlusTree) (e : PEntry) : Prop := e.key.Kept s ∧ e.value.Kept s

/-- The tree is stored on pages outside of the pool. -/
def PTree.Kept (s : BPlusTree) (t : PTree n) : Prop :=
  t.On s.pager.view ∧ ∀ id ∈ t.footprint, id ∉ s.reusablePages

theorem Blob.Kept.mono {b : Blob} (h : b.Kept s) (ht : s.Takes ids s') : b.Kept s' :=
  ⟨h.1.mono fun id hid page hp => ht.adv.keeps id (h.2 id hid) page hp,
    fun id hid hmem => h.2 id hid (ht.sub hmem)⟩

theorem PEntry.Kept.mono {e : PEntry} (h : e.Kept s) (ht : s.Takes ids s') : e.Kept s' :=
  ⟨h.1.mono ht, h.2.mono ht⟩

theorem PTree.Kept.mono {t : PTree n} (h : t.Kept s) (ht : s.Takes ids s') : t.Kept s' :=
  ⟨h.1.mono fun id hid page hp => ht.adv.keeps id (h.2 id hid) page hp,
    fun id hid hmem => h.2 id hid (ht.sub hmem)⟩

theorem PTree.Kept.cell {t : PTree 0} (h : t.Kept s) {e : PEntry} (he : e ∈ t.cells) : e.Kept s :=
  ⟨⟨(h.1.2 e he).1, fun id hid => h.2 id (PTree.entry_subset he (by simp [PEntry.pages, hid]))⟩,
    ⟨(h.1.2 e he).2, fun id hid => h.2 id (PTree.entry_subset he (by simp [PEntry.pages, hid]))⟩⟩

theorem PTree.Kept.child {t : PTree (n + 1)} (h : t.Kept s) {c : Blob × PTree n}
    (hc : c ∈ t.children) : c.2.Kept s :=
  ⟨(h.1.2 c hc).2.2, fun id hid => h.2 id (PTree.child_subset hc hid)⟩

end Kept

namespace BPlusTree

variable {s s' : BPlusTree} {n : ℕ}

/-! ### Blobs -/

theorem chainTo_head {read : ℕ → Option Page} {current : Option ℕ} {ids : List ℕ}
    {chunks : List Bytes} (h : ChainTo read current ids chunks none) : current = ids.head? := by
  cases ids with
  | nil =>
    cases chunks with
    | nil => exact h
    | cons c cs => exact h.elim
  | cons id ids =>
    cases chunks with
    | nil => exact h.elim
    | cons c cs => exact h.1

/-- The loop of `commit_overflow_blob` puts the chunks in front of a chain. -/
theorem commitChunks_spec {chunks : List Bytes} (hsize : ∀ c ∈ chunks, c ≠ [] ∧
      c.length ≤ overflowCellCapacity) {next : Option ℕ} {ids : List ℕ} {done : List Bytes}
    (h : s.Ready) (hchain : ChainTo s.pager.view next ids done none)
    (hids : ∀ id ∈ ids, id ∉ s.reusablePages) :
    Prog.wp (commitChunks chunks next)
      (fun next' s' => ∃ fresh : List ℕ, s.Takes fresh s' ∧
        ChainTo s'.pager.view next' (fresh ++ ids) (chunks.reverse ++ done) none)
      (s.Stops False) s := by
  induction chunks generalizing s next ids done with
  | nil => exact ⟨[], h.takes, hchain⟩
  | cons chunk chunks ih =>
    obtain ⟨⟨hne, hlen⟩, hsize⟩ := List.forall_mem_cons.1 hsize
    have hhead := chainTo_head hchain
    -- the page behind is committed and held
    have hnext : ∀ id ∈ next, id ∈ ids ∧ superblockCount ≤ id ∧ id < s.pager.active.pageCount := by
      intro id hid
      rw [hhead] at hid
      have hmem := List.mem_of_mem_head? hid
      obtain ⟨page, hview⟩ := hchain.read_mem id hmem
      have hv := Pager.view_eq_some.1 hview
      exact ⟨hmem, hv.1, hv.2.1⟩
    have hlink : next.getD rootNone < s.pager.active.pageCount ∧
        next.getD rootNone ∉ s.reusablePages := by
      cases next with
      | none =>
        have hcount := s.pager.active.count_ok
        rw [superblockCount_eq] at hcount
        refine ⟨by rw [Option.getD_none, rootNone_eq]; omega, fun hmem => ?_⟩
        have := (h.range _ hmem).1
        simp at this
      | some id => exact ⟨(hnext id rfl).2.2, hids id (hnext id rfl).1⟩
    have hrange : ∀ id ∈ next, superblockCount ≤ id := fun id hid => (hnext id hid).2.1
    rw [commitChunks, Prog.wp_bind]
    refine Prog.wp_mono (@writeTreePage_spec _ h _ [chunk] _ _ hlink.1 hlink.2 ?_) ?_
      fun _ _ he => he
    · exact fun page hkind hempty _ hv hself => fills_overflow hne hlen hrange hkind hempty hv hself
    rintro id s' ⟨htakes, page, hview, hkind, hcells, hpage⟩
    have hchain' : ChainTo s'.pager.view (some id) (id :: ids) (chunk :: done) none := by
      refine ⟨rfl, page, hview, hkind, hcells, ?_⟩
      rw [Page.overflowNext_eq hkind hrange hpage]
      exact hchain.mono fun x hx q hq => htakes.adv.keeps x (hids x hx) q hq
    have hids' : ∀ x ∈ id :: ids, x ∉ s'.reusablePages :=
      List.forall_mem_cons.2 ⟨(htakes.taken id (by simp)).1, fun x hx hmem => hids x hx (htakes.sub hmem)⟩
    refine htakes.wp (Prog.wp_mono (ih hsize htakes.ready hchain' hids') ?_ fun _ _ he => he)
    rintro next' s'' ⟨fresh, htakes', hresult⟩
    refine ⟨fresh ++ [id], ?_, ?_⟩
    · have hsum : (↑(fresh ++ [id]) : Multiset ℕ) = {id} + ↑fresh := by
        rw [add_comm, ← Multiset.coe_add]
        rfl
      rw [hsum]
      exact htakes.trans htakes'
    · rw [List.append_assoc, List.singleton_append, List.reverse_cons, List.append_assoc,
        List.singleton_append]
      exact hresult

/-- **Writing a blob** takes its chain. -/
theorem commitOverflowBlob_spec (h : s.Ready) {bytes : Bytes} (hne : bytes ≠ []) :
    Prog.wp (commitOverflowBlob bytes)
      (fun id s' => ∃ b : Blob, b.bytes = bytes ∧ b.chain.head? = some id ∧ s.Takes b.chain s' ∧
        b.Kept s')
      (s.Stops False) s := by
  obtain ⟨first, rest, hreverse, hchunks⟩ := rchunks_reverse hne
  have hsize : ∀ c ∈ rchunks overflowCellCapacity bytes, c ≠ [] ∧
      c.length ≤ overflowCellCapacity := by
    intro c hc
    rw [← List.mem_reverse, hreverse] at hc
    have hpos := overflowCellCapacity_eq
    rcases List.mem_cons.1 hc with rfl | hc
    · exact ⟨List.ne_nil_of_length_pos hchunks.first_pos, hchunks.first_le⟩
    · have hfull := hchunks.rest_full c hc
      exact ⟨List.ne_nil_of_length_pos (by omega), hfull.le⟩
  rw [commitOverflowBlob, if_neg hne, Prog.wp_bind]
  refine Prog.wp_mono (@commitChunks_spec _ _ hsize _ [] [] h rfl (by simp)) ?_
    fun _ _ he => he
  rintro next s' ⟨fresh, htakes, hchain⟩
  rw [List.append_nil, List.append_nil, hreverse] at hchain
  have hhead := chainTo_head hchain
  cases fresh with
  | nil => exact hchain.elim
  | cons id ids =>
    rw [List.head?_cons] at hhead
    subst hhead
    exact ⟨⟨bytes, id :: ids⟩, rfl, rfl, htakes, .inr ⟨htakes.nodup, first, rest, hchunks, hchain⟩,
      fun x hx => (htakes.taken x hx).1⟩

theorem storedKey_overflow {b : Blob} {first : ℕ} (h : b.chain.head? = some first) :
    b.storedKey = .overflow b.bytes first ∧ b.inline = false := by
  unfold Blob.storedKey Blob.inline
  cases hc : b.chain with
  | nil => rw [hc] at h; cases h
  | cons id ids => rw [hc] at h; cases h; exact ⟨rfl, rfl⟩

/-- **Storing a key** keeps a short one inline and writes a chain for a long one. -/
theorem storeKey_spec (h : s.Ready) {key : Bytes} (hkey : key.length ≤ maxTreeKeyBytes) :
    Prog.wp (storeKey key)
      (fun stored s' => ∃ b : Blob, stored = b.storedKey ∧ b.bytes = key ∧
        b.inline = decide (key.length ≤ maxInlineKeyBytes) ∧ s.Takes b.chain s' ∧ b.Kept s')
      (s.Stops False) s := by
  rw [storeKey, validateKey, if_neg (not_lt.2 hkey)]
  simp only [Prog.wp_bind, Prog.wp_ofExcept, reduceCtorEq, false_implies, implies_true, and_true]
  intro _ _
  by_cases hinline : key.length ≤ maxInlineKeyBytes
  · rw [if_pos hinline]
    exact ⟨⟨key, []⟩, rfl, rfl, (decide_eq_true hinline).symm, h.takes, .inl rfl, by simp⟩
  · have hne : key ≠ [] := by rintro rfl; exact hinline (Nat.zero_le _)
    rw [if_neg hinline, Prog.wp_bind]
    refine Prog.wp_mono (commitOverflowBlob_spec h hne) ?_ fun _ _ he => he
    rintro first s' ⟨b, rfl, hhead, htakes, hkept⟩
    obtain ⟨hstored, hflag⟩ := storedKey_overflow hhead
    exact ⟨b, hstored.symm, rfl, hflag.trans (decide_eq_false hinline).symm, htakes, hkept⟩

theorem encodedPayloadLen_storedKey (b : Blob) :
    b.storedKey.encodedPayloadLen = keyCost b.bytes.length b.inline := by
  obtain ⟨bytes, chain⟩ := b
  cases chain <;> rfl

/-- **Storing a value** keeps it inline when the cell fits in a page. -/
theorem storeValue_spec (h : s.Ready) {key : StoredKey} {value : Bytes}
    (hkey : key.encodedPayloadLen ≤ maxInlineKeyBytes) (hvalue : value.length ≤ maxTreeValueBytes) :
    Prog.wp (storeValue key value)
      (fun stored s' => ∃ b : Blob, stored = b.storedValue ∧ b.bytes = value ∧
        b.inline = decide (slotLen + leafCellHeaderLen + key.encodedPayloadLen + value.length
          ≤ pageBodyCapacity) ∧ s.Takes b.chain s' ∧ b.Kept s')
      (s.Stops False) s := by
  rw [storeValue, validateValueLen, if_neg (not_lt.2 hvalue)]
  simp only [Prog.wp_bind, Prog.wp_ofExcept, reduceCtorEq, false_implies, implies_true, and_true]
  intro _ _
  by_cases hinline : slotLen + leafCellHeaderLen + key.encodedPayloadLen + value.length
      ≤ pageBodyCapacity
  · rw [if_pos hinline]
    exact ⟨⟨value, []⟩, rfl, rfl, (decide_eq_true hinline).symm, h.takes, .inl rfl, by simp⟩
  · have hne : value ≠ [] := by
      rintro rfl
      rw [maxInlineKeyBytes_eq] at hkey
      rw [slotLen_eq, leafCellHeaderLen_eq, pageBodyCapacity_eq, List.length_nil] at hinline
      omega
    rw [if_neg hinline, Prog.wp_bind]
    refine Prog.wp_mono (commitOverflowBlob_spec h hne) ?_ fun _ _ he => he
    rintro first s' ⟨b, rfl, hhead, htakes, hkept⟩
    exact ⟨b, (Blob.storedValue_of_head hhead).symm, rfl,
      (storedKey_overflow hhead).2.trans (decide_eq_false hinline).symm, htakes, hkept⟩

end BPlusTree

end DbLab.Btree
