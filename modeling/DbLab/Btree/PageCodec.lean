import DbLab.Btree.Overflow

/-!
# Storing and reading the cells of a page

A list of pairs that is stored, encoded and written as a leaf is decoded as it was, whether its keys and values are
inline or in overflow chains, and so are the children of an internal page. The sizes of the cells are known before
any overflow page is written; what fits by these sizes is written.
-/

namespace DbLab.Btree

open Checked

namespace BPlusTree

variable {s s' : BPlusTree} {pairs : List (Bytes × Bytes)} {children : List ChildRef}

/-- Store the keys and values of pairs, each as `put` stores a new pair. -/
def storeEntries : List (Bytes × Bytes) → TreeProg (List LeafEntry)
  | [] => pure []
  | (key, value) :: pairs => do
    let storedKey ← storeKey key
    let storedValue ← storeValue storedKey value
    let entries ← storeEntries pairs
    pure (⟨storedKey, storedValue⟩ :: entries)

/-- The sizes of leaf cells with their slots, known before the pairs are stored. -/
def pairSizes (pairs : List (Bytes × Bytes)) : List ℕ := pairs.map fun pair => (Entry.of pair.1 pair.2).size

/-- Keys and values within the limits. -/
def Storable (pair : Bytes × Bytes) : Prop :=
  pair.1.length ≤ maxTreeKeyBytes ∧ pair.2.length ≤ maxTreeValueBytes

theorem storeEntries_spec (h : s.Ready) (hpairs : ∀ pair ∈ pairs, Storable pair) :
    Prog.wp (storeEntries pairs)
      (fun entries s' => ∃ es : List PEntry, entries = es.map PEntry.stored ∧
        es.map PEntry.entry = pairs.map (fun pair => Entry.of pair.1 pair.2) ∧ (∃ ids, s.Takes ids s') ∧
        ∀ e ∈ es, e.Kept s' ∧ ∃ cell, LeafCell cell e)
      (s.Stops False) s := by
  induction pairs generalizing s with
  | nil => exact ⟨[], rfl, rfl, ⟨0, h.takes⟩, by simp⟩
  | cons pair pairs ih =>
    obtain ⟨key, value⟩ := pair
    obtain ⟨⟨hkey, hvalue⟩, hpairs⟩ := List.forall_mem_cons.1 hpairs
    simp only [storeEntries, Prog.wp_bind, Prog.wp_pure]
    refine Prog.wp_mono (storePair_spec h hkey hvalue)
      (fun k s₀ hpair => Prog.wp_mono hpair ?_ fun _ _ he => he) fun _ _ he => he
    rintro v s₁ ⟨e, he, htakes, hnew⟩
    refine htakes.wp (Prog.wp_mono (ih htakes.ready hpairs) ?_ fun _ _ he => he)
    rintro entries s₂ ⟨es, rfl, hentries, ⟨ids, htakes₂⟩, hes⟩
    refine ⟨e :: es, ?_, ?_, ⟨_, htakes.trans htakes₂⟩,
      List.forall_mem_cons.2 ⟨⟨hnew.kept.mono htakes₂, hnew.encodes⟩, hes⟩⟩
    · rw [List.map_cons, he]
    · rw [List.map_cons, List.map_cons, hnew.entry, hentries]

/-- **A leaf is decoded as its pairs were stored**; its cells have the sizes known before. -/
theorem commitLeaf_decodes (h : s.Ready) (hne : pairs ≠ []) (hpairs : ∀ pair ∈ pairs, Storable pair)
    (hkeys : StrictlyIncreasing (pairs.map Prod.fst)) :
    Prog.wp (storeEntries pairs >>= commitLeaf)
      (fun child s' => ∃ page entries, s'.pager.readPage child.pageId = .ok page ∧
        cellSizes page.cells = pairSizes pairs ∧ s'.pager.decodeLeaf page none = .ok (entries, none) ∧
        entries.map (fun entry => entry.key.asSlice) = pairs.map Prod.fst ∧
        entries.mapM (fun entry => s'.pager.loadValue entry.value) = .ok (pairs.map Prod.snd))
      (s.Stops (pageBodyCapacity < (pairSizes pairs).sum)) s := by
  rw [Prog.wp_bind]
  refine Prog.wp_mono (storeEntries_spec h hpairs) ?_ fun _ _ he => he.imp False.elim
  rintro _ s₁ ⟨es, rfl, hentries, ⟨ids, htakes⟩, hes⟩
  have hin : LeafInput s₁ es := by
    refine ⟨?_, fun e he => (hes e he).1, fun e he => (hes e he).2⟩
    rintro rfl
    exact hne (List.map_eq_nil_iff.1 hentries.symm)
  have hsizes : (es.map PEntry.entry).map Entry.size = pairSizes pairs := by
    rw [hentries, List.map_map]
    rfl
  have hfst : (es.map PEntry.entry).map Entry.key = pairs.map Prod.fst := by
    rw [hentries, List.map_map]
    rfl
  have hsnd : es.map (fun e => e.value.bytes) = pairs.map Prod.snd := by
    have hvalues := congrArg (List.map Entry.value) hentries
    rw [List.map_map, List.map_map] at hvalues
    exact hvalues
  have hcommit := commitLeaf_spec htakes.ready hin
  rw [hsizes] at hcommit
  refine htakes.wp (Prog.wp_mono hcommit ?_ fun _ _ he => he)
  rintro child s' ⟨t, rfl, rfl, ids', htakes', hkept, -⟩
  have hp := htakes'.ready.live.healthy
  obtain ⟨hon, -⟩ := hkept t (by simp)
  have hsorted : t.tree.Sorted := sortedBy_iff_isChain.2 (by rw [show t.tree.entries.map Entry.key = _ from hfst]; exact hkeys)
  obtain ⟨page, hread, -, hcells, hdecode⟩ := decodeLeaf_stored hp hon hsorted
  refine ⟨page, t.storedCells, hread, ?_, hdecode, ?_, ?_⟩
  · rw [← hsizes, List.map_map]
    exact map_eq_of_forall₂ hcells fun _ _ hcell => leafCell_size hcell
  · rw [PTree.storedCells, asSlice_storedCells, hfst]
  · rw [← hsnd, mapM_eq_ok, PTree.storedCells, List.forall₂_map_left_iff, List.forall₂_map_right_iff,
      List.forall₂_same]
    intro e he
    obtain ⟨cell, -, henc⟩ := exists_of_mem_right hcells he
    exact loadValue_stored hp (hon.2 e he) henc

/-- **An internal page is decoded as its children were given**; its cells have the sizes of the previews. -/
theorem commitInternal_decodes (h : s.Ready) (hne : children ≠ []) (hrefs : ∀ child ∈ children, RefOk child)
    (hids : ∀ child ∈ children, child.pageId < u64Bound)
    (hkeys : StrictlyIncreasing (children.map ChildRef.minKey)) :
    ∃ previews, children.mapM encodeInternalCell = .ok previews ∧
      Prog.wp (commitInternal children)
        (fun child s' => ∃ page, s'.pager.readPage child.pageId = .ok page ∧
          cellSizes page.cells = cellSizes previews ∧ s'.pager.decodeInternal page none = .ok (children, none))
        (s.Stops (cellsFit previews = false)) s := by
  obtain ⟨previews, hmap, hsizes⟩ := previews_ok hrefs
  refine ⟨previews, hmap, ?_⟩
  rw [commitInternal, validateChildRefs_eq_ok.2 ⟨hne, hrefs, hkeys⟩, hmap]
  simp only [Prog.wp_bind, Prog.wp_ofExcept, Except.ok.injEq, forall_eq', reduceCtorEq,
    false_implies, implies_true, and_true, forall_const]
  by_cases hfit : cellsFit previews = true
  · rw [if_neg (not_not.2 hfit)]
    obtain ⟨first, rest, rfl⟩ := List.exists_cons_of_ne_nil hne
    have hsum : (refSizes (first :: rest)).sum ≤ pageBodyCapacity := by
      rw [← hsizes]
      exact cellsFit_iff.1 hfit
    refine Prog.wp_mono (commitInternalWithCells_spec h hrefs hsizes hsum) ?_ fun _ _ he => he.imp False.elim
    rintro child s' ⟨-, us, hus, htakes, hkept, page, hview, hkind, hcells, hcellSizes⟩
    have hp := htakes.ready.live.healthy
    have hmem : ∀ u ∈ us, u.2 ∈ first :: rest := by
      intro u hu
      rw [← hus]
      exact List.mem_map_of_mem hu
    refine ⟨page, Pager.readPage_eq_ok.2 ⟨hp, hview⟩, hcellSizes.trans hsizes.symm,
      (decodeInternal_eq_ok hp).2 ⟨hkind, us.map fun u => (u.1, u.2.pageId), ?_, ?_, ?_, ?_, rfl⟩⟩
    · -- a decoded child is the reference of its cell
      rw [← hus, List.map_map]
      exact List.map_congr_left fun u hu => by
        show u.2 = ⟨u.1.bytes, u.2.pageId⟩
        rw [(hkept u hu).2]
    · rw [List.forall₂_map_right_iff]
      refine forall₂_imp_right hcells fun cell u hu henc => ⟨henc, ?_, (hkept u hu).1.1⟩
      have hlt := hids _ (hmem u hu)
      rw [u64Bound_eq] at hlt
      show u.2.pageId < 256 ^ 8
      omega
    · intro hnil
      rw [List.map_eq_nil_iff.1 hnil] at hus
      cases hus
    · have hbytes : (us.map fun u => (u.1, u.2.pageId)).map (fun d => d.1.bytes) =
          (first :: rest).map ChildRef.minKey := by
        rw [← hus, List.map_map, List.map_map]
        exact List.map_congr_left fun u hu => (hkept u hu).2
      rw [hbytes]
      exact hkeys
  · rw [if_pos hfit]
    exact h.wp_throw (by simpa using hfit)

/-- **The codec of leaf and internal cells.** In a mutation, from its pool on: strictly increasing keys with their
values, and strictly increasing separators with their children, are decoded from their page as they were stored,
and the cells of the page have the sizes that were computed before an overflow page was written. Unless a fault is
injected or the counters end, the page is written when the cells of these sizes fit. -/
theorem cell_codec :
    (∀ s, Session s → Prog.wp refreshReusablePages (fun _ s' => s'.Ready) (fun _ _ => True) s) ∧
    (∀ (s : BPlusTree) pairs, s.Ready → pairs ≠ [] → (∀ pair ∈ pairs, Storable pair) →
      StrictlyIncreasing (pairs.map Prod.fst) →
      Prog.wp (storeEntries pairs >>= commitLeaf)
        (fun child s' => ∃ page entries, s'.pager.readPage child.pageId = .ok page ∧
          cellSizes page.cells = pairSizes pairs ∧ s'.pager.decodeLeaf page none = .ok (entries, none) ∧
          entries.map (fun entry => entry.key.asSlice) = pairs.map Prod.fst ∧
          entries.mapM (fun entry => s'.pager.loadValue entry.value) = .ok (pairs.map Prod.snd))
        (s.Stops (pageBodyCapacity < (pairSizes pairs).sum)) s) ∧
    ∀ (s : BPlusTree) children, s.Ready → children ≠ [] → (∀ child ∈ children, RefOk child) →
      (∀ child ∈ children, child.pageId < u64Bound) → StrictlyIncreasing (children.map ChildRef.minKey) →
      ∃ previews, children.mapM encodeInternalCell = .ok previews ∧
        Prog.wp (commitInternal children)
          (fun child s' => ∃ page, s'.pager.readPage child.pageId = .ok page ∧
            cellSizes page.cells = cellSizes previews ∧ s'.pager.decodeInternal page none = .ok (children, none))
          (s.Stops (cellsFit previews = false)) s :=
  ⟨fun _ h => refreshReusablePages_ready h.live.1, fun _ _ h hne hpairs hkeys => commitLeaf_decodes h hne hpairs hkeys,
    fun _ _ h hne hrefs hids hkeys => commitInternal_decodes h hne hrefs hids hkeys⟩

/-- A leaf with one pair and an internal page with two children on a new file. -/
theorem cell_codec_first :
    (∃ child s' page entries, (storeEntries [([1], [2])] >>= commitLeaf) createNew = (.ok child, s') ∧
      s'.pager.readPage child.pageId = .ok page ∧ s'.pager.decodeLeaf page none = .ok (entries, none) ∧
      entries.map (fun entry => entry.key.asSlice) = [[1]]) ∧
    ∃ child s' page, commitInternal [⟨[], 7⟩, ⟨[1], 8⟩] createNew = (.ok child, s') ∧
      s'.pager.readPage child.pageId = .ok page ∧
      s'.pager.decodeInternal page none = .ok ([⟨[], 7⟩, ⟨[1], 8⟩], none) := by
  have hready : createNew.Ready := ⟨createNew_live.1, List.nodup_nil, fun id hid => by cases hid⟩
  constructor
  · have hok : ((storeEntries [([1], [2])] >>= commitLeaf) createNew).1 = .ok ⟨[1], 2⟩ := by decide +kernel
    have hrun : (storeEntries [([1], [2])] >>= commitLeaf) createNew =
        (.ok ⟨[1], 2⟩, ((storeEntries [([1], [2])] >>= commitLeaf) createNew).2) := by rw [← hok]
    obtain ⟨page, entries, hread, -, hdecode, hkeys, -⟩ := Prog.wp_ok (cell_codec.2.1 createNew [([1], [2])] hready
      (by decide) (by unfold Storable; decide) (by decide)) hrun
    exact ⟨_, _, page, entries, hrun, hread, hdecode, hkeys⟩
  · have hok : (commitInternal [⟨[], 7⟩, ⟨[1], 8⟩] createNew).1 = .ok ⟨[], 2⟩ := by decide +kernel
    have hrun : commitInternal [⟨[], 7⟩, ⟨[1], 8⟩] createNew =
        (.ok ⟨[], 2⟩, (commitInternal [⟨[], 7⟩, ⟨[1], 8⟩] createNew).2) := by rw [← hok]
    obtain ⟨previews, -, hcommit⟩ := cell_codec.2.2 createNew [⟨[], 7⟩, ⟨[1], 8⟩] hready (by decide)
      (by unfold RefOk; decide) (by rw [u64Bound_eq]; decide) (by decide)
    obtain ⟨page, hread, -, hdecode⟩ := Prog.wp_ok hcommit hrun
    exact ⟨_, _, page, hrun, hread, hdecode⟩

end BPlusTree
end DbLab.Btree
