import DbLab.Btree.Insert

/-!
# Deletion

`delete` on a valid stored tree publishes a valid stored tree without the key (`delete_stored`). The
rewriting of a path hands back a page whose children are wide but that may have one child only; its
parent merges such a page with a sibling or divides the children of both anew, and a root of one
child is replaced by that child.
-/

namespace DbLab.Btree

open Checked

namespace Tree

/-- Every internal page below the root has two children. -/
def Narrow : {n : ℕ} → Tree n → Prop
  | 0, _ => True
  | _ + 1, t => ∀ c ∈ t.children, Wide c

theorem Wide.narrow : ∀ {n : ℕ} {t : Tree n}, t.Wide → t.Narrow
  | 0, _, _ => trivial
  | _ + 1, _, h => h.2

end Tree

namespace BPlusTree

variable {s s' s'' : BPlusTree} {n : ℕ} {given given' : Multiset ℕ} {es es' : List Entry}

/-- The entries `es` were written as a list of trees with two children in every internal page. -/
structure Rebuilt (s : BPlusTree) (given : Multiset ℕ) (es : List Entry) (ts : List (PTree n))
    (s' : BPlusTree) : Prop where
  writes : Writes s given ts s'
  proper : ∀ t ∈ ts, t.tree.Proper
  wide : ∀ t ∈ ts, t.tree.Wide
  entries : (ts.map PTree.tree).flatMap Tree.entries = es

theorem Rebuilt.append {ts ts' : List (PTree n)} (h : Rebuilt s given es ts s')
    (h' : Rebuilt s' given' es' ts' s'') :
    Rebuilt s (given + given') (es ++ es') (ts ++ ts') s'' where
  writes := h.writes.append h'.writes
  proper := fun t ht => (List.mem_append.1 ht).elim (h.proper t) (h'.proper t)
  wide := fun t ht => (List.mem_append.1 ht).elim (h.wide t) (h'.wide t)
  entries := by rw [List.map_append, List.flatMap_append, h.entries, h'.entries]

/-! ### Two siblings -/

/-- Leaves for the parts of a list of entries. -/
theorem rebuilt_leaves {ts : List (PTree 0)} {cells : List PEntry}
    (hts : (ts.map PTree.cells).flatten = cells) (hne : ∀ t ∈ ts, t.cells ≠ [])
    (hwrites : Writes s given ts s') : Rebuilt s given (cells.map PEntry.entry) ts s' := by
  refine ⟨hwrites, fun t ht => ?_, fun _ _ => trivial, ?_⟩
  · show t.cells.map PEntry.entry ≠ []
    simpa using hne t ht
  · rw [← hts, List.map_flatten, List.map_map, ← List.flatMap_def, List.flatMap_map]
    rfl

/-- Internal pages for the parts of a list of wide children. -/
theorem rebuilt_nodes {ts : List (PTree (n + 1))} {cs : List (PTree n)}
    (hts : (ts.map fun t => t.children.map Prod.snd).flatten = cs)
    (hlen : ∀ t ∈ ts, 2 ≤ t.children.length) (hproper : ∀ c ∈ cs, c.tree.Proper)
    (hwide : ∀ c ∈ cs, c.tree.Wide) (hwrites : Writes s given ts s') :
    Rebuilt s given ((cs.map PTree.tree).flatMap Tree.entries) ts s' := by
  have hmem : ∀ t ∈ ts, ∀ c ∈ t.tree.children, ∃ d ∈ cs, c = d.tree := by
    intro t ht c hc
    obtain ⟨x, hx, rfl⟩ := List.mem_map.1 hc
    refine ⟨x.2, ?_, rfl⟩
    rw [← hts]
    exact List.mem_flatten.2 ⟨_, List.mem_map_of_mem ht, List.mem_map_of_mem hx⟩
  have hchildren : ∀ t ∈ ts, t.tree.children.length = t.children.length :=
    fun t _ => List.length_map ..
  refine ⟨hwrites, fun t ht => ⟨?_, fun c hc => ?_⟩, fun t ht => ⟨?_, fun c hc => ?_⟩, ?_⟩
  · have h2 := hlen t ht
    rw [← hchildren t ht] at h2
    exact List.ne_nil_of_length_pos (by omega)
  · obtain ⟨d, hd, rfl⟩ := hmem t ht c hc
    exact hproper d hd
  · rw [hchildren t ht]
    exact hlen t ht
  · obtain ⟨d, hd, rfl⟩ := hmem t ht c hc
    exact hwide d hd
  · rw [← hts, List.map_flatten, List.map_map, ← List.flatMap_def, List.flatMap_map,
      List.flatMap_assoc]
    refine List.flatMap_congr fun t _ => ?_
    show t.tree.children.flatMap Tree.entries = _
    rw [children_tree rfl]
    rfl

/-- Source `rebalance_leaf_pair`. -/
theorem rebalanceLeafPair_spec (h : s.Ready) {a b : PTree 0} (ha : a.Kept s) (hb : b.Kept s)
    (hpa : a.tree.Proper) (hs : SortedBy Entry.key (a.tree.entries ++ b.tree.entries))
    {left right : Page} (hleft : s.pager.readPage a.pid = .ok left)
    (hright : s.pager.readPage b.pid = .ok right) :
    Prog.wp (rebalanceLeafPair left right)
      (fun refs s' => ∃ ts : List (PTree 0), refs = ts.map PTree.refOf ∧
        Tree.rebalancePair a.tree b.tree = some (ts.map PTree.tree) ∧
        Rebuilt s (a.footprint + b.footprint) (a.tree.entries ++ b.tree.entries) ts s')
      (s.Stops (Tree.rebalancePair a.tree b.tree = none)) s := by
  have hp := h.live.healthy
  have hboth := hs
  rw [sortedBy_append] at hs
  obtain ⟨_, hreada, -, hcellsa, hdeca⟩ := decodeLeaf_stored hp ha.1 hs.1
  obtain ⟨_, hreadb, -, hcellsb, hdecb⟩ := decodeLeaf_stored hp hb.1 hs.2.1
  cases hreada.symm.trans hleft
  cases hreadb.symm.trans hright
  -- The cells of both leaves, in order, are divided anew.
  have hin : LeafInput s (a.cells ++ b.cells) := by
    refine ⟨fun hnil => hpa (by simp [PTree.tree, (List.append_eq_nil_iff.1 hnil).1]),
      fun e he => ?_, fun e he => ?_⟩
    · exact (List.mem_append.1 he).elim ha.cell hb.cell
    · rcases List.mem_append.1 he with he | he
      · obtain ⟨cell, -, hcell⟩ := exists_of_mem_right hcellsa he
        exact ⟨cell, hcell⟩
      · obtain ⟨cell, -, hcell⟩ := exists_of_mem_right hcellsb he
        exact ⟨cell, hcell⟩
  have hstored : a.storedCells ++ b.storedCells = (a.cells ++ b.cells).map PEntry.stored :=
    List.map_append.symm
  have hentries : (a.cells ++ b.cells).map PEntry.entry = a.tree.entries ++ b.tree.entries :=
    List.map_append
  have hpages : ((a.cells ++ b.cells).map PEntry.pages).sum ≤ a.footprint + b.footprint := by
    rw [List.map_append, List.sum_append, PTree.footprint_zero, PTree.footprint_zero]
    exact add_le_add (Multiset.le_add_left _ _) (Multiset.le_add_left _ _)
  obtain ⟨cells, hmap, -, hsizes⟩ := hin.cells
  have hinc : StrictlyIncreasing
      (((a.cells ++ b.cells).map PEntry.stored).map fun entry => entry.key.asSlice) := by
    rw [asSlice_storedCells, hentries]
    exact sortedBy_iff_isChain.1 hboth
  have hpair : Tree.rebalancePair a.tree b.tree =
      (divide Entry.size ((a.cells ++ b.cells).map PEntry.entry)).map (List.map Tree.leaf) := by
    rw [hentries]
    rfl
  rw [hpair]
  unfold rebalanceLeafPair
  simp only [query, Prog.wp_bind, Prog.wp_reads, hdeca, hdecb, Except.ok.injEq, forall_eq',
    reduceCtorEq, false_implies, implies_true, and_true, hstored]
  rw [if_neg (not_not.2 hinc), hmap]
  simp only [Prog.wp_bind, Prog.wp_ofExcept, Except.ok.injEq, forall_eq', reduceCtorEq,
    false_implies, implies_true, and_true]
  refine Prog.wp_mono (commitLeafDivided_spec h hin hsizes fun hfit =>
    Prog.wp_mono (commitLeaf_spec h hin) (fun _ _ hq => hq) fun _ _ he => he.imp fun hlt =>
      absurd hfit (not_le.2 hlt)) ?_ fun _ _ he => he.imp fun hnone => by rw [hnone]; rfl
  rintro _ s' ⟨ts, rfl, hts, hne, hdiv, hwrites⟩
  have hres := rebuilt_leaves hts hne hwrites
  rw [hentries] at hres
  refine ⟨ts, rfl, ?_, hres.writes.mono hpages, hres.proper, hres.wide, hres.entries⟩
  rw [hdiv, Option.map_some, List.map_map]
  rfl

/-- The children of two siblings. -/
def pairChildren (a b : PTree (n + 1)) : List (PTree n) := (a.children ++ b.children).map Prod.snd

section PairChildren

variable {a b : PTree (n + 1)}

theorem tree_pairChildren : (pairChildren a b).map PTree.tree = a.tree.children ++ b.tree.children := by
  rw [pairChildren, List.map_append, List.map_append, children_tree rfl, children_tree rfl]

theorem entries_pairChildren :
    ((pairChildren a b).map PTree.tree).flatMap Tree.entries = a.tree.entries ++ b.tree.entries := by
  rw [tree_pairChildren, List.flatMap_append]
  rfl

theorem refs_pairChildren {read : ℕ → Option Page} (ha : a.On read) (hb : b.On read) :
    a.refs ++ b.refs = (pairChildren a b).map PTree.refOf := by
  rw [PTree.refs_eq ha, PTree.refs_eq hb, ← List.map_append, ← List.map_append, pairChildren]

theorem footprint_pairChildren :
    ((pairChildren a b).map PTree.footprint).sum ≤ a.footprint + b.footprint := by
  have hle : ∀ t : PTree (n + 1), ((t.children.map Prod.snd).map PTree.footprint).sum ≤ t.footprint := by
    intro t
    rw [PTree.footprint_succ, List.sum_map_add, List.map_map]
    exact (Multiset.le_add_left _ _).trans (Multiset.le_add_left _ _)
  rw [pairChildren, List.map_append, List.map_append, List.sum_append]
  exact add_le_add (hle a) (hle b)

theorem length_pairChildren (hpa : a.tree.Proper) (hpb : b.tree.Proper) : 2 ≤ (pairChildren a b).length := by
  have hpos : ∀ t : PTree (n + 1), t.tree.Proper → 1 ≤ t.children.length := by
    intro t ht
    have hlen : t.tree.children.length = t.children.length := List.length_map ..
    rw [← hlen]
    exact List.length_pos_of_ne_nil ht.1
  have hposa := hpos a hpa
  have hposb := hpos b hpb
  rw [pairChildren, List.length_map, List.length_append]
  omega

theorem mem_pairChildren {c : PTree n} (hc : c ∈ pairChildren a b) :
    ∃ x, (x, c) ∈ a.children ∨ (x, c) ∈ b.children := by
  obtain ⟨y, hy, rfl⟩ := List.mem_map.1 hc
  exact ⟨y.1, List.mem_append.1 hy⟩

theorem wide_pairChildren (hna : a.tree.Narrow) (hnb : b.tree.Narrow) :
    ∀ c ∈ pairChildren a b, c.tree.Wide := by
  intro c hc
  obtain ⟨x, hx | hx⟩ := mem_pairChildren hc
  · exact hna _ (List.mem_map_of_mem hx)
  · exact hnb _ (List.mem_map_of_mem hx)

theorem nodeInput_pairChildren (ha : a.Kept s) (hb : b.Kept s) (hpa : a.tree.Proper) (hpb : b.tree.Proper)
    (hs : SortedBy Entry.key (a.tree.entries ++ b.tree.entries)) : NodeInput s (pairChildren a b) := by
  have hlen := length_pairChildren hpa hpb
  refine ⟨List.ne_nil_of_length_pos (by omega), fun c hc => ?_, fun c hc => ?_, ?_⟩
  · obtain ⟨x, hx | hx⟩ := mem_pairChildren hc
    · exact ha.child hx
    · exact hb.child hx
  · obtain ⟨x, hx | hx⟩ := mem_pairChildren hc
    · exact hpa.2 _ (List.mem_map_of_mem hx)
    · exact hpb.2 _ (List.mem_map_of_mem hx)
  · rw [Tree.SortedChildren, entries_pairChildren]
    exact hs

end PairChildren

/-- The trees of pages over given children. -/
theorem tree_children (ts : List (PTree (n + 1))) : ts.map PTree.tree =
    ((ts.map fun t => t.children.map Prod.snd).map (List.map PTree.tree)).map Tree.node := by
  rw [List.map_map, List.map_map]
  refine List.map_congr_left fun t _ => ?_
  show t.tree = Tree.node ((t.children.map Prod.snd).map PTree.tree)
  rw [← children_tree rfl, Tree.node_children]

/-- The second half of `rebalance_internal_pair`: children are written into one page, or into two with two
children each. -/
theorem commitDivided_spec (h : s.Ready) {cs : List (PTree n)} (hin : NodeInput s cs)
    (hwide : ∀ c ∈ cs, c.tree.Wide) (htwo : 2 ≤ cs.length) {cells : List Bytes}
    (hsizes : cellSizes cells = (cs.map PTree.tree).map sepSize) :
    Prog.wp (if cellsFit cells then do
        let child ← commitInternal (cs.map PTree.refOf)
        pure [child]
      else
        match chooseInternalRebalanceSplit cells with
        | none =>
          Prog.throw (.invalidInput
            "delete internal redistribution cannot keep two children on each sibling")
        | some split => do
          let left ← commitInternal ((cs.map PTree.refOf).take split)
          let right ← commitInternal ((cs.map PTree.refOf).drop split)
          pure [left, right])
      (fun refs s' => ∃ ts : List (PTree (n + 1)), refs = ts.map PTree.refOf ∧
        (divideInternal sepSize (cs.map PTree.tree)).map (List.map Tree.node) = some (ts.map PTree.tree) ∧
        Rebuilt s (cs.map PTree.footprint).sum ((cs.map PTree.tree).flatMap Tree.entries) ts s')
      (s.Stops ((divideInternal sepSize (cs.map PTree.tree)).map (List.map Tree.node) = none)) s := by
  have hcount : cells.length = (cs.map PTree.tree).length := by
    have hlength := congrArg List.length hsizes
    simpa [cellSizes] using hlength
  -- However the children are divided, the pages written are rebuilt nodes.
  have hend : ∀ (ts : List (PTree (n + 1))) (s' : BPlusTree),
      (ts.map fun t => t.children.map Prod.snd).flatten = cs → (∀ t ∈ ts, 2 ≤ t.children.length) →
      Writes s (cs.map PTree.footprint).sum ts s' →
      Rebuilt s (cs.map PTree.footprint).sum ((cs.map PTree.tree).flatMap Tree.entries) ts s' :=
    fun ts s' hts htwo hwrites => rebuilt_nodes hts htwo hin.proper hwide hwrites
  simp only [cellsFit_iff, chooseInternalRebalanceSplit, hsizes, hcount]
  by_cases hfit : ((cs.map PTree.tree).map sepSize).sum ≤ pageBodyCapacity
  · rw [if_pos hfit, Prog.wp_bind]
    refine Prog.wp_mono (commitInternal_spec h hin) ?_ fun _ _ he => he.imp fun hlt =>
      absurd hfit (not_le.2 hlt)
    rintro _ s' ⟨-, t, rfl, ht, hwrites, -⟩
    refine ⟨[t], rfl, ?_, hend [t] s' (by simpa using ht) ?_ hwrites⟩
    · rw [divideInternal, if_pos hfit, tree_children, List.map_singleton, ht]
      rfl
    · have hlen := congrArg List.length ht
      rw [List.length_map] at hlen
      simp only [List.forall_mem_singleton]
      omega
  · rw [if_neg hfit]
    by_cases hfew : (cs.map PTree.tree).length < 4
    · rw [if_pos hfew]
      exact h.wp_throw (by rw [divideInternal, if_neg hfit, if_pos hfew]; rfl)
    rw [if_neg hfew]
    cases hsplit : bestCut (fun split => 2 ≤ split ∧ 2 ≤ (cs.map PTree.tree).length - split)
        ((cs.map PTree.tree).map sepSize) with
    | none => exact h.wp_throw (by rw [divideInternal, if_neg hfit, if_neg hfew, hsplit]; rfl)
    | some k =>
      -- The cut leaves two children on each side.
      obtain ⟨hk1, hk2, hadmit, hcut⟩ := (bestCut_eq_some hsplit).1
      rw [List.length_map, List.length_map] at hk2
      obtain ⟨hl, hr⟩ := of_decide_eq_true hadmit
      rw [List.length_map] at hr
      refine Prog.wp_mono (commitInternals_spec h hin hk1 hk2) ?_
        fun _ _ he => he.imp fun hn => absurd hcut hn
      rintro _ s' ⟨ts, rfl, hts, hwrites⟩
      refine ⟨ts, rfl, ?_, hend ts s' (by rw [hts]; simp) (fun t ht => ?_) hwrites⟩
      · rw [divideInternal, if_neg hfit, if_neg hfew, hsplit, tree_children, hts, Option.map_some,
          ← List.map_take, ← List.map_drop]
        rfl
      · have hmem : t.children.map Prod.snd ∈ ts.map fun t => t.children.map Prod.snd :=
          List.mem_map_of_mem (f := fun t : PTree (n + 1) => t.children.map Prod.snd) ht
        rw [hts, List.mem_pair] at hmem
        rcases hmem with hmem | hmem
        · have := congrArg List.length hmem
          rw [List.length_map, List.length_take] at this
          omega
        · have := congrArg List.length hmem
          rw [List.length_map, List.length_drop] at this
          omega

/-- Source `rebalance_internal_pair`. -/
theorem rebalanceInternalPair_spec (h : s.Ready) {a b : PTree (n + 1)} (ha : a.Kept s)
    (hb : b.Kept s) (hpa : a.tree.Proper) (hpb : b.tree.Proper) (hna : a.tree.Narrow)
    (hnb : b.tree.Narrow) (hs : SortedBy Entry.key (a.tree.entries ++ b.tree.entries))
    {left right : Page} (hleft : s.pager.readPage a.pid = .ok left)
    (hright : s.pager.readPage b.pid = .ok right) :
    Prog.wp (rebalanceInternalPair left right)
      (fun refs s' => ∃ ts : List (PTree (n + 1)), refs = ts.map PTree.refOf ∧
        Tree.rebalancePair a.tree b.tree = some (ts.map PTree.tree) ∧
        Rebuilt s (a.footprint + b.footprint) (a.tree.entries ++ b.tree.entries) ts s')
      (s.Stops (Tree.rebalancePair a.tree b.tree = none)) s := by
  have hs' := sortedBy_append.1 hs
  obtain ⟨_, hreada, -, -, hdeca⟩ := decodeInternal_stored h.live.healthy ha.1 hpa hs'.1
  obtain ⟨_, hreadb, -, -, hdecb⟩ := decodeInternal_stored h.live.healthy hb.1 hpb hs'.2.1
  cases hreada.symm.trans hleft
  cases hreadb.symm.trans hright
  have hin := nodeInput_pairChildren ha hb hpa hpb hs
  obtain ⟨cells, hmap, hsizes⟩ := hin.previews
  have hpair : Tree.rebalancePair a.tree b.tree =
      (divideInternal sepSize ((pairChildren a b).map PTree.tree)).map (List.map Tree.node) := by
    rw [tree_pairChildren]
    rfl
  rw [hpair]
  unfold rebalanceInternalPair
  simp only [query, Prog.wp_bind, Prog.wp_reads, hdeca, hdecb, Except.ok.injEq, forall_eq',
    reduceCtorEq, false_implies, implies_true, and_true, refs_pairChildren ha.1 hb.1, Prog.wp_ofExcept,
    hin.validate, hmap, forall_const]
  refine Prog.wp_mono (commitDivided_spec h hin (wide_pairChildren hna hnb) (length_pairChildren hpa hpb) hsizes)
    ?_ fun _ _ he => he
  rintro _ s' ⟨ts, rfl, hdivided, hres⟩
  rw [entries_pairChildren] at hres
  exact ⟨ts, rfl, hdivided, hres.writes.mono footprint_pairChildren, hres.proper, hres.wide, hres.entries⟩

/-- The merge or redistribution of two siblings. -/
theorem rebalancePair_spec (h : s.Ready) {a b : PTree n} (ha : a.Kept s) (hb : b.Kept s)
    (hpa : a.tree.Proper) (hpb : b.tree.Proper) (hna : a.tree.Narrow) (hnb : b.tree.Narrow)
    (hs : SortedBy Entry.key (a.tree.entries ++ b.tree.entries)) {left right : Page}
    (hleft : s.pager.readPage a.pid = .ok left) (hright : s.pager.readPage b.pid = .ok right) :
    Prog.wp (rebalancePair left right)
      (fun refs s' => ∃ ts : List (PTree n), refs = ts.map PTree.refOf ∧
        Tree.rebalancePair a.tree b.tree = some (ts.map PTree.tree) ∧
        Rebuilt s (a.footprint + b.footprint) (a.tree.entries ++ b.tree.entries) ts s')
      (s.Stops (Tree.rebalancePair a.tree b.tree = none)) s := by
  have hp := h.live.healthy
  have hs' := sortedBy_append.1 hs
  cases n with
  | zero =>
    obtain ⟨_, hreada, hkinda, -, -⟩ := decodeLeaf_stored hp ha.1 hs'.1
    obtain ⟨_, hreadb, hkindb, -, -⟩ := decodeLeaf_stored hp hb.1 hs'.2.1
    cases hreada.symm.trans hleft
    cases hreadb.symm.trans hright
    rw [rebalancePair, hkinda, hkindb, if_neg (not_not.2 rfl)]
    exact rebalanceLeafPair_spec h ha hb hpa hs hleft hright
  | succ n =>
    obtain ⟨_, hreada, hkinda, -, -⟩ := decodeInternal_stored hp ha.1 hpa hs'.1
    obtain ⟨_, hreadb, hkindb, -, -⟩ := decodeInternal_stored hp hb.1 hpb hs'.2.1
    cases hreada.symm.trans hleft
    cases hreadb.symm.trans hright
    rw [rebalancePair, hkinda, hkindb, if_neg (not_not.2 rfl)]
    exact rebalanceInternalPair_spec h ha hb hpa hpb hna hnb hs hleft hright

/-! ### One page of children -/

theorem NodeInput.rebuilt {cs : List (PTree n)} (h : s.Ready) (hin : NodeInput s cs)
    (hwide : ∀ c ∈ cs, c.tree.Wide) :
    Rebuilt s (cs.map PTree.footprint).sum ((cs.map PTree.tree).flatMap Tree.entries) cs s :=
  ⟨⟨0, h.takes, hin.kept, by simp⟩, hin.proper, hwide, rfl⟩

theorem Rebuilt.nodeInput {ts : List (PTree n)} (h : Rebuilt s given es ts s')
    (hs : SortedBy Entry.key es) (hne : es ≠ []) : NodeInput s' ts := by
  obtain ⟨ids, htakes, hkept, -⟩ := h.writes
  refine ⟨fun hnil => hne ?_, hkept, h.proper, ?_⟩
  · rw [← h.entries, hnil]
    rfl
  · rw [Tree.SortedChildren, h.entries]
    exact hs

theorem NodeInput.entries_ne {cs : List (PTree n)} (h : NodeInput s cs) :
    (cs.map PTree.tree).flatMap Tree.entries ≠ [] := by
  obtain ⟨c, hc⟩ := List.exists_mem_of_ne_nil cs h.ne
  rw [ne_eq, List.flatMap_eq_nil_iff]
  exact fun hall => (h.proper c hc).entries_ne (hall _ (List.mem_map_of_mem hc))

theorem elementAt_refs {pre post : List (PTree n)} {c : PTree n} :
    Pager.elementAt ((pre ++ c :: post).map PTree.refOf) pre.length = .ok c.refOf := by
  rw [Pager.elementAt, List.map_append, List.map_cons, List.getElem?_append_right (by simp)]
  simp

/-- A page that is not underfull has two children. -/
theorem wide_of_not_underfull {t : Tree n} (hnarrow : t.Narrow) (h : t.underfull = false) : t.Wide := by
  cases n with
  | zero => trivial
  | succ n =>
    have hfull := of_decide_eq_false h
    rw [not_or, not_lt] at hfull
    exact ⟨hfull.1, hnarrow⟩

/-- The pages of two neighbours are replaced by the outcome of their rebalancing. -/
theorem rebalanceAt_spec (h : s.Ready) {front back : List (PTree n)} {a b : PTree n}
    (hin : NodeInput s (front ++ a :: b :: back)) (hfront : ∀ d ∈ front, d.tree.Wide)
    (hback : ∀ d ∈ back, d.tree.Wide) (hna : a.tree.Narrow) (hnb : b.tree.Narrow) :
    Prog.wp (do
      let left ← Prog.ofExcept
        (Pager.elementAt ((front ++ a :: b :: back).map PTree.refOf) front.length)
      let right ← Prog.ofExcept
        (Pager.elementAt ((front ++ a :: b :: back).map PTree.refOf) (front.length + 1))
      let leftPage ← query fun pager => pager.readPage left.pageId
      let rightPage ← query fun pager => pager.readPage right.pageId
      let replacements ← rebalancePair leftPage rightPage
      let children := ((front ++ a :: b :: back).map PTree.refOf).take front.length ++
        replacements ++ ((front ++ a :: b :: back).map PTree.refOf).drop (front.length + 2)
      Prog.ofExcept (validateChildRefs children)
      pure children)
      (fun refs s' => ∃ cs : List (PTree n), refs = cs.map PTree.refOf ∧
        Tree.rebalanceAt ((front ++ a :: b :: back).map PTree.tree) front.length = some (cs.map PTree.tree) ∧
        Rebuilt s ((front ++ a :: b :: back).map PTree.footprint).sum
          (((front ++ a :: b :: back).map PTree.tree).flatMap Tree.entries) cs s')
      (s.Stops (Tree.rebalanceAt ((front ++ a :: b :: back).map PTree.tree) front.length = none)) s := by
  have hpure : Tree.rebalanceAt ((front ++ a :: b :: back).map PTree.tree) front.length =
      (Tree.rebalancePair a.tree b.tree).map fun parts =>
        front.map PTree.tree ++ parts ++ back.map PTree.tree := by
    have happend := @Tree.rebalanceAt_append _ (front.map PTree.tree) (back.map PTree.tree) a.tree b.tree
    rw [List.length_map] at happend
    rw [List.map_append, List.map_cons, List.map_cons]
    exact happend
  rw [hpure]
  have ha := hin.kept a (by simp)
  have hb := hin.kept b (by simp)
  obtain ⟨left, hleft⟩ := ha.1.read_mem
  obtain ⟨right, hright⟩ := hb.1.read_mem
  have hreada : s.pager.readPage a.refOf.pageId = .ok left :=
    Pager.readPage_eq_ok.2 ⟨h.live.healthy, hleft⟩
  have hreadb : s.pager.readPage b.refOf.pageId = .ok right :=
    Pager.readPage_eq_ok.2 ⟨h.live.healthy, hright⟩
  -- The two siblings are neighbours in the level, and their pages are read.
  have hata := @elementAt_refs _ front (b :: back) a
  have hatb := @elementAt_refs _ (front ++ [a]) back b
  rw [List.append_assoc, List.singleton_append, List.length_append, List.length_singleton] at hatb
  have hsorted : SortedBy Entry.key (a.tree.entries ++ b.tree.entries) := by
    refine hin.sorted.sublist ?_
    rw [List.map_append, List.map_cons, List.map_cons, List.flatMap_append, List.flatMap_cons,
      List.flatMap_cons, ← List.append_assoc a.tree.entries]
    exact (List.sublist_append_left _ _).trans (List.sublist_append_right _ _)
  simp only [query, Prog.wp_bind, Prog.wp_ofExcept, Prog.wp_reads, hata, hatb, hreada, hreadb,
    Except.ok.injEq, forall_eq', reduceCtorEq, false_implies, implies_true, and_true]
  refine Prog.wp_mono (rebalancePair_spec h ha hb (hin.proper a (by simp)) (hin.proper b (by simp))
    hna hnb hsorted hreada hreadb) ?_ fun _ _ he => he.imp fun hnone => by rw [hnone]; rfl
  rintro _ s' ⟨ts, rfl, hparts, hres⟩
  obtain ⟨ids, htakes, hkept, -⟩ := id hres.writes
  have hrefs : ((front ++ a :: b :: back).map PTree.refOf).take front.length ++ ts.map PTree.refOf ++
      ((front ++ a :: b :: back).map PTree.refOf).drop (front.length + 2)
      = (front ++ ts ++ back).map PTree.refOf := by
    rw [← List.map_take, ← List.map_drop, List.take_left' rfl, ← List.drop_drop, List.drop_left' rfl]
    simp
  rw [hrefs]
  -- The children before and behind the pair stay, and the pair is rebuilt.
  have hall : Rebuilt s ((front ++ a :: b :: back).map PTree.footprint).sum
      (((front ++ a :: b :: back).map PTree.tree).flatMap Tree.entries) (front ++ ts ++ back) s' := by
    have h₁ : Rebuilt s (front.map PTree.footprint).sum
        ((front.map PTree.tree).flatMap Tree.entries) front s :=
      ⟨⟨0, h.takes, fun d hd => hin.kept d (by simp [hd]), by simp⟩,
        fun d hd => hin.proper d (by simp [hd]), hfront, rfl⟩
    have h₃ : Rebuilt s' (back.map PTree.footprint).sum
        ((back.map PTree.tree).flatMap Tree.entries) back s' :=
      ⟨⟨0, htakes.ready.takes, fun d hd => (hin.kept d (by simp [hd])).mono htakes, by simp⟩,
        fun d hd => hin.proper d (by simp [hd]), hback, rfl⟩
    have hsum : ((front ++ a :: b :: back).map PTree.footprint).sum = (front.map PTree.footprint).sum +
        (a.footprint + b.footprint) + (back.map PTree.footprint).sum := by
      rw [List.map_append, List.sum_append, List.map_cons, List.sum_cons, List.map_cons,
        List.sum_cons, add_assoc, add_assoc]
    have hent : ((front ++ a :: b :: back).map PTree.tree).flatMap Tree.entries =
        (front.map PTree.tree).flatMap Tree.entries ++ (a.tree.entries ++ b.tree.entries) ++
          (back.map PTree.tree).flatMap Tree.entries := by
      simp
    rw [hsum, hent]
    exact (h₁.append hres).append h₃
  have hvalid := (hall.nodeInput hin.sorted hin.entries_ne).validate
  rw [hvalid]
  refine ⟨fun _ _ => ⟨_, rfl, ?_, hall⟩, by simp⟩
  rw [hparts, Option.map_some, List.map_append, List.map_append]

/-- Source `rebalance_after_delete`: behind the removal from one child `c` all children are wide
again. -/
theorem rebalanceAfterDelete_spec (h : s.Ready) {pre post : List (PTree n)} {c : PTree n}
    (hin : NodeInput s (pre ++ c :: post)) (hpre : ∀ d ∈ pre, d.tree.Wide)
    (hpost : ∀ d ∈ post, d.tree.Wide) (hnarrow : c.tree.Narrow)
    (hone : pre = [] → post = [] → c.tree.Wide) (hmeasured : c.Measured s) {affected : ℕ}
    (haff : min affected ((pre ++ c :: post).length - 1) = pre.length) :
    Prog.wp (rebalanceAfterDelete ((pre ++ c :: post).map PTree.refOf) affected)
      (fun refs s' => ∃ cs : List (PTree n), refs = cs.map PTree.refOf ∧
        Tree.rebalance ((pre ++ c :: post).map PTree.tree) pre.length = some (cs.map PTree.tree) ∧
        Rebuilt s ((pre ++ c :: post).map PTree.footprint).sum
          (((pre ++ c :: post).map PTree.tree).flatMap Tree.entries) cs s')
      (s.Stops (Tree.rebalance ((pre ++ c :: post).map PTree.tree) pre.length = none)) s := by
  -- Where nothing is moved, the child must be wide already.
  have hsame : c.tree.Wide → Rebuilt s ((pre ++ c :: post).map PTree.footprint).sum
      (((pre ++ c :: post).map PTree.tree).flatMap Tree.entries) (pre ++ c :: post) s := by
    intro hc
    refine hin.rebuilt h fun d hd => ?_
    rcases List.mem_append.1 hd with hd | hd
    · exact hpre d hd
    · rcases List.mem_cons.1 hd with rfl | hd
      · exact hc
      · exact hpost d hd
  unfold rebalanceAfterDelete
  rw [List.length_map]
  by_cases hlen : (pre ++ c :: post).length < 2
  · rw [if_pos hlen, Prog.wp_pure]
    have hpure : Tree.rebalance ((pre ++ c :: post).map PTree.tree) pre.length =
        some ((pre ++ c :: post).map PTree.tree) := Tree.rebalance_of_lt (by rwa [List.length_map])
    rw [List.length_append, List.length_cons] at hlen
    exact ⟨_, rfl, hpure, hsame (hone (List.length_eq_zero_iff.1 (by omega))
      (List.length_eq_zero_iff.1 (by omega)))⟩
  have hpure : Tree.rebalance ((pre ++ c :: post).map PTree.tree) pre.length =
      if c.tree.underfull then Tree.rebalanceAt ((pre ++ c :: post).map PTree.tree) (pre.length - 1)
      else some ((pre ++ c :: post).map PTree.tree) := by
    have hlen' : ¬ (pre.map PTree.tree ++ c.tree :: post.map PTree.tree).length < 2 := by
      rw [← List.map_cons, ← List.map_append, List.length_map]
      exact hlen
    have happend := Tree.rebalance_append hlen'
    rw [List.length_map] at happend
    rw [List.map_append, List.map_cons]
    exact happend
  rw [if_neg hlen, hin.validate, hpure]
  obtain ⟨page, hview, hunder⟩ := hmeasured
  have hread : s.pager.readPage c.refOf.pageId = .ok page :=
    Pager.readPage_eq_ok.2 ⟨h.live.healthy, hview⟩
  simp only [haff, query, Prog.wp_bind, Prog.wp_ofExcept, Prog.wp_reads, elementAt_refs, hread,
    hunder, Except.ok.injEq, forall_eq', reduceCtorEq, false_implies, implies_true, and_true, forall_const]
  cases hfull : c.tree.underfull with
  | false =>
    rw [if_pos Bool.false_ne_true, Prog.wp_pure]
    exact ⟨_, rfl, rfl, hsame (wide_of_not_underfull hnarrow hfull)⟩
  | true =>
    rw [if_neg (not_not.2 rfl), if_pos rfl]
    -- The underfull child joins its left sibling, or the right one when it is the first.
    rcases List.eq_nil_or_concat pre with rfl | ⟨front, d, rfl⟩
    · cases post with
      | nil => simp at hlen
      | cons d back =>
        have hd := hpost d (by simp)
        have hback : ∀ x ∈ back, x.tree.Wide := fun x hx => hpost x (by simp [hx])
        have := @rebalanceAt_spec _ _ h [] _ _ _ hin (by simp) hback hnarrow hd.narrow
        simpa only [query, Prog.wp_bind, List.length_nil, lt_irrefl, if_false] using this
    · rw [List.concat_eq_append] at *
      have hassoc : front ++ [d] ++ c :: post = front ++ d :: c :: post := by simp
      have hidx : (if 0 < (front ++ [d]).length then (front ++ [d]).length - 1 else 0)
          = front.length := by simp
      have hlast : (front ++ [d]).length - 1 = front.length := by simp
      have hd := hpre d (by simp)
      have hfront : ∀ x ∈ front, x.tree.Wide := fun x hx => hpre x (by simp [hx])
      rw [hidx, hlast, hassoc]
      rw [hassoc] at hin
      have := rebalanceAt_spec h hin hfront hpost hd.narrow hnarrow
      simpa only [query, Prog.wp_bind] using this

/-! ### One path -/

/-- The outcome of the rewriting of a path: nothing when the subtree became empty. -/
structure Shrunk (s : BPlusTree) (given : Multiset ℕ) (es : List Entry) (u : Option (PTree n))
    (s' : BPlusTree) : Prop where
  writes : Writes s given u.toList s'
  proper : ∀ t ∈ u, t.tree.Proper
  narrow : ∀ t ∈ u, t.tree.Narrow
  measured : ∀ t ∈ u, t.Measured s'
  /-- Only a leaf runs empty. -/
  leaf : u = none → n = 0
  entries : (u.toList.map PTree.tree).flatMap Tree.entries = es

theorem removeBy_split {key : Bytes} {front back : List Entry} {e : Entry} (he : e.key = key)
    (hs : SortedBy Entry.key (front ++ e :: back)) :
    removeBy Entry.key key (front ++ e :: back) = front ++ back := by
  rw [sortedBy_append, sortedBy_cons] at hs
  have hfront : ∀ x ∈ front, x.key ≠ key := fun x hx =>
    he ▸ (hs.2.2 x hx e (by simp)).ne
  have hback : ∀ x ∈ back, x.key ≠ key := fun x hx => he ▸ (hs.2.1.1 x hx).ne'
  rw [removeBy_append, removeBy_of_forall_ne hfront, ← List.singleton_append, removeBy_append,
    removeBy_of_forall_ne hback]
  simp [removeBy, he]

/-- Removing a key from a leaf. -/
theorem rewriteDelete_leaf {key : Bytes} {levels : ℕ} (h : s.Ready) {t : PTree 0} (ht : t.Kept s)
    (hs : t.tree.Sorted) (hkey : ∃ e ∈ t.tree.entries, e.key = key) :
    Prog.wp (rewriteDelete key (levels + 1) t.pid)
      (fun ref s' => ∃ u : Option (PTree 0), ref = u.map PTree.refOf ∧
        Tree.remove key t.tree = some (u.map PTree.tree) ∧
        Shrunk s t.footprint (removeBy Entry.key key t.tree.entries) u s')
      (s.Stops (Tree.remove key t.tree = none)) s := by
  have hpure : Tree.remove key t.tree = some (if removeBy Entry.key key t.tree.entries = [] then none
      else some (Tree.leaf (removeBy Entry.key key t.tree.entries))) := rfl
  obtain ⟨page, hread, hkind, hcells, hdec⟩ := decodeLeaf_stored h.live.healthy ht.1 hs
  rw [rewriteDelete, query, Prog.wp_bind, Prog.wp_reads, hread]
  simp only [Except.ok.injEq, forall_eq', reduceCtorEq, false_implies, implies_true, and_true, hkind,
    query, Prog.wp_bind, Prog.wp_reads, hdec]
  rcases search_leaf hs key with ⟨front, e, back, hsplit, hekey, hb⟩ | ⟨-, hnone⟩
  swap
  · obtain ⟨e, he, hekey⟩ := hkey
    exact absurd hekey (lookupBy_eq_none.1 hnone e he)
  -- The cell of the key goes from the stored cells and from the entries alike.
  have herase : t.storedCells.eraseIdx front.length = (front ++ back).map PEntry.stored := by
    have hfl : front.length = (front.map PEntry.stored).length := by simp
    rw [PTree.storedCells, hsplit, List.map_append, hfl,
      List.eraseIdx_append_of_length_le le_rfl, Nat.sub_self, List.map_append]
    rfl
  have hentries : removeBy Entry.key key t.tree.entries = (front ++ back).map PEntry.entry := by
    have hcells' : t.tree.entries = front.map PEntry.entry ++ e.entry :: back.map PEntry.entry := by
      show t.cells.map PEntry.entry = _
      rw [hsplit, List.map_append, List.map_cons]
    have hs' : SortedBy Entry.key t.tree.entries := hs
    rw [hcells'] at hs' ⊢
    rw [removeBy_split hekey hs', List.map_append]
  -- A leaf with one cell less still fits its page.
  have hfit : (((front ++ back).map PEntry.entry).map Entry.size).sum ≤ pageBodyCapacity := by
    have hpage := page.fits
    rw [usedBytes_leaf hcells, hsplit] at hpage
    refine le_trans (List.Sublist.sum_le_sum ?_ fun _ _ => Nat.zero_le _) hpage
    exact (((List.sublist_cons_self e back).append_left front).map PEntry.entry).map Entry.size
  rw [hb, hpure, hentries]
  simp only [herase]
  -- An empty leaf is no page any more, and its parent drops it.
  by_cases hempty : front ++ back = []
  · rw [hempty, List.map_nil, if_pos rfl]
    exact ⟨none, rfl, rfl, ⟨0, h.takes, by simp, by simp⟩, by simp, by simp, by simp, fun _ => rfl, rfl⟩
  · have hsub : front ++ back ⊆ t.cells := by
      intro x hx
      rw [hsplit]
      rcases List.mem_append.1 hx with hx | hx <;> simp [hx]
    have hin : LeafInput s (front ++ back) := by
      refine ⟨hempty, fun x hx => ht.cell (hsub hx), fun x hx => ?_⟩
      obtain ⟨cell, -, hcell⟩ := exists_of_mem_right hcells (hsub hx)
      exact ⟨cell, hcell⟩
    rw [if_neg (by simpa using hempty), Prog.wp_map, if_neg (by simpa using hempty)]
    refine Prog.wp_mono (commitLeaf_spec h hin) ?_ fun _ _ he => he.imp fun hlt =>
      absurd hfit (not_le.2 hlt)
    rintro _ s' ⟨u, rfl, hu, hwrites⟩
    obtain ⟨ids, -, hkept, -⟩ := id hwrites
    have hpages : ((front ++ back).map PEntry.pages).sum ≤ t.footprint := by
      rw [PTree.footprint_zero, hsplit, List.map_append, List.map_append, List.sum_append,
        List.sum_append, List.map_cons, List.sum_cons]
      refine le_trans ?_ (Multiset.le_add_left _ _)
      gcongr
      exact Multiset.le_add_left _ _
    have hres := @rebuilt_leaves _ _ _ [u] _ (by simpa using hu) (by simpa [hu] using hempty) hwrites
    refine ⟨some u, rfl, ?_, hres.writes.mono hpages, by simpa using hres.proper, by simp [Tree.Narrow], ?_,
      by simp, hres.entries⟩
    · rw [← hu]
      rfl
    · rintro _ ⟨⟩
      exact (hkept u (by simp)).1.measured

/-- The place in a list of children where the removal happened. -/
theorem exists_affected {front back : List (PTree n)} {u : Option (PTree n)}
    (hne : front ++ u.toList ++ back ≠ []) (hfront : ∀ d ∈ front, d.tree.Wide)
    (hback : ∀ d ∈ back, d.tree.Wide) (hu : ∀ d ∈ u, d.tree.Narrow)
    (hlen : 1 ≤ front.length + back.length) :
    ∃ pre c post, front ++ u.toList ++ back = pre ++ c :: post ∧ (∀ d ∈ pre, d.tree.Wide) ∧
      (∀ d ∈ post, d.tree.Wide) ∧ c.tree.Narrow ∧ (pre = [] → post = [] → c.tree.Wide) ∧ (∀ x ∈ u, c = x) ∧
      min front.length ((front ++ u.toList ++ back).length - 1) = pre.length := by
  cases u with
  | some x =>
    refine ⟨front, x, back, by simp, hfront, hback, hu x rfl, ?_, by simp, ?_⟩
    · rintro rfl rfl
      simp at hlen
    · simp
  | none =>
    rw [Option.toList_none, List.append_nil] at hne ⊢
    cases back with
    | cons x back =>
      have hx := hback x (by simp)
      exact ⟨front, x, back, rfl, hfront, fun d hd => hback d (by simp [hd]), hx.narrow,
        fun _ _ => hx, by simp, by simp⟩
    | nil =>
      rw [List.append_nil] at hne ⊢
      obtain ⟨front, x, rfl⟩ := (List.eq_nil_or_concat front).resolve_left hne
      rw [List.concat_eq_append] at *
      have hx := hfront x (by simp)
      exact ⟨front, x, [], rfl, fun d hd => hfront d (by simp [hd]), by simp, hx.narrow,
        fun _ _ => hx, by simp, by simp⟩

/-- The page over children one of which has changed. -/
theorem rewriteChildren_spec (h : s.Ready) {pre post : List (PTree n)} {c : PTree n}
    (hin : NodeInput s (pre ++ c :: post)) (hpre : ∀ d ∈ pre, d.tree.Wide)
    (hpost : ∀ d ∈ post, d.tree.Wide) (hnarrow : c.tree.Narrow)
    (hone : pre = [] → post = [] → c.tree.Wide) (hmeasured : c.Measured s) {index : ℕ}
    (hindex : min index ((pre ++ c :: post).length - 1) = pre.length) :
    Prog.wp (do
      let children ← rebalanceAfterDelete ((pre ++ c :: post).map PTree.refOf)
        (min index (((pre ++ c :: post).map PTree.refOf).length - 1))
      if children = [] then pure none else some <$> commitInternal children)
      (fun ref s' => ∃ u : Option (PTree (n + 1)), ref = u.map PTree.refOf ∧
        Tree.rewriteChildren ((pre ++ c :: post).map PTree.tree) index = some (u.map PTree.tree) ∧
        Shrunk s ((pre ++ c :: post).map PTree.footprint).sum
          (((pre ++ c :: post).map PTree.tree).flatMap Tree.entries) u s')
      (s.Stops (Tree.rewriteChildren ((pre ++ c :: post).map PTree.tree) index = none)) s := by
  have haffected : min (min index (((pre ++ c :: post).map PTree.refOf).length - 1))
      ((pre ++ c :: post).length - 1) = pre.length := by
    rw [List.length_map, min_assoc, min_self, hindex]
  have hpure : Tree.rewriteChildren ((pre ++ c :: post).map PTree.tree) index =
      (Tree.rebalance ((pre ++ c :: post).map PTree.tree) pre.length).bind fun cs =>
        if (cs.map sepSize).sum ≤ pageBodyCapacity then some (some (Tree.node cs)) else none := by
    rw [Tree.rewriteChildren_of_ne (by simp), List.length_map, hindex]
    rfl
  rw [hpure, Prog.wp_bind]
  refine Prog.wp_mono (rebalanceAfterDelete_spec h hin hpre hpost hnarrow hone hmeasured haffected) ?_
    fun _ _ he => he.imp fun hnone => by rw [hnone]; rfl
  rintro _ s₁ ⟨cs, rfl, hrebalance, hcs⟩
  rw [hrebalance, Option.bind_some]
  have hin₁ : NodeInput s₁ cs := hcs.nodeInput hin.sorted hin.entries_ne
  obtain ⟨ids, htakes, -⟩ := id hcs.writes
  rw [if_neg (by simpa using hin₁.ne), Prog.wp_map]
  refine htakes.wp (Prog.wp_mono (commitInternal_spec htakes.ready hin₁) ?_
    fun _ _ he => he.imp fun hlt => if_neg (not_le.2 hlt))
  -- The new node has the rebalanced children, which are wide, and it may itself be narrow.
  rintro _ s₂ ⟨hfit, t, rfl, ht, hwrites, hmeasured'⟩
  have hchildren : t.tree.children = cs.map PTree.tree := children_tree ht
  refine ⟨some t, rfl, ?_, ⟨?_, ?_, ?_, ?_, by simp, ?_⟩⟩
  · rw [if_pos hfit, ← hchildren, Tree.node_children]
    rfl
  · rw [← zero_add (cs.map PTree.footprint).sum] at hwrites
    exact (hcs.writes.over hwrites).mono (zero_add _).le
  · rintro _ ⟨⟩
    refine ⟨?_, fun x hx => ?_⟩
    · rw [hchildren]
      simpa using hin₁.ne
    · rw [hchildren] at hx
      obtain ⟨y, hy, rfl⟩ := List.mem_map.1 hx
      exact hin₁.proper y hy
  · rintro _ ⟨⟩ x hx
    rw [hchildren] at hx
    obtain ⟨y, hy, rfl⟩ := List.mem_map.1 hx
    exact hcs.wide y hy
  · rintro _ ⟨⟩
    exact hmeasured'
  · show [t.tree].flatMap Tree.entries = _
    rw [List.flatMap_singleton, Tree.entries_succ, hchildren, hcs.entries]

/-- **Rewriting a path** without a key. -/
theorem rewriteDelete_spec {key : Bytes} {levels : ℕ} :
    ∀ {n : ℕ} {t : PTree n} {s : BPlusTree}, n < levels → s.Ready → t.Kept s → t.tree.Proper →
      t.tree.Sorted → t.tree.Wide → (∃ e ∈ t.tree.entries, e.key = key) →
      Prog.wp (rewriteDelete key levels t.pid)
        (fun ref s' => ∃ u : Option (PTree n), ref = u.map PTree.refOf ∧
          Tree.remove key t.tree = some (u.map PTree.tree) ∧
          Shrunk s t.footprint (removeBy Entry.key key t.tree.entries) u s')
        (s.Stops (Tree.remove key t.tree = none)) s := by
  induction levels with
  | zero => exact fun {n} _ _ hn => absurd hn (Nat.not_lt_zero n)
  | succ levels ih =>
    intro n t s hn h ht hproper hs hw hkey
    cases n with
    | zero => exact rewriteDelete_leaf h ht hs hkey
    | succ n =>
      obtain ⟨page, hread, hkind, -, hdec⟩ := decodeInternal_stored h.live.healthy ht.1 hproper hs
      obtain ⟨front, c, back, hrouted, hroute, hat⟩ := routeChild_stored h.live.healthy ht.1 hproper hs key
      have hpure := Tree.remove_succ hrouted.children hrouted.route_tree
      rw [List.length_map] at hpure
      rw [rewriteDelete, query, Prog.wp_bind, Prog.wp_reads, hread]
      simp only [Except.ok.injEq, forall_eq', reduceCtorEq, false_implies, implies_true, and_true,
        hkind, query, Prog.wp_bind, Prog.wp_reads, Prog.wp_ofExcept, hdec, hroute, hat]
      refine Prog.wp_mono (ih (Nat.lt_of_succ_lt_succ hn) h (ht.child hrouted.mem) (hproper.2 _ hrouted.mem_tree)
        (Tree.SortedChildren.sorted hs hrouted.mem_tree) (hw.2 _ hrouted.mem_tree) (hrouted.exists_key hkey)) ?_
        fun _ _ he => he.imp fun hnone => by rw [hpure, hnone]; rfl
      rintro _ s₁ ⟨u, rfl, hremove, hu⟩
      obtain ⟨ids, htakes, hkept, -⟩ := id hu.writes
      have hpure' : Tree.remove key t.tree =
          Tree.rewriteChildren ((spliced front back u.toList).map PTree.tree) front.length := by
        rw [hpure, hremove, Option.bind_some, tree_spliced, Option.toList_map]
      have hrefs : splice t.refs front.length (u.map PTree.refOf).toList
          = (spliced front back u.toList).map PTree.refOf := by
        rw [← splice_refs ht.1 hrouted.split, Option.toList_map]
      -- the entries of the children with the shrunk one among them
      have hentries : removeBy Entry.key key t.tree.entries =
          ((spliced front back u.toList).map PTree.tree).flatMap Tree.entries := by
        rw [hrouted.removeBy_entries, ← hu.entries, tree_spliced, List.flatMap_append, List.flatMap_append,
          List.append_assoc]
      have hwide : ∀ x ∈ t.children, x.2.tree.Wide := fun x hx => hw.2 _ (List.mem_map_of_mem hx)
      have hlen : 1 ≤ (front.map (Prod.snd (α := Blob) (β := PTree n))).length +
          (back.map (Prod.snd (α := Blob) (β := PTree n))).length := by
        have h2 : 2 ≤ t.children.length := by simpa [PTree.tree] using hw.1
        rw [hrouted.split, List.length_append, List.length_cons] at h2
        rw [List.length_map, List.length_map]
        omega
      -- a wide page keeps a child
      have hempty : spliced front back u.toList ≠ [] := by
        intro hnil
        have hzero := congrArg List.length hnil
        rw [spliced, List.length_append, List.length_append, List.length_nil] at hzero
        omega
      have hsorted : SortedBy Entry.key (removeBy Entry.key key t.tree.entries) := SortedBy.removeBy hs
      rw [hrouted.removeBy_entries, ← hu.entries] at hsorted
      have hin : NodeInput s₁ (spliced front back u.toList) :=
        nodeInput_spliced ht hproper htakes hrouted.split hkept
          (fun d hd => hu.proper d (Option.mem_toList.1 hd)) hsorted hempty
      obtain ⟨pre, c', post, hplace, hpre, hpost, hnarrow, hone, hsame, hindex⟩ :=
        @exists_affected _ (front.map Prod.snd) (back.map Prod.snd) u hempty
          (List.forall_mem_map.2 fun x hx => hwide x (by simp [hrouted.split, hx]))
          (List.forall_mem_map.2 fun x hx => hwide x (by simp [hrouted.split, hx])) hu.narrow hlen
      have hplace' : spliced front back u.toList = pre ++ c' :: post := hplace
      rw [hplace, List.length_map] at hindex
      have hmeasured : c'.Measured s₁ := by
        cases hu' : u with
        | none => exact (hin.kept c' (by simp [hplace'])).1.measured_of_zero (hu.leaf hu')
        | some x =>
          rw [hsame x hu']
          exact hu.measured x hu'
      rw [hpure', hentries]
      simp only [hrefs]
      rw [if_neg (by simpa using hempty)]
      have hpages : ((pre ++ c' :: post).map PTree.footprint).sum =
          stayPages front back + (u.toList.map PTree.footprint).sum := by
        rw [← hplace', footprint_spliced]
      rw [hplace'] at hin ⊢
      refine htakes.wp (Prog.wp_mono
        (rewriteChildren_spec htakes.ready hin hpre hpost hnarrow hone hmeasured hindex) ?_ fun _ _ he => he)
      rintro _ s₂ ⟨u', rfl, hrewrite, hu'⟩
      have hwrites := hu'.writes
      rw [hpages] at hwrites
      exact ⟨u', rfl, hrewrite, ⟨(hu.writes.over hwrites).mono (stayPages_add_le hrouted.split), hu'.proper,
        hu'.narrow, hu'.measured, hu'.leaf, hu'.entries⟩⟩

/-! ### The root -/

/-- A root with two children, or a leaf, is not contracted. -/
theorem contractRoot_wide {rounds : ℕ} (h : s.Ready) {t : PTree n} (ht : t.Kept s)
    (hproper : t.tree.Proper) (hs : t.tree.Sorted) (hw : t.tree.Wide) {Q : ChildRef → BPlusTree → Prop}
    {E : BtreeError → BPlusTree → Prop} {ref : ChildRef} (href : ref.pageId = t.pid) (hq : Q ref s) :
    Prog.wp (contractRoot (rounds + 1) ref) Q E s := by
  rw [contractRoot, query, Prog.wp_bind, Prog.wp_reads, href]
  cases n with
  | zero =>
    obtain ⟨page, hread, hkind, -, -⟩ := decodeLeaf_stored h.live.healthy ht.1 hs
    simp only [hread, Except.ok.injEq, forall_eq', reduceCtorEq, false_implies, implies_true,
      and_true, hkind, ne_eq, not_false_eq_true, if_true, Prog.wp_pure]
    exact hq
  | succ n =>
    obtain ⟨page, hread, hkind, -, hdec⟩ := decodeInternal_stored h.live.healthy ht.1 hproper hs
    have h2 : 2 ≤ t.refs.length := by
      have h2 := hw.1
      rw [PTree.refs, List.length_map]
      simpa [PTree.tree] using h2
    simp only [hread, Except.ok.injEq, forall_eq', reduceCtorEq, false_implies, implies_true,
      and_true, hkind, ne_eq, not_true_eq_false, if_false, query, Prog.wp_bind, Prog.wp_reads, hdec]
    split
    · rename_i heq
      rw [heq] at h2
      simp at h2
    · exact hq

/-- **Contracting** a root that may have one child. -/
theorem contractRoot_spec {rounds : ℕ} (h : s.Ready) {t : PTree n} (ht : t.Kept s)
    (hproper : t.tree.Proper) (hs : t.tree.Sorted) (hnarrow : t.tree.Narrow) :
    Prog.wp (contractRoot (rounds + 2) t.refOf)
      (fun ref s' => s' = s ∧ ∃ m, ∃ u : PTree m, ref.pageId = u.pid ∧ u.On s.pager.view ∧
        u.tree.Valid ∧ u.tree.entries = t.tree.entries ∧ u.footprint ≤ t.footprint)
      (fun _ _ => False) s := by
  by_cases hw : t.tree.Wide
  · exact contractRoot_wide h ht hproper hs hw rfl
      ⟨rfl, n, t, rfl, ht.1, ⟨hproper, hs, hw⟩, rfl, le_rfl⟩
  cases n with
  | zero => exact absurd trivial hw
  | succ n =>
    -- a root of one child
    have hone : ∃ c, t.children = [c] := by
      have hlen : t.tree.children.length = t.children.length := List.length_map ..
      have hpos := List.length_pos_of_ne_nil hproper.1
      have hlt : ¬ 2 ≤ t.tree.children.length := fun h2 => hw ⟨h2, hnarrow⟩
      exact List.length_eq_one_iff.1 (by omega)
    obtain ⟨c, hc⟩ := hone
    have hmem : c ∈ t.children := by simp [hc]
    have htree : t.tree = Tree.node [c.2.tree] := by
      show Tree.node (t.children.map fun c => c.2.tree) = _
      rw [hc]
      rfl
    have hmem' : c.2.tree ∈ t.tree.children := by rw [htree]; simp
    have hpc := hproper.2 _ hmem'
    have hsc := Tree.SortedChildren.sorted hs hmem'
    have hwc := hnarrow _ hmem'
    have hpid : t.refOf.pageId = t.pid := rfl
    have hrefs : t.refs = [PTree.ref c] := by rw [PTree.refs, hc]; rfl
    obtain ⟨page, hread, hkind, -, hdec⟩ := decodeInternal_stored h.live.healthy ht.1 hproper hs
    rw [contractRoot, query, Prog.wp_bind, Prog.wp_reads, hpid]
    simp only [hread, Except.ok.injEq, forall_eq', reduceCtorEq, false_implies, implies_true,
      and_true, hkind, ne_eq, not_true_eq_false, if_false, query, Prog.wp_bind, Prog.wp_reads, hdec,
      hrefs]
    refine contractRoot_wide h (ht.child hmem) hpc hsc hwc rfl
      ⟨rfl, n, c.2, rfl, (ht.child hmem).1, ⟨hpc, hsc, hwc⟩, ?_, ?_⟩
    · rw [htree]
      simp
    · have hle := @stayPages_add_le _ t [] [] c (by rw [hc]; rfl)
      simpa [stayPages] using hle

/-- The root over the outcome of a rewriting. -/
theorem Shrunk.contractedRoot {u : Option (PTree n)} (h : Shrunk s given es u s') (hs : SortedBy Entry.key es) :
    Prog.wp (contractedRoot (u.map PTree.refOf))
      (fun root s'' => s'' = s' ∧ ∃ r : PRoot, root = r.pid ∧ r.On s'.pager.view r.pid ∧ r.tree.Valid ∧
        r.tree.entries = es ∧ r.footprint ≤ (u.toList.map PTree.footprint).sum)
      (fun _ _ => False) s' := by
  cases u with
  | none =>
    have hent : [] = es := h.entries
    refine ⟨rfl, none, rfl, rfl, ⟨trivial, ?_, trivial⟩, hent, Multiset.zero_le _⟩
    simp [PRoot.tree, Tree.Root.Sorted, Tree.Root.entries]
  | some t =>
    obtain ⟨ids, htakes, hkept, -⟩ := h.writes
    have ht := hkept t (by simp)
    have hent : t.tree.entries = es := by simpa using h.entries
    -- the page of the root is committed, which leaves the loop two rounds
    obtain ⟨k, hk⟩ : ∃ k, s'.pager.dataPageCount + 1 = k + 2 := by
      obtain ⟨page, hview⟩ := ht.1.read_mem
      have hv := Pager.view_eq_some.1 hview
      refine ⟨s'.pager.dataPageCount - 1, ?_⟩
      rw [Pager.dataPageCount]
      omega
    simp only [Option.map_some, BPlusTree.contractedRoot, Prog.wp_bind, Prog.wp_get, hk]
    refine Prog.wp_mono (contractRoot_spec htakes.ready ht (h.proper t rfl)
      (show SortedBy Entry.key t.tree.entries from hent ▸ hs) (h.narrow t rfl)) ?_ fun _ _ he => he.elim
    rintro ref _ ⟨rfl, m, w, href, hon, hv, hent', hle⟩
    rw [Prog.wp_pure, href]
    exact ⟨rfl, some ⟨m, w⟩, rfl, ⟨rfl, hon⟩, ⟨hv.proper, hv.sorted, hv.wide⟩, hent'.trans hent,
      by simpa [PRoot.footprint] using hle⟩

/-- The root that `delete` leaves. -/
def AfterDelete (key : Bytes) (r r' : PRoot) : Prop :=
  r'.tree.Valid ∧ r'.tree.entries = removeBy Entry.key key r.tree.entries

/-- **`delete` on a valid stored tree** publishes a valid stored tree without the key. If it stops without a
fault and with room in the counters, the separators of a page on the path do not fit. -/
theorem delete_removes {r : PRoot} {key : Bytes} (hlive : s.pager.Live) (hr : s.pager.Stores r)
    (hvalid : r.tree.Valid) (hkey : key.length ≤ maxTreeKeyBytes) :
    Prog.wp (delete key)
      (fun previous s' => previous = valueOf key r.tree.entries ∧ r.tree.RemoveFits key ∧
        ∃ r', Committed s r' s' ∧ AfterDelete key r r')
      (fun _ s' => Interrupted s r (¬ r.tree.RemoveFits key) (AfterDelete key r) s') s := by
  have hget := get_stored hlive.healthy hlive.bound hr hvalid hkey
  unfold delete
  rw [validateKey, if_neg (not_lt.2 hkey)]
  simp only [query, Prog.wp_bind, Prog.wp_ofExcept, Prog.wp_reads, hget, Except.ok.injEq,
    forall_eq', reduceCtorEq, false_implies, implies_true, and_true, forall_const]
  -- An absent key ends the delete before anything is written.
  cases hprev : valueOf key r.tree.entries with
  | none =>
    have hnone : lookupBy Entry.key key r.tree.entries = none := by
      simpa [valueOf] using hprev
    have hfits : r.tree.RemoveFits key := by
      cases r with
      | none => trivial
      | some t =>
        rintro ⟨e, he, hekey⟩
        exact absurd hekey (lookupBy_eq_none.1 hnone e he)
    exact ⟨rfl, hfits, r, ⟨hlive, rfl, hr⟩, hvalid,
      (removeBy_of_forall_ne (lookupBy_eq_none.1 hnone)).symm⟩
  | some previous =>
    simp only [Prog.wp_bind, Prog.wp_get]
    refine Prog.wp_mono (refreshReusablePages_spec hlive hr hvalid) ?_ fun _ _ he => he.elim
    rintro _ s₀ ⟨hready, hpager, hkept⟩
    rw [← hpager] at hr
    cases r with
    | none => simp [valueOf, PRoot.tree, Tree.Root.entries] at hprev
    | some t =>
      obtain ⟨n, t⟩ := t
      have hn : n < maxTreeHeight :=
        PTree.levels_lt hready.live.bound hr.on.2 hr.nodup hvalid.wide
      have hkey' : ∃ e ∈ t.tree.entries, e.key = key := by
        by_contra hno
        push Not at hno
        have hnone : lookupBy Entry.key key t.tree.entries = none := lookupBy_eq_none.2 hno
        have hvalue : valueOf key t.tree.entries = some previous := hprev
        rw [valueOf, hnone] at hvalue
        cases hvalue
      have hsome := @Tree.remove_isSome key _ _ hvalid.proper hvalid.sorted
      rw [hr.on.1]
      simp only [Prog.wp_bind]
      refine Prog.wp_mono (rewriteDelete_spec hn hready hkept hvalid.proper hvalid.sorted hvalid.wide hkey')
        ?_ fun _ _ he => ?_
      swap
      · refine ((he.imp fun hnone hfits => ?_).interrupted hkept).congr hpager
        have hremoved := hsome.2 (hfits hkey')
        rw [hnone] at hremoved
        cases hremoved
      -- The new tree shares pages with the old one and owns the ones it has taken.
      rintro _ s₁ ⟨u, rfl, hremove, hu⟩
      have hfits : Tree.RemoveFits key t.tree := hsome.1 (by rw [hremove]; rfl)
      obtain ⟨ids, htakes, -, hsum⟩ := id hu.writes
      refine Prog.wp_mono (hu.contractedRoot (SortedBy.removeBy hvalid.sorted)) ?_ fun _ _ he => he.elim
      rintro _ _ ⟨rfl, r', rfl, hon, hv, hent, hle⟩
      have hnodup := Multiset.nodup_of_le (hle.trans hsum) (PRoot.Kept.nodup_add hkept htakes hr)
      refine Prog.wp_mono (publish_spec htakes hkept hon hnodup) ?_ ?_
      · rintro _ s' hcommit
        exact ⟨rfl, fun _ => hfits, r', ⟨hcommit.live, by rw [hcommit.spec, hpager], hcommit.stores⟩, hv, hent⟩
      · rintro _ s' hint
        refine (hint.mono False.elim ?_).congr hpager
        rintro _ rfl
        exact ⟨hv, hent⟩

/-- The tree that `delete` leaves, whether or not it fits. -/
theorem delete_stored {r : PRoot} {key : Bytes} (hlive : s.pager.Live) (hr : s.pager.Stores r)
    (hvalid : r.tree.Valid) (hkey : key.length ≤ maxTreeKeyBytes) :
    Prog.wp (delete key)
      (fun previous s' => previous = valueOf key r.tree.entries ∧
        ∃ r', Committed s r' s' ∧ AfterDelete key r r')
      (fun _ s' => Interrupted s r True (AfterDelete key r) s') s :=
  Prog.wp_mono (delete_removes hlive hr hvalid hkey) (fun _ _ h => ⟨h.1, h.2.2⟩)
    fun _ _ h => h.mono (fun _ => trivial) fun _ h => h

end BPlusTree
end DbLab.Btree
