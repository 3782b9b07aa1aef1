import DbLab.Btree.Commit

/-!
# Insertion

`put` on a stored tree gives the tree that `Tree.put` describes, on fresh pages and on pages of the
old tree, and publishes it last (`put_stored`). Before the new root is published the old one can be
recovered from the file; behind it, the new one.
-/

namespace DbLab.Btree

open Checked

/-! ### The entries of a leaf -/

theorem insertIdx_append {α : Type} (front back : List α) (a : α) :
    (front ++ back).insertIdx front.length a = front ++ a :: back := by
  induction front with
  | nil => rfl
  | cons b front ih => simp [ih]

/-- The position that the binary search finds is the one of `upsertBy`. -/
theorem insertEntry_eq {entries : List LeafEntry} {entry : LeafEntry}
    (h : StrictlyIncreasing (entries.map fun e => e.key.asSlice)) :
    BPlusTree.insertEntry entries entry = upsertBy (fun e => e.key.asSlice) entry entries := by
  unfold BPlusTree.insertEntry
  cases hb : binarySearch (entries.map fun e => e.key.asSlice) entry.key.asSlice with
  | inl i =>
    obtain ⟨small, large, hkeys, rfl⟩ := (binarySearch_inl h).1 hb
    obtain ⟨front, rest, rfl, rfl, hrest⟩ := List.map_eq_append_iff.1 hkeys
    obtain ⟨e, back, rfl, he, rfl⟩ := List.map_eq_cons_iff.1 hrest
    have hfront : ∀ b ∈ front, b.key.asSlice < entry.key.asSlice := by
      intro b hb
      rw [StrictlyIncreasing, List.isChain_iff_pairwise, hkeys, List.pairwise_append] at h
      exact h.2.2 _ (List.mem_map_of_mem hb) _ (by simp)
    rw [upsertBy_append_right hfront, upsertBy, if_neg (by rw [he]; exact lt_irrefl _),
      if_pos he.symm, List.length_map]
    simp
  | inr i =>
    obtain ⟨small, large, hkeys, rfl, hsmall, hlarge⟩ := binarySearch_inr h hb
    obtain ⟨front, back, rfl, rfl, rfl⟩ := List.map_eq_append_iff.1 hkeys
    have hfront : ∀ b ∈ front, b.key.asSlice < entry.key.asSlice :=
      fun b hb => hsmall _ (List.mem_map_of_mem hb)
    rw [upsertBy_append_right hfront, List.length_map]
    have hback : upsertBy (fun e : LeafEntry => e.key.asSlice) entry back = entry :: back := by
      cases back with
      | nil => rfl
      | cons b back => rw [upsertBy, if_pos (hlarge _ (by simp))]
    rw [hback]
    exact insertIdx_append front back entry

/-- A new entry takes its own pages and those that stay. -/
theorem sum_upsertBy_le {α κ : Type} [LinearOrder κ] {key : α → κ} (f : α → Multiset ℕ) (a : α)
    (l : List α) : ((upsertBy key a l).map f).sum ≤ (l.map f).sum + f a := by
  induction l with
  | nil => simp [upsertBy]
  | cons b l ih =>
    unfold upsertBy
    split_ifs
    · rw [List.map_cons, List.sum_cons, add_comm]
    · rw [List.map_cons, List.sum_cons, List.map_cons, List.sum_cons, add_comm (f a)]
      exact add_le_add_left (Multiset.le_add_left _ _) _
    · rw [List.map_cons, List.sum_cons, List.map_cons, List.sum_cons, add_assoc]
      exact add_le_add_right ih _

namespace BPlusTree

variable {s s' s'' : BPlusTree} {n : ℕ}

/-! ### Replacing a child -/

section Splice

variable {t : PTree (n + 1)} {front back : List (Blob × PTree n)} {c : Blob × PTree n}
  {parts : List (PTree n)}

/-- The children of a page with `parts` in the place of one of them. -/
def spliced (front back : List (Blob × PTree n)) (parts : List (PTree n)) : List (PTree n) :=
  front.map Prod.snd ++ parts ++ back.map Prod.snd

theorem mem_spliced (hsplit : t.children = front ++ c :: back) {d : PTree n}
    (hd : d ∈ spliced front back parts) : (∃ b, (b, d) ∈ t.children) ∨ d ∈ parts := by
  rw [spliced, List.mem_append, List.mem_append, List.mem_map, List.mem_map] at hd
  rcases hd with (⟨x, hx, rfl⟩ | hd) | ⟨x, hx, rfl⟩
  · exact .inl ⟨x.1, by simp [hsplit, hx]⟩
  · exact .inr hd
  · exact .inl ⟨x.1, by simp [hsplit, hx]⟩

theorem splice_refs {read : ℕ → Option Page} (hon : t.On read)
    (hsplit : t.children = front ++ c :: back) :
    splice t.refs front.length (parts.map PTree.refOf) = (spliced front back parts).map PTree.refOf := by
  have hlen : front.length = ((front.map Prod.snd).map (PTree.refOf (n := n))).length := by simp
  rw [PTree.refs_eq hon, hsplit, List.map_append, List.map_append, List.map_cons, List.map_cons, hlen,
    Tree.splice_append, spliced, List.map_append, List.map_append]

theorem tree_spliced : (spliced front back parts).map PTree.tree =
    (front.map fun c => c.2.tree) ++ parts.map PTree.tree ++ (back.map fun c => c.2.tree) := by
  rw [spliced, List.map_append, List.map_append, List.map_map, List.map_map]
  rfl

theorem nodeInput_spliced {ids : Multiset ℕ} (ht : t.Kept s) (hproper : t.tree.Proper)
    (htakes : s.Takes ids s') (hsplit : t.children = front ++ c :: back)
    (hkept : ∀ d ∈ parts, d.Kept s') (hparts : ∀ d ∈ parts, d.tree.Proper)
    (hsorted : SortedBy Entry.key ((front.map fun c => c.2.tree).flatMap Tree.entries ++
      ((parts.map PTree.tree).flatMap Tree.entries ++
        (back.map fun c => c.2.tree).flatMap Tree.entries)))
    (hne : spliced front back parts ≠ []) : NodeInput s' (spliced front back parts) := by
  refine ⟨hne, fun d hd => ?_, fun d hd => ?_, ?_⟩
  · rcases mem_spliced hsplit hd with ⟨b, hb⟩ | hd
    · exact (ht.child hb).mono htakes
    · exact hkept d hd
  · rcases mem_spliced hsplit hd with ⟨b, hb⟩ | hd
    · exact hproper.2 _ (List.mem_map_of_mem hb)
    · exact hparts d hd
  · rw [Tree.SortedChildren, tree_spliced, List.flatMap_append, List.flatMap_append, List.append_assoc]
    exact hsorted

/-- The pages of the children that stay. -/
def stayPages (front back : List (Blob × PTree n)) : Multiset ℕ :=
  (front.map fun c => c.2.footprint).sum + (back.map fun c => c.2.footprint).sum

theorem footprint_spliced : ((spliced front back parts).map PTree.footprint).sum =
    stayPages front back + (parts.map PTree.footprint).sum := by
  rw [spliced, List.map_append, List.map_append, List.sum_append, List.sum_append, List.map_map,
    List.map_map]
  exact add_right_comm _ _ _

theorem stayPages_add_le (hsplit : t.children = front ++ c :: back) :
    stayPages front back + c.2.footprint ≤ t.footprint := by
  have hsum : (t.children.map fun c => c.2.footprint).sum = stayPages front back + c.2.footprint := by
    rw [hsplit, stayPages, List.map_append, List.sum_append, List.map_cons, List.sum_cons]
    abel
  rw [PTree.footprint_succ, List.sum_map_add, hsum]
  exact (Multiset.le_add_left _ _).trans (Multiset.le_add_left _ _)

end Splice

/-! ### One path -/

/-- The entries that insertion writes in the place of a leaf. -/
theorem leafInput_upsert {t : PTree 0} {e : PEntry} {page : Page} (ht : t.Kept s) (he : e.Kept s)
    (hs : t.tree.Sorted)
    (hcells : List.Forall₂ LeafCell page.cells t.cells) (henc : ∃ cell, LeafCell cell e) :
    LeafInput s (upsertBy (fun e => e.key.bytes) e t.cells) := by
  have hsorted : SortedBy (fun e : PEntry => e.key.bytes) t.cells := by
    have h : SortedBy Entry.key (t.cells.map PEntry.entry) := hs
    exact (sortedBy_map (f := PEntry.entry)).1 h
  refine ⟨upsertBy_ne_nil, fun x hx => ?_, fun x hx => ?_⟩
  · rcases (mem_upsertBy hsorted).1 hx with rfl | ⟨hx, -⟩
    · exact he
    · exact ht.cell hx
  · rcases (mem_upsertBy hsorted).1 hx with rfl | ⟨hx, -⟩
    · exact henc
    · obtain ⟨cell, -, hcell⟩ := exists_of_mem_right hcells hx
      exact ⟨cell, hcell⟩

/-- **Rewriting a path** gives the trees of `Tree.insert`, or stops because there are none. -/
theorem rewriteInsert_spec {e : PEntry} (henc : ∃ cell, LeafCell cell e) {levels : ℕ} :
    ∀ {n : ℕ} {t : PTree n} {s : BPlusTree}, n < levels → s.Ready → t.Kept s → e.Kept s →
      t.tree.Proper → t.tree.Sorted →
      Prog.wp (rewriteInsert e.stored levels t.pid)
        (fun refs s' => ∃ ts : List (PTree n), refs = ts.map PTree.refOf ∧
          Tree.insert e.entry t.tree = some (ts.map PTree.tree) ∧
          Writes s (t.footprint + e.pages) ts s')
        (s.Stops (Tree.insert e.entry t.tree = none)) s := by
  induction levels with
  | zero => exact fun {n} _ _ hn => absurd hn (Nat.not_lt_zero n)
  | succ levels ih =>
    intro n t s hn h ht he hproper hs
    have hp := h.live.healthy
    cases n with
    | zero =>
      -- A leaf: the cells get the entry, and the level is committed.
      obtain ⟨page, hread, hkind, hcells, hdec⟩ := decodeLeaf_stored hp ht.1 hs
      have hins : insertEntry t.storedCells e.stored
          = (upsertBy (fun e => e.key.bytes) e t.cells).map PEntry.stored := by
        have hkeys := leaf_keys_increasing hs
        rw [← asSlice_storedCells] at hkeys
        rw [PTree.storedCells, insertEntry_eq hkeys, upsertBy_map]
        have hfun : (fun b : PEntry => b.stored.key.asSlice) = fun b => b.key.bytes :=
          funext fun b => Blob.asSlice_storedKey b.key
        rw [hfun]
      have hentries : (upsertBy (fun e => e.key.bytes) e t.cells).map PEntry.entry
          = upsertBy Entry.key e.entry t.tree.cells :=
        (@upsertBy_map _ _ _ _ Entry.key PEntry.entry _ _).symm
      rw [rewriteInsert, query, Prog.wp_bind, Prog.wp_reads, hread]
      simp only [Except.ok.injEq, forall_eq', reduceCtorEq, false_implies, implies_true, and_true,
        hkind, query, Prog.wp_bind, Prog.wp_reads, hdec]
      rw [hins]
      refine Prog.wp_mono (commitLeafLevel_spec h (leafInput_upsert ht he hs hcells henc)) ?_
        fun _ _ hstop => hstop.imp fun hnone => ?_
      · rintro _ s' ⟨ts, rfl, hdiv, hwrites⟩
        refine ⟨ts, rfl, ?_, hwrites.mono ?_⟩
        · rw [Tree.insert, ← hentries, hdiv, Option.map_some, List.map_map]
          rfl
        · rw [PTree.footprint_zero, add_assoc]
          exact (sum_upsertBy_le PEntry.pages e t.cells).trans (Multiset.le_add_left _ _)
      · rw [Tree.insert, ← hentries, hnone]
        rfl
    | succ n =>
      -- An internal page: the child on the route is rewritten, and its parts replace it.
      obtain ⟨page, hread, hkind, -, hdec⟩ := decodeInternal_stored hp ht.1 hproper hs
      obtain ⟨front, c, back, hrouted, hroute, hat⟩ := routeChild_stored hp ht.1 hproper hs e.key.bytes
      have hsorted := Tree.SortedChildren.sorted hs hrouted.mem_tree
      have hinsert := Tree.insert_succ (e := e.entry) hrouted.children hrouted.route_tree
      have hkey : e.stored.key.asSlice = e.key.bytes := Blob.asSlice_storedKey e.key
      rw [rewriteInsert, query, Prog.wp_bind, Prog.wp_reads, hread]
      simp only [Except.ok.injEq, forall_eq', reduceCtorEq, false_implies, implies_true, and_true,
        hkind, query, Prog.wp_bind, Prog.wp_reads, Prog.wp_ofExcept, hdec, hkey, hroute, hat]
      refine Prog.wp_mono (ih (Nat.lt_of_succ_lt_succ hn) h (ht.child hrouted.mem) he
        (hproper.2 _ hrouted.mem_tree) hsorted) ?_ fun _ _ hstop => hstop.imp fun hnone => ?_
      · -- The parts have the entries of the child and the new one, so the spliced level is sorted.
        rintro _ s₁ ⟨parts, rfl, hparts, hwrites⟩
        obtain ⟨ids, htakes, hkept, hsum⟩ := id hwrites
        rw [hparts, Option.bind_some] at hinsert
        obtain ⟨hflat, hpproper, hlen⟩ := Tree.insert_spec (hproper.2 _ hrouted.mem_tree) hsorted hparts
        have hne : parts ≠ [] := by rintro rfl; simp at hlen
        have hall : SortedBy Entry.key (upsertBy Entry.key e.entry t.tree.entries) :=
          SortedBy.upsertBy hs
        rw [PTree.Routed.upsertBy_entries (e := e.entry) hrouted, ← hflat] at hall
        have hin : NodeInput s₁ (spliced front back parts) :=
          nodeInput_spliced ht hproper htakes hrouted.split hkept
            (fun d hd => hpproper _ (List.mem_map_of_mem hd)) hall (by simp [spliced, hne])
        rw [splice_refs ht.1 hrouted.split]
        refine hwrites.wp (Prog.wp_mono (commitInternalLevel_spec hwrites.ready hin) ?_
          fun _ _ hstop => hstop.imp fun hnone => ?_)
        · rintro _ s₂ ⟨ts, rfl, hdiv, hwrites₂⟩
          rw [tree_spliced] at hdiv
          refine ⟨ts, rfl, ?_, ?_⟩
          · rw [hinsert]
            show (divide sepSize _).map _ = _
            rw [hdiv, Option.map_some, List.map_map]
            rfl
          · rw [footprint_spliced] at hwrites₂
            refine (hwrites.over hwrites₂).mono ?_
            rw [← add_assoc]
            gcongr
            exact stayPages_add_le hrouted.split
        · rw [hinsert]
          show (divide sepSize _).map _ = none
          rw [← tree_spliced, hnone]
          rfl
      · rw [hinsert, hnone]
        rfl

/-! ### The whole mutation -/

theorem keyCost_le (length : ℕ) :
    keyCost length (decide (length ≤ maxInlineKeyBytes)) ≤ maxInlineKeyBytes := by
  by_cases h : length ≤ maxInlineKeyBytes
  · rw [decide_eq_true h]
    exact h
  · rw [decide_eq_false h]
    show keyOverflowRefLen ≤ maxInlineKeyBytes
    rw [keyOverflowRefLen_eq, maxInlineKeyBytes_eq]
    omega

/-- A new entry fits in a page of its own. -/
theorem entry_of_size_le (key value : Bytes) : (Entry.of key value).size ≤ pageBodyCapacity := by
  have hkey := keyCost_le key.length
  have h3 := maxInlineKeyBytes_eq
  have h4 := pageBodyCapacity_eq
  show slotLen + (leafCellHeaderLen + keyCost key.length (decide (key.length ≤ maxInlineKeyBytes)) +
    if decide (_ ≤ _) = true then value.length else overflowValueRefLen) ≤ _
  by_cases hfit : slotLen + leafCellHeaderLen + keyCost key.length
      (decide (key.length ≤ maxInlineKeyBytes)) + value.length ≤ pageBodyCapacity
  · rw [decide_eq_true hfit, if_pos rfl]
    omega
  · rw [decide_eq_false hfit, if_neg Bool.false_ne_true, slotLen_eq, leafCellHeaderLen_eq,
      overflowValueRefLen_eq]
    omega

/-- The value of a leaf cell can be encoded. -/
theorem encodedField_ok {b : Blob} (hb : b.Kept s) (hlen : b.bytes.length ≤ maxTreeValueBytes) :
    ∃ field, b.storedValue.encodedField = .ok field := by
  obtain ⟨bytes, chain⟩ := b
  cases chain with
  | nil =>
    refine ⟨bytes.length, ?_⟩
    show (do validateValueLen bytes; pure bytes.length) = _
    rw [validateValueLen, if_neg (not_lt.2 hlen)]
    rfl
  | cons id ids =>
    obtain ⟨page, hview⟩ := hb.1.read_mem id (by simp)
    have hid := (Pager.view_eq_some.1 hview).1
    have hpos : bytes.length ≠ 0 := by
      rcases hb.1 with hnil | ⟨-, first, rest, hchunks, -⟩
      · cases hnil
      · have h1 := hchunks.first_pos
        have h2 := congrArg List.length hchunks.flatten
        rw [List.length_append] at h2
        simp only at h2
        omega
    refine ⟨valueOverflowFlag + bytes.length, ?_⟩
    show StoredValue.encodedField (.overflow bytes.length id) = _
    rw [StoredValue.encodedField, if_neg (by simp only [not_or, not_lt]; exact ⟨hpos, hlen⟩),
      if_neg (not_lt.2 hid)]

/-- The entry of a new pair, as it was stored. -/
structure NewEntry (key value : Bytes) (s : BPlusTree) (e : PEntry) : Prop where
  entry : e.entry = Entry.of key value
  kept : e.Kept s
  encodes : ∃ cell, LeafCell cell e

/-- Storing a new pair. -/
theorem storePair_spec (h : s.Ready) {key value : Bytes} (hkey : key.length ≤ maxTreeKeyBytes)
    (hvalue : value.length ≤ maxTreeValueBytes) :
    Prog.wp (storeKey key)
      (fun k s' => Prog.wp (storeValue k value)
        (fun v s'' => ∃ e : PEntry, ⟨k, v⟩ = e.stored ∧ s.Takes e.pages s'' ∧
          NewEntry key value s'' e)
        (s.Stops False) s')
      (s.Stops False) s := by
  refine Prog.wp_mono (storeKey_spec h hkey) ?_ fun _ _ he => he
  rintro _ s₁ ⟨bk, rfl, rfl, hkinline, htakes₁, hbk⟩
  have hcost : bk.storedKey.encodedPayloadLen ≤ maxInlineKeyBytes := by
    rw [encodedPayloadLen_storedKey, hkinline]
    exact keyCost_le _
  refine htakes₁.wp (Prog.wp_mono (storeValue_spec htakes₁.ready hcost hvalue) ?_ fun _ _ he => he)
  rintro _ s₂ ⟨bv, rfl, rfl, hvinline, htakes₂, hbv⟩
  refine ⟨⟨bk, bv⟩, rfl, htakes₁.trans htakes₂, ?_, ⟨hbk.mono htakes₂, hbv⟩, ?_⟩
  · rw [encodedPayloadLen_storedKey, hkinline] at hvinline
    rw [PEntry.entry, hkinline, hvinline]
    rfl
  · obtain ⟨field, hfield⟩ := encodedField_ok hbv hvalue
    exact ⟨_, encodeLeafCell_eq_ok.2 ⟨by rw [PEntry.stored, Blob.asSlice_storedKey]; exact hkey,
      field, hfield, rfl⟩⟩

/-- The replacements of the root. -/
theorem insertAtRoot_spec {r : PRoot} (h : s.Ready) (hr : s.pager.Stores r) (hkept : r.Kept s)
    (hvalid : r.tree.Valid) {key value : Bytes} {e : PEntry} (he : NewEntry key value s e) :
    Prog.wp (insertAtRoot e.stored)
      (fun refs s' => ∃ n, ∃ ts : List (PTree n), refs = ts.map PTree.refOf ∧
        Tree.put e.entry r.tree = Tree.grow (ts.map PTree.tree) ∧
        (ts.length = 1 ∨ ts.length = 2) ∧ (∀ t ∈ ts, t.tree.Proper) ∧
        Tree.SortedChildren (ts.map PTree.tree) ∧ Writes s (r.footprint + e.pages) ts s')
      (s.Stops (Tree.put e.entry r.tree = none)) s := by
  unfold insertAtRoot
  rw [Prog.wp_bind, Prog.wp_get]
  cases r with
  | none =>
    have hroot : s.pager.rootPageId = none := hr.on
    -- An empty tree becomes one leaf, which fits because an entry does.
    have hsize : e.entry.size ≤ pageBodyCapacity := he.entry ▸ entry_of_size_le key value
    simp only [hroot, Prog.wp_bind, Prog.wp_pure]
    have hin : LeafInput s [e] :=
      ⟨by simp, by simpa using he.kept, by simpa using he.encodes⟩
    have hlist : [e.stored] = [e].map PEntry.stored := rfl
    rw [hlist]
    refine Prog.wp_mono (commitLeaf_spec h hin) ?_ fun _ _ hstop => hstop.imp fun hlt => ?_
    · rintro _ s' ⟨t, rfl, ht, hwrites⟩
      have htree : t.tree = Tree.leaf [e.entry] := by
        show Tree.leaf (t.cells.map PEntry.entry) = _
        rw [ht]
        rfl
      refine ⟨0, [t], rfl, ?_, .inl rfl, ?_, ?_, ?_⟩
      · show (if e.entry.size ≤ pageBodyCapacity then some ⟨0, Tree.leaf [e.entry]⟩ else none :
          Tree.Root) = _
        rw [if_pos hsize, List.map_singleton, Tree.grow, htree]
      · rw [List.forall_mem_singleton, htree]
        exact List.cons_ne_nil _ _
      · simp [Tree.SortedChildren, htree]
      · refine hwrites.mono ?_
        simp [PRoot.footprint]
    · exact absurd (by simpa using hsize) (not_le.2 hlt)
  | some t =>
    obtain ⟨n, t⟩ := t
    have hroot : s.pager.rootPageId = some t.pid := hr.on.1
    have hn : n < maxTreeHeight := PTree.levels_lt h.live.bound hr.on.2 hr.nodup hvalid.wide
    have hentries : SortedBy Entry.key (upsertBy Entry.key e.entry t.tree.entries) :=
      SortedBy.upsertBy hvalid.sorted
    simp only [hroot]
    refine Prog.wp_mono (rewriteInsert_spec he.encodes hn h hkept he.kept hvalid.proper
      hvalid.sorted) ?_ fun _ _ hstop => hstop.imp fun hnone => ?_
    · rintro _ s' ⟨ts, rfl, hins, hwrites⟩
      obtain ⟨hflat, hproper, hlen⟩ := Tree.insert_spec hvalid.proper hvalid.sorted hins
      rw [List.length_map] at hlen
      refine ⟨n, ts, rfl, ?_, hlen, List.forall_mem_map.1 hproper, ?_, hwrites⟩
      · show (Tree.insert e.entry t.tree).bind Tree.grow = _
        rw [hins, Option.bind_some]
      · rw [Tree.SortedChildren, hflat]
        exact hentries
    · show (Tree.insert e.entry t.tree).bind Tree.grow = none
      rw [hnone]
      rfl

/-- The root over the replacements. -/
theorem growRoot_spec {n : ℕ} {ts : List (PTree n)} (h : s.Ready) (hkept : ∀ t ∈ ts, t.Kept s)
    (hlen : ts.length = 1 ∨ ts.length = 2) (hproper : ∀ t ∈ ts, t.tree.Proper)
    (hsorted : Tree.SortedChildren (ts.map PTree.tree)) :
    Prog.wp (growRoot (ts.map PTree.refOf))
      (fun id s' => ∃ m, ∃ t : PTree m, id = t.pid ∧
        Tree.grow (ts.map PTree.tree) = some ⟨m, t.tree⟩ ∧
        Writes s (ts.map PTree.footprint).sum [t] s')
      (s.Stops (Tree.grow (ts.map PTree.tree) = none)) s := by
  rcases hlen with hlen | hlen
  · obtain ⟨t, rfl⟩ := List.length_eq_one_iff.1 hlen
    exact ⟨n, t, rfl, rfl, 0, h.takes, hkept, by simp⟩
  · obtain ⟨a, b, rfl⟩ := List.length_eq_two.1 hlen
    have hgrow : Tree.grow ([a, b].map PTree.tree) =
        if sepSize a.tree + sepSize b.tree ≤ pageBodyCapacity then
          some ⟨n + 1, Tree.node [a.tree, b.tree]⟩ else none := rfl
    have hsum : (([a, b].map PTree.tree).map sepSize).sum = sepSize a.tree + sepSize b.tree := by
      simp
    rw [hgrow]
    have hprog : growRoot ([a, b].map PTree.refOf) =
        (commitInternal ([a, b].map PTree.refOf) >>= fun root => pure root.pageId) := rfl
    have hin : NodeInput s [a, b] := ⟨by simp, hkept, hproper, hsorted⟩
    rw [hprog, Prog.wp_bind]
    refine Prog.wp_mono (commitInternal_spec h hin) ?_ fun _ _ hstop => hstop.imp fun hlt => ?_
    · rintro _ s' ⟨hfit, t, rfl, ht, hwrites, -⟩
      rw [hsum] at hfit
      refine ⟨n + 1, t, rfl, ?_, hwrites⟩
      rw [if_pos hfit, ← Tree.node_children t.tree, children_tree ht]
      rfl
    · rw [hsum] at hlt
      exact if_neg (not_le.2 hlt)

/-- The root that `put` leaves. -/
def AfterPut (e : Entry) (r r' : PRoot) : Prop :=
  r'.tree.isSome ∧ Tree.put e r.tree = r'.tree

/-- **`put` on a valid stored tree** publishes the tree of `Tree.put`. If it stops without a fault
and with room in the counters, there is no such tree. -/
theorem put_stored {r : PRoot} {key value : Bytes} (hlive : s.pager.Live) (hr : s.pager.Stores r)
    (hvalid : r.tree.Valid) (hkey : key.length ≤ maxTreeKeyBytes)
    (hvalue : value.length ≤ maxTreeValueBytes) :
    Prog.wp (put key value)
      (fun previous s' => previous = valueOf key r.tree.entries ∧
        ∃ r', Committed s r' s' ∧ AfterPut (Entry.of key value) r r')
      (fun _ s' => Interrupted s r (Tree.put (Entry.of key value) r.tree = none)
        (AfterPut (Entry.of key value) r) s') s := by
  have hcheck : validateKeyValue key value = .ok () := by
    have h4 := maxTreeValueBytes_eq
    have h5 := valueLengthMask_eq
    have hmask : ¬ valueLengthMask < value.length := by omega
    have h32 : ¬ 2 ^ 32 ≤ value.length := by omega
    rw [validateKeyValue, validateKey, validateValueLen, if_neg (not_lt.2 hkey),
      if_neg (not_lt.2 hvalue), if_neg h32, if_neg hmask]
    rfl
  have hget := get_stored hlive.healthy hlive.bound hr hvalid hkey
  unfold put
  simp only [query, Prog.wp_bind, Prog.wp_ofExcept, hcheck, Prog.wp_reads, hget, Except.ok.injEq,
    forall_eq', reduceCtorEq, false_implies, implies_true, and_true, forall_const]
  refine Prog.wp_mono (refreshReusablePages_spec hlive hr hvalid) ?_ fun _ _ he => he.elim
  rintro _ s₀ ⟨hready, hpager, hkept⟩
  -- from here on the mutation is that of `s₀`, which has the same pager
  rw [← hpager] at hr
  have hstop : ∀ {why e s'}, s₀.Stops why e s' →
      (why → Tree.put (Entry.of key value) r.tree = none) →
      Interrupted s r (Tree.put (Entry.of key value) r.tree = none)
        (AfterPut (Entry.of key value) r) s' := by
    intro why e s' hs hwhy
    exact ((hs.imp hwhy).interrupted hkept).congr hpager
  refine Prog.wp_mono (storePair_spec hready hkey hvalue)
    (fun k s' hpair => Prog.wp_mono hpair ?_ fun _ _ he => hstop he False.elim)
    fun _ _ he => hstop he False.elim
  rintro v s₁ ⟨e, he, htakes₁, hnew⟩
  have hr₁ : s₁.pager.Stores r := hr.keeps htakes₁.adv.root (htakes₁.adv.keeps.mono hkept.held)
  rw [← hnew.entry] at hstop ⊢
  rw [he]
  refine Prog.wp_mono (insertAtRoot_spec htakes₁.ready hr₁ (hkept.mono htakes₁) hvalid hnew) ?_
    fun _ _ he => hstop (htakes₁.stops he) id
  rintro _ s₂ ⟨n, ts, rfl, hput, hlen, hproper, hsorted, hwrites₂⟩
  obtain ⟨ids₂, htakes₂, hkept₂, -⟩ := id hwrites₂
  refine Prog.wp_mono (growRoot_spec htakes₂.ready hkept₂ hlen hproper hsorted) ?_
    fun _ _ he => hstop ((htakes₁.trans htakes₂).stops he) fun hnone => ?_
  · rintro _ s₃ ⟨m, t, rfl, hgrow, hwrites₃⟩
    have hall : Writes s₁ (r.footprint + e.pages) [t] s₃ := by
      rw [← zero_add (ts.map PTree.footprint).sum] at hwrites₃
      rw [← zero_add (r.footprint + e.pages)]
      exact hwrites₂.over hwrites₃
    obtain ⟨ids, htakes₃, hkept₃, hsum⟩ := hall
    have htakes := htakes₁.trans htakes₃
    have hon : PRoot.On s₃.pager.view (some t.pid) (some ⟨m, t⟩) := ⟨rfl, (hkept₃ t (by simp)).1⟩
    have hnodup : t.footprint.Nodup := by
      have hle : t.footprint ≤ r.footprint + (e.pages + ids) := by
        rw [← add_assoc]
        simpa using hsum
      exact Multiset.nodup_of_le hle (hkept.nodup_add htakes hr)
    refine Prog.wp_mono (@publish_spec _ _ _ (some ⟨m, t⟩) _ htakes hkept hon hnodup) ?_ ?_
    · rintro _ s' hcommit
      exact ⟨rfl, some ⟨m, t⟩, ⟨hcommit.live, by rw [hcommit.spec, hpager], hcommit.stores⟩, rfl,
        hput.trans hgrow⟩
    · rintro _ s' hint
      refine (hint.mono False.elim ?_).congr hpager
      rintro _ rfl
      exact ⟨rfl, hput.trans hgrow⟩
  · rw [hput, hnone]

end BPlusTree
end DbLab.Btree
