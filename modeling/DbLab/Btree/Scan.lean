import DbLab.Btree.Maps

/-!
# Range scans

A scan of a stored subtree appends the pairs of the range in its entries, up to the limit. It says that it
is over only when the limit is reached or when it has seen a key behind the range, so that nothing that
follows is in the range.
-/

namespace DbLab.Btree

open Checked

/-- A key at or above the start, and below the end if there is one. -/
def InRange (start : Bytes) (stop : Option Bytes) (key : Bytes) : Prop := start ≤ key ∧ ∀ b ∈ stop, key < b

instance {start : Bytes} {stop : Option Bytes} {key : Bytes} : Decidable (InRange start stop key) :=
  inferInstanceAs (Decidable (_ ∧ _))

/-- The pairs of a range. -/
def rangeRows (start : Bytes) (stop : Option Bytes) (es : List Entry) : List (Bytes × Bytes) :=
  (es.filter fun e => InRange start stop e.key).map Entry.pair

variable {start key : Bytes} {stop : Option Bytes} {limit n : ℕ} {es es₁ es₂ : List Entry} {e : Entry}
  {rows rows' : List (Bytes × Bytes)} {done : Bool} {result : List (Bytes × Bytes) × Bool} {p : Pager}

theorem rangeRows_append : rangeRows start stop (es₁ ++ es₂) =
    rangeRows start stop es₁ ++ rangeRows start stop es₂ := by
  rw [rangeRows, List.filter_append, List.map_append]
  rfl

theorem rangeRows_cons : rangeRows start stop (e :: es) =
    if InRange start stop e.key then e.pair :: rangeRows start stop es else rangeRows start stop es := by
  rw [rangeRows, List.filter_cons]
  by_cases h : InRange start stop e.key
  · rw [if_pos h, if_pos (decide_eq_true h)]
    rfl
  · rw [if_neg h, if_neg (by simpa using h)]
    rfl

theorem rangeRows_eq_nil (h : ∀ e ∈ es, ¬ InRange start stop e.key) : rangeRows start stop es = [] := by
  rw [rangeRows, List.map_eq_nil_iff, List.filter_eq_nil_iff]
  intro e he
  simpa using h e he

/-- Behind a key that is not below the end there is nothing in the range. -/
theorem rangeRows_behind (h : ∃ e ∈ es₁, ∃ b ∈ stop, b ≤ e.key) (hsorted : SortedBy Entry.key (es₁ ++ es₂)) :
    rangeRows start stop es₂ = [] := by
  obtain ⟨e, he, b, hb, hle⟩ := h
  refine rangeRows_eq_nil fun e' he' hin => ?_
  have hlt := (sortedBy_append.1 hsorted).2.2 e he e' he'
  exact (hin.2 b hb).not_ge (hle.trans hlt.le)

/-- **What a scan has done** behind the entries `es`, from `rows` on. -/
structure Scanned (start : Bytes) (stop : Option Bytes) (limit : ℕ) (es : List Entry)
    (rows : List (Bytes × Bytes)) (result : List (Bytes × Bytes) × Bool) : Prop where
  rows : result.1 = rows ++ (rangeRows start stop es).take (limit - rows.length)
  going : result.2 = false → result.1.length < limit
  ended : result.2 = true → result.1.length = limit ∨ ∃ e ∈ es, ∃ b ∈ stop, b ≤ e.key

theorem scanned_nil (h : rows.length < limit) : Scanned start stop limit [] rows (rows, false) :=
  ⟨by simp [rangeRows], fun _ => h, fun h => by cases h⟩

/-- A part that is not in the range. -/
theorem Scanned.skip (h : Scanned start stop limit es₂ rows result) (hnone : rangeRows start stop es₁ = []) :
    Scanned start stop limit (es₁ ++ es₂) rows result where
  rows := by rw [rangeRows_append, hnone, List.nil_append, h.rows]
  going := h.going
  ended hended := (h.ended hended).imp id fun ⟨e, he, hrest⟩ => ⟨e, List.mem_append_right _ he, hrest⟩

/-- The scan ends at a key behind the range. -/
theorem scanned_stop (hfirst : ∃ b ∈ stop, b ≤ e.key) (hsorted : SortedBy Entry.key (e :: es)) :
    Scanned start stop limit (e :: es) rows (rows, true) where
  rows := by
    have hnone : rangeRows start stop (e :: es) = [] := by
      obtain ⟨b, hb, hle⟩ := hfirst
      have hhead : ¬ InRange start stop e.key := fun hin => (hin.2 b hb).not_ge hle
      rw [rangeRows_cons, if_neg hhead]
      exact @rangeRows_behind start stop [e] es ⟨e, List.mem_singleton.2 rfl, b, hb, hle⟩ hsorted
    rw [hnone, List.take_nil, List.append_nil]
  going h := by cases h
  ended _ := .inr ⟨e, List.mem_cons_self, hfirst⟩

/-- What follows a scan that is over does not matter. -/
theorem Scanned.append_ended (h : Scanned start stop limit es₁ rows (rows', true))
    (hsorted : SortedBy Entry.key (es₁ ++ es₂)) : Scanned start stop limit (es₁ ++ es₂) rows (rows', true) where
  rows := by
    have hrows := h.rows
    dsimp only at hrows ⊢
    rw [rangeRows_append, List.take_append, hrows]
    have hnone : (rangeRows start stop es₂).take
        (limit - rows.length - (rangeRows start stop es₁).length) = [] := by
      rcases h.ended rfl with hlimit | hbehind
      · dsimp only at hlimit
        rw [hrows, List.length_append, List.length_take] at hlimit
        have hzero : limit - rows.length - (rangeRows start stop es₁).length = 0 := by omega
        rw [hzero, List.take_zero]
      · rw [rangeRows_behind hbehind hsorted, List.take_nil]
    rw [hnone, List.append_nil]
  going h := by cases h
  ended _ := (h.ended rfl).imp id fun ⟨e, he, hrest⟩ => ⟨e, List.mem_append_left _ he, hrest⟩

/-- A scan that goes on. -/
theorem Scanned.append (h : Scanned start stop limit es₁ rows (rows', false))
    (h' : Scanned start stop limit es₂ rows' result) : Scanned start stop limit (es₁ ++ es₂) rows result where
  rows := by
    have hrows := h.rows
    have hlt := h.going rfl
    dsimp only at hrows hlt
    rw [hrows, List.length_append, List.length_take] at hlt
    have hall : (rangeRows start stop es₁).take (limit - rows.length) = rangeRows start stop es₁ :=
      List.take_of_length_le (by omega)
    rw [hall] at hrows
    rw [h'.rows, rangeRows_append, List.take_append, hall, hrows, List.length_append, List.append_assoc,
      Nat.sub_add_eq]
  going := h'.going
  ended hended := (h'.ended hended).imp id fun ⟨e, he, hrest⟩ => ⟨e, List.mem_append_right _ he, hrest⟩

/-! ### Leaves -/

/-- **The loop over a leaf.** -/
theorem scanEntries_stored {cells : List PEntry}
    (hcells : ∀ e ∈ cells, p.loadValue e.stored.value = .ok e.value.bytes)
    (hsorted : SortedBy Entry.key (cells.map PEntry.entry)) (hlt : rows.length < limit) :
    ∃ result, p.scanEntries start stop limit (cells.map PEntry.stored) rows = .ok result ∧
      Scanned start stop limit (cells.map PEntry.entry) rows result := by
  induction cells generalizing rows with
  | nil => exact ⟨_, rfl, scanned_nil hlt⟩
  | cons cell cells ih =>
    obtain ⟨hload, hrest⟩ := List.forall_mem_cons.1 hcells
    rw [List.map_cons] at hsorted
    have hsortedRest := (sortedBy_cons.1 hsorted).2
    have hkey : cell.stored.key.asSlice = cell.entry.key := Blob.asSlice_storedKey cell.key
    rw [List.map_cons, List.map_cons, Pager.scanEntries]
    dsimp only
    rw [hkey]
    by_cases hstart : cell.entry.key < start
    · obtain ⟨result, hrun, hscanned⟩ := ih hrest hsortedRest hlt
      rw [if_pos hstart, hrun]
      refine ⟨result, rfl, @Scanned.skip start stop limit [cell.entry] _ _ _ hscanned ?_⟩
      refine rangeRows_eq_nil fun e he hin => ?_
      rw [List.mem_singleton] at he
      rw [he] at hin
      exact hin.1.not_gt hstart
    · rw [if_neg hstart]
      by_cases hstop : ∃ b ∈ stop, b ≤ cell.entry.key
      · rw [if_pos hstop]
        exact ⟨_, rfl, scanned_stop hstop hsorted⟩
      · rw [if_neg hstop, hload, ok_bind]
        have hin : InRange start stop cell.entry.key := by
          refine ⟨not_lt.1 hstart, fun b hb => not_le.1 fun hle => hstop ⟨b, hb, hle⟩⟩
        -- The entry is one row, and the scan ends here when that is the last one allowed.
        have hone : Scanned start stop limit [cell.entry] rows
            (rows ++ [(cell.entry.key, cell.value.bytes)], decide (limit ≤ rows.length + 1)) := by
          refine ⟨?_, fun hfalse => ?_, fun htrue => .inl ?_⟩
          · have hpos : limit - rows.length ≠ 0 := by omega
            obtain ⟨k, hk⟩ := Nat.exists_eq_succ_of_ne_zero hpos
            rw [rangeRows_cons, if_pos hin, hk, List.take_succ_cons, rangeRows, List.filter_nil, List.map_nil,
              List.take_nil]
            rfl
          · rw [decide_eq_false_iff_not] at hfalse
            rw [List.length_append, List.length_singleton]
            omega
          · rw [decide_eq_true_eq] at htrue
            rw [List.length_append, List.length_singleton]
            omega
        by_cases hlimit : limit ≤ (rows ++ [(cell.entry.key, cell.value.bytes)]).length
        · rw [if_pos hlimit]
          rw [List.length_append, List.length_singleton] at hlimit
          rw [decide_eq_true hlimit] at hone
          exact ⟨_, rfl, @Scanned.append_ended start stop limit [cell.entry] _ _ _ hone hsorted⟩
        · rw [if_neg hlimit]
          have hlt' := not_le.1 hlimit
          rw [List.length_append, List.length_singleton] at hlimit
          rw [decide_eq_false hlimit] at hone
          obtain ⟨result, hrun, hscanned⟩ := ih hrest hsortedRest hlt'
          exact ⟨result, hrun, @Scanned.append start stop limit [cell.entry] _ _ _ _ hone hscanned⟩

/-! ### Internal pages -/

/-- **The loop over the children**: a child before the start is passed over, and a child behind the end
ends the scan. -/
theorem scanChildren_stored
    {scan : ℕ → List (Bytes × Bytes) → Except BtreeError (List (Bytes × Bytes) × Bool)}
    {cs : List (Blob × PTree n)}
    (hscan : ∀ c ∈ cs, ∀ rows : List (Bytes × Bytes), rows.length < limit → ∃ result,
      scan c.2.pid rows = .ok result ∧ Scanned start stop limit c.2.tree.entries rows result)
    (hkeys : ∀ c ∈ cs, c.1.bytes = c.2.tree.minKey) (hproper : ∀ c ∈ cs, c.2.tree.Proper)
    (hsorted : SortedBy Entry.key (cs.flatMap fun c => c.2.tree.entries)) (hlt : rows.length < limit) :
    ∃ result, Pager.scanChildren scan start stop (cs.map PTree.ref) rows = .ok result ∧
      Scanned start stop limit (cs.flatMap fun c => c.2.tree.entries) rows result := by
  induction cs generalizing rows with
  | nil => exact ⟨_, rfl, scanned_nil hlt⟩
  | cons c cs ih =>
    obtain ⟨hscanFirst, hscanRest⟩ := List.forall_mem_cons.1 hscan
    obtain ⟨hkey, hkeysRest⟩ := List.forall_mem_cons.1 hkeys
    obtain ⟨hproperFirst, hproperRest⟩ := List.forall_mem_cons.1 hproper
    rw [List.flatMap_cons] at hsorted
    obtain ⟨hsortedFirst, hsortedRest, hbetween⟩ := sortedBy_append.1 hsorted
    rw [List.map_cons, List.flatMap_cons, Pager.scanChildren]
    by_cases hskip : ∃ next ∈ (cs.map PTree.ref).head?, next.minKey ≤ start
    · -- all entries of the child are below the separator of the next one
      obtain ⟨result, hrun, hscanned⟩ := ih hscanRest hkeysRest hproperRest hsortedRest hlt
      rw [if_pos hskip]
      refine ⟨result, hrun, hscanned.skip (rangeRows_eq_nil fun e he hin => ?_)⟩
      obtain ⟨next, hnext, hle⟩ := hskip
      cases cs with
      | nil => cases hnext
      | cons d cs =>
        rw [List.map_cons, List.head?_cons, Option.mem_def, Option.some.injEq] at hnext
        subst hnext
        have hd : d.1.bytes = d.2.tree.minKey := hkeysRest d List.mem_cons_self
        obtain ⟨m, hm, hmin⟩ := (hproperRest d List.mem_cons_self).exists_minKey
        have hlt' := hbetween e he m (List.mem_flatMap.2 ⟨d, List.mem_cons_self, hm⟩)
        rw [hmin, ← hd] at hlt'
        exact (hin.1.trans_lt hlt').not_ge hle
    · rw [if_neg hskip]
      by_cases hstop : ∃ b ∈ stop, b ≤ (PTree.ref c).minKey
      · -- The separator is at the end of the range, and so are all entries from it on.
        rw [if_pos hstop]
        refine ⟨_, rfl, ?_⟩
        obtain ⟨m, hm, hmin⟩ := hproperFirst.exists_minKey
        obtain ⟨b, hb, hle⟩ := hstop
        have hle' : b ≤ m.key := by
          rw [hmin, ← hkey]
          exact hle
        refine ⟨?_, (fun h => by cases h), fun _ => .inr ⟨m, List.mem_append_left _ hm, b, hb, hle'⟩⟩
        have hnone : rangeRows start stop (c.2.tree.entries ++ cs.flatMap fun c => c.2.tree.entries) = [] := by
          refine rangeRows_eq_nil fun e he hin => ?_
          have hge : m.key ≤ e.key := by
            rw [hmin]
            rcases List.mem_append.1 he with he | he
            · exact Tree.Sorted.minKey_le hsortedFirst he
            · rw [← hmin]
              exact (hbetween m hm e he).le
          exact (hin.2 b hb).not_ge (hle'.trans hge)
        rw [hnone, List.take_nil, List.append_nil]
      · rw [if_neg hstop]
        obtain ⟨⟨rows', done⟩, hrun, hscanned⟩ := hscanFirst rows hlt
        show ∃ result, (scan c.2.pid rows >>= _) = .ok result ∧ _
        rw [hrun, ok_bind]
        cases done with
        | true => exact ⟨_, rfl, hscanned.append_ended hsorted⟩
        | false =>
          obtain ⟨result, hrun', hscanned'⟩ :=
            ih hscanRest hkeysRest hproperRest hsortedRest (hscanned.going rfl)
          exact ⟨result, hrun', hscanned.append hscanned'⟩

/-! ### Subtrees -/

/-- **The scan of a stored subtree.** -/
theorem scanSubtree_stored (hp : p.poisoned = false) {levels : ℕ} :
    ∀ {n : ℕ} {t : PTree n} {rows : List (Bytes × Bytes)}, t.On p.view → t.tree.Proper → t.tree.Sorted →
      n < levels → rows.length < limit →
      ∃ result, p.scanSubtree start stop limit levels t.pid rows = .ok result ∧
        Scanned start stop limit t.tree.entries rows result := by
  induction levels with
  | zero => exact fun {n} _ _ _ _ _ hn _ => absurd hn (Nat.not_lt_zero n)
  | succ levels ih =>
    intro n t rows hon hproper hs hn hlt
    cases n with
    | zero =>
      obtain ⟨page, hread, hkind, hcells, hdec⟩ := decodeLeaf_stored hp hon hs
      rw [Pager.scanSubtree, hread, ok_bind, hkind]
      dsimp only
      rw [hdec, ok_bind]
      refine scanEntries_stored (fun e he => ?_) hs hlt
      obtain ⟨cell, -, henc⟩ := exists_of_mem_right hcells he
      exact loadValue_stored hp (hon.2 e he) henc
    | succ n =>
      obtain ⟨page, hread, hkind, -, hdec⟩ := decodeInternal_stored hp hon hproper hs
      have hentries : t.tree.entries = t.children.flatMap fun c => c.2.tree.entries := by
        show (t.children.map fun c => c.2.tree).flatMap Tree.entries = _
        rw [List.flatMap_map]
      have hproperChild : ∀ c ∈ t.children, c.2.tree.Proper :=
        fun c hc => hproper.2 _ (List.mem_map_of_mem hc)
      have hsortedChild : ∀ c ∈ t.children, c.2.tree.Sorted :=
        fun c hc => Tree.SortedChildren.sorted hs (List.mem_map_of_mem hc)
      rw [Pager.scanSubtree, hread, ok_bind, hkind]
      dsimp only
      rw [hdec, ok_bind, hentries]
      refine scanChildren_stored (fun c hc rows hrows => ?_) (fun c hc => (hon.2 c hc).2.1) hproperChild ?_ hlt
      · exact ih (hon.2 c hc).2.2 (hproperChild c hc) (hsortedChild c hc) (Nat.lt_of_succ_lt_succ hn) hrows
      · rw [← hentries]
        exact hs

namespace BPlusTree

variable {s : BPlusTree} {r : PRoot}

/-- What `validate_range_scan` accepts. -/
structure ValidRange (start : Bytes) (stop : Option Bytes) : Prop where
  lower : start.length ≤ maxTreeKeyBytes
  upper : ∀ b ∈ stop, b.length ≤ maxTreeKeyBytes ∧ start ≤ b

/-- A range scan of a stored tree, without a condition on the number of children. -/
theorem rangeScan_proper (hlive : s.pager.Live) (hr : s.pager.Stores r) (hproper : r.tree.Proper)
    (hsorted : r.tree.Sorted) (hheight : ∀ n t, r = some ⟨n, t⟩ → n < maxTreeHeight)
    (hrange : ValidRange start stop) :
    s.pager.rangeScan start stop limit = .ok ((rangeRows start stop r.tree.entries).take limit) := by
  have hchecked : s.pager.rangeScan start stop limit =
      if limit = 0 ∨ stop = some start then pure []
      else s.pager.rootPageId.elim (pure []) fun root =>
        s.pager.scanSubtree start stop limit maxTreeHeight root [] >>= fun r => pure r.1 := by
    cases stop with
    | none =>
      rw [Pager.rangeScan, validateKey, if_neg (not_lt.2 hrange.lower), ok_bind]
      cases s.pager.rootPageId <;> rfl
    | some b =>
      obtain ⟨hlength, hle⟩ := hrange.upper b rfl
      rw [Pager.rangeScan, validateKey, if_neg (not_lt.2 hrange.lower), ok_bind]
      dsimp only
      rw [validateKey, if_neg (not_lt.2 hlength), ok_bind, if_neg (not_lt.2 hle)]
      cases s.pager.rootPageId <;> rfl
  rw [hchecked]
  by_cases hempty : limit = 0 ∨ stop = some start
  · rw [if_pos hempty]
    rcases hempty with rfl | rfl
    · rfl
    · have hnone : rangeRows start (some start) r.tree.entries = [] :=
        rangeRows_eq_nil fun e _ hin => (hin.2 start rfl).not_ge hin.1
      rw [hnone, List.take_nil]
      rfl
  · rw [if_neg hempty]
    rw [not_or] at hempty
    cases r with
    | none =>
      have hroot : s.pager.rootPageId = none := hr.on
      rw [hroot]
      simp [PRoot.tree, Tree.Root.entries, rangeRows]
    | some t =>
      obtain ⟨n, t⟩ := t
      obtain ⟨hroot, hon⟩ := hr.on
      obtain ⟨⟨rows, done⟩, hrun, hscanned⟩ := @scanSubtree_stored start stop limit _ hlive.healthy _ _ t []
        hon hproper hsorted (hheight n t rfl) (Nat.pos_of_ne_zero hempty.1)
      have hrows := hscanned.rows
      rw [List.nil_append, List.length_nil, Nat.sub_zero] at hrows
      rw [hroot, Option.elim_some, hrun, ok_bind]
      exact congrArg Except.ok hrows

theorem Holds.height_lt (h : s.Holds r) {t : PTree n} (ht : r = some ⟨n, t⟩) : n < maxTreeHeight := by
  subst ht
  exact PTree.levels_lt h.live.bound h.stores.on.2 h.stores.nodup h.valid.wide

/-- A range scan of a valid tree. -/
theorem Holds.rangeScan_eq (h : s.Holds r) (hrange : ValidRange start stop) :
    s.pager.rangeScan start stop limit = .ok ((rangeRows start stop r.tree.entries).take limit) :=
  rangeScan_proper h.live h.stores h.valid.proper h.valid.sorted (fun _ _ ht => h.height_lt ht) hrange

end BPlusTree
end DbLab.Btree
