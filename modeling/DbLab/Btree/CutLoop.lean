import DbLab.Btree.CellFacts

/-!
# The loops over the cuts

`choose_split` and `choose_internal_rebalance_split` add up the sizes of the cells from the left, with
checked additions, and keep the best cut with its imbalance. Whatever the lengths of the cells are, they
choose what `bestCut` chooses.
-/

namespace DbLab.Btree

/-- A checked addition of `usize`. -/
def usizeAdd (m n : ℕ) : Option ℕ := if m + n < u64Bound then some (m + n) else none

/-- A checked subtraction of `usize`. -/
def usizeSub (m n : ℕ) : Option ℕ := if n ≤ m then some (m - n) else none

/-- The running sum of the left side, and the best cut so far with its imbalance. -/
structure CutState where
  left : ℕ
  best : Option (ℕ × ℕ)

/-- One round of the loop. A cut that is not admitted only adds to the sum. -/
def cutRound (admits : ℕ → Bool) (sizes : List ℕ) (total : ℕ) (state : CutState) (split : ℕ) :
    Option CutState := do
  let left ← usizeAdd state.left (sizes.getD (split - 1) 0)
  if ¬ admits split then some ⟨left, state.best⟩
  else do
    let right ← usizeSub total left
    if left ≤ pageBodyCapacity ∧ right ≤ pageBodyCapacity ∧
        (∀ current ∈ state.best, max left right - min left right < current.2) then
      some ⟨left, some (split, max left right - min left right)⟩
    else some ⟨left, state.best⟩

/-- The choice of a cut for cells of these lengths, if there are enough of them. -/
def chooseCut (least : ℕ) (admits : ℕ → Bool) (lengths : List ℕ) : Option ℕ :=
  if lengths.length < least then none
  else do
    let sizes ← lengths.mapM (usizeAdd slotLen)
    let total ← sizes.foldlM usizeAdd 0
    let state ← (List.range' 1 (lengths.length - 1)).foldlM (cutRound admits sizes total) ⟨0, none⟩
    state.best.map Prod.fst

/-- Source `choose_split`, of the lengths of its cells. -/
def chooseSplitOf (lengths : List ℕ) : Option ℕ := chooseCut 2 (fun _ => true) lengths

/-- Source `choose_internal_rebalance_split`, of the lengths of its cells. -/
def chooseInternalRebalanceSplitOf (lengths : List ℕ) : Option ℕ :=
  chooseCut 4 (fun split => 2 ≤ split ∧ 2 ≤ lengths.length - split) lengths

/-- The sizes of cells of these lengths, with their slots. -/
def sizesOf (lengths : List ℕ) : List ℕ := lengths.map fun length => slotLen + length

variable {admits : ℕ → Bool} {lengths sizes : List ℕ} {total : ℕ}

@[simp] theorem sizesOf_length : (sizesOf lengths).length = lengths.length := List.length_map _

theorem usizeAdd_eq_some {m n k : ℕ} : usizeAdd m n = some k ↔ m + n < u64Bound ∧ k = m + n := by
  unfold usizeAdd
  split_ifs with h
  · simp [h, eq_comm]
  · simp [h]

/-! ### The sums -/

theorem mapM_usizeAdd : lengths.mapM (usizeAdd slotLen) = some sizes ↔
    sizes = sizesOf lengths ∧ ∀ size ∈ sizes, size < u64Bound := by
  induction lengths generalizing sizes with
  | nil =>
    simp only [List.mapM_nil, Option.pure_def, Option.some.injEq, sizesOf, List.map_nil]
    constructor
    · rintro rfl
      exact ⟨rfl, fun _ hsize => absurd hsize List.not_mem_nil⟩
    · exact fun h => h.1.symm
  | cons length lengths ih =>
    rw [List.mapM_cons]
    simp only [Option.bind_eq_bind, Option.bind_eq_some_iff, usizeAdd_eq_some, Option.pure_def,
      Option.some.injEq, ih]
    constructor
    · rintro ⟨_, ⟨hlt, rfl⟩, rest, ⟨rfl, hrest⟩, rfl⟩
      exact ⟨rfl, List.forall_mem_cons.2 ⟨hlt, hrest⟩⟩
    · rintro ⟨rfl, hall⟩
      obtain ⟨hlt, hrest⟩ := List.forall_mem_cons.1 hall
      exact ⟨_, ⟨hlt, rfl⟩, _, ⟨rfl, hrest⟩, rfl⟩

theorem foldlM_usizeAdd {start : ℕ} (hstart : start < u64Bound) :
    sizes.foldlM usizeAdd start = some total ↔ start + sizes.sum < u64Bound ∧ total = start + sizes.sum := by
  induction sizes generalizing start with
  | nil => simp [hstart, eq_comm]
  | cons size sizes ih =>
    rw [List.foldlM_cons, List.sum_cons]
    simp only [Option.bind_eq_bind, Option.bind_eq_some_iff, usizeAdd_eq_some]
    constructor
    · rintro ⟨_, ⟨hlt, rfl⟩, hrest⟩
      rw [ih hlt, add_assoc] at hrest
      exact hrest
    · rintro ⟨hlt, rfl⟩
      refine ⟨start + size, ⟨by omega, rfl⟩, ?_⟩
      rw [ih (by omega), add_assoc]
      exact ⟨hlt, rfl⟩

/-- The left side grows by the size in front of the cut. -/
theorem sum_take_succ {k : ℕ} : (sizes.take (k + 1)).sum = (sizes.take k).sum + sizes.getD k 0 := by
  rw [List.take_add_one, List.sum_append, List.getD_eq_getElem?_getD]
  cases sizes[k]? with
  | none => simp
  | some size => simp

/-! ### The loop -/

/-- **The rounds keep the best cut** of `betterCut`, with its imbalance, and the sum of the left side. -/
theorem foldlM_cutRound (hfits : sizes.sum < u64Bound) {k : ℕ} (hk : k ≤ sizes.length) :
    (List.range' 1 k).foldlM (cutRound admits sizes sizes.sum) ⟨0, none⟩ =
      some ⟨(sizes.take k).sum, ((List.range' 1 k).foldl (betterCut admits sizes) none).map
        fun split => (split, imbalance sizes split)⟩ := by
  induction k with
  | zero => rfl
  | succ k ih =>
    have hsides : (sizes.take (k + 1)).sum + (sizes.drop (k + 1)).sum = sizes.sum := by
      rw [← List.sum_append, List.take_append_drop]
    have hright : sizes.sum - (sizes.take (k + 1)).sum = (sizes.drop (k + 1)).sum := by omega
    rw [List.range'_1_concat, List.foldlM_append, ih (by omega), List.foldl_append, List.foldl_cons, List.foldl_nil]
    generalize (List.range' 1 k).foldl (betterCut admits sizes) none = best
    have hadd : usizeAdd (sizes.take k).sum (sizes.getD (1 + k - 1) 0) = some (sizes.take (k + 1)).sum := by
      rw [Nat.add_sub_cancel_left, usizeAdd_eq_some, sum_take_succ]
      rw [sum_take_succ] at hsides
      exact ⟨by omega, rfl⟩
    have hsub : usizeSub sizes.sum (sizes.take (k + 1)).sum = some (sizes.drop (k + 1)).sum := by
      rw [usizeSub, if_pos (by omega), hright]
    show (cutRound admits sizes sizes.sum ⟨(sizes.take k).sum, _⟩ (1 + k) >>= fun state => some state) = _
    rw [Option.bind_eq_bind, Option.bind_fun_some, cutRound, hadd, Option.bind_eq_bind, Option.bind_some, hsub, betterCut, Nat.add_comm 1 k]
    by_cases hadmits : admits (k + 1) = true
    · rw [if_neg (not_not.2 hadmits), Option.bind_some]
      -- the best cut carries its imbalance, so the comparison is the one of `betterCut`
      by_cases hbetter : CutFits sizes (k + 1) ∧ ∀ current ∈ best, imbalance sizes (k + 1) < imbalance sizes current
      · have hround : ∀ current ∈ best.map (fun split => (split, imbalance sizes split)),
            imbalance sizes (k + 1) < current.2 := by
          intro current hcurrent
          obtain ⟨split, hsplit, rfl⟩ := Option.map_eq_some_iff.1 hcurrent
          exact hbetter.2 split hsplit
        rw [if_pos ⟨hbetter.1.1, hbetter.1.2, hround⟩, if_pos ⟨hadmits, hbetter⟩]
        rfl
      · rw [if_neg, if_neg fun h => hbetter h.2]
        rintro ⟨hleft, hright, hround⟩
        refine hbetter ⟨⟨hleft, hright⟩, fun split hsplit => ?_⟩
        exact hround (split, imbalance sizes split) (Option.map_eq_some_iff.2 ⟨split, hsplit, rfl⟩)
    · rw [if_pos hadmits, if_neg fun h => hadmits h.1]

/-- A cut that fits leaves no sum behind that overflows. -/
theorem CutFits.sum_le {split : ℕ} (h : CutFits sizes split) : sizes.sum ≤ pageBodyCapacity + pageBodyCapacity := by
  have hsides : (sizes.take split).sum + (sizes.drop split).sum = sizes.sum := by
    rw [← List.sum_append, List.take_append_drop]
  have := h.1
  have := h.2
  omega

/-- **The loop chooses the best cut**, also when a sum overflows: then there is none. -/
theorem chooseCut_eq {least : ℕ} :
    chooseCut least admits lengths = if lengths.length < least then none else bestCut admits (sizesOf lengths) := by
  unfold chooseCut
  split_ifs with hleast
  · rfl
  by_cases hfits : (sizesOf lengths).sum < u64Bound
  · have hsizes : lengths.mapM (usizeAdd slotLen) = some (sizesOf lengths) :=
      mapM_usizeAdd.2 ⟨rfl, fun size hsize => (List.single_le_sum (by simp) size hsize).trans_lt hfits⟩
    have htotal : (sizesOf lengths).foldlM usizeAdd 0 = some (sizesOf lengths).sum :=
      (foldlM_usizeAdd (by omega)).2 ⟨by omega, by omega⟩
    have hloop := @foldlM_cutRound admits (sizesOf lengths) hfits (lengths.length - 1) (by simp)
    simp only [hsizes, htotal, hloop, Option.bind_eq_bind, Option.bind_some, Option.map_map]
    rw [bestCut, sizesOf_length]
    exact congrFun Option.map_id _
  · have hnone : bestCut admits (sizesOf lengths) = none := by
      refine bestCut_eq_none.2 fun split hsplit => hfits ?_
      refine hsplit.2.2.2.sum_le.trans_lt ?_
      rw [u64Bound_eq, pageBodyCapacity_eq]
      norm_num
    rw [hnone]
    cases hsizes : lengths.mapM (usizeAdd slotLen) with
    | none => rfl
    | some sizes =>
      obtain ⟨rfl, -⟩ := mapM_usizeAdd.1 hsizes
      cases htotal : (sizesOf lengths).foldlM usizeAdd 0 with
      | none => simp [htotal]
      | some total =>
        rw [foldlM_usizeAdd (by rw [u64Bound_eq]; norm_num)] at htotal
        exact absurd (by omega) hfits

/-- On cells the loops are `choose_split` and `choose_internal_rebalance_split` of the tree. -/
theorem chooseSplitOf_lengths (cells : List Bytes) : chooseSplitOf (cells.map List.length) = chooseSplit cells := by
  have hsizes : sizesOf (cells.map List.length) = cellSizes cells := by simp [sizesOf, cellSizes]
  rw [chooseSplitOf, chooseCut_eq, hsizes, chooseSplit, splitSizes, List.length_map, cellSizes, List.length_map]

theorem chooseInternalRebalanceSplitOf_lengths (cells : List Bytes) :
    chooseInternalRebalanceSplitOf (cells.map List.length) = chooseInternalRebalanceSplit cells := by
  have hsizes : sizesOf (cells.map List.length) = cellSizes cells := by simp [sizesOf, cellSizes]
  rw [chooseInternalRebalanceSplitOf, chooseCut_eq, hsizes, chooseInternalRebalanceSplit, List.length_map]

/-! ### What is chosen -/

/-- The choice among the cuts that leave at least `least` cells on each side: there is one exactly when one of
these cuts fits, the chosen one fits, and none that fits is better balanced. -/
structure Chooses (least : ℕ) (lengths : List ℕ) (choice : Option ℕ) : Prop where
  isSome_iff : choice.isSome ↔ ∃ k, least ≤ k ∧ k + least ≤ lengths.length ∧ CutFits (sizesOf lengths) k
  fits : ∀ k ∈ choice, least ≤ k ∧ k + least ≤ lengths.length ∧ CutFits (sizesOf lengths) k
  balanced : ∀ k ∈ choice, ∀ j, least ≤ j → j + least ≤ lengths.length → CutFits (sizesOf lengths) j →
    imbalance (sizesOf lengths) k ≤ imbalance (sizesOf lengths) j

theorem chooses_of_chooseCut {least : ℕ} (hleast : 0 < least)
    (hadmits : ∀ k, 1 ≤ k → k < lengths.length → (admits k ↔ least ≤ k ∧ least ≤ lengths.length - k)) :
    Chooses least lengths (chooseCut (2 * least) admits lengths) := by
  have hadmitted : ∀ k, Admitted admits (sizesOf lengths) k ↔
      least ≤ k ∧ k + least ≤ lengths.length ∧ CutFits (sizesOf lengths) k := by
    intro k
    rw [Admitted, sizesOf_length]
    constructor
    · rintro ⟨hlow, hhigh, hk, hfits⟩
      obtain ⟨hleft, hright⟩ := (hadmits k hlow hhigh).1 hk
      exact ⟨hleft, by omega, hfits⟩
    · rintro ⟨hleft, hright, hfits⟩
      exact ⟨by omega, by omega, (hadmits k (by omega) (by omega)).2 ⟨hleft, by omega⟩, hfits⟩
  rw [chooseCut_eq]
  split_ifs with hshort
  · refine ⟨iff_of_false (by simp) ?_, by simp, by simp⟩
    rintro ⟨k, hleft, hright, -⟩
    omega
  · refine ⟨?_, fun k hk => (hadmitted k).1 (bestCut_eq_some hk).1, fun k hk j hleft hright hfits => ?_⟩
    · rw [Option.isSome_iff_ne_none, ne_eq, bestCut_eq_none, not_forall]
      simp only [not_not, hadmitted]
    · exact (bestCut_eq_some hk).2 j ((hadmitted j).2 ⟨hleft, hright, hfits⟩)

/-- **The splits are the best ones**, for all lengths of cells: with a cell on each side of a split, and with two
children on each side of a rebalanced page. -/
theorem splits_chosen (lengths : List ℕ) :
    Chooses 1 lengths (chooseSplitOf lengths) ∧ Chooses 2 lengths (chooseInternalRebalanceSplitOf lengths) := by
  constructor
  · exact chooses_of_chooseCut Nat.one_pos fun k hlow hhigh => by simp; omega
  · exact chooses_of_chooseCut Nat.two_pos fun k _ _ => by simp

end DbLab.Btree
