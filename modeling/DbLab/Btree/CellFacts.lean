import DbLab.Lib.Checked
import DbLab.Lib.Sorted
import DbLab.Btree.Cells
import Mathlib.Data.List.TakeWhile

/-!
# Facts about cells

The search among strictly increasing keys, the cut that the split functions find, and the sizes of
encoded cells.
-/

namespace DbLab.Btree

open Checked

variable {α : Type}

/-! ### Search -/

/-- Strictly increasing keys around the place of `key`. -/
theorem takeWhile_lt_split {keys : List Bytes} (h : StrictlyIncreasing keys) (key : Bytes) :
    ∃ small large, keys = small ++ large ∧ keys.takeWhile (· < key) = small ∧
      (∀ k ∈ small, k < key) ∧ ∀ k ∈ large, key ≤ k := by
  refine ⟨keys.takeWhile (· < key), keys.dropWhile (· < key),
    List.takeWhile_append_dropWhile.symm, rfl, fun k hk => ?_, fun k hk => ?_⟩
  · simpa using List.mem_takeWhile_imp hk
  · rw [StrictlyIncreasing, List.isChain_iff_pairwise] at h
    have hp : (keys.dropWhile (· < key)).Pairwise (· < ·) := h.sublist (List.dropWhile_sublist _)
    cases hd : keys.dropWhile (· < key) with
    | nil => rw [hd] at hk; cases hk
    | cons m rest =>
      rw [hd] at hk hp
      have hm : key ≤ m := by
        have hne : keys.dropWhile (· < key) ≠ [] := by rw [hd]; simp
        have hhead := List.head_dropWhile_not (fun x => decide (x < key)) hne
        simp only [hd, List.head_cons, decide_eq_false_iff_not, not_lt] at hhead
        exact hhead
      rcases List.mem_cons.1 hk with rfl | hk
      · exact hm
      · exact hm.trans ((List.pairwise_cons.1 hp).1 k hk).le

/-- The search finds a key that is there. -/
theorem binarySearch_inl {keys : List Bytes} (h : StrictlyIncreasing keys) {key : Bytes} {i : ℕ} :
    binarySearch keys key = .inl i ↔ ∃ small large, keys = small ++ key :: large ∧
      small.length = i := by
  obtain ⟨small, large, rfl, htw, hsmall, hlarge⟩ := takeWhile_lt_split h key
  have hidx : (small ++ large)[small.length]? = large.head? := by
    rw [List.getElem?_append_right le_rfl, Nat.sub_self, List.head?_eq_getElem?]
  simp only [binarySearch, htw, hidx]
  constructor
  · intro hb
    split_ifs at hb with hhead
    obtain ⟨m, rest, rfl⟩ := List.exists_cons_of_ne_nil (l := large) (by rintro rfl; cases hhead)
    cases hhead
    exact ⟨small, rest, rfl, Sum.inl.inj hb⟩
  · rintro ⟨small', large', heq, hlen⟩
    rw [StrictlyIncreasing, List.isChain_iff_pairwise, heq, List.pairwise_append] at h
    have hsmall' : ∀ k ∈ small', k < key := fun k hk => h.2.2 k hk key (by simp)
    have htw' : (small ++ large).takeWhile (· < key) = small' := by
      rw [heq, List.takeWhile_append_of_pos (by simpa using hsmall'), List.takeWhile_cons_of_neg
        (by simp), List.append_nil]
    obtain rfl : small = small' := htw.symm.trans htw'
    obtain rfl : large = key :: large' := List.append_cancel_left heq
    rw [List.head?_cons, if_pos rfl, hlen]

/-- The search gives the place of a key that is not there. -/
theorem binarySearch_inr {keys : List Bytes} (h : StrictlyIncreasing keys) {key : Bytes} {i : ℕ}
    (hb : binarySearch keys key = .inr i) :
    ∃ small large, keys = small ++ large ∧ small.length = i ∧
      (∀ k ∈ small, k < key) ∧ ∀ k ∈ large, key < k := by
  obtain ⟨small, large, rfl, htw, hsmall, hlarge⟩ := takeWhile_lt_split h key
  have hidx : (small ++ large)[small.length]? = large.head? := by
    rw [List.getElem?_append_right le_rfl, Nat.sub_self, List.head?_eq_getElem?]
  simp only [binarySearch, htw, hidx] at hb
  split_ifs at hb with hhead
  refine ⟨small, large, rfl, Sum.inr.inj hb, hsmall, fun k hk => lt_of_le_of_ne (hlarge k hk) ?_⟩
  intro heq
  rw [StrictlyIncreasing, List.isChain_iff_pairwise, List.pairwise_append] at h
  cases large with
  | nil => cases hk
  | cons m rest =>
    rcases List.mem_cons.1 hk with rfl | hk
    · exact hhead (by rw [heq]; rfl)
    · exact absurd (hlarge m (by simp))
        (not_le.2 (heq ▸ (List.pairwise_cons.1 h.2.1).1 k hk))

/-- The routed child: every separator behind it is larger than the key, and its own is not, unless
it is the first. -/
theorem routeIndex_split {keys : List Bytes} (h : StrictlyIncreasing keys) (hne : keys ≠ [])
    (key : Bytes) : ∃ front m back, keys = front ++ m :: back ∧
      routeIndex keys key = front.length ∧ (front = [] ∨ m ≤ key) ∧ ∀ k ∈ back, key < k := by
  unfold routeIndex
  cases hb : binarySearch keys key with
  | inl i =>
    obtain ⟨small, large, rfl, hlen⟩ := (binarySearch_inl h).1 hb
    rw [StrictlyIncreasing, List.isChain_iff_pairwise, List.pairwise_append,
      List.pairwise_cons] at h
    exact ⟨small, key, large, rfl, hlen.symm, .inr le_rfl, h.2.1.1⟩
  | inr i =>
    obtain ⟨small, large, rfl, hlen, hsmall, hlarge⟩ := binarySearch_inr h hb
    rcases List.eq_nil_or_concat small with rfl | ⟨front, m, rfl⟩
    · obtain ⟨m, back, rfl⟩ := List.exists_cons_of_ne_nil hne
      refine ⟨[], m, back, rfl, ?_, .inl rfl, fun k hk => hlarge k (by simp [hk])⟩
      simp only [List.length_nil] at hlen
      simp [← hlen]
    · rw [List.concat_eq_append] at *
      refine ⟨front, m, large, by simp, ?_, .inr (hsmall m (by simp)).le, hlarge⟩
      simp only [List.length_append, List.length_singleton] at hlen
      show i - 1 = front.length
      omega

/-! ### Cuts -/

/-- A cut that an admitted loop may choose. -/
def Admitted (admits : ℕ → Bool) (sizes : List ℕ) (split : ℕ) : Prop :=
  1 ≤ split ∧ split < sizes.length ∧ admits split ∧ CutFits sizes split

/-- The loop keeps the best of the cuts it has seen. -/
theorem betterCut_foldl (admits : ℕ → Bool) (sizes splits : List ℕ) (best : Option ℕ) :
    (∀ k, splits.foldl (betterCut admits sizes) best = some k →
      (best = some k ∨ k ∈ splits ∧ admits k ∧ CutFits sizes k) ∧
      (∀ j, best = some j ∨ j ∈ splits ∧ admits j ∧ CutFits sizes j →
        imbalance sizes k ≤ imbalance sizes j)) ∧
    (splits.foldl (betterCut admits sizes) best = none →
      best = none ∧ ∀ j ∈ splits, ¬ (admits j ∧ CutFits sizes j)) := by
  induction splits generalizing best with
  | nil =>
    refine ⟨fun k hk => ⟨.inl hk, ?_⟩, fun h => ⟨h, by simp⟩⟩
    rintro j (hj | ⟨hj, -⟩)
    · rw [List.foldl_nil, hj] at hk
      cases hk
      exact le_rfl
    · cases hj
  | cons split splits ih =>
    rw [List.foldl_cons]
    obtain ⟨ihs, ihn⟩ := ih (betterCut admits sizes best split)
    -- The split becomes the best, leaves a better one in place, or is not admitted.
    by_cases hadm : admits split ∧ CutFits sizes split
    · by_cases hbetter : ∀ current ∈ best, imbalance sizes split < imbalance sizes current
      · have hstep : betterCut admits sizes best split = some split := by
          rw [betterCut, if_pos ⟨hadm.1, hadm.2, hbetter⟩]
        rw [hstep] at ihs ihn ⊢
        refine ⟨fun k hk => ⟨?_, ?_⟩, fun h => absurd (ihn h).1 (by simp)⟩
        · rcases (ihs k hk).1 with h | ⟨h, h'⟩
          · cases h; exact .inr ⟨by simp, hadm⟩
          · exact .inr ⟨by simp [h], h'⟩
        · rintro j (hj | ⟨hj, hj'⟩)
          · exact ((ihs k hk).2 split (.inl rfl)).trans (hbetter j hj).le
          · rcases List.mem_cons.1 hj with rfl | hj
            · exact (ihs k hk).2 _ (.inl rfl)
            · exact (ihs k hk).2 j (.inr ⟨hj, hj'⟩)
      · have hstep : betterCut admits sizes best split = best := by
          rw [betterCut, if_neg fun h => hbetter h.2.2]
        rw [hstep] at ihs ihn ⊢
        push Not at hbetter
        obtain ⟨current, hcur, hle⟩ := hbetter
        refine ⟨fun k hk => ⟨?_, ?_⟩, fun h => absurd (ihn h).1 (by simp [Option.mem_def.1 hcur])⟩
        · rcases (ihs k hk).1 with h | ⟨h, h'⟩
          · exact .inl h
          · exact .inr ⟨by simp [h], h'⟩
        · rintro j (hj | ⟨hj, hj'⟩)
          · exact (ihs k hk).2 j (.inl hj)
          · rcases List.mem_cons.1 hj with rfl | hj
            · exact ((ihs k hk).2 current (.inl hcur)).trans hle
            · exact (ihs k hk).2 j (.inr ⟨hj, hj'⟩)
    · have hstep : betterCut admits sizes best split = best := by
        rw [betterCut, if_neg fun h => hadm ⟨h.1, h.2.1⟩]
      rw [hstep] at ihs ihn ⊢
      refine ⟨fun k hk => ⟨?_, ?_⟩, fun h => ⟨(ihn h).1, ?_⟩⟩
      · rcases (ihs k hk).1 with h | ⟨h, h'⟩
        · exact .inl h
        · exact .inr ⟨by simp [h], h'⟩
      · rintro j (hj | ⟨hj, hj'⟩)
        · exact (ihs k hk).2 j (.inl hj)
        · rcases List.mem_cons.1 hj with rfl | hj
          · exact absurd hj' hadm
          · exact (ihs k hk).2 j (.inr ⟨hj, hj'⟩)
      · intro j hj
        rcases List.mem_cons.1 hj with rfl | hj
        · exact hadm
        · exact (ihn h).2 j hj

theorem mem_cuts {sizes : List ℕ} {k : ℕ} :
    k ∈ List.range' 1 (sizes.length - 1) ↔ 1 ≤ k ∧ k < sizes.length := by
  rw [List.mem_range'_1]
  omega

/-- **The chosen cut** is admitted and no admitted cut is better balanced. -/
theorem bestCut_eq_some {admits : ℕ → Bool} {sizes : List ℕ} {k : ℕ}
    (h : bestCut admits sizes = some k) :
    Admitted admits sizes k ∧
      ∀ j, Admitted admits sizes j → imbalance sizes k ≤ imbalance sizes j := by
  obtain ⟨h1, h2⟩ := (betterCut_foldl admits sizes _ none).1 k h
  rcases h1 with h1 | ⟨hk, hadm⟩
  · cases h1
  · have hr := mem_cuts.1 hk
    refine ⟨⟨hr.1, hr.2, hadm⟩, fun j hj => h2 j (.inr ⟨mem_cuts.2 ⟨hj.1, hj.2.1⟩, hj.2.2⟩)⟩

/-- No cut is chosen when none is admitted. -/
theorem bestCut_eq_none {admits : ℕ → Bool} {sizes : List ℕ} :
    bestCut admits sizes = none ↔ ∀ k, ¬ Admitted admits sizes k := by
  constructor
  · intro h k hk
    exact ((betterCut_foldl admits sizes _ none).2 h).2 k (mem_cuts.2 ⟨hk.1, hk.2.1⟩) hk.2.2
  · intro h
    cases hb : bestCut admits sizes with
    | none => rfl
    | some k => exact absurd (bestCut_eq_some hb).1 (h k)

theorem splitSizes_eq_some {sizes : List ℕ} {k : ℕ} (h : splitSizes sizes = some k) :
    1 ≤ k ∧ k < sizes.length ∧ CutFits sizes k := by
  unfold splitSizes at h
  split_ifs at h
  obtain ⟨h1, h2, -, h3⟩ := (bestCut_eq_some h).1
  exact ⟨h1, h2, h3⟩

theorem splitSizes_eq_none {sizes : List ℕ} :
    splitSizes sizes = none ↔ ∀ k, 1 ≤ k → k < sizes.length → ¬ CutFits sizes k := by
  unfold splitSizes
  split_ifs with h
  · exact iff_of_true rfl fun k h1 h2 => by omega
  · rw [bestCut_eq_none]
    exact ⟨fun hn k h1 h2 hf => hn k ⟨h1, h2, rfl, hf⟩, fun hn k hk => hn k hk.1 hk.2.1 hk.2.2.2⟩

end DbLab.Btree
