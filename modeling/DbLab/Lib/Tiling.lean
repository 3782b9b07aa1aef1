import DbLab.Lib.Sorted

/-!
# Tilings

`Tiles a b l` says that the intervals of `l`, in their order, cut the numbers from `a` up to `b` into non-empty
pieces. What matters of a tiling does not depend on the order in which the intervals are listed: they do not
overlap, and every number has its interval. Ordering intervals that come from a tiling gives the tiling back.
-/

namespace DbLab

/-- An interval of numbers, without its end. -/
abbrev Interval := ℕ × ℕ

variable {a b x : ℕ} {l l' : List Interval} {r s : Interval}

/-- The intervals, in their order, cut the numbers from `a` up to `b` into non-empty pieces. -/
def Tiles : ℕ → ℕ → List Interval → Prop
  | a, b, [] => a = b
  | a, b, r :: l => r.1 = a ∧ r.1 < r.2 ∧ Tiles r.2 b l

/-- One of the two intervals ends before the other begins. -/
def Apart (r s : Interval) : Prop := r.2 ≤ s.1 ∨ s.2 ≤ r.1

theorem Apart.symm (h : Apart r s) : Apart s r := Or.symm h

namespace Tiles

theorem le (h : Tiles a b l) : a ≤ b := by
  induction l generalizing a with
  | nil => exact h.le
  | cons r l ih =>
    obtain ⟨rfl, hlt, hrest⟩ := h
    exact hlt.le.trans (ih hrest)

theorem mem (h : Tiles a b l) (hr : r ∈ l) : a ≤ r.1 ∧ r.1 < r.2 ∧ r.2 ≤ b := by
  induction l generalizing a with
  | nil => cases hr
  | cons s l ih =>
    obtain ⟨rfl, hlt, hrest⟩ := h
    rcases List.mem_cons.1 hr with rfl | hr
    · exact ⟨le_rfl, hlt, hrest.le⟩
    · obtain ⟨h1, h2, h3⟩ := ih hrest hr
      exact ⟨hlt.le.trans h1, h2, h3⟩

/-- The intervals of a tiling are one behind the other. -/
theorem pairwise (h : Tiles a b l) : l.Pairwise fun r s => r.2 ≤ s.1 := by
  induction l generalizing a with
  | nil => exact List.Pairwise.nil
  | cons r l ih =>
    obtain ⟨-, -, hrest⟩ := h
    exact List.pairwise_cons.2 ⟨fun s hs => (hrest.mem hs).1, ih hrest⟩

theorem sortedBy (h : Tiles a b l) : SortedBy Prod.fst l := by
  induction l generalizing a with
  | nil => exact List.Pairwise.nil
  | cons r l ih =>
    obtain ⟨-, hlt, hrest⟩ := h
    exact List.pairwise_cons.2 ⟨fun s hs => hlt.trans_le (hrest.mem hs).1, ih hrest⟩

/-- Every number of the tiled range has its interval. -/
theorem cover (h : Tiles a b l) (hx : a ≤ x) (hlt : x < b) : ∃ r ∈ l, r.1 ≤ x ∧ x < r.2 := by
  induction l generalizing a with
  | nil =>
    have hab : a = b := h
    omega
  | cons r l ih =>
    obtain ⟨rfl, -, hrest⟩ := h
    by_cases hmem : x < r.2
    · exact ⟨r, List.mem_cons_self, hx, hmem⟩
    · obtain ⟨s, hs, hsx⟩ := ih hrest (not_lt.1 hmem)
      exact ⟨s, List.mem_cons_of_mem _ hs, hsx⟩

/-- The pieces are together as long as what they tile. -/
theorem sum (h : Tiles a b l) : (l.map fun r => r.2 - r.1).sum = b - a := by
  induction l generalizing a with
  | nil =>
    obtain rfl : a = b := h
    exact (Nat.sub_self a).symm
  | cons r l ih =>
    obtain ⟨rfl, hlt, hrest⟩ := h
    have hle := hrest.le
    rw [List.map_cons, List.sum_cons, ih hrest]
    omega

/-- Two tilings one behind the other. -/
theorem append {c : ℕ} (h : Tiles a b l) (h' : Tiles b c l') : Tiles a c (l ++ l') := by
  induction l generalizing a with
  | nil =>
    obtain rfl : a = b := h
    exact h'
  | cons r l ih =>
    obtain ⟨ha, hlt, hrest⟩ := h
    exact ⟨ha, hlt, ih hrest⟩

/-- The intervals of a tiling in any order do not overlap. -/
theorem apart_of_perm (h : Tiles a b l) (hperm : l'.Perm l) : l'.Pairwise Apart := by
  refine (hperm.pairwise_iff fun hrs => Apart.symm hrs).2 ?_
  exact h.pairwise.imp fun hle => .inl hle

/-- The intervals of a tiling, ordered by their beginnings. -/
theorem mergeSort_eq (h : Tiles a b l) (hperm : l'.Perm l) :
    l'.mergeSort (fun r s => decide (r.1 ≤ s.1)) = l := by
  have hsorted : (l'.mergeSort fun r s => decide (r.1 ≤ s.1)).Pairwise fun r s => decide (r.1 ≤ s.1) = true :=
    List.pairwise_mergeSort (fun _ _ _ hab hbc => by simp only [decide_eq_true_eq] at *; omega)
      (fun _ _ => by simp only [Bool.or_eq_true, decide_eq_true_eq]; omega) l'
  have hperm' := (List.mergeSort_perm l' fun r s => decide (r.1 ≤ s.1)).trans hperm
  -- Distinct beginnings make the order strict.
  have hapart := h.apart_of_perm hperm'
  have hlt : ∀ r ∈ l'.mergeSort (fun r s => decide (r.1 ≤ s.1)), r.1 < r.2 :=
    fun r hr => (h.mem (hperm'.mem_iff.1 hr)).2.1
  have hstrict : SortedBy Prod.fst (l'.mergeSort fun r s => decide (r.1 ≤ s.1)) := by
    refine ((hsorted.and hapart).imp_of_mem ?_)
    rintro r s hr hs ⟨hle, happart⟩
    have h1 := hlt r hr
    have h2 := hlt s hs
    simp only [decide_eq_true_eq] at hle
    rcases happart with h3 | h3
    · exact h1.trans_le h3
    · omega
  exact hstrict.ext h.sortedBy fun r => hperm'.mem_iff

end Tiles
end DbLab
