import DbLab.Lib.Sorted
import Mathlib.Data.List.Sort

/-!
# Lists grouped by a key

`groupsOf key l` is the ordered map from the keys of a list to the elements under them, each group in
the order of the list. The groups that a test of the key selects, sorted by the order of the list, are
the elements that the test selects from the list.
-/

namespace DbLab

variable {α κ ι : Type} [LinearOrder κ] [LinearOrder ι] {key : α → κ} {order : α → ι} {l : List α}
  {k : κ} {a : α} {p : κ → Bool}

/-- Put an element at the end of its group. -/
def pushTo (k : κ) (a : α) : List (κ × List α) → List (κ × List α)
  | [] => [(k, [a])]
  | (k', as) :: rest =>
    if k < k' then (k, [a]) :: (k', as) :: rest
    else if k = k' then (k', as ++ [a]) :: rest
    else (k', as) :: pushTo k a rest

def groupsOf (key : α → κ) (l : List α) : List (κ × List α) :=
  l.foldl (fun groups a => pushTo (key a) a groups) []

/-- The elements of the groups that a test of the key selects. -/
def selected (p : κ → Bool) (groups : List (κ × List α)) : List α :=
  (groups.filter fun group => p group.1).flatMap Prod.snd

theorem selected_cons {as : List α} {rest : List (κ × List α)} :
    selected p ((k, as) :: rest) = (if p k then as else []) ++ selected p rest := by
  rw [selected, List.filter_cons]
  by_cases hp : p k = true
  · rw [if_pos hp, if_pos hp]
    rfl
  · rw [if_neg hp, if_neg hp]
    rfl

theorem selected_pushTo (groups : List (κ × List α)) :
    (selected p (pushTo k a groups)).Perm (selected p groups ++ if p k then [a] else []) := by
  induction groups with
  | nil =>
    rw [pushTo, selected_cons]
    exact List.perm_append_comm
  | cons group rest ih =>
    obtain ⟨k', as⟩ := group
    rw [pushTo]
    by_cases hlt : k < k'
    · rw [if_pos hlt, selected_cons]
      exact List.perm_append_comm
    · rw [if_neg hlt]
      by_cases heq : k = k'
      · subst heq
        rw [if_pos rfl, selected_cons, selected_cons]
        by_cases hp : p k = true
        · rw [if_pos hp, if_pos hp, if_pos hp, List.append_assoc, List.append_assoc]
          exact List.perm_append_comm.append_left as
        · rw [if_neg hp, if_neg hp, if_neg hp, List.append_nil]
      · rw [if_neg heq, selected_cons, selected_cons, List.append_assoc]
        exact ih.append_left _

/-- The selected groups hold the selected elements. -/
theorem selected_groupsOf : (selected p (groupsOf key l)).Perm (l.filter fun a => p (key a)) := by
  induction l using List.reverseRecOn with
  | nil => exact .refl _
  | append_singleton l a ih =>
    rw [groupsOf, List.foldl_append, List.filter_append, List.filter_singleton]
    refine (selected_pushTo _).trans (ih.append ?_)
    cases p (key a) with
    | false => exact .refl _
    | true => exact .refl _

/-- **The selected groups in the order of the list** are the elements that the test selects from it. -/
theorem sort_selected (hl : SortedBy order l) :
    (selected p (groupsOf key l)).mergeSort (fun a b => decide (order a ≤ order b)) =
      l.filter fun a => p (key a) := by
  have hperm := (List.mergeSort_perm (selected p (groupsOf key l))
    fun a b => decide (order a ≤ order b)).trans selected_groupsOf
  have hfilter : SortedBy order (l.filter fun a => p (key a)) := hl.sublist List.filter_sublist
  refine List.Perm.eq_of_pairwise ?_ (?_ : List.Pairwise (fun a b => order a ≤ order b) _) ?_ hperm
  · intro a b ha hb hab hba
    exact hfilter.eq_of_key_eq (hperm.subset ha) hb (le_antisymm hab hba)
  · refine (List.pairwise_mergeSort ?_ ?_ _).imp fun h => by simpa using h
    · intro a b c hab hbc
      simp only [decide_eq_true_eq] at hab hbc ⊢
      exact hab.trans hbc
    · intro a b
      simpa using le_total (order a) (order b)
  · exact hfilter.imp le_of_lt

end DbLab
