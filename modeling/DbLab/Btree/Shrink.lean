import DbLab.Btree.Shape

/-!
# Trees without a key

`remove` is the removal of a key along one path, with the merges and redistributions that underfull pages
cause. Unlike insertion it never divides the page of children that it rewrites: it succeeds exactly when on
every level of the path the separators of the rebalanced children fit in one page (`remove_isSome`).
-/

namespace DbLab.Btree

variable {α : Type}

/-- The one or two parts, of two items at least, into which the children of two siblings are written. -/
def divideInternal (size : α → ℕ) (items : List α) : Option (List (List α)) :=
  if (items.map size).sum ≤ pageBodyCapacity then some [items]
  else if items.length < 4 then none
  else (bestCut (fun split => 2 ≤ split ∧ 2 ≤ items.length - split) (items.map size)).map fun k =>
    [items.take k, items.drop k]

namespace Tree

variable {n : ℕ} {t : Tree n} {key : Bytes}

/-- Source `page_is_underfull`. -/
def underfull : {n : ℕ} → Tree n → Bool
  | 0, t => (t.cells.map Entry.size).sum < minPageFill
  | _ + 1, t => t.children.length < 2 ∨
      (t.children.map fun c => separatorSize c.minKey).sum < minPageFill

/-- The merge or redistribution of two siblings. -/
def rebalancePair : {n : ℕ} → Tree n → Tree n → Option (List (Tree n))
  | 0, a, b => (divide Entry.size (a.cells ++ b.cells)).map (List.map leaf)
  | _ + 1, a, b => (divideInternal (fun c => separatorSize c.minKey) (a.children ++ b.children)).map
      (List.map node)

/-- The children with the pair at `i` rebalanced. -/
def rebalanceAt (cs : List (Tree n)) (i : ℕ) : Option (List (Tree n)) :=
  cs[i]?.bind fun a => cs[i + 1]?.bind fun b => (rebalancePair a b).map fun parts =>
    cs.take i ++ parts ++ cs.drop (i + 2)

/-- The children with the affected one rebalanced, if it is underfull. -/
def rebalance (cs : List (Tree n)) (affected : ℕ) : Option (List (Tree n)) :=
  if cs.length < 2 then some cs
  else cs[affected]?.bind fun c => if c.underfull then rebalanceAt cs (affected - 1) else some cs

/-- The page over children one of which has changed, if any is left. -/
def rewriteChildren (cs : List (Tree n)) (index : ℕ) : Option (Option (Tree (n + 1))) :=
  if cs.length = 0 then some none
  else (rebalance cs (min index (cs.length - 1))).bind fun cs =>
    if (cs.map fun c => separatorSize c.minKey).sum ≤ pageBodyCapacity then some (some (node cs)) else none

/-- What is left of a tree without a key. -/
def remove (key : Bytes) : {n : ℕ} → Tree n → Option (Option (Tree n))
  | 0, t => some (if removeBy Entry.key key t.cells = [] then none
      else some (leaf (removeBy Entry.key key t.cells)))
  | _ + 1, t =>
    t.children[t.route key]?.bind fun c => (remove key c).bind fun u =>
      rewriteChildren (splice t.children (t.route key) u.toList) (t.route key)

/-! ### Rebalancing around a place -/

theorem rebalanceAt_append {front back : List (Tree n)} {a b : Tree n} :
    rebalanceAt (front ++ a :: b :: back) front.length =
      (rebalancePair a b).map fun parts => front ++ parts ++ back := by
  have ha : (front ++ a :: b :: back)[front.length]? = some a := by simp
  have hb : (front ++ a :: b :: back)[front.length + 1]? = some b := by simp
  have hdrop : (front ++ a :: b :: back).drop (front.length + 2) = back := by
    rw [← List.drop_drop, List.drop_left]
    rfl
  rw [rebalanceAt, ha, Option.bind_some, hb, Option.bind_some, List.take_left, hdrop]

theorem rebalance_of_lt {cs : List (Tree n)} {affected : ℕ} (h : cs.length < 2) :
    rebalance cs affected = some cs := if_pos h

theorem rebalance_append {front back : List (Tree n)} {c : Tree n}
    (h : ¬ (front ++ c :: back).length < 2) :
    rebalance (front ++ c :: back) front.length =
      if c.underfull then rebalanceAt (front ++ c :: back) (front.length - 1)
      else some (front ++ c :: back) := by
  have hc : (front ++ c :: back)[front.length]? = some c := by simp
  rw [rebalance, if_neg h, hc, Option.bind_some]

/-! ### When the removal succeeds -/

/-- The children can be rebalanced, and then their separators fit in one page. -/
def Rewritable (cs : List (Tree n)) (index : ℕ) : Prop :=
  ∃ cs', rebalance cs (min index (cs.length - 1)) = some cs' ∧
    (cs'.map fun c => separatorSize c.minKey).sum ≤ pageBodyCapacity

/-- On every level of the path of the key the children with the changed one among them can be written. -/
def RemoveFits (key : Bytes) : {n : ℕ} → Tree n → Prop
  | 0, _ => True
  | _ + 1, t => ∀ c ∈ t.children[t.route key]?, RemoveFits key c ∧ ∀ u ∈ remove key c,
      Rewritable (splice t.children (t.route key) u.toList) (t.route key)

theorem rewriteChildren_of_ne {cs : List (Tree n)} {index : ℕ} (h : cs ≠ []) :
    rewriteChildren cs index = (rebalance cs (min index (cs.length - 1))).bind fun cs =>
      if (cs.map fun c => separatorSize c.minKey).sum ≤ pageBodyCapacity then some (some (node cs))
      else none := if_neg fun hlen => h (List.length_eq_zero_iff.1 hlen)

theorem rewriteChildren_isSome {cs : List (Tree n)} {index : ℕ} :
    (rewriteChildren cs index).isSome ↔ Rewritable cs index := by
  unfold rewriteChildren Rewritable
  by_cases hcs : cs.length = 0
  · obtain rfl := List.length_eq_zero_iff.1 hcs
    rw [if_pos hcs]
    exact iff_of_true rfl ⟨[], rfl, Nat.zero_le _⟩
  · rw [if_neg hcs]
    cases rebalance cs (min index (cs.length - 1)) with
    | none => simp
    | some cs' =>
      rw [Option.bind_some]
      by_cases hfit : (cs'.map fun c => separatorSize c.minKey).sum ≤ pageBodyCapacity
      · rw [if_pos hfit]
        exact iff_of_true rfl ⟨cs', rfl, hfit⟩
      · rw [if_neg hfit]
        refine iff_of_false (by simp) ?_
        rintro ⟨other, hother, hfits⟩
        exact hfit (Option.some.inj hother ▸ hfits)

/-- The page of children that the removal rewrites. -/
theorem remove_succ {t : Tree (n + 1)} {front back : List (Tree n)} {c : Tree n}
    (hsplit : t.children = front ++ c :: back) (hidx : t.route key = front.length) :
    remove key t = (remove key c).bind fun u =>
      rewriteChildren (front ++ u.toList ++ back) front.length := by
  rw [remove, hidx, hsplit, List.getElem?_append_right le_rfl, Nat.sub_self, List.getElem?_cons_zero,
    Option.bind_some]
  simp only [splice_append]

theorem removeFits_succ {t : Tree (n + 1)} {front back : List (Tree n)} {c : Tree n}
    (hsplit : t.children = front ++ c :: back) (hidx : t.route key = front.length) :
    RemoveFits key t ↔ RemoveFits key c ∧ ∀ u ∈ remove key c,
      Rewritable (front ++ u.toList ++ back) front.length := by
  simp only [RemoveFits, hsplit, hidx, splice_append, List.getElem?_append_right le_rfl, Nat.sub_self,
    List.getElem?_cons_zero, Option.mem_def, Option.some.injEq, forall_eq']

/-- **A removal succeeds** exactly when the separators fit on every level of its path. -/
theorem remove_isSome : ∀ {n : ℕ} {t : Tree n}, t.Proper → t.Sorted →
    ((remove key t).isSome ↔ RemoveFits key t)
  | 0, t, hp, hs => iff_of_true rfl trivial
  | n + 1, t, hp, hs => by
    obtain ⟨front, c, back, hsplit, hidx, -, -⟩ := route_split hp hs key
    have hc : c ∈ t.children := by simp [hsplit]
    have ih := remove_isSome (hp.2 c hc) (SortedChildren.sorted hs hc)
    rw [remove_succ hsplit hidx, removeFits_succ hsplit hidx, ← ih]
    cases remove key c with
    | none => simp
    | some u =>
      rw [Option.bind_some, rewriteChildren_isSome]
      simp

/-- The removal of the key from the tree under a root succeeds. -/
def Root.RemoveFits (key : Bytes) : Root → Prop
  | none => True
  | some ⟨_, t⟩ => (∃ e ∈ t.entries, e.key = key) → Tree.RemoveFits key t

end Tree
end DbLab.Btree
