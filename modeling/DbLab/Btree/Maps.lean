import DbLab.Btree.Crash

/-!
# The map of a tree

A valid tree stands for the map of its entries. A mutation that succeeds returns the old value of its key
and leaves the map with that one change; a deletion leaves a valid tree. Lookups need no two children in a
page, so that they are right behind every `put`, whatever the validation says of its pages.
-/

namespace DbLab.Btree

open Checked

namespace BPlusTree

variable {s s' : BPlusTree} {key value : Bytes} {previous : Option Bytes} {r r' : PRoot}

/-- **A valid tree**: a live handle whose committed root passes the validation. -/
structure Holds (s : BPlusTree) (r : PRoot) : Prop where
  live : s.pager.Live
  stores : s.pager.Stores r
  valid : r.tree.Valid

/-- The map that a tree stands for. -/
def mapOf (r : PRoot) (key : Bytes) : Option Bytes := valueOf key r.tree.entries

theorem holds_of_session (h : Session s) (hacc : s.Accepted) : ∃ r, s.Holds r := by
  obtain ⟨hlive, -⟩ := h.live
  obtain ⟨r, hr, hvalid⟩ := (accepted_iff hlive).1 hacc
  exact ⟨r, hlive, hr, hvalid⟩

/-! ### Heights -/

/-- The tree behind `put` is at most one level higher. -/
theorem AfterPut.height_le {e : Entry} (h : AfterPut e r r') {m : ℕ} {t' : PTree m} (hr' : r' = some ⟨m, t'⟩) :
    m = 0 ∨ ∃ n t, r = some ⟨n, t⟩ ∧ m ≤ n + 1 := by
  obtain ⟨-, hput⟩ := h
  subst hr'
  cases r with
  | none =>
    left
    have hput' : Tree.put e none = some ⟨m, t'.tree⟩ := hput
    unfold Tree.put at hput'
    split_ifs at hput'
    rw [Option.some.injEq, Sigma.mk.injEq] at hput'
    exact hput'.1.symm
  | some t =>
    obtain ⟨n, t⟩ := t
    right
    refine ⟨n, t, rfl, ?_⟩
    rcases Tree.put_some (show Tree.put e (some ⟨n, t.tree⟩) = some ⟨m, t'.tree⟩ from hput) with
      ⟨a, -, heq⟩ | ⟨a, b, -, -, heq⟩
    · rw [Sigma.mk.injEq] at heq
      omega
    · rw [Sigma.mk.injEq] at heq
      omega

/-- **Lookup** in a stored tree, without a condition on the number of children. -/
theorem get_proper {p : Pager} (hp : p.poisoned = false) (hr : p.Stores r) (hproper : r.tree.Proper)
    (hsorted : r.tree.Sorted) (hheight : ∀ n t, r = some ⟨n, t⟩ → n < maxTreeHeight)
    (hkey : key.length ≤ maxTreeKeyBytes) : p.get key = .ok (mapOf r key) := by
  rw [Pager.get, validateKey, if_neg (not_lt.2 hkey), ok_bind]
  cases r with
  | none =>
    have hroot : p.rootPageId = none := hr.on
    rw [hroot]
    rfl
  | some t =>
    obtain ⟨n, t⟩ := t
    obtain ⟨hroot, hon⟩ := hr.on
    rw [hroot]
    exact getFrom_stored hp hon hproper hsorted (hheight n t rfl)

theorem Holds.shows (h : s.Holds r) : s.Shows (mapOf r) :=
  fun _ hkey => get_stored h.live.healthy h.live.bound h.stores h.valid hkey

/-! ### Mutations -/

theorem put_limits (h : put key value s = (.ok previous, s')) :
    key.length ≤ maxTreeKeyBytes ∧ value.length ≤ maxTreeValueBytes := by
  by_contra hno
  obtain ⟨e, he⟩ := @put_rejected s key value fun hok => hno ⟨hok.1, hok.2.1⟩
  rw [he] at h
  cases h

theorem delete_limits (h : delete key s = (.ok previous, s')) : key.length ≤ maxTreeKeyBytes := by
  by_contra hno
  unfold delete at h
  rw [validateKey, if_pos (not_le.1 hno)] at h
  cases h

/-- **A put that succeeds** returns the old value and sets the new one. -/
theorem Holds.put (h : s.Holds r) (hput : put key value s = (.ok previous, s')) :
    previous = mapOf r key ∧ ∃ r', s'.pager.Live ∧ s'.pager.Stores r' ∧ r'.tree.Proper ∧ r'.tree.Sorted ∧
      mapOf r' = Function.update (mapOf r) key (some value) ∧ s'.Shows (mapOf r') := by
  obtain ⟨hkey, hvalue⟩ := put_limits hput
  obtain ⟨hprevious, r', hcommit, hafter⟩ := Prog.wp_ok (put_stored h.live h.stores h.valid hkey hvalue) hput
  obtain ⟨hproper, -⟩ := hafter.valid_iff h.valid
  have hmap : mapOf r' = Function.update (mapOf r) key (some value) :=
    funext fun j => @Mutation.After.valueOf_eq r r' (.put key value) hafter h.valid j
  have hsorted : r'.tree.Sorted := by
    obtain ⟨hsome, htree⟩ := id hafter
    obtain ⟨⟨m, t'⟩, ht⟩ := Option.isSome_iff_exists.1 hsome
    rw [ht] at htree ⊢
    obtain ⟨hentries, -⟩ := Tree.put_spec h.valid.proper h.valid.sorted htree
    rw [Tree.Root.Sorted, Tree.Root.entries, hentries]
    exact h.valid.sorted.upsertBy
  have hheight : ∀ n t, r' = some ⟨n, t⟩ → n < maxTreeHeight := by
    intro m t' hr'
    rcases hafter.height_le hr' with rfl | ⟨n, t, rfl, hle⟩
    · rw [maxTreeHeight_eq]
      omega
    · have hlt := PTree.levels_add_one_lt h.live.bound h.stores.on.2 h.stores.nodup h.valid.wide
      omega
  refine ⟨hprevious, r', hcommit.live, hcommit.stores, hproper, hsorted, hmap, fun j hj => ?_⟩
  exact get_proper hcommit.live.healthy hcommit.stores hproper hsorted hheight hj

/-- **A deletion that succeeds** returns the old value, and leaves a valid tree without the key. -/
theorem Holds.delete (h : s.Holds r) (hdelete : delete key s = (.ok previous, s')) :
    previous = mapOf r key ∧ ∃ r', s'.Holds r' ∧ mapOf r' = Function.update (mapOf r) key none := by
  have hkey := delete_limits hdelete
  obtain ⟨hprevious, r', hcommit, hafter⟩ := Prog.wp_ok (delete_stored h.live h.stores h.valid hkey) hdelete
  refine ⟨hprevious, r', ⟨hcommit.live, hcommit.stores, hafter.1⟩, funext fun j => ?_⟩
  exact @Mutation.After.valueOf_eq r r' (.delete key) hafter h.valid j

theorem holds_createNew : createNew.Holds none :=
  ⟨createNew_live.1, ⟨rfl, Multiset.nodup_zero⟩, ⟨trivial, by simp [PRoot.tree, Tree.Root.Sorted,
    Tree.Root.entries], trivial⟩⟩

end BPlusTree
end DbLab.Btree
