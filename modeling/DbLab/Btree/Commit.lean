import DbLab.Btree.Levels

/-!
# The frame of a mutation

A mutation first collects the pages that the root does not reach, then writes, then publishes the
new root. `Committed` is its good end. `Interrupted` is a bad one: either the old root is the one of
the file, or the handle is poisoned with the new root completely written.
-/

namespace DbLab.Btree

open Checked

namespace PRoot

/-- The page of the root. -/
def pid : PRoot → Option ℕ
  | none => none
  | some ⟨_, t⟩ => some t.pid

/-- The root is stored on pages outside of the pool. -/
def Kept (s : BPlusTree) : PRoot → Prop
  | none => True
  | some ⟨_, t⟩ => t.Kept s

theorem Kept.held {s : BPlusTree} {r : PRoot} (h : r.Kept s) : ∀ id ∈ r.footprint, id ∈ s.Held := by
  cases r with
  | none => simp [footprint]
  | some t => exact h.2

theorem Kept.mono {s s' : BPlusTree} {r : PRoot} {ids : Multiset ℕ} (h : r.Kept s)
    (ht : s.Takes ids s') : r.Kept s' := by
  cases r with
  | none => trivial
  | some t => exact PTree.Kept.mono h ht

theorem On.mono {read read' : ℕ → Option Page} {root : Option ℕ} {r : PRoot} (h : r.On read root)
    (hr : ∀ id ∈ r.footprint, ∀ page, read id = some page → read' id = some page) :
    r.On read' root := by
  cases r with
  | none => exact h
  | some t => exact ⟨h.1, h.2.mono hr⟩

theorem On.read_all {p : Pager} {root : Option ℕ} {r : PRoot} (h : r.On p.view root) :
    ∀ id ∈ r.footprint, ∃ page, p.view id = some page := by
  cases r with
  | none => simp [footprint]
  | some t => exact h.2.read_all

/-- The pages of a root that is kept and those written behind it. -/
theorem Kept.nodup_add {s s' : BPlusTree} {r : PRoot} {ids : Multiset ℕ} (h : r.Kept s)
    (htakes : s.Takes ids s') (hr : s.pager.Stores r) : (r.footprint + ids).Nodup := by
  refine Multiset.nodup_add.2 ⟨hr.nodup, htakes.nodup, htakes.disjoint fun id hid => ?_⟩
  obtain ⟨page, hview⟩ := hr.on.read_all id hid
  exact ⟨h.held id hid, (Pager.view_eq_some.1 hview).2.1⟩

end PRoot

/-- The pages of a stored root that other pagers keep. -/
theorem Pager.Stores.keeps {p p' : Pager} {r : PRoot} (h : p.Stores r)
    (hroot : p'.active.rootPageId = p.active.rootPageId)
    (hk : Keeps {id | id ∈ r.footprint} p p') : p'.Stores r := by
  have hid : p'.rootPageId = p.rootPageId := by simp only [rootPageId, hroot]
  exact ⟨hid ▸ h.on.mono hk, h.nodup⟩

namespace BPlusTree

variable {s s' s₁ : BPlusTree} {r r' : PRoot} {ids : Multiset ℕ} {why : Prop} {e : BtreeError}

/-! ### The pool -/

/-- **Refreshing the pool** of a valid root leaves the pages of the root out of it. -/
theorem refreshReusablePages_spec (hlive : s.pager.Live) (hr : s.pager.Stores r)
    (hvalid : r.tree.Valid) :
    Prog.wp refreshReusablePages (fun _ s' => s'.Ready ∧ s'.pager = s.pager ∧ r.Kept s')
      (fun _ _ => False) s := by
  have hreach : s.pager.reachablePages = .ok r.footprint.toFinset :=
    (reachablePages_eq_ok hlive.healthy hlive.bound).2 ⟨r, hr, hvalid, rfl⟩
  have hcount := s.pager.active.count_ok
  have hmem : ∀ id ∈ unreachablePages s.pager r.footprint.toFinset,
      superblockCount ≤ id ∧ id < s.pager.active.pageCount ∧ id ∉ r.footprint := by
    intro id hid
    simp only [unreachablePages, List.mem_filter, List.mem_range'_1, Pager.dataPageCount,
      Multiset.mem_toFinset, decide_not, Bool.not_eq_true', decide_eq_false_iff_not] at hid
    exact ⟨hid.1.1, by omega, hid.2⟩
  unfold refreshReusablePages query
  simp only [Prog.wp_bind, Prog.wp_reads, hreach, Except.ok.injEq, forall_eq', reduceCtorEq,
    false_implies, implies_true, and_true, Prog.wp_modify]
  refine ⟨⟨hlive, ?_, fun id hid => ⟨(hmem id hid).1, (hmem id hid).2.1⟩⟩, trivial, ?_⟩
  · exact List.Nodup.filter _ List.nodup_range'
  · cases r with
    | none => trivial
    | some t => exact ⟨hr.on.2, fun id hid hpool => (hmem id hpool).2.2 hid⟩

/-! ### Ends -/

/-- A mutation published the root. -/
structure Committed (s : BPlusTree) (r' : PRoot) (s' : BPlusTree) : Prop where
  live : s'.pager.Live
  spec : s'.pager.faultSpec = s.pager.faultSpec
  stores : s'.pager.Stores r'

/-- A mutation of the root `r` ended early: with the old root recoverable, or poisoned with a new
root, as `after` describes it, in the file. -/
def Interrupted (s : BPlusTree) (r : PRoot) (why : Prop) (after : PRoot → Prop) (s' : BPlusTree) :
    Prop :=
  Pager.Halted s.pager {id | id ∈ r.footprint} why s'.pager ∨
    s'.pager.poisoned = true ∧ s'.pager.RootWritten ∧ s'.pager.faultSpec = s.pager.faultSpec ∧
      s'.pager.active.rootPageId = s.pager.active.rootPageId ∧ ∃ p r', Pager.openFile s'.pager.file = .ok p ∧ p.Live ∧ p.faultSpec = none ∧ p.Stores r' ∧
        after r'

theorem Stops.interrupted {after : PRoot → Prop} (h : Stops why s e s') (hr : r.Kept s) :
    Interrupted s r why after s' :=
  .inl (Pager.Halted.mono h rfl rfl (.refl _ _) hr.held id)

theorem Interrupted.mono {why' : Prop} {after after' : PRoot → Prop}
    (h : Interrupted s r why after s') (hw : why → why') (ha : ∀ r', after r' → after' r') :
    Interrupted s r why' after' s' :=
  h.imp (fun hh => hh.mono rfl rfl (.refl _ _) le_rfl hw)
    fun ⟨hp, hwritten, hspec, hroot, p, r', hopen, hlive, hnone, hr', haft⟩ =>
      ⟨hp, hwritten, hspec, hroot, p, r', hopen, hlive, hnone, hr', ha r' haft⟩

theorem Interrupted.congr {after : PRoot → Prop} (h : Interrupted s r why after s')
    (hp : s.pager = s₁.pager) : Interrupted s₁ r why after s' := by
  unfold Interrupted at h ⊢
  rwa [hp] at h

/-- **Publishing** a root that was written behind `s`. -/
theorem publish_spec (htakes : s.Takes ids s₁) (hr : r.Kept s) (hon : r'.On s₁.pager.view r'.pid)
    (hnodup : r'.footprint.Nodup) :
    Prog.wp (onPager (Pager.setRoot r'.pid)) (fun _ s' => Committed s r' s')
      (fun _ s' => Interrupted s r False (· = r') s') s₁ := by
  have hview : ∀ id ∈ r'.pid, ∃ page, s₁.pager.view id = some page := by
    intro id hid
    cases r' with
    | none => cases hid
    | some t => cases hid; exact hon.2.read_mem
  -- a pager with this root and the pages of `s₁` stores it
  have hstores : ∀ p : Pager, p.active.rootPageId = r'.pid.getD rootNone →
      Pager.Keeps Set.univ s₁.pager p → p.Stores r' := by
    intro p hroot hkeeps
    have hid : p.rootPageId = r'.pid := by
      rw [Pager.rootPageId, hroot]
      cases hpid : r'.pid with
      | none => rfl
      | some id =>
        obtain ⟨page, hpage⟩ := hview id hpid
        have h2 := (Pager.view_eq_some.1 hpage).1
        rw [superblockCount_eq] at h2
        have hne : id ≠ rootNone := by rw [rootNone_eq]; omega
        exact if_neg hne
    exact ⟨hid ▸ hon.mono fun id _ page hp => hkeeps id trivial page hp, hnodup⟩
  rw [onPager, Prog.wp_zoom]
  refine Prog.wp_mono (Pager.setRoot_spec htakes.ready.live hview) ?_ ?_
  · rintro _ p' hpub
    exact ⟨hpub.live, hpub.spec.trans htakes.adv.spec, hstores p' hpub.root (hpub.keeps _)⟩
  · rintro _ p' (hhalt | ⟨hpois, hwritten, hspec, hold, p'', hopen, hnone, hlive, hroot, hcount,
      hpages⟩)
    · exact .inl (Pager.Halted.mono hhalt htakes.adv.spec htakes.adv.root
        (htakes.adv.keeps.mono hr.held) (Set.subset_univ _) id)
    · refine .inr ⟨hpois, hwritten, hspec.trans htakes.adv.spec, hold.trans htakes.adv.root, p'', r',
        hopen, hlive, hnone, hstores p'' hroot ?_, rfl⟩
      exact Pager.keeps_of_pages hcount.ge fun _ _ _ _ => by rw [hpages]

end BPlusTree
end DbLab.Btree
