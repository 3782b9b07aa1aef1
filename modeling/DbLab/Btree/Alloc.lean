import DbLab.Btree.Lookup
import DbLab.Btree.Tree

/-!
# Page allocation

During a mutation the tree takes page ids from its pool or from the end of the file. `Takes ids s s'`
says that `s'` comes from `s` by writing the pages `ids`, none of which was held before, and that all
held pages are as they were; it composes. `Stops why s` is what is left when the mutation ends early:
the state of `s` can be recovered, and without a fault the reason is `why`.
-/

namespace DbLab.Btree

open Checked

namespace BPlusTree

variable {s s' s'' : BPlusTree} {ids ids' : Multiset ℕ} {why why' : Prop} {e : BtreeError}

/-- A tree that can be written: its pager is live and its pool has committed pages only. -/
structure Ready (s : BPlusTree) : Prop where
  live : s.pager.Live
  nodup : s.reusablePages.Nodup
  range : ∀ id ∈ s.reusablePages, superblockCount ≤ id ∧ id < s.pager.active.pageCount

/-- The pages outside of the pool. -/
def Held (s : BPlusTree) : Set ℕ := {id | id ∉ s.reusablePages}

/-- The pages `ids` were written between `s` and `s'`. -/
structure Takes (ids : Multiset ℕ) (s s' : BPlusTree) : Prop where
  ready : s'.Ready
  adv : Pager.Advances s.Held s.pager s'.pager
  sub : s'.reusablePages ⊆ s.reusablePages
  nodup : ids.Nodup
  fresh : ∀ id ∈ ids, id ∈ s.reusablePages ∨ s.pager.active.pageCount ≤ id
  taken : ∀ id ∈ ids, id ∉ s'.reusablePages ∧ id < s'.pager.active.pageCount

/-- A mutation that started at `s` ended early. -/
def Stops (why : Prop) (s : BPlusTree) (_ : BtreeError) (s' : BPlusTree) : Prop :=
  Pager.Halted s.pager s.Held why s'.pager

theorem Ready.takes (h : s.Ready) : Takes 0 s s :=
  ⟨h, .refl h.live, fun _ h => h, Multiset.nodup_zero, by simp, by simp⟩

theorem Takes.held (h : Takes ids s s') : s.Held ⊆ s'.Held := fun _ hid hmem => hid (h.sub hmem)

theorem Takes.trans (h : Takes ids s s') (h' : Takes ids' s' s'') : Takes (ids + ids') s s'' where
  ready := h'.ready
  adv := h.adv.trans (h'.adv.mono h.held)
  sub := fun _ hid => h.sub (h'.sub hid)
  nodup := by
    refine Multiset.nodup_add.2 ⟨h.nodup, h'.nodup, Multiset.disjoint_left.2 fun hid hid' => ?_⟩
    obtain ⟨hpool, hlt⟩ := h.taken _ hid
    rcases h'.fresh _ hid' with hmem | hge
    · exact hpool hmem
    · omega
  fresh := by
    intro id hid
    rcases Multiset.mem_add.1 hid with hid | hid
    · exact h.fresh id hid
    · exact (h'.fresh id hid).imp (fun hmem => h.sub hmem) fun hge => h.adv.count.trans hge
  taken := by
    intro id hid
    rcases Multiset.mem_add.1 hid with hid | hid
    · obtain ⟨hpool, hlt⟩ := h.taken id hid
      exact ⟨fun hmem => hpool (h'.sub hmem), hlt.trans_le h'.adv.count⟩
    · exact h'.taken id hid

theorem Stops.of_ready (h : s.Ready) (hw : why) : Stops why s e s :=
  ⟨rfl, rfl, fun _ _ => hw, .inr ⟨h.live, .refl _ _⟩⟩

theorem Ready.wp_throw {α : Type} {Q : α → BPlusTree → Prop} (h : s.Ready) (hw : why) :
    Prog.wp (Prog.throw e : TreeProg α) Q (Stops why s) s := Stops.of_ready (e := e) h hw

theorem Stops.imp (h : Stops why s e s') (hw : why → why') : Stops why' s e s' :=
  Pager.Halted.mono h rfl rfl (.refl _ _) le_rfl hw

theorem Takes.stops (h : Takes ids s s') (h' : Stops why s' e s'') : Stops why s e s'' :=
  Pager.Halted.mono h' h.adv.spec h.adv.root h.adv.keeps h.held id

/-- A computation behind a step keeps the way in which the whole mutation stops. -/
theorem Takes.wp {α : Type} {x : TreeProg α} {Q : α → BPlusTree → Prop} (h : Takes ids s s')
    (hx : Prog.wp x Q (Stops why s') s') : Prog.wp x Q (Stops why s) s' :=
  Prog.wp_mono hx (fun _ _ hq => hq) fun _ _ he => h.stops he

/-- Written pages are not among pages that were held and committed. -/
theorem Takes.disjoint (h : Takes ids s s') {held : Multiset ℕ}
    (hheld : ∀ id ∈ held, id ∉ s.reusablePages ∧ id < s.pager.active.pageCount) :
    Disjoint held ids := by
  refine Multiset.disjoint_left.2 fun {id} hid hid' => ?_
  obtain ⟨hpool, hlt⟩ := hheld _ hid
  rcases h.fresh _ hid' with hmem | hge
  · exact hpool hmem
  · omega

/-! ### Writing one page -/

/-- A fresh page is filled with the cells and the link. -/
def Fills (kind : PageKind) (cells : List Bytes) (link : ℕ) (fill : Page → Except BtreeError Page)
    (page : Page) : Prop :=
  ∃ page', fill page = .ok page' ∧ page'.pageId = page.pageId ∧ page'.kind = kind ∧
    page'.cells = cells ∧ page'.link = link

/-- The page that `Page::new` gives. -/
theorem new_eq_ok {id : ℕ} (h : superblockCount ≤ id) (kind : PageKind) :
    ∃ page, Page.new id kind = .ok page ∧ page.pageId = id ∧ page.kind = kind ∧ page.cells = [] ∧
      page.link = rootNone := by
  refine ⟨⟨id, kind, rootNone, [], .inl rfl, by simp, by simp⟩, ?_, rfl, rfl, rfl, rfl⟩
  rw [Page.new, if_neg (not_lt.2 h)]

/-- **Writing a page** of the tree takes one page id. -/
theorem writeTreePage_spec (h : s.Ready) {kind : PageKind} {cells : List Bytes} {link : ℕ}
    {fill : Page → Except BtreeError Page} (hlink : link < s.pager.active.pageCount)
    (hpool : link ∉ s.reusablePages)
    (hfill : ∀ page : Page, page.kind = kind → page.cells = [] → page.link = rootNone →
      page.validate = .ok () → page.pageId ≠ link → Fills kind cells link fill page) :
    Prog.wp (writeTreePage kind fill)
      (fun id s' => Takes {id} s s' ∧ ∃ page, s'.pager.view id = some page ∧ page.kind = kind ∧
        page.cells = cells ∧ page.link = link)
      (Stops False s) s := by
  obtain ⟨pager, pool⟩ := s
  have hlive := h.live
  simp only at hlink hpool hlive
  unfold writeTreePage prepareTreePage commitTreePage
  simp only [Prog.wp_bind, Prog.wp_get]
  cases pool with
  | cons pageId rest =>
    -- The first reusable page is taken and written in its place.
    obtain ⟨hnot, hrest⟩ := List.nodup_cons.1 h.nodup
    have hid := h.range pageId (by simp)
    simp only at hid
    obtain ⟨page, hnew, hpid, hkind, hcells, hzero⟩ := new_eq_ok hid.1 kind
    obtain ⟨page', hpage', hpid', hkind', hcells', hlink'⟩ := hfill page hkind hcells hzero
      (hlive.validate_ok (by rw [hpid]; exact hid.2.le))
      (by rw [hpid]; rintro rfl; exact hpool (by simp))
    simp only [Prog.wp_bind, Prog.wp_set, Prog.wp_ofExcept, hnew, Except.ok.injEq, reduceCtorEq,
      false_implies, implies_true, and_true, forall_eq', Prog.wp_pure, hpage', if_true, onPager,
      Prog.wp_zoom]
    have hcommit := @Pager.commitRecycledPage_spec _ page'
      (Held ⟨pager, pageId :: rest⟩) hlive (by rw [hpid', hpid]; exact hid.1)
      (by rw [hpid', hpid]; exact hid.2) (by rw [hlink']; exact hlink)
      (by rw [hpid', hpid]; simp [Held])
    refine Prog.wp_mono hcommit ?_ fun _ _ he => he
    rintro _ p' ⟨rfl, hactive, hadv, hview⟩
    rw [hpid', hpid] at hview ⊢
    refine ⟨⟨⟨hadv.live, hrest, fun id hmem => ?_⟩, hadv, fun _ hmem => List.mem_cons_of_mem _ hmem,
      Multiset.nodup_singleton _, ?_, ?_⟩, page', hview, hkind', hcells', hlink'⟩
    · have hmem' := h.range id (List.mem_cons_of_mem _ hmem)
      exact ⟨hmem'.1, hmem'.2.trans_le hadv.count⟩
    · simp
    · simpa using ⟨hnot, hid.2.trans_le hadv.count⟩
  | nil =>
    -- No page is reusable, and the file grows by one.
    obtain ⟨page, hnew, hpid, hkind, hcells, hzero⟩ := new_eq_ok pager.active.count_ok kind
    obtain ⟨page', hpage', hpid', hkind', hcells', hlink'⟩ := hfill page hkind hcells hzero
      (hlive.validate_ok (by rw [hpid])) (by rw [hpid]; omega)
    have hprepare : pager.prepareNewPage kind = .ok page := by
      simp [Pager.prepareNewPage, Pager.ensureUsable, hlive.healthy, hnew]
    simp only [Prog.wp_bind, query, Prog.wp_reads, hprepare, Prog.wp_ofExcept, Except.ok.injEq,
      reduceCtorEq, false_implies, implies_true, and_true, forall_eq', Prog.wp_pure, hpage',
      Bool.false_eq_true, if_false, onPager, Prog.wp_zoom]
    have hcommit := @Pager.commitNewPage_spec _ page' hlive (hpid'.trans hpid)
      (by rw [hlink']; exact hlink)
    refine Prog.wp_mono hcommit ?_ fun _ _ he =>
      Pager.Halted.mono he rfl rfl (.refl _ _) (Set.subset_univ _) id
    rintro _ p' ⟨rfl, hadv, hcount, hview⟩
    rw [hpid', hpid] at hview ⊢
    refine ⟨⟨⟨hadv.live, List.nodup_nil, by simp⟩, hadv.mono (Set.subset_univ _), fun _ hmem => hmem,
      Multiset.nodup_singleton _, ?_, ?_⟩, page', hview, hkind', hcells', hlink'⟩
    · simp
    · simp only [Multiset.mem_singleton, forall_eq, List.not_mem_nil, not_false_eq_true, true_and]
      omega

end BPlusTree
end DbLab.Btree
