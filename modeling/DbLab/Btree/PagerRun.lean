import DbLab.Lib.Checked
import DbLab.Btree.Pager

/-!
# What the pager guarantees

`Live` is the state of a usable pager: its metadata is what `open` would choose from the file, the
file ends with the committed extent, and the fault of the specification is still to come. A commit
leads from a live pager to a live pager with one more page, or it stops with a file from which
`open` recovers the metadata and the pages of before (`Recovers`). The stop is the injected fault,
after which the handle is poisoned, or the end of the counters.
-/

namespace DbLab.Btree

namespace Pager

open Checked

variable {pager base p p' : Pager} {id : ℕ} {page q : Page} {R S : Set ℕ}

/-- The committed page with an id, as the reader gets it from an unpoisoned pager. -/
def view (pager : Pager) (id : ℕ) : Option Page :=
  ({ pager with poisoned := false }.readPage id).toOption

theorem readBlock_eq_ok {file : PageFile} {index : ℕ} :
    file.readBlock index = .ok page ↔ file.pages[index]? = some (.ok page) := by
  unfold PageFile.readBlock
  cases file.pages[index]? with
  | none => simp
  | some b => simp

theorem view_eq_some : pager.view id = some page ↔
    superblockCount ≤ id ∧ id < pager.active.pageCount ∧ id * pageSize < u64Bound ∧
      pager.file.pages[pageIndex id]? = some (.ok page) ∧ page.pageId = id ∧
      page.link < pager.active.pageCount := by
  have hopt : ∀ x : Except BtreeError Page, x.toOption = some page ↔ x = .ok page := by
    intro x; cases x <;> simp [Except.toOption]
  unfold view
  rw [hopt]
  simp only [readPage, ensureUsable, validateCommittedPageId, pageOffset, Bool.false_eq_true,
    if_false, throw_eq, pure_eq, bind_eq_ok, guard_eq_ok, guard_not_eq_ok, readBlock_eq_ok,
    not_or, not_lt, not_le, not_not]
  constructor
  · rintro ⟨_, -, _, ⟨⟨h2, hlt⟩, -⟩, _, ⟨hoff, -⟩, q, hq, hid, hlink, ⟨⟩⟩
    exact ⟨h2, hlt, hoff, hq, hid, hlink⟩
  · rintro ⟨h2, hlt, hoff, hq, hid, hlink⟩
    exact ⟨(), trivial, (), ⟨⟨h2, hlt⟩, trivial⟩, _, ⟨hoff, rfl⟩, page, hq, hid, hlink, rfl⟩

theorem readPage_eq_ok :
    pager.readPage id = .ok page ↔ pager.poisoned = false ∧ pager.view id = some page := by
  have hopt : ∀ x : Except BtreeError Page, x.toOption = some page ↔ x = .ok page := by
    intro x; cases x <;> simp [Except.toOption]
  unfold view
  rw [hopt]
  cases hp : pager.poisoned with
  | true => simp [readPage, ensureUsable, hp]
  | false =>
    have : { pager with poisoned := false } = pager := by rw [← hp]
    simp [this]

/-- The pages of `R` that could be read from `p` can be read from `p'` unchanged. -/
def Keeps (R : Set ℕ) (p p' : Pager) : Prop :=
  ∀ id ∈ R, ∀ page, p.view id = some page → p'.view id = some page

theorem Keeps.refl (R : Set ℕ) (p : Pager) : Keeps R p p := fun _ _ _ h => h

theorem Keeps.trans {p'' : Pager} (h : Keeps R p p') (h' : Keeps R p' p'') : Keeps R p p'' :=
  fun id hid page hp => h' id hid page (h id hid page hp)

theorem Keeps.mono (h : Keeps R p p') (hs : S ⊆ R) : Keeps S p p' :=
  fun id hid page hp => h id (hs hid) page hp

/-- The metadata that `open` would choose, stored in its own slot. -/
structure Chosen (file : PageFile) (active : Superblock) : Prop where
  choose : chooseSuperblock (readSuperblock file 0) (readSuperblock file 1) = .ok active
  slot : readSuperblock file active.slot = .ok active

/-- A usable pager. -/
structure Live (pager : Pager) : Prop where
  healthy : pager.poisoned = false
  chosen : Chosen pager.file pager.active
  extent : superblockCount + pager.file.pages.length = pager.active.pageCount
  tail : pager.file.tail = 0
  bound : pager.active.pageCount * pageSize < u64Bound
  pending : ∀ spec, pager.faultSpec = some spec → pager.faultTrace.length ≤ spec.eventIndex

theorem live_createNew : createNew.Live := by
  refine ⟨rfl, ⟨rfl, rfl⟩, rfl, rfl, ?_, by rintro _ ⟨⟩⟩
  show 2 * pageSize < u64Bound
  rw [mul_pageSize, u64Bound_eq]
  norm_num

/-- The counters have room for one more allocation. -/
def Unexhausted (pager : Pager) : Prop :=
  pager.active.generation + 1 < u64Bound ∧ (pager.active.pageCount + 1) * pageSize < u64Bound

/-- Opening the file gives the committed root of `base` and its pages of `R`. -/
def Recovers (base : Pager) (R : Set ℕ) (file : PageFile) : Prop :=
  ∃ p', openFile file = .ok p' ∧ p'.Live ∧ p'.faultSpec = none ∧
    p'.active.rootPageId = base.active.rootPageId ∧ Keeps R base p'

/-- The injected fault stopped the root superblock after it was completely written. -/
def RootWritten (pager : Pager) : Prop :=
  ∃ spec, pager.faultSpec = some spec ∧ spec.mode = .afterSync ∧
    pager.faultTrace[spec.eventIndex]? = some .rootSuperblock

/-- How a computation on the pager stops without having published a root: poisoned, with a file
that recovers `base`, or usable. Without an injected fault the reason is that the counters are used
up, or `why`. -/
structure Halted (base : Pager) (R : Set ℕ) (why : Prop) (p' : Pager) : Prop where
  spec : p'.faultSpec = base.faultSpec
  root : p'.active.rootPageId = base.active.rootPageId
  cause : p'.faultSpec = none → p'.Unexhausted → why
  safe : (p'.poisoned = true ∧ ¬ p'.RootWritten ∧ Recovers base R p'.file) ∨
    (p'.Live ∧ Keeps R base p')

/-! ### Slots -/

theorem alternateSlot_ne (slot : Fin 2) : alternateSlot slot ≠ slot := by
  revert slot; decide

/-- The choice with the superblock of one slot valid, for either slot. -/
theorem chooseSuperblock_of_alternate {file : PageFile} {slot : Fin 2} {sb : Superblock}
    (h : readSuperblock file slot = .ok sb)
    (h' : ∀ other, readSuperblock file (alternateSlot slot) = .ok other →
      sb.generation = other.generation + 1) :
    chooseSuperblock (readSuperblock file 0) (readSuperblock file 1) = .ok sb := by
  have hcases : slot = 0 ∨ slot = 1 := by revert slot; intro slot; omega
  rcases hcases with rfl | rfl
  · have halt : alternateSlot 0 = 1 := rfl
    rw [halt] at h'
    rw [h]
    cases h1 : readSuperblock file 1 with
    | error e => rfl
    | ok other =>
      have hg := h' other h1
      simp only [chooseSuperblock]
      rw [if_neg (by omega), if_neg (by rintro ⟨h, -⟩; omega), if_neg (by omega)]
  · have halt : alternateSlot 1 = 0 := rfl
    rw [halt] at h'
    rw [h]
    cases h0 : readSuperblock file 0 with
    | error e => rfl
    | ok other =>
      have hg := h' other h0
      simp only [chooseSuperblock]
      rw [if_neg (by omega), if_neg (by rintro ⟨h, -⟩; omega), if_pos (by omega)]

theorem readSuperblock_update_self {file : PageFile} {sb : Superblock} :
    readSuperblock { file with slots := Function.update file.slots sb.slot (.ok sb) } sb.slot
      = .ok sb := by
  simp [readSuperblock]

theorem readSuperblock_update_of_ne {file : PageFile} {slot slot' : Fin 2} {b : Block Superblock}
    (h : slot ≠ slot') :
    readSuperblock { file with slots := Function.update file.slots slot' b } slot
      = readSuperblock file slot := by
  simp [readSuperblock, Function.update_of_ne h]

theorem readSuperblock_congr {file file' : PageFile} (h : file'.slots = file.slots) (slot : Fin 2) :
    readSuperblock file' slot = readSuperblock file slot := by
  simp [readSuperblock, h]

theorem Chosen.congr {file file' : PageFile} {active : Superblock} (hc : Chosen file active)
    (h : file'.slots = file.slots) : Chosen file' active :=
  ⟨by rw [readSuperblock_congr h, readSuperblock_congr h]; exact hc.choose,
    by rw [readSuperblock_congr h]; exact hc.slot⟩

/-- Damage of the inactive slot does not change the choice. -/
theorem Chosen.damage {file : PageFile} {active : Superblock} (hc : Chosen file active)
    (e : BtreeError) :
    Chosen { file with slots := Function.update file.slots (alternateSlot active.slot) (.error e) }
      active := by
  have hslot : readSuperblock { file with
      slots := Function.update file.slots (alternateSlot active.slot) (.error e) } active.slot
      = .ok active := by
    rw [readSuperblock_update_of_ne (alternateSlot_ne _).symm]; exact hc.slot
  refine ⟨chooseSuperblock_of_alternate hslot fun other h => ?_, hslot⟩
  simp [readSuperblock] at h

/-- A superblock of the next generation in the inactive slot is chosen. -/
theorem Chosen.advance {file : PageFile} {active next : Superblock} (hc : Chosen file active)
    (hslot : next.slot = alternateSlot active.slot)
    (hgen : next.generation = active.generation + 1) :
    Chosen { file with slots := Function.update file.slots next.slot (.ok next) } next := by
  refine ⟨chooseSuperblock_of_alternate readSuperblock_update_self fun other h => ?_,
    readSuperblock_update_self⟩
  have hne : alternateSlot next.slot ≠ next.slot := alternateSlot_ne _
  have halt : alternateSlot next.slot = active.slot := by
    rw [hslot]; generalize active.slot = s; revert s; decide
  rw [readSuperblock_update_of_ne hne, halt, hc.slot] at h
  cases h
  exact hgen

/-! ### Recovery -/

theorem openFile_of_chosen {file : PageFile} {sb : Superblock} (hc : Chosen file sb)
    (hbound : sb.pageCount * pageSize < u64Bound)
    (hlen : sb.pageCount ≤ superblockCount + file.pages.length)
    (hextra : file.physicalBytes ≤ sb.pageCount * pageSize + pageSize) :
    ∃ p', openFile file = .ok p' ∧ p'.Live ∧ p'.faultSpec = none ∧ p'.active = sb ∧
      p'.file.pages = file.pages.take (sb.pageCount - superblockCount) := by
  have hcount := sb.count_ok
  simp only [PageFile.physicalBytes, superblockCount_eq, pageSize_eq] at hlen hextra hcount
  have hshort : ¬ file.physicalBytes < sb.pageCount * pageSize := by
    simp only [PageFile.physicalBytes, superblockCount_eq, pageSize_eq]; omega
  unfold openFile
  rw [hc.choose]
  simp only [ok_bind, committedFileBytes, if_pos hbound, if_neg hshort, throw_eq, pure_eq]
  by_cases htail : sb.pageCount * pageSize < file.physicalBytes
  · have hfit : ¬ pageSize < file.physicalBytes - sb.pageCount * pageSize := by
      simp only [PageFile.physicalBytes, superblockCount_eq, pageSize_eq]; omega
    rw [if_pos htail, if_neg hfit]
    refine ⟨_, rfl, ⟨rfl, hc.congr rfl, ?_, rfl, hbound, by simp⟩, rfl, rfl, rfl⟩
    simp only [superblockCount_eq, List.length_take]
    omega
  · rw [if_neg htail]
    simp only [PageFile.physicalBytes, superblockCount_eq, pageSize_eq] at htail
    have hpages : file.pages.length = sb.pageCount - superblockCount := by
      simp only [superblockCount_eq]; omega
    refine ⟨_, rfl, ⟨rfl, hc, ?_, ?_, hbound, by simp⟩, rfl, rfl, ?_⟩
    · simp only [superblockCount_eq]; omega
    · exact Fin.ext (by simp only [Fin.val_zero]; omega)
    · rw [← hpages, List.take_length]

theorem readSuperblock_slot {file : PageFile} {slot : Fin 2} {sb : Superblock}
    (h : readSuperblock file slot = .ok sb) : sb.slot = slot := by
  unfold readSuperblock at h
  obtain ⟨sb', -, h⟩ := bind_eq_ok.1 h
  split_ifs at h with hne
  · cases h
    exact not_not.1 hne

/-- The chosen superblock is one of the two. -/
theorem chooseSuperblock_mem {first second : Block Superblock} {sb : Superblock}
    (h : chooseSuperblock first second = .ok sb) : first = .ok sb ∨ second = .ok sb := by
  cases first with
  | error e =>
    cases second with
    | error e' => cases h
    | ok b => exact .inr h
  | ok a =>
    cases second with
    | error e' => exact .inl h
    | ok b =>
      simp only [chooseSuperblock] at h
      split_ifs at h
      · exact .inr h
      · exact .inl h

theorem chosen_of_choose {file : PageFile} {sb : Superblock}
    (h : chooseSuperblock (readSuperblock file 0) (readSuperblock file 1) = .ok sb) :
    Chosen file sb := by
  refine ⟨h, ?_⟩
  rcases chooseSuperblock_mem h with h' | h'
  · rw [readSuperblock_slot h']; exact h'
  · rw [readSuperblock_slot h']; exact h'

/-- **A pager that was opened is live**, whatever the file. -/
theorem openFile_live {file : PageFile} (h : openFile file = .ok p) :
    p.Live ∧ p.faultSpec = none ∧ p.faultTrace = [] := by
  unfold openFile at h
  obtain ⟨sb, hchoose, h⟩ := bind_eq_ok.1 h
  obtain ⟨committed, hcommitted, h⟩ := bind_eq_ok.1 h
  have hc := chosen_of_choose hchoose
  have hcount := sb.count_ok
  unfold committedFileBytes at hcommitted
  split_ifs at hcommitted with hbound
  cases hcommitted
  have htail := file.tail.isLt
  have hsize := pageSize_eq
  dsimp only at h
  split_ifs at h with hshort hlong hfit
  · cases h
    refine ⟨⟨rfl, hc.congr rfl, ?_, rfl, hbound, by simp⟩, rfl, rfl⟩
    have hpages : sb.pageCount ≤ superblockCount + file.pages.length := by
      simp only [PageFile.physicalBytes, mul_pageSize] at hlong
      omega
    simp only [List.length_take]
    omega
  · cases h
    have hext : file.physicalBytes = sb.pageCount * pageSize := by omega
    simp only [PageFile.physicalBytes, mul_pageSize] at hext
    refine ⟨⟨rfl, hc, ?_, Fin.ext ?_, hbound, by simp⟩, rfl, rfl⟩
    · show superblockCount + file.pages.length = sb.pageCount
      omega
    · show (file.tail : ℕ) = 0
      omega

/-- Pages whose blocks did not change are kept. -/
theorem keeps_of_pages (hcount : p.active.pageCount ≤ p'.active.pageCount)
    (h : ∀ id ∈ R, superblockCount ≤ id → id < p.active.pageCount →
      p'.file.pages[pageIndex id]? = p.file.pages[pageIndex id]?) : Keeps R p p' := by
  intro id hid page hp
  rw [view_eq_some] at hp ⊢
  obtain ⟨h2, hlt, hoff, hq, hpid, hlink⟩ := hp
  exact ⟨h2, hlt.trans_le hcount, hoff, by rw [h id hid h2 hlt]; exact hq, hpid,
    hlink.trans_le hcount⟩

/-- Recovery from a file whose chosen superblock has the root of `p` and at least its pages. -/
theorem recovers_of_chosen {file : PageFile} {sb : Superblock} (hc : Chosen file sb)
    (hroot : sb.rootPageId = p.active.rootPageId) (hcount : p.active.pageCount ≤ sb.pageCount)
    (hbound : sb.pageCount * pageSize < u64Bound)
    (hlen : sb.pageCount ≤ superblockCount + file.pages.length)
    (hextra : file.physicalBytes ≤ sb.pageCount * pageSize + pageSize)
    (h : ∀ id ∈ R, superblockCount ≤ id → id < p.active.pageCount →
      file.pages[pageIndex id]? = p.file.pages[pageIndex id]?) : Recovers p R file := by
  obtain ⟨p', hopen, hlive, hspec, rfl, hpages⟩ := openFile_of_chosen hc hbound hlen hextra
  refine ⟨p', hopen, hlive, hspec, hroot, keeps_of_pages hcount fun id hid h2 hlt => ?_⟩
  rw [hpages, List.getElem?_take, if_pos (by simp only [pageIndex, superblockCount_eq] at *; omega)]
  exact h id hid h2 hlt

theorem Live.physicalBytes (h : p.Live) :
    p.file.physicalBytes = p.active.pageCount * pageSize := by
  rw [PageFile.physicalBytes, h.extent, h.tail, Fin.val_zero, Nat.add_zero]

theorem Live.recovers (h : p.Live) (R : Set ℕ) : Recovers p R p.file :=
  recovers_of_chosen h.chosen rfl le_rfl h.bound h.extent.ge (by rw [h.physicalBytes]; omega)
    fun _ _ _ _ => rfl

theorem Recovers.mono {file : PageFile} (h : Recovers p R file)
    (hroot : p.active.rootPageId = base.active.rootPageId) (hk : Keeps S base p) (hs : S ⊆ R) :
    Recovers base S file := by
  obtain ⟨p', hopen, hlive, hspec, hr, hkeeps⟩ := h
  exact ⟨p', hopen, hlive, hspec, hr.trans hroot, hk.trans (hkeeps.mono hs)⟩

theorem Halted.mono {why why' : Prop} (h : Halted p R why p') (hspec : p.faultSpec = base.faultSpec)
    (hroot : p.active.rootPageId = base.active.rootPageId) (hk : Keeps S base p) (hs : S ⊆ R)
    (hwhy : why → why') : Halted base S why' p' where
  spec := h.spec.trans hspec
  root := h.root.trans hroot
  cause := fun hn hu => hwhy (h.cause hn hu)
  safe := by
    rcases h.safe with ⟨hp, hu, hr⟩ | ⟨hl, hkeeps⟩
    · exact .inl ⟨hp, hu, hr.mono hroot hk hs⟩
    · exact .inr ⟨hl, hk.trans (hkeeps.mono hs)⟩

/-! ### Durable writes -/

theorem wp_poisonOnError {x : Prog Pager BtreeError Unit} {Q : Unit → Pager → Prop}
    {E : BtreeError → Pager → Prop} :
    Prog.wp (poisonOnError x) Q E p ↔
      Prog.wp x Q (fun e p' => E e { p' with poisoned := true }) p := by
  unfold Prog.wp poisonOnError
  rcases x p with ⟨_ | _, _⟩ <;> rfl

theorem ensureUsable_eq_ok {u : Unit} : p.ensureUsable = .ok u ↔ p.poisoned = false := by
  cases hp : p.poisoned <;> simp [ensureUsable, hp]

/-- **The rule of an allocation**: a check refuses it, or the page and then the superblock that commits it are
written. -/
theorem wp_commitNewPage {Q : ℕ → Pager → Prop} {E : BtreeError → Pager → Prop} (hrefuse : ∀ e, E e p)
    (hwrite : p.poisoned = false → page.pageId = p.active.pageCount →
      ∀ (hg : p.active.generation + 1 < u64Bound) (hc : p.active.pageCount + 1 < u64Bound),
      p.file.physicalBytes = p.active.pageCount * pageSize →
      Prog.wp (poisonOnError (writeDurableBytes (.page page) (.appendPage page.kind)))
        (fun _ => Prog.wp (poisonOnError
            (writeDurableBytes (.superblock (p.active.withPage hg hc)) .allocationSuperblock))
          (fun _ p' => Q page.pageId { p' with active := p.active.withPage hg hc }) E) E p) :
    Prog.wp (commitNewPage page) Q E p := by
  unfold commitNewPage
  simp only [Prog.wp_bind, Prog.wp_get, Prog.wp_ofExcept]
  refine ⟨fun _ husable => ⟨fun _ _ => ?_, fun e _ => hrefuse e⟩, fun e _ => hrefuse e⟩
  by_cases hid : page.pageId ≠ p.active.pageCount
  · rw [if_pos hid]
    exact hrefuse _
  by_cases hg : u64Bound ≤ p.active.generation + 1
  · rw [if_neg hid, dif_pos hg]
    exact hrefuse _
  by_cases hc : u64Bound ≤ p.active.pageCount + 1
  · rw [if_neg hid, dif_neg hg, dif_pos hc]
    exact hrefuse _
  rw [if_neg hid, dif_neg hg, dif_neg hc]
  simp only [Prog.wp_bind, Prog.wp_ofExcept]
  refine ⟨fun expected hexpected => ?_, fun e _ => hrefuse e⟩
  by_cases hphysical : p.file.physicalBytes ≠ expected
  · rw [if_pos hphysical]
    exact hrefuse _
  rw [if_neg hphysical]
  rw [not_not] at hid hphysical
  unfold committedFileBytes at hexpected
  split_ifs at hexpected
  cases hexpected
  simp only [Prog.wp_bind]
  exact hwrite (ensureUsable_eq_ok.1 husable) hid (not_le.1 hg) (not_le.1 hc) hphysical

/-- **The rule of a recycled page**: a check refuses it, or it is written over a committed page. -/
theorem wp_commitRecycledPage {Q : ℕ → Pager → Prop} {E : BtreeError → Pager → Prop} (hrefuse : ∀ e, E e p)
    (hwrite : p.poisoned = false → ¬ p.Outside page.pageId →
      Prog.wp (poisonOnError (writeDurableBytes (.page page) (.recycledPage page.kind)))
        (fun _ p' => Q page.pageId p') E p) :
    Prog.wp (commitRecycledPage page) Q E p := by
  unfold commitRecycledPage
  simp only [Prog.wp_bind, Prog.wp_get, Prog.wp_ofExcept]
  refine ⟨fun _ husable => ⟨fun _ _ => ⟨fun _ hvalid => ⟨fun _ _ => ?_, fun e _ => hrefuse e⟩,
    fun e _ => hrefuse e⟩, fun e _ => hrefuse e⟩, fun e _ => hrefuse e⟩
  have hin : ¬ p.Outside page.pageId := by
    intro hout
    rw [validateCommittedPageId, if_pos hout] at hvalid
    cases hvalid
  exact hwrite (ensureUsable_eq_ok.1 husable) hin

/-- **The rule of a publication**: the root is published already, a check refuses it, or the superblock with the root
is written. -/
theorem wp_publishRoot {encoded : ℕ} {Q : Unit → Pager → Prop} {E : BtreeError → Pager → Prop}
    (hroot : encoded = rootNone ∨ superblockCount ≤ encoded ∧ encoded < p.active.pageCount)
    (hsame : encoded = p.active.rootPageId → Q () p) (hrefuse : ∀ e, E e p)
    (hwrite : encoded ≠ p.active.rootPageId → ∀ hg : p.active.generation + 1 < u64Bound,
      Prog.wp (poisonOnError
          (writeDurableBytes (.superblock (p.active.withRoot hg encoded hroot)) .rootSuperblock))
        (fun _ p' => Q () { p' with active := p.active.withRoot hg encoded hroot }) E p) :
    Prog.wp (publishRoot p encoded hroot) Q E p := by
  unfold publishRoot
  split_ifs with h hg
  · exact hsame h
  · exact hrefuse _
  · simp only [Prog.wp_bind]
    exact hwrite h (not_le.1 hg)

/-- The fault of the specification is still to come. -/
def Pending (p : Pager) : Prop :=
  ∀ spec, p.faultSpec = some spec → p.faultTrace.length ≤ spec.eventIndex

/-- A durable write is either finished, with the fault still to come, or it is stopped: by the
injected fault or for lack of room. -/
theorem wp_write {image : Image} {kind : DurableWriteKind} {Q : Unit → Pager → Prop}
    {E : BtreeError → Pager → Prop} (hp : p.Pending)
    (hok : ¬ p.file.NoRoom image →
      Pending { p with faultTrace := p.faultTrace ++ [kind], file := p.file.write image } →
      Q () { p with faultTrace := p.faultTrace ++ [kind], file := p.file.write image })
    (hfault : ∀ spec, p.faultSpec = some spec → spec.eventIndex = p.faultTrace.length →
      ∀ e, E e { p with
        faultTrace := p.faultTrace ++ [kind], file := p.file.writeStopped spec.mode image
        poisoned := true })
    (hroom : p.file.NoRoom image → (∀ spec, p.faultSpec = some spec →
        p.faultTrace.length < spec.eventIndex) →
      ∀ e, E e { p with faultTrace := p.faultTrace ++ [kind], poisoned := true }) :
    Prog.wp (poisonOnError (writeDurableBytes image kind)) Q E p := by
  rw [wp_poisonOnError, writeDurableBytes]
  simp only [Prog.wp_bind, Prog.wp_get, Prog.wp_modify]
  cases hs : p.faultSpec.filter fun spec => spec.eventIndex = p.faultTrace.length with
  | some spec =>
    obtain ⟨hspec, hidx⟩ := Option.filter_eq_some_iff.1 hs
    simp only [Prog.wp_bind, Prog.wp_modify, Prog.wp_throw]
    exact hfault spec hspec (by simpa using hidx) _
  | none =>
    have hlt : ∀ spec, p.faultSpec = some spec → p.faultTrace.length < spec.eventIndex := by
      intro spec hspec
      have hne : ¬ spec.eventIndex = p.faultTrace.length := by
        simpa using Option.filter_eq_none_iff.1 hs spec hspec
      have := hp spec hspec
      omega
    by_cases hr : p.file.NoRoom image
    · simp only [if_pos hr, Prog.wp_throw]
      exact hroom hr hlt _
    · simp only [if_neg hr, Prog.wp_modify]
      refine hok hr fun spec hspec => ?_
      simpa using hlt spec hspec

/-- A durable write other than that of the root, when the file it leaves can be recovered wherever
it is stopped. -/
theorem wp_write_of_recovers {image : Image} {kind : DurableWriteKind} {Q : Unit → Pager → Prop}
    (hp : p.Pending) (hspec : p.faultSpec = base.faultSpec)
    (hroot : p.active.rootPageId = base.active.rootPageId) (hkind : kind ≠ .rootSuperblock)
    (hroom : p.file.NoRoom image → ¬ p.Unexhausted)
    (hrec : ∀ mode, Recovers base R (p.file.writeStopped mode image))
    (hok : ¬ p.file.NoRoom image →
      Pending { p with faultTrace := p.faultTrace ++ [kind], file := p.file.write image } →
      Q () { p with faultTrace := p.faultTrace ++ [kind], file := p.file.write image }) :
    Prog.wp (poisonOnError (writeDurableBytes image kind)) Q
      (fun _ p' => Halted base R False p') p := by
  refine wp_write hp hok (fun spec hs hidx _ => ?_) fun hfull hlt _ => ?_
  · refine ⟨hspec, hroot, fun hn => absurd (hs.symm.trans hn) (by simp),
      .inl ⟨rfl, ?_, hrec spec.mode⟩⟩
    rintro ⟨spec', hspec', -, htrace⟩
    obtain rfl : spec = spec' := by simpa [hs] using hspec'
    simp only [hidx, List.getElem?_append_right le_rfl, Nat.sub_self, List.getElem?_cons_zero,
      Option.some.injEq] at htrace
    exact hkind htrace
  · refine ⟨hspec, hroot, fun _ hu => hroom hfull hu, .inl ⟨rfl, ?_, hrec .beforeWrite⟩⟩
    rintro ⟨spec', hspec', -, htrace⟩
    have hlt' := hlt spec' hspec'
    obtain ⟨hlen, -⟩ := List.getElem?_eq_some_iff.1 htrace
    simp only [List.length_append, List.length_singleton] at hlen
    have heq : spec'.eventIndex < p.faultTrace.length + 1 := hlen
    omega

/-! ### Commits -/

/-- A step from one live pager to another that keeps the root and the pages of `R`. -/
structure Advances (R : Set ℕ) (p p' : Pager) : Prop where
  live : p'.Live
  spec : p'.faultSpec = p.faultSpec
  root : p'.active.rootPageId = p.active.rootPageId
  count : p.active.pageCount ≤ p'.active.pageCount
  keeps : Keeps R p p'

theorem Advances.refl (h : p.Live) : Advances R p p := ⟨h, rfl, rfl, le_rfl, .refl R p⟩

theorem Advances.trans {p'' : Pager} (h : Advances R p p') (h' : Advances R p' p'') :
    Advances R p p'' :=
  ⟨h'.live, h'.spec.trans h.spec, h'.root.trans h.root, h.count.trans h'.count,
    h.keeps.trans h'.keeps⟩

theorem Advances.mono (h : Advances R p p') (hs : S ⊆ R) : Advances S p p' :=
  ⟨h.live, h.spec, h.root, h.count, h.keeps.mono hs⟩

/-- A computation that stops behind an advance stops safely for the pager of before. -/
theorem Advances.halted {p'' : Pager} {why : Prop} (h : Advances R p p') (h' : Halted p' R why p'') :
    Halted p R why p'' :=
  h'.mono h.spec h.root h.keeps le_rfl id

theorem write_page_append {file : PageFile} (h : pageIndex page.pageId = file.pages.length) :
    file.write (.page page) = { file with pages := file.pages ++ [.ok page], tail := 0 } := by
  rw [PageFile.write, if_neg (by omega)]

theorem write_page_set {file : PageFile} (h : pageIndex page.pageId < file.pages.length) :
    file.write (.page page)
      = { file with pages := file.pages.set (pageIndex page.pageId) (.ok page) } := by
  rw [PageFile.write, if_pos h]

/-- Wherever the append of a page is stopped, the old metadata is recovered. -/
theorem Live.recovers_append (h : p.Live) (hid : page.pageId = p.active.pageCount)
    (mode : FaultMode) : Recovers p R (p.file.writeStopped mode (.page page)) := by
  have hcount := p.active.count_ok
  have hext := h.extent
  simp only [superblockCount_eq] at hcount hext
  have hidx : pageIndex page.pageId = p.file.pages.length := by
    simp only [pageIndex, superblockCount_eq]; omega
  have hget : ∀ id ∈ R, superblockCount ≤ id → id < p.active.pageCount →
      (p.file.pages ++ [.ok page])[pageIndex id]? = p.file.pages[pageIndex id]? := by
    intro id _ h2 hlt
    simp only [superblockCount_eq] at h2
    exact List.getElem?_append_left (by simp only [pageIndex, superblockCount_eq]; omega)
  cases mode with
  | beforeWrite => exact h.recovers R
  | tornWrite bytes left =>
    have hfile : p.file.writeStopped (.tornWrite bytes left) (.page page)
        = { p.file with tail := bytes } := by
      simp [PageFile.writeStopped, PageFile.writePrefix, hidx]
    rw [hfile]
    have hb := bytes.isLt
    simp only [pageSize_eq] at hb
    refine recovers_of_chosen (h.chosen.congr rfl) rfl le_rfl h.bound h.extent.ge ?_
      fun _ _ _ _ => rfl
    simp only [PageFile.physicalBytes, superblockCount_eq, pageSize_eq]
    omega
  | afterSync =>
    rw [PageFile.writeStopped, write_page_append hidx]
    refine recovers_of_chosen (h.chosen.congr rfl) rfl le_rfl h.bound ?_ ?_ hget
    · simp only [superblockCount_eq, List.length_append]; omega
    · simp only [PageFile.physicalBytes, superblockCount_eq, pageSize_eq, List.length_append,
        List.length_singleton]
      omega

/-- Wherever the write of a superblock of the next generation is stopped before it is complete, the
chosen superblock is the old one. -/
theorem Chosen.writePrefix {file : PageFile} {active next : Superblock} (hc : Chosen file active)
    (hslot : next.slot = alternateSlot active.slot) (bytes : Fin pageSize)
    (left : Option BtreeError) : Chosen (file.writePrefix bytes left (.superblock next)) active := by
  cases left with
  | none => exact hc
  | some e =>
    simp only [PageFile.writePrefix, hslot]
    exact hc.damage e

theorem Live.validate_ok (h : p.Live) (hid : page.pageId ≤ p.active.pageCount) :
    page.validate = .ok () := by
  have hoff : page.pageId * pageSize < u64Bound :=
    (Nat.mul_le_mul_right _ hid).trans_lt h.bound
  simp only [Page.validate, pageOffset, if_pos hoff, ok_bind]
  rfl

/-- **Appending a page** gives a live pager with one more page, or stops with the old pages. -/
theorem commitNewPage_spec (h : p.Live) (hid : page.pageId = p.active.pageCount)
    (hlink : page.link < p.active.pageCount) :
    Prog.wp (commitNewPage page)
      (fun id p' => id = page.pageId ∧ Advances Set.univ p p' ∧
        p'.active.pageCount = p.active.pageCount + 1 ∧ p'.view id = some page)
      (fun _ p' => Halted p Set.univ False p') p := by
  have hcount := p.active.count_ok
  have hext := h.extent
  have hbound := h.bound
  simp only [superblockCount_eq] at hcount hext
  have hidx : pageIndex page.pageId = p.file.pages.length := by
    simp only [pageIndex, superblockCount_eq]; omega
  have stop : ∀ e, ¬ p.Unexhausted → Prog.wp (Prog.throw e : Prog Pager BtreeError ℕ)
      (fun id p' => id = page.pageId ∧ Advances Set.univ p p' ∧
        p'.active.pageCount = p.active.pageCount + 1 ∧ p'.view id = some page)
      (fun _ p' => Halted p Set.univ False p') p :=
    fun _ hu => ⟨rfl, rfl, fun _ hu' => hu hu', .inr ⟨h, .refl _ p⟩⟩
  unfold commitNewPage
  simp only [Prog.wp_bind, Prog.wp_get, Prog.wp_ofExcept]
  refine ⟨fun _ _ => ⟨fun _ _ => ?_, fun e he => ?_⟩, fun e he => ?_⟩
  · rw [if_neg (by simpa using hid)]
    by_cases hg : u64Bound ≤ p.active.generation + 1
    · rw [dif_pos hg]
      exact stop _ fun hu => absurd hu.1 (by omega)
    have hroomy : p.active.pageCount + 1 ≤ p.active.pageCount * pageSize := by
      rw [mul_pageSize]; omega
    by_cases hc : u64Bound ≤ p.active.pageCount + 1
    · omega
    rw [dif_neg hg, dif_neg hc]
    set next := p.active.withPage (not_le.1 hg) (not_le.1 hc) with hdef
    have hslot : next.slot = alternateSlot p.active.slot := rfl
    have hgen : next.generation = p.active.generation + 1 := rfl
    have hphys : p.file.physicalBytes = p.active.pageCount * pageSize := h.physicalBytes
    have hcb : committedFileBytes p.active.pageCount = .ok (p.active.pageCount * pageSize) := by
      rw [committedFileBytes, if_pos hbound]
    simp only [Prog.wp_bind, Prog.wp_ofExcept, hcb, Except.ok.injEq, reduceCtorEq, false_implies,
      implies_true, and_true, forall_eq', hphys, ne_eq, not_true_eq_false, if_false]
    -- the page behind the committed extent
    refine wp_write_of_recovers h.pending rfl rfl (by simp) ?_ (h.recovers_append hid)
      fun hroom hpend => ?_
    · rintro ⟨-, hfull⟩ ⟨-, hu⟩
      rw [hphys] at hfull
      rw [Nat.add_one_mul] at hu
      exact absurd hu (not_lt.2 hfull)
    rw [write_page_append hidx] at hpend ⊢
    have hnext : (p.active.pageCount + 1) * pageSize < u64Bound := by
      simp only [PageFile.NoRoom, hidx, le_refl, true_and, not_le, hphys] at hroom
      rwa [Nat.add_one_mul]
    have hget : ∀ id ∈ (Set.univ : Set ℕ), superblockCount ≤ id → id < p.active.pageCount →
        (p.file.pages ++ [.ok page])[pageIndex id]? = p.file.pages[pageIndex id]? := by
      intro id _ h2 hlt
      simp only [superblockCount_eq] at h2
      exact List.getElem?_append_left (by simp only [pageIndex, superblockCount_eq]; omega)
    have hlen : superblockCount + (p.file.pages ++ [Except.ok page]).length
        = p.active.pageCount + 1 := by
      simp only [superblockCount_eq, List.length_append, List.length_singleton]; omega
    -- the superblock that commits it
    have hslots : Chosen { p.file with pages := p.file.pages ++ [.ok page], tail := 0 } p.active :=
      h.chosen.congr rfl
    refine wp_write_of_recovers hpend rfl rfl (by simp) (fun hroom' => hroom'.elim)
      (fun mode => ?_) fun _ hpend' => ?_
    · have hold : ∀ file : PageFile, Chosen file p.active →
          file.pages = p.file.pages ++ [.ok page] → file.tail = 0 → Recovers p Set.univ file := by
        intro file hc hpages htail
        refine recovers_of_chosen hc rfl le_rfl h.bound ?_ ?_ (by rw [hpages]; exact hget)
        · rw [hpages, hlen]; omega
        · rw [PageFile.physicalBytes, hpages, hlen, htail, Nat.add_one_mul, Fin.val_zero]
          omega
      cases mode with
      | beforeWrite => exact hold _ hslots rfl rfl
      | tornWrite bytes left =>
        refine hold _ (hslots.writePrefix hslot bytes left) ?_ ?_ <;> cases left <;> rfl
      | afterSync =>
        refine recovers_of_chosen (hslots.advance hslot hgen) rfl (Nat.le_succ _) hnext hlen.ge ?_
          hget
        have hphys' : PageFile.physicalBytes { p.file with
            slots := Function.update p.file.slots next.slot (.ok next)
            pages := p.file.pages ++ [.ok page], tail := 0 } = next.pageCount * pageSize := by
          rw [PageFile.physicalBytes, hlen, Fin.val_zero, Nat.add_zero]
          rfl
        exact hphys'.le.trans (Nat.le_add_right _ _)
    · refine ⟨rfl, ⟨⟨h.healthy, hslots.advance hslot hgen, hlen, rfl, hnext, hpend'⟩, rfl, rfl,
        Nat.le_succ _, keeps_of_pages (Nat.le_succ _) hget⟩, rfl, ?_⟩
      rw [view_eq_some]
      refine ⟨by rw [hid]; exact p.active.count_ok, by rw [hid]; exact Nat.lt_succ_self _, ?_, ?_,
        rfl, hlink.trans (Nat.lt_succ_self _)⟩
      · rw [hid]; exact h.bound
      · show (p.file.pages ++ [Except.ok page])[pageIndex page.pageId]? = _
        rw [hidx, List.getElem?_append_right le_rfl, Nat.sub_self]
        rfl
  · rw [h.validate_ok hid.le] at he; cases he
  · simp [ensureUsable, h.healthy] at he

/-- **Overwriting a page** keeps the other pages, also when the write is stopped. -/
theorem commitRecycledPage_spec (h : p.Live) (h2 : superblockCount ≤ page.pageId)
    (hid : page.pageId < p.active.pageCount) (hlink : page.link < p.active.pageCount)
    (hR : page.pageId ∉ R) :
    Prog.wp (commitRecycledPage page)
      (fun id p' => id = page.pageId ∧ p'.active = p.active ∧ Advances R p p' ∧
        p'.view id = some page)
      (fun _ p' => Halted p R False p') p := by
  have hext := h.extent
  simp only [superblockCount_eq] at h2 hext
  have hidx : pageIndex page.pageId < p.file.pages.length := by
    simp only [pageIndex, superblockCount_eq]; omega
  have hoff : page.pageId * pageSize < u64Bound :=
    (Nat.mul_le_mul_right _ hid.le).trans_lt h.bound
  -- The page that is written is none that the root still reaches.
  have hget : ∀ b, ∀ id ∈ R, superblockCount ≤ id → id < p.active.pageCount →
      (p.file.pages.set (pageIndex page.pageId) b)[pageIndex id]?
        = p.file.pages[pageIndex id]? := by
    intro b id hidR h2' _
    have hne : id ≠ page.pageId := fun he => hR (he ▸ hidR)
    simp only [superblockCount_eq] at h2'
    exact List.getElem?_set_ne (by simp only [pageIndex, superblockCount_eq]; omega)
  -- Whatever the bytes at its place are, recovery finds the same root.
  have hset : ∀ b, Recovers p R { p.file with
      pages := p.file.pages.set (pageIndex page.pageId) b } := by
    intro b
    refine recovers_of_chosen (h.chosen.congr rfl) rfl le_rfl h.bound ?_ ?_ (hget b)
    · rw [List.length_set]; exact h.extent.ge
    · have hphys := h.physicalBytes
      rw [PageFile.physicalBytes] at hphys ⊢
      rw [List.length_set]
      exact hphys.le.trans (Nat.le_add_right _ _)
  unfold commitRecycledPage
  simp only [Prog.wp_bind, Prog.wp_get, Prog.wp_ofExcept]
  refine ⟨fun _ _ => ⟨fun _ _ => ⟨fun _ _ => ⟨fun _ _ => ?_, fun e he => ?_⟩, fun e he => ?_⟩,
    fun e he => ?_⟩, fun e he => ?_⟩
  · refine wp_write_of_recovers h.pending rfl rfl (by simp) (fun hroom => ?_) (fun mode => ?_)
      fun _ hpend => ?_
    · exact absurd hroom.1 (not_le.2 hidx)
    · cases mode with
      | beforeWrite => exact h.recovers R
      | tornWrite bytes left =>
        simp only [PageFile.writeStopped, PageFile.writePrefix, if_pos hidx]
        cases left with
        | none => exact h.recovers R
        | some e => exact hset _
      | afterSync =>
        rw [PageFile.writeStopped, write_page_set hidx]
        exact hset _
    · rw [write_page_set hidx] at hpend ⊢
      refine ⟨rfl, rfl, ⟨⟨h.healthy, h.chosen.congr rfl, ?_, h.tail, h.bound, hpend⟩, rfl, rfl, le_rfl,
        keeps_of_pages le_rfl (hget _)⟩, ?_⟩
      · rw [List.length_set]; exact h.extent
      · rw [view_eq_some]
        refine ⟨h2, hid, hoff, ?_, rfl, hlink⟩
        show (p.file.pages.set (pageIndex page.pageId) (Except.ok page))[pageIndex page.pageId]? = _
        rw [List.getElem?_set_self hidx]
  · rw [pageOffset, if_pos hoff] at he; cases he
  · have hin : ¬ p.Outside page.pageId := by
      simp only [Outside, superblockCount_eq, not_or]; omega
    rw [validateCommittedPageId, if_neg hin] at he; cases he
  · rw [h.validate_ok hid.le] at he; cases he
  · simp [ensureUsable, h.healthy] at he

/-- The pager after the root `encoded` is published. -/
structure Publishes (encoded : ℕ) (p p' : Pager) : Prop where
  live : p'.Live
  spec : p'.faultSpec = p.faultSpec
  root : p'.active.rootPageId = encoded
  count : p'.active.pageCount = p.active.pageCount
  pages : p'.file.pages = p.file.pages

theorem Publishes.keeps {encoded : ℕ} (h : Publishes encoded p p') (R : Set ℕ) : Keeps R p p' :=
  keeps_of_pages h.count.ge fun _ _ _ _ => by rw [h.pages]

/-- How the publication of a root stops: before it, or poisoned with the root published. -/
def HaltedAtRoot (encoded : ℕ) (base p' : Pager) : Prop :=
  Halted base Set.univ False p' ∨
    p'.poisoned = true ∧ p'.RootWritten ∧ p'.faultSpec = base.faultSpec ∧
      p'.active.rootPageId = base.active.rootPageId ∧
      ∃ p'', openFile p'.file = .ok p'' ∧ p''.faultSpec = none ∧ p''.Live ∧
        p''.active.rootPageId = encoded ∧ p''.active.pageCount = base.active.pageCount ∧
        p''.file.pages = base.file.pages

/-- **Publishing a root** through the inactive superblock slot. -/
theorem publishRoot_spec (h : p.Live) {encoded : ℕ}
    (hroot : encoded = rootNone ∨ superblockCount ≤ encoded ∧ encoded < p.active.pageCount) :
    Prog.wp (publishRoot p encoded hroot) (fun _ p' => Publishes encoded p p')
      (fun _ p' => HaltedAtRoot encoded p p') p := by
  unfold publishRoot
  split_ifs with hsame hg
  · exact ⟨h, rfl, hsame.symm, rfl, rfl⟩
  · exact .inl ⟨rfl, rfl, fun _ hu => absurd hu.1 (not_lt.2 hg), .inr ⟨h, .refl _ p⟩⟩
  set next := p.active.withRoot (not_le.1 hg) encoded hroot with hdef
  have hslot : next.slot = alternateSlot p.active.slot := rfl
  have hgen : next.generation = p.active.generation + 1 := rfl
  have hadv := h.chosen.advance hslot hgen
  -- a write that does not replace the superblock leaves the old root
  have hold : ∀ file : PageFile, Chosen file p.active → file.pages = p.file.pages →
      file.tail = 0 → Recovers p Set.univ file := by
    intro file hc hpages htail
    refine recovers_of_chosen hc rfl le_rfl h.bound (by rw [hpages]; exact h.extent.ge) ?_
      (by rw [hpages]; exact fun _ _ _ _ => rfl)
    rw [PageFile.physicalBytes, hpages, htail, h.extent, Fin.val_zero, Nat.add_zero]
    exact Nat.le_add_right _ _
  simp only [Prog.wp_bind]
  refine wp_write h.pending (fun _ hpend => ?_) (fun spec hs hidx _ => ?_) fun hroom => hroom.elim
  · exact ⟨⟨h.healthy, hadv, h.extent, h.tail, h.bound, hpend⟩, rfl, rfl, rfl, rfl⟩
  · have hunwritten : spec.mode ≠ .afterSync → ∀ file, Recovers p Set.univ file →
        HaltedAtRoot encoded p { p with
          faultTrace := p.faultTrace ++ [.rootSuperblock], file := file, poisoned := true } := by
      intro hmode file hrec
      refine .inl ⟨rfl, rfl, fun hn => absurd (hs.symm.trans hn) (by simp), .inl ⟨rfl, ?_, hrec⟩⟩
      rintro ⟨spec', hspec', hmode', -⟩
      obtain rfl : spec = spec' := by simpa [hs] using hspec'
      exact hmode hmode'
    cases hmode : spec.mode with
    | beforeWrite => exact hunwritten (by simp [hmode]) _ (h.recovers _)
    | tornWrite bytes left =>
      refine hunwritten (by simp [hmode]) _ (hold _ (h.chosen.writePrefix hslot bytes left) ?_ ?_)
      · cases left <;> rfl
      · cases left
        · exact h.tail
        · exact h.tail
    | afterSync =>
      have hphys : (p.file.write (.superblock next)).physicalBytes
          = next.pageCount * pageSize := h.physicalBytes
      obtain ⟨p'', hopen, hlive, hspec, hactive, hpages⟩ :=
        @openFile_of_chosen (p.file.write (.superblock next)) _ hadv h.bound h.extent.ge
          (hphys.le.trans (Nat.le_add_right _ _))
      refine .inr ⟨rfl, ⟨spec, hs, hmode, ?_⟩, rfl, rfl, p'', hopen, hspec, hlive, ?_, ?_, ?_⟩
      · show (p.faultTrace ++ [DurableWriteKind.rootSuperblock])[spec.eventIndex]? = _
        rw [hidx, List.getElem?_append_right le_rfl, Nat.sub_self]
        rfl
      · rw [hactive]; rfl
      · rw [hactive]; rfl
      · rw [hpages]
        refine List.take_of_length_le ?_
        have hext := h.extent
        simp only [superblockCount_eq] at hext ⊢
        show p.file.pages.length ≤ p.active.pageCount - 2
        omega

/-- Source `set_root` on a live pager, for a committed page or for the empty tree. -/
theorem setRoot_spec (h : p.Live) {root : Option ℕ}
    (hroot : ∀ id ∈ root, ∃ page, p.view id = some page) :
    Prog.wp (setRoot root) (fun _ p' => Publishes (root.getD rootNone) p p')
      (fun _ p' => HaltedAtRoot (root.getD rootNone) p p') p := by
  unfold setRoot
  simp only [Prog.wp_bind, Prog.wp_get, Prog.wp_ofExcept]
  refine ⟨fun _ _ => ?_, fun e he => ?_⟩
  · cases root with
    | none => exact publishRoot_spec h _
    | some id =>
      obtain ⟨page, hpage⟩ := hroot id rfl
      have hv := view_eq_some.1 hpage
      have hin : ¬ p.Outside id := by
        simp only [Outside, not_or, not_lt, not_le]; exact ⟨hv.1, hv.2.1⟩
      have hread : p.readPage id = .ok page := readPage_eq_ok.2 ⟨h.healthy, hpage⟩
      simp only [dif_neg hin, Prog.wp_bind, Prog.wp_ofExcept, hread]
      exact ⟨fun _ _ => publishRoot_spec h _, by simp⟩
  · simp [ensureUsable, h.healthy] at he

end Pager
end DbLab.Btree
