import DbLab.Btree.Cache

/-!
# The metadata protocol

Every metadata update goes to the slot that is not the active one, with the next generation. A run of the pager
is followed with the metadata of the superblock that was written completely last, whether or not the operation that
wrote it returned. Wherever the one write of a round is stopped, opening the file selects this metadata.
-/

namespace DbLab.Btree

/-- What a superblock publishes, without its slot. -/
structure Metadata where
  rootPageId : ℕ
  pageCount : ℕ
  generation : ℕ
  deriving DecidableEq

namespace Metadata

def initial : Metadata := ⟨rootNone, superblockCount, 0⟩

/-- The metadata behind the allocation of a page. -/
def withPage (m : Metadata) : Metadata := { m with pageCount := m.pageCount + 1, generation := m.generation + 1 }

/-- The metadata behind the publication of a root. -/
def withRoot (m : Metadata) (encoded : ℕ) : Metadata := { m with rootPageId := encoded, generation := m.generation + 1 }

end Metadata

def Superblock.metadata (sb : Superblock) : Metadata := ⟨sb.rootPageId, sb.pageCount, sb.generation⟩

namespace Pager

open Checked

variable {p p' : Pager} {page : Page} {m : Metadata} {file : PageFile} {sb next : Superblock}

/-- The fault stopped a superblock behind its last byte. -/
def MetadataWritten (p : Pager) : Prop :=
  ∃ spec, p.faultSpec = some spec ∧ spec.mode = .afterSync ∧
    (p.faultTrace[spec.eventIndex]? = some .allocationSuperblock ∨
      p.faultTrace[spec.eventIndex]? = some .rootSuperblock)

/-! ### The file -/

/-- The file has the metadata of `sb`: it is chosen, the other superblock, if it can be read, is the one before it,
and behind the committed extent there is at most one page. -/
structure Publishing (file : PageFile) (sb : Superblock) : Prop where
  chosen : Chosen file sb
  before : ∀ other, readSuperblock file (alternateSlot sb.slot) = .ok other →
    other.generation + 1 = sb.generation ∨ other.generation = 0 ∧ sb.generation = 0
  initial : sb.generation = 0 → sb.metadata = .initial
  bound : sb.pageCount * pageSize < u64Bound
  blocks : sb.pageCount ≤ superblockCount + file.pages.length
  extra : file.physicalBytes ≤ sb.pageCount * pageSize + pageSize

theorem Publishing.createNew : Publishing Pager.createNew.file Pager.createNew.active where
  chosen := ⟨rfl, rfl⟩
  before := by
    intro other h
    obtain rfl := Except.ok.inj (show Except.ok (Superblock.initial 1) = .ok other from h)
    exact .inr ⟨rfl, rfl⟩
  initial _ := rfl
  bound := live_createNew.bound
  blocks := le_rfl
  extra := by decide

/-- The file of a publishing pager after its pages were changed. -/
theorem Publishing.pages {file' : PageFile} (h : Publishing file sb) (hslots : file'.slots = file.slots)
    (hblocks : sb.pageCount ≤ superblockCount + file'.pages.length)
    (hextra : file'.physicalBytes ≤ sb.pageCount * pageSize + pageSize) : Publishing file' sb where
  chosen := h.chosen.congr hslots
  before other hother := h.before other (by rwa [readSuperblock_congr hslots] at hother)
  initial := h.initial
  bound := h.bound
  blocks := hblocks
  extra := hextra

/-- A stopped write of the inactive superblock leaves the active one in force. -/
theorem Publishing.writePrefix (h : Publishing file sb) (hslot : next.slot = alternateSlot sb.slot)
    (bytes : Fin pageSize) (left : Option BtreeError) :
    Publishing (file.writePrefix bytes left (.superblock next)) sb := by
  refine ⟨h.chosen.writePrefix hslot bytes left, fun other hother => ?_, h.initial, h.bound, ?_, ?_⟩
  · cases left with
    | none => exact h.before other hother
    | some e =>
      simp only [PageFile.writePrefix, hslot] at hother
      simp [readSuperblock] at hother
  · cases left <;> exact h.blocks
  · cases left <;> exact h.extra

/-- A complete write of the next superblock puts it in force. -/
theorem Publishing.write (h : Publishing file sb) (hslot : next.slot = alternateSlot sb.slot)
    (hgen : next.generation = sb.generation + 1) (hbound : next.pageCount * pageSize < u64Bound)
    (hblocks : next.pageCount ≤ superblockCount + file.pages.length)
    (hextra : file.physicalBytes ≤ next.pageCount * pageSize + pageSize) :
    Publishing (file.write (.superblock next)) next where
  chosen := h.chosen.advance hslot hgen
  before other hother := by
    have halt : alternateSlot next.slot = sb.slot := by
      rw [hslot]
      generalize sb.slot = slot
      revert slot
      decide
    have hne : alternateSlot next.slot ≠ next.slot := alternateSlot_ne _
    rw [PageFile.write, readSuperblock_update_of_ne hne, halt, h.chosen.slot] at hother
    obtain rfl := Except.ok.inj hother
    exact .inl hgen.symm
  initial hzero := by omega
  bound := hbound
  blocks := hblocks
  extra := hextra

theorem openFile_tail (h : openFile file = .ok p) : p.file.slots = file.slots ∧
    p.recoveredAllocation = if p.active.pageCount * pageSize < file.physicalBytes then
      some ⟨p.active.pageCount, file.physicalBytes - p.active.pageCount * pageSize⟩ else none := by
  unfold openFile at h
  obtain ⟨sb, -, h⟩ := bind_eq_ok.1 h
  obtain ⟨committed, hcommitted, h⟩ := bind_eq_ok.1 h
  unfold committedFileBytes at hcommitted
  split_ifs at hcommitted
  obtain rfl := Except.ok.inj hcommitted
  simp only [throw_eq, guard_eq_ok] at h
  obtain ⟨-, h⟩ := h
  by_cases htail : sb.pageCount * pageSize < file.physicalBytes
  · simp only [if_pos htail, guard_eq_ok] at h
    obtain rfl := (Except.ok.inj h.2).symm
    exact ⟨rfl, (if_pos htail).symm⟩
  · rw [if_neg htail] at h
    obtain rfl := (Except.ok.inj h).symm
    exact ⟨rfl, (if_neg htail).symm⟩

/-- Opening selects the metadata that the file has. -/
theorem Publishing.open (h : Publishing file sb) : ∃ p', openFile file = .ok p' ∧ p'.Live ∧
    p'.faultSpec = none ∧ p'.active = sb ∧ Publishing p'.file sb := by
  obtain ⟨p', hopen, hlive, hspec, hactive, hpages⟩ := openFile_of_chosen h.chosen h.bound h.blocks h.extra
  refine ⟨p', hopen, hlive, hspec, hactive, ?_⟩
  have hslots : p'.file.slots = file.slots := (openFile_tail hopen).1
  refine h.pages hslots ?_ ?_
  · rw [hlive.extent, hactive]
  · rw [hlive.physicalBytes, hactive]
    exact Nat.le_add_right _ _

/-! ### Stopped writes -/

theorem Pending.not_metadataWritten (h : p.Pending) : ¬ p.MetadataWritten := by
  rintro ⟨spec, hspec, -, htrace⟩
  have hle := h spec hspec
  rw [List.getElem?_eq_none hle] at htrace
  simp at htrace

/-- The fault stopped the write of the kind. -/
theorem metadataWritten_iff {q : Pager} {spec : FaultSpec} {kind : DurableWriteKind} (file : PageFile)
    (hspec : q.faultSpec = some spec) (hidx : spec.eventIndex = q.faultTrace.length) :
    MetadataWritten { q with faultTrace := q.faultTrace ++ [kind], file := file, poisoned := true } ↔
      spec.mode = .afterSync ∧ (kind = .allocationSuperblock ∨ kind = .rootSuperblock) := by
  have hlast : (q.faultTrace ++ [kind])[spec.eventIndex]? = some kind := by
    rw [hidx, List.getElem?_append_right le_rfl, Nat.sub_self]
    rfl
  unfold MetadataWritten
  simp only [hspec, Option.some.injEq, exists_eq_left', hlast]

/-- How an operation that would write the metadata `next` fails: in front of its first write, or poisoned, with
the next metadata when their superblock was complete and the old ones otherwise. -/
def StoppedAt (p : Pager) (next : Metadata) (p' : Pager) : Prop :=
  p' = p ∨ p'.poisoned = true ∧
    (p'.MetadataWritten → ∃ sb, sb.metadata = next ∧ Publishing p'.file sb) ∧
    (¬ p'.MetadataWritten → Publishing p'.file p.active)

/-- A page write: the old metadata stay, wherever it is stopped. -/
theorem wp_write_page {q : Pager} {kind : DurableWriteKind} {m : Metadata} {Q : Unit → Pager → Prop}
    (hq : q.Pending) (hkind : kind ≠ .allocationSuperblock ∧ kind ≠ .rootSuperblock)
    (hold : Publishing q.file p.active)
    (hstopped : ∀ mode, Publishing (q.file.writeStopped mode (.page page)) p.active)
    (hok : ¬ q.file.NoRoom (.page page) →
      Pending { q with faultTrace := q.faultTrace ++ [kind], file := q.file.write (.page page) } →
      Q () { q with faultTrace := q.faultTrace ++ [kind], file := q.file.write (.page page) }) :
    Prog.wp (poisonOnError (writeDurableBytes (.page page) kind)) Q (fun _ p' => StoppedAt p m p') q := by
  refine wp_write hq hok (fun spec hspec hidx _ => ?_) fun _ hlt _ => ?_
  · refine .inr ⟨rfl, fun hwritten => ?_, fun _ => hstopped spec.mode⟩
    obtain ⟨-, h | h⟩ := (metadataWritten_iff _ hspec hidx).1 hwritten
    · exact absurd h hkind.1
    · exact absurd h hkind.2
  · refine .inr ⟨rfl, fun hwritten => ?_, fun _ => hold⟩
    refine absurd hwritten (Pending.not_metadataWritten fun spec hspec => ?_)
    rw [List.length_append]
    exact hlt spec hspec

/-- A superblock write: the next metadata are in force exactly when it was complete. -/
theorem wp_write_superblock {q : Pager} {kind : DurableWriteKind} {Q : Unit → Pager → Prop}
    (hq : q.Pending) (hkind : kind = .allocationSuperblock ∨ kind = .rootSuperblock)
    (hold : Publishing q.file p.active) (hslot : next.slot = alternateSlot p.active.slot)
    (hnew : Publishing (q.file.write (.superblock next)) next)
    (hok : Pending { q with faultTrace := q.faultTrace ++ [kind], file := q.file.write (.superblock next) } →
      Q () { q with faultTrace := q.faultTrace ++ [kind], file := q.file.write (.superblock next) }) :
    Prog.wp (poisonOnError (writeDurableBytes (.superblock next) kind)) Q
      (fun _ p' => StoppedAt p next.metadata p') q := by
  refine wp_write hq (fun _ => hok) (fun spec hspec hidx _ => ?_) fun hroom => hroom.elim
  refine .inr ⟨rfl, fun hwritten => ?_, fun hwritten => ?_⟩
  · obtain ⟨hmode, -⟩ := (metadataWritten_iff _ hspec hidx).1 hwritten
    refine ⟨next, rfl, ?_⟩
    show Publishing (q.file.writeStopped spec.mode (.superblock next)) next
    rw [hmode]
    exact hnew
  · rw [metadataWritten_iff _ hspec hidx, not_and'] at hwritten
    show Publishing (q.file.writeStopped spec.mode (.superblock next)) p.active
    cases hmode : spec.mode with
    | beforeWrite => exact hold
    | tornWrite bytes left => exact hold.writePrefix hslot bytes left
    | afterSync => exact absurd hmode (hwritten hkind)

/-! ### Operations -/

/-- **Allocation**: the next metadata commit one page more. -/
theorem commitNewPage_publishing (h : p.Live) (hpub : Publishing p.file p.active) :
    Prog.wp (commitNewPage page)
      (fun id p' => id = p.active.pageCount ∧ p'.Live ∧ Publishing p'.file p'.active ∧
        p'.active.metadata = p.active.metadata.withPage ∧ p'.file.pages = p.file.pages ++ [.ok page])
      (fun _ p' => StoppedAt p p.active.metadata.withPage p') p := by
  have hcount := p.active.count_ok
  have hext := h.extent
  rw [superblockCount_eq] at hcount hext
  refine wp_commitNewPage (fun _ => .inl rfl) fun _ hid hg hc hphys => ?_
  set next := p.active.withPage hg hc with hdef
  have hidx : pageIndex page.pageId = p.file.pages.length := by
    rw [pageIndex, superblockCount_eq]
    omega
  have happend : Publishing { p.file with pages := p.file.pages ++ [.ok page], tail := 0 } p.active := by
    refine hpub.pages rfl ?_ ?_
    · rw [superblockCount_eq, List.length_append]
      omega
    · simp only [PageFile.physicalBytes, superblockCount_eq, pageSize_eq, List.length_append,
        List.length_singleton, Fin.val_zero]
      omega
  refine wp_write_page h.pending ⟨by simp, by simp⟩ hpub (fun mode => ?_) fun hroom hpend => ?_
  · cases mode with
    | beforeWrite => exact hpub
    | tornWrite bytes left =>
      -- A prefix of the page is a tail that the next opening cuts off.
      have hfile : p.file.writeStopped (.tornWrite bytes left) (.page page) = { p.file with tail := bytes } := by
        simp [PageFile.writeStopped, PageFile.writePrefix, hidx]
      rw [hfile]
      refine hpub.pages rfl h.extent.ge ?_
      have hb := bytes.isLt
      simp only [PageFile.physicalBytes, superblockCount_eq, pageSize_eq] at hb ⊢
      omega
    | afterSync =>
      rw [PageFile.writeStopped, write_page_append hidx]
      exact happend
  rw [write_page_append hidx] at hpend ⊢
  have hbound : next.pageCount * pageSize < u64Bound := by
    simp only [PageFile.NoRoom, hidx, le_refl, true_and, not_le, hphys] at hroom
    show (p.active.pageCount + 1) * pageSize < u64Bound
    rwa [Nat.add_one_mul]
  have hlen : superblockCount + (p.file.pages ++ [Except.ok page]).length = next.pageCount := by
    show _ = p.active.pageCount + 1
    rw [superblockCount_eq, List.length_append, List.length_singleton]
    omega
  have hnew : Publishing (PageFile.write { p.file with pages := p.file.pages ++ [.ok page], tail := 0 }
      (.superblock next)) next := by
    refine happend.write rfl rfl hbound hlen.ge ?_
    rw [PageFile.physicalBytes, hlen, Fin.val_zero]
    omega
  refine wp_write_superblock hpend (.inl rfl) happend rfl hnew fun hpend' => ?_
  exact ⟨hid, ⟨h.healthy, hnew.chosen, hlen, rfl, hbound, hpend'⟩, hnew, rfl, rfl⟩

/-- **Recycling** changes no metadata. -/
theorem commitRecycledPage_publishing (h : p.Live) (hpub : Publishing p.file p.active) (m : Metadata) :
    Prog.wp (commitRecycledPage page)
      (fun _ p' => p'.Live ∧ Publishing p'.file p'.active ∧ p'.active.metadata = p.active.metadata)
      (fun _ p' => StoppedAt p m p') p := by
  have hset : ∀ b, Publishing { p.file with pages := p.file.pages.set (pageIndex page.pageId) b } p.active := by
    intro b
    refine hpub.pages rfl ?_ ?_
    · rw [List.length_set]
      exact hpub.blocks
    · rw [PageFile.physicalBytes, List.length_set]
      exact hpub.extra
  have hext := h.extent
  rw [superblockCount_eq] at hext
  refine wp_commitRecycledPage (fun _ => .inl rfl) fun _ hout => ?_
  have hidx : pageIndex page.pageId < p.file.pages.length := by
    simp only [Outside, superblockCount_eq, not_or] at hout
    rw [pageIndex, superblockCount_eq]
    omega
  refine wp_write_page h.pending ⟨by simp, by simp⟩ hpub (fun mode => ?_) fun _ hpend => ?_
  · cases mode with
    | beforeWrite => exact hpub
    | tornWrite bytes left =>
      simp only [PageFile.writeStopped, PageFile.writePrefix, if_pos hidx]
      cases left with
      | none => exact hpub
      | some e => exact hset _
    | afterSync =>
      rw [PageFile.writeStopped, write_page_set hidx]
      exact hset _
  · rw [write_page_set hidx] at hpend ⊢
    refine ⟨⟨h.healthy, h.chosen.congr rfl, ?_, h.tail, h.bound, hpend⟩, hset _, rfl⟩
    show superblockCount + (p.file.pages.set _ _).length = p.active.pageCount
    rw [List.length_set]
    exact h.extent

/-- **Publication of a root**: the next metadata have the new root. -/
theorem publishRoot_publishing (h : p.Live) (hpub : Publishing p.file p.active) {encoded : ℕ}
    (hroot : encoded = rootNone ∨ superblockCount ≤ encoded ∧ encoded < p.active.pageCount) :
    Prog.wp (publishRoot p encoded hroot)
      (fun _ p' => p'.Live ∧ Publishing p'.file p'.active ∧ p'.active.metadata =
        if encoded = p.active.rootPageId then p.active.metadata else p.active.metadata.withRoot encoded)
      (fun _ p' => StoppedAt p (if encoded = p.active.rootPageId then p.active.metadata else
        p.active.metadata.withRoot encoded) p') p := by
  refine wp_publishRoot hroot (fun hsame => ⟨h, hpub, (if_pos hsame).symm⟩) (fun _ => .inl rfl) fun hsame hg => ?_
  rw [if_neg hsame]
  set next := p.active.withRoot hg encoded hroot with hdef
  have hnew : Publishing (p.file.write (.superblock next)) next := hpub.write rfl rfl h.bound hpub.blocks hpub.extra
  refine wp_write_superblock h.pending (.inr rfl) hpub rfl hnew fun hpend => ?_
  exact ⟨⟨h.healthy, hnew.chosen, h.extent, h.tail, h.bound, hpend⟩, hnew, rfl⟩

/-- An operation of a caller. -/
inductive Op
  | commitNewPage (page : Page)
  | commitRecycledPage (page : Page)
  | setRoot (root : Option ℕ)

namespace Op

def run : Op → Prog Pager BtreeError Unit
  | .commitNewPage page => do
    let _ ← Pager.commitNewPage page
  | .commitRecycledPage page => do
    let _ ← Pager.commitRecycledPage page
  | .setRoot root => Pager.setRoot root

/-- The metadata that the operation writes. -/
def writes (m : Metadata) : Op → Metadata
  | .commitNewPage _ => m.withPage
  | .commitRecycledPage _ => m
  | .setRoot root => if root.getD rootNone = m.rootPageId then m else m.withRoot (root.getD rootNone)

end Op

/-- **One operation** of a live pager. -/
theorem Op.run_publishing (op : Op) (h : p.Live) (hpub : Publishing p.file p.active) :
    Prog.wp op.run
      (fun _ p' => p'.Live ∧ Publishing p'.file p'.active ∧ p'.active.metadata = op.writes p.active.metadata)
      (fun _ p' => StoppedAt p (op.writes p.active.metadata) p') p := by
  cases op with
  | commitNewPage page =>
    simp only [run, Prog.wp_bind, Prog.wp_pure]
    exact Prog.wp_mono (commitNewPage_publishing h hpub) (fun _ _ hp' => ⟨hp'.2.1, hp'.2.2.1, hp'.2.2.2.1⟩)
      fun _ _ he => he
  | commitRecycledPage page =>
    simp only [run, Prog.wp_bind, Prog.wp_pure]
    exact commitRecycledPage_publishing h hpub _
  | setRoot root =>
    simp only [run, Pager.setRoot, Prog.wp_bind, Prog.wp_get, Prog.wp_ofExcept]
    refine ⟨fun _ _ => ?_, fun _ _ => .inl rfl⟩
    cases root with
    | none => exact Prog.wp_mono (publishRoot_publishing h hpub _) (fun _ _ hp' => hp') fun _ _ he => he
    | some id =>
      dsimp only
      by_cases hout : p.Outside id
      · rw [dif_pos hout]
        exact .inl rfl
      · rw [dif_neg hout]
        simp only [Prog.wp_bind, Prog.wp_ofExcept]
        refine ⟨fun _ _ => ?_, fun _ _ => .inl rfl⟩
        exact Prog.wp_mono (publishRoot_publishing h hpub _) (fun _ _ hp' => hp') fun _ _ he => he

/-! ### Runs -/

/-- The metadata `m` are those of the file, and an unpoisoned pager has them in memory. -/
structure InForce (p : Pager) (m : Metadata) : Prop where
  file : ∃ sb, sb.metadata = m ∧ Publishing p.file sb
  live : p.poisoned = false → p.Live ∧ Publishing p.file p.active ∧ p.active.metadata = m

/-- A poisoned pager does nothing. -/
theorem Op.run_poisoned (op : Op) (h : p.poisoned = true) :
    Prog.wp op.run (fun _ _ => False) (fun _ p' => p' = p) p := by
  have husable : p.ensureUsable = .error .poisoned := by rw [ensureUsable, if_pos h]
  cases op with
  | commitNewPage page =>
    simp only [run, Pager.commitNewPage, Prog.wp_bind, Prog.wp_get, Prog.wp_ofExcept, husable]
    simp
  | commitRecycledPage page =>
    simp only [run, Pager.commitRecycledPage, Prog.wp_bind, Prog.wp_get, Prog.wp_ofExcept, husable]
    simp
  | setRoot root =>
    simp only [run, Pager.setRoot, Prog.wp_bind, Prog.wp_get, Prog.wp_ofExcept, husable]
    simp

/-- The pagers of any number of rounds, with the metadata of the superblock that was written completely last. In a
round at most one durable write is stopped, at any byte; the round ends with a reopen. -/
inductive Reached : Pager → Metadata → Prop
  | created : Reached createNew .initial
  | finished {p p' : Pager} {m : Metadata} {op : Op} :
    Reached p m → op.run p = (.ok (), p') → Reached p' (op.writes m)
  | failed {p p' : Pager} {m : Metadata} {op : Op} {e : BtreeError} :
    Reached p m → op.run p = (.error e, p') → p.poisoned = true ∨ ¬ p'.MetadataWritten → Reached p' m
  | stopped {p p' : Pager} {m : Metadata} {op : Op} {e : BtreeError} :
    Reached p m → op.run p = (.error e, p') → p.poisoned = false → p'.MetadataWritten → Reached p' (op.writes m)
  | reopened {p p' : Pager} {m : Metadata} : Reached p m → openFile p.file = .ok p' → Reached p' m
  | faultAhead {p : Pager} {m : Metadata} (spec : FaultSpec) : Reached p m →
    Reached { p with faultSpec := some spec, faultTrace := [] } m

theorem Reached.inForce (h : Reached p m) : p.InForce m := by
  induction h with
  | created => exact ⟨⟨_, rfl, .createNew⟩, fun _ => ⟨live_createNew, .createNew, rfl⟩⟩
  | @finished p p' m op _ hrun ih =>
    cases hp : p.poisoned with
    | true => exact (Prog.wp_ok (op.run_poisoned hp) hrun).elim
    | false =>
      obtain ⟨hlive, hpub, rfl⟩ := ih.live hp
      obtain ⟨hlive', hpub', hmetadata⟩ := Prog.wp_ok (op.run_publishing hlive hpub) hrun
      exact ⟨⟨_, hmetadata, hpub'⟩, fun _ => ⟨hlive', hpub', hmetadata⟩⟩
  | @failed p p' m op e _ hrun hwritten ih =>
    cases hp : p.poisoned with
    | true =>
      obtain rfl := Prog.wp_error (op.run_poisoned hp) hrun
      exact ih
    | false =>
      obtain ⟨hlive, hpub, rfl⟩ := ih.live hp
      rcases Prog.wp_error (op.run_publishing hlive hpub) hrun with rfl | ⟨hpoisoned, -, hold⟩
      · exact ih
      · have hnot : ¬ p'.MetadataWritten := hwritten.resolve_left (by simp [hp])
        exact ⟨⟨_, rfl, hold hnot⟩, fun hfalse => absurd hfalse (by simp [hpoisoned])⟩
  | @stopped p p' m op e _ hrun hp hwritten ih =>
    obtain ⟨hlive, hpub, rfl⟩ := ih.live hp
    rcases Prog.wp_error (op.run_publishing hlive hpub) hrun with rfl | ⟨hpoisoned, hnew, -⟩
    · exact absurd hwritten (Pending.not_metadataWritten hlive.pending)
    · exact ⟨hnew hwritten, fun hfalse => absurd hfalse (by simp [hpoisoned])⟩
  | reopened _ hopen ih =>
    obtain ⟨sb, rfl, hpub⟩ := ih.file
    obtain ⟨p'', hopen', hlive, -, rfl, hpub'⟩ := hpub.open
    obtain rfl := Except.ok.inj (hopen.symm.trans hopen')
    exact ⟨⟨_, rfl, hpub'⟩, fun _ => ⟨hlive, hpub', rfl⟩⟩
  | faultAhead spec _ ih =>
    refine ⟨ih.file, fun hp => ?_⟩
    obtain ⟨hlive, hpub, hmetadata⟩ := ih.live hp
    exact ⟨⟨hp, hlive.chosen, hlive.extent, hlive.tail, hlive.bound, fun _ _ => Nat.zero_le _⟩, hpub, hmetadata⟩

/-- **The metadata protocol.** Wherever the writes of any number of rounds were stopped: opening the file succeeds
with the metadata that were written completely last; an unpoisoned pager has them too; the generations of the two
superblocks, when both can be read, differ by one, or no metadata were written yet; the file ends at most one page
behind the committed extent; and opening cuts it there, so that the next page is appended at this position. -/
theorem metadata_protocol (h : Reached p m) :
    (∃ p', openFile p.file = .ok p' ∧ p'.active.metadata = m ∧ p'.poisoned = false) ∧
    (p.poisoned = false → p.active.metadata = m ∧ p.file.physicalBytes = m.pageCount * pageSize) ∧
    (∀ first second, readSuperblock p.file 0 = .ok first → readSuperblock p.file 1 = .ok second →
      first.generation + 1 = second.generation ∨ second.generation + 1 = first.generation ∨
        first.generation = second.generation ∧ m = .initial) ∧
    p.file.physicalBytes ≤ m.pageCount * pageSize + pageSize ∧
    ∀ p', openFile p.file = .ok p' →
      p'.file.physicalBytes = m.pageCount * pageSize ∧
      p'.recoveredAllocation = (if m.pageCount * pageSize < p.file.physicalBytes then
        some ⟨m.pageCount, p.file.physicalBytes - m.pageCount * pageSize⟩ else none) ∧
      (∀ kind page, p'.prepareNewPage kind = .ok page → page.pageId = m.pageCount) ∧
      ∀ page id p'', commitNewPage page p' = (.ok id, p'') →
        id = m.pageCount ∧ p''.file.pages = p'.file.pages ++ [.ok page] := by
  have ht := h.inForce
  obtain ⟨sb, rfl, hpub⟩ := ht.file
  obtain ⟨q, hopen, hlive, -, rfl, hpub'⟩ := hpub.open
  refine ⟨⟨q, hopen, rfl, hlive.healthy⟩, fun hp => ?_, fun first second hfirst hsecond => ?_, hpub.extra,
    fun p' hopen' => ?_⟩
  · obtain ⟨hlive', -, hmetadata⟩ := ht.live hp
    refine ⟨hmetadata, ?_⟩
    rw [hlive'.physicalBytes, ← hmetadata]
    rfl
  · have hslot : q.active.slot = 0 ∨ q.active.slot = 1 := by
      generalize q.active.slot = slot
      revert slot
      decide
    -- The other slot has the generation before, or it is the initial one in both.
    have hchosen := hpub.chosen.slot
    rcases hslot with hslot | hslot
    · rw [hslot, hfirst] at hchosen
      obtain rfl := Except.ok.inj hchosen
      have hbefore := hpub.before second (by rw [hslot]; exact hsecond)
      rcases hbefore with hbefore | ⟨hother, hzero⟩
      · exact .inr (.inl hbefore)
      · exact .inr (.inr ⟨hzero.trans hother.symm, hpub.initial hzero⟩)
    · rw [hslot, hsecond] at hchosen
      obtain rfl := Except.ok.inj hchosen
      have hbefore := hpub.before first (by rw [hslot]; exact hfirst)
      rcases hbefore with hbefore | ⟨hother, hzero⟩
      · exact .inl hbefore
      · exact .inr (.inr ⟨hother.trans hzero.symm, hpub.initial hzero⟩)
  · obtain rfl := Except.ok.inj (hopen.symm.trans hopen')
    refine ⟨hlive.physicalBytes, (openFile_tail hopen).2, fun kind page hprepare => ?_, fun page id p'' hrun => ?_⟩
    · unfold prepareNewPage at hprepare
      obtain ⟨_, -, hprepare⟩ := bind_eq_ok.1 hprepare
      unfold Page.new at hprepare
      split_ifs at hprepare
      obtain rfl := Except.ok.inj hprepare
      rfl
    · obtain ⟨hid, -, -, -, hpages⟩ := Prog.wp_ok (commitNewPage_publishing hlive hpub') hrun
      exact ⟨hid, hpages⟩

/-- The first allocation of a file is stopped behind its superblock: the page is committed when the file is opened
again. -/
theorem metadata_protocol_stopped : ∃ p m, Reached p m ∧ p.poisoned = true ∧ m = ⟨rootNone, 3, 1⟩ ∧
    ∃ p', openFile p.file = .ok p' ∧ p'.active.metadata = m := by
  have hahead : Reached { createNew with faultSpec := some ⟨1, .afterSync⟩, faultTrace := [] } _ :=
    Reached.created.faultAhead ⟨1, .afterSync⟩
  generalize hp : { createNew with faultSpec := some ⟨1, .afterSync⟩, faultTrace := [] } = p at hahead
  have hhealthy : p.poisoned = false := by rw [← hp]; rfl
  have hpoisoned : ((Op.commitNewPage CachedPager.firstLeaf).run p).2.poisoned = true := by
    rw [← hp]
    decide +kernel
  have hwritten : ((Op.commitNewPage CachedPager.firstLeaf).run p).2.MetadataWritten := by
    refine ⟨⟨1, .afterSync⟩, ?_, rfl, .inl ?_⟩
    · rw [← hp]
      with_unfolding_all rfl
    · rw [← hp]
      decide +kernel
  cases hrun : (Op.commitNewPage CachedPager.firstLeaf).run p with
  | mk r p' =>
    rw [hrun] at hpoisoned hwritten
    cases r with
    | ok u =>
      have hok := Prog.wp_ok (Op.run_publishing (.commitNewPage CachedPager.firstLeaf)
        (hahead.inForce.live hhealthy).1 (hahead.inForce.live hhealthy).2.1) hrun
      exact absurd (hok.1.healthy.symm.trans hpoisoned) (by decide)
    | error e =>
      have hreached := hahead.stopped hrun hhealthy hwritten
      obtain ⟨p'', hopen, hmetadata, -⟩ := (metadata_protocol hreached).1
      exact ⟨p', _, hreached, hpoisoned, rfl, p'', hopen, hmetadata⟩

end Pager
end DbLab.Btree
