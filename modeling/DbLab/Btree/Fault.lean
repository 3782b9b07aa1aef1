import DbLab.Lib.Stopped
import DbLab.Btree.Traverse
import DbLab.Btree.PagerRun

/-!
# Runs with an injected fault

The fault hook stops one durable write. Up to this write the armed run of a mutation is the run
without a fault, since no other function looks at the hook or at the trace; behind it the handle is
poisoned, and the trace ends with the event of the fault.
-/

namespace DbLab.Btree

open Prog

namespace Pager

variable (p : Pager) (spec : FaultSpec)

/-- The pager with a fault to come. -/
def arm : Pager := { p with faultSpec := some spec }

/-- The stop at the event of the specification. -/
def stopping : Stopping Pager where
  before p := p.faultSpec = none ∧ p.faultTrace.length ≤ spec.eventIndex
  arm p := p.arm spec
  hit p q := q.poisoned = true ∧ spec.eventIndex < p.faultTrace.length ∧
    q.faultTrace = p.faultTrace.take (spec.eventIndex + 1)

/-! ### Reads do not see the hook -/

@[simp] theorem arm_readPage (id : ℕ) : (p.arm spec).readPage id = p.readPage id := rfl

@[simp] theorem arm_rootPageId : (p.arm spec).rootPageId = p.rootPageId := rfl

@[simp] theorem arm_dataPageCount : (p.arm spec).dataPageCount = p.dataPageCount := rfl

@[simp] theorem arm_readOverflowPages (pageCount firstChunkLen : ℕ) :
    ∀ (left : ℕ) (current : Option ℕ) (localSeen : Finset ℕ) (seen : Seen) (output : Bytes),
      (p.arm spec).readOverflowPages pageCount firstChunkLen left current localSeen seen output
        = p.readOverflowPages pageCount firstChunkLen left current localSeen seen output
  | 0, _, _, _, _ => rfl
  | left + 1, current, _, _, _ => by
    simp only [readOverflowPages, arm_readPage, arm_readOverflowPages pageCount firstChunkLen left]

@[simp] theorem arm_readOverflowBlob : (p.arm spec).readOverflowBlob = p.readOverflowBlob := by
  funext
  simp only [readOverflowBlob, arm_readOverflowPages]

@[simp] theorem arm_loadValue : (p.arm spec).loadValue = p.loadValue := by
  funext value
  cases value <;> simp only [loadValue, arm_readOverflowBlob]

@[simp] theorem arm_loadKey : (p.arm spec).loadKey = p.loadKey := by
  funext
  simp only [loadKey, loadKeyBlob, arm_readOverflowBlob]

@[simp] theorem arm_decodeLeaf : (p.arm spec).decodeLeaf = p.decodeLeaf := by
  have hcell : (p.arm spec).decodeLeafCell = p.decodeLeafCell := by
    funext
    simp only [decodeLeafCell, arm_loadKey]
  funext
  simp only [decodeLeaf, hcell]

@[simp] theorem arm_decodeInternal : (p.arm spec).decodeInternal = p.decodeInternal := by
  have hcell : (p.arm spec).decodeInternalCell = p.decodeInternalCell := by
    funext
    simp only [decodeInternalCell, arm_loadKey]
  funext
  simp only [decodeInternal, hcell]

@[simp] theorem arm_get : (p.arm spec).get = p.get := by
  have hfrom : ∀ key levels id, (p.arm spec).getFrom key levels id = p.getFrom key levels id := by
    intro key levels
    induction levels with
    | zero => exact fun _ => rfl
    | succ levels ih =>
      intro id
      simp only [getFrom, arm_readPage, arm_decodeLeaf, arm_decodeInternal, arm_loadValue, ih]
  funext key
  simp only [get, arm_rootPageId, hfrom]

@[simp] theorem arm_reachablePages : (p.arm spec).reachablePages = p.reachablePages := by
  have hvalues : ∀ entries seen,
      (p.arm spec).validateValues entries seen = p.validateValues entries seen := by
    intro entries
    induction entries with
    | nil => exact fun _ => rfl
    | cons entry entries ih =>
      intro seen
      have hvalue : (p.arm spec).validateValueReachability = p.validateValueReachability := by
        funext value seen
        cases value <;> simp only [validateValueReachability, arm_readOverflowBlob]
      simp only [validateValues, hvalue, ih]
  have hsubtree : ∀ levels, (p.arm spec).validateSubtree levels = p.validateSubtree levels := by
    intro levels
    induction levels with
    | zero => rfl
    | succ levels ih =>
      funext id seen
      simp only [validateSubtree, arm_readPage, arm_decodeLeaf, arm_decodeInternal, hvalues, ih]
  simp only [reachablePages, arm_rootPageId, hsubtree]

/-! ### Durable writes -/

variable {p spec} {image : Image} {kind : DurableWriteKind}

/-- A durable write is recorded whatever becomes of it. -/
theorem wp_write_trace : Prog.wp (poisonOnError (writeDurableBytes image kind))
    (fun _ p' => p'.faultTrace = p.faultTrace ++ [kind] ∧ p'.active = p.active)
    (fun _ p' => p'.faultTrace = p.faultTrace ++ [kind] ∧ p'.active = p.active) p := by
  rw [wp_poisonOnError, writeDurableBytes]
  simp only [Prog.wp_bind, Prog.wp_get, Prog.wp_modify]
  split
  · simp only [Prog.wp_bind, Prog.wp_modify, Prog.wp_throw, and_self]
  · split_ifs
    · exact ⟨rfl, rfl⟩
    · exact ⟨rfl, rfl⟩

theorem write_trace :
    (poisonOnError (writeDurableBytes image kind) p).2.faultTrace = p.faultTrace ++ [kind] := by
  have h := @wp_write_trace p image kind
  rcases hrun : poisonOnError (writeDurableBytes image kind) p with ⟨e | _, p'⟩
  · exact (Prog.wp_error h hrun).1
  · exact (Prog.wp_ok h hrun).1

theorem tracks_write : Tracks (stopping spec) (poisonOnError (writeDurableBytes image kind)) := by
  constructor
  · rintro p ⟨hnone, hlen⟩
    by_cases hidx : spec.eventIndex = p.faultTrace.length
    · right
      -- This write is the one where the fault is.
      have hstop : poisonOnError (writeDurableBytes image kind) (p.arm spec)
          = (.error (injectedFault kind spec.mode), { p.arm spec with
              faultTrace := p.faultTrace ++ [kind]
              file := p.file.writeStopped spec.mode image, poisoned := true }) := by
        have hfilter : (some spec).filter (fun spec => spec.eventIndex = p.faultTrace.length)
            = some spec := by simp [hidx]
        unfold poisonOnError writeDurableBytes
        simp only [Prog.get, Prog.modify, Prog.throw, Bind.bind, arm, hfilter]
      refine ⟨⟨?_, ?_, ?_⟩, ?_⟩
      · show (poisonOnError (writeDurableBytes image kind) (p.arm spec)).2.poisoned = true
        rw [hstop]
      · rw [write_trace, List.length_append, List.length_singleton]
        omega
      · show (poisonOnError (writeDurableBytes image kind) (p.arm spec)).2.faultTrace = _
        rw [write_trace, write_trace, hidx]
        show p.faultTrace ++ [kind] = _
        rw [List.take_of_length_le (by simp)]
      · exact ⟨_, congrArg Prod.fst hstop⟩
    · left
      -- The fault is elsewhere, and the armed pager writes as the other one does.
      have hfilter : (some spec).filter (fun spec => spec.eventIndex = p.faultTrace.length)
          = none := by simp [hidx]
      by_cases hroom : p.file.NoRoom image
      · have hrun : ∀ p', p'.file = p.file → p'.faultTrace = p.faultTrace →
            p'.faultSpec.filter (fun spec => spec.eventIndex = p.faultTrace.length) = none →
            poisonOnError (writeDurableBytes image kind) p' = (.error (.io "file too large"),
              { p' with faultTrace := p.faultTrace ++ [kind], poisoned := true }) := by
          intro p' hf ht hs
          unfold poisonOnError writeDurableBytes
          simp only [Prog.get, Prog.modify, Prog.throw, Bind.bind, hf, ht, hs, if_pos hroom]
        rw [hrun p rfl rfl (by rw [hnone]; rfl)]
        refine ⟨⟨hnone, ?_⟩, hrun (p.arm spec) rfl rfl hfilter⟩
        rw [List.length_append, List.length_singleton]
        omega
      · have hrun : ∀ p', p'.file = p.file → p'.faultTrace = p.faultTrace →
            p'.faultSpec.filter (fun spec => spec.eventIndex = p.faultTrace.length) = none →
            poisonOnError (writeDurableBytes image kind) p' = (.ok (), { p' with
              faultTrace := p.faultTrace ++ [kind], file := p.file.write image }) := by
          intro p' hf ht hs
          unfold poisonOnError writeDurableBytes
          simp only [Prog.get, Prog.modify, Bind.bind, hf, ht, hs, if_neg hroom]
        rw [hrun p rfl rfl (by rw [hnone]; rfl)]
        refine ⟨⟨hnone, ?_⟩, hrun (p.arm spec) rfl rfl hfilter⟩
        rw [List.length_append, List.length_singleton]
        omega
  · rintro p q ⟨hp, hlt, htrace⟩
    refine ⟨hp, ?_, ?_⟩
    · rw [write_trace, List.length_append]
      omega
    · rw [write_trace, List.take_append_of_le_length hlt]
      exact htrace

theorem tracks_setActive {sb : Superblock} :
    Tracks (stopping spec)
      (Prog.modify (fun p => { p with active := sb }) : Prog Pager BtreeError Unit) :=
  .modify (fun _ hs => ⟨hs, rfl⟩) fun _ _ h => h

theorem tracks_commitNewPage {page : Page} : Tracks (stopping spec) (commitNewPage page) := by
  refine .get_bind (fun _ => rfl) fun p => ?_
  refine .bind (.ofExcept _) fun _ => .bind (.ofExcept _) fun _ => ?_
  split_ifs
  · exact .throw _
  · exact .throw _
  · exact .throw _
  · refine .bind (.ofExcept _) fun _ => ?_
    dsimp only
    split_ifs
    · exact .throw _
    · exact .bind tracks_write fun _ => .bind tracks_write fun _ => .bind tracks_setActive fun _ =>
        .pure _

theorem tracks_commitRecycledPage {page : Page} :
    Tracks (stopping spec) (commitRecycledPage page) := by
  refine .get_bind (fun _ => rfl) fun p => ?_
  exact .bind (.ofExcept _) fun _ => .bind (.ofExcept _) fun _ => .bind (.ofExcept _) fun _ =>
    .bind (.ofExcept _) fun _ => .bind tracks_write fun _ => .pure _

theorem tracks_publishRoot {p : Pager} {encoded : ℕ}
    (hroot : encoded = rootNone ∨ superblockCount ≤ encoded ∧ encoded < p.active.pageCount) :
    Tracks (stopping spec) (publishRoot p encoded hroot) := by
  unfold publishRoot
  split_ifs
  · exact .pure _
  · exact .throw _
  · exact .bind tracks_write fun _ => tracks_setActive

theorem tracks_setRoot {root : Option ℕ} : Tracks (stopping spec) (setRoot root) := by
  refine .get_bind (fun _ => rfl) fun p => .bind (.ofExcept _) fun _ => ?_
  cases root with
  | none => exact tracks_publishRoot _
  | some id =>
    dsimp only
    split_ifs
    · exact .throw _
    · exact .bind (.ofExcept _) fun _ => tracks_publishRoot _

end Pager

/-! ### Mutations -/

namespace BPlusTree

variable {spec : FaultSpec} {α : Type}

/-- The tree with a fault to come. -/
def arm (s : BPlusTree) (spec : FaultSpec) : BPlusTree := { s with pager := s.pager.arm spec }

/-- The stop of the pager. -/
def stopping (spec : FaultSpec) : Stopping BPlusTree :=
  (Pager.stopping spec).zoom BPlusTree.pager fun tree pager => { tree with pager }

theorem tracks_onPager {x : Prog Pager BtreeError α} (h : Tracks (Pager.stopping spec) x) :
    Tracks (stopping spec) (onPager x) :=
  .zoom (fun _ _ => rfl) (fun _ _ _ => rfl) h

theorem tracks_query {f : Pager → Except BtreeError α} (h : ∀ p : Pager, f (p.arm spec) = f p) :
    Tracks (stopping spec) (query f) :=
  .reads fun s => h s.pager

theorem tracks_readPage {id : ℕ} : Tracks (stopping spec) (query fun pager => pager.readPage id) :=
  tracks_query fun _ => rfl

theorem tracks_decodeLeaf {page : Page} :
    Tracks (stopping spec) (query fun pager => pager.decodeLeaf page none) :=
  tracks_query fun p => by rw [Pager.arm_decodeLeaf]

theorem tracks_decodeInternal {page : Page} :
    Tracks (stopping spec) (query fun pager => pager.decodeInternal page none) :=
  tracks_query fun p => by rw [Pager.arm_decodeInternal]

theorem tracks_get {key : Bytes} : Tracks (stopping spec) (query fun pager => pager.get key) :=
  tracks_query fun p => by rw [Pager.arm_get]

theorem tracks_refresh : Tracks (stopping spec) refreshReusablePages :=
  .bind (tracks_query fun p => by rw [Pager.arm_reachablePages]) fun _ =>
    .modify (fun _ hs => ⟨hs, rfl⟩) fun _ _ h => h

theorem tracks_prepareTreePage {kind : PageKind} :
    Tracks (stopping spec) (prepareTreePage kind) := by
  constructor
  · intro s hs
    left
    cases hpool : s.reusablePages with
    | nil =>
      have harmed : (s.arm spec).reusablePages = [] := hpool
      rw [prepareTreePage_nil hpool]
      exact ⟨hs, prepareTreePage_nil harmed⟩
    | cons id rest =>
      have harmed : (s.arm spec).reusablePages = id :: rest := hpool
      rw [prepareTreePage_cons hpool]
      exact ⟨hs, prepareTreePage_cons harmed⟩
  · intro s t h
    cases hpool : s.reusablePages with
    | nil => rwa [prepareTreePage_nil hpool]
    | cons id rest =>
      rw [prepareTreePage_cons hpool]
      exact h

theorem tracks_writeTreePage {kind : PageKind} {fill : Page → Except BtreeError Page} :
    Tracks (stopping spec) (writeTreePage kind fill) := by
  refine .bind tracks_prepareTreePage fun (page, recycled) => .bind (.ofExcept _) fun page => ?_
  unfold commitTreePage
  split_ifs
  · exact tracks_onPager Pager.tracks_commitRecycledPage
  · exact tracks_onPager Pager.tracks_commitNewPage

/-- The steps of a mutation follow the free run. -/
theorem tracks_steps : Steps (fun {_} x => Tracks (stopping spec) x) where
  pure := .pure
  throw := .throw
  ofExcept := .ofExcept
  bind := .bind
  get_bind hf h := .get_bind (fun s => hf (s.arm spec) s rfl) h
  readPage _ := tracks_readPage
  decodeLeaf _ := tracks_decodeLeaf
  decodeInternal _ := tracks_decodeInternal
  writeTreePage _ _ _ := tracks_writeTreePage
  setRoot _ := tracks_onPager Pager.tracks_setRoot

theorem tracks_put {key value : Bytes} : Tracks (stopping spec) (put key value) := by
  rw [put_eq]
  exact .bind (.ofExcept _) fun _ => .bind tracks_get fun _ => .bind tracks_refresh fun _ =>
    tracks_steps.putCollected_steps

theorem tracks_delete {key : Bytes} : Tracks (stopping spec) (delete key) := by
  rw [delete_eq]
  refine .bind (.ofExcept _) fun _ => .bind tracks_get fun previous => ?_
  cases previous with
  | none => exact .pure _
  | some previous => exact .bind tracks_refresh fun _ => tracks_steps.deleteCollected_steps

end BPlusTree
end DbLab.Btree
