import DbLab.Btree.Crash

/-!
# Page reuse

A mutation collects the committed pages that the root does not reach and takes its pages from this pool first.
`Grows n m s s'` says what a part of a mutation does to the file whatever becomes of it: it writes `n` pages of the
pool and then appends `m` pages, and it appends only when the pool is used up. Over a run without faults the file
is therefore never longer than some mutation needed it to be.
-/

namespace DbLab.Btree

open Checked

/-- The page writes among durable writes: does each of them take a page of the pool? -/
def pageWrites (events : List DurableWriteKind) : List Bool :=
  events.filterMap fun
    | .recycledPage _ => some true
    | .appendPage _ => some false
    | .allocationSuperblock => none
    | .rootSuperblock => none

theorem pageWrites_append (l m : List DurableWriteKind) : pageWrites (l ++ m) = pageWrites l ++ pageWrites m :=
  List.filterMap_append

namespace Pager

variable {p p' p'' : Pager} {page : Page} {l m : List Bool}

/-- Between the two states the page writes `l` were made. -/
def Wrote (l : List Bool) (p p' : Pager) : Prop :=
  ∃ events, p'.faultTrace = p.faultTrace ++ events ∧ pageWrites events = l

theorem Wrote.refl (p : Pager) : Wrote [] p p := ⟨[], (List.append_nil _).symm, rfl⟩

theorem Wrote.trans (h : Wrote l p p') (h' : Wrote m p' p'') : Wrote (l ++ m) p p'' := by
  obtain ⟨events, htrace, rfl⟩ := h
  obtain ⟨events', htrace', rfl⟩ := h'
  exact ⟨events ++ events', by rw [htrace', htrace, List.append_assoc], pageWrites_append _ _⟩

theorem Wrote.one {kind : DurableWriteKind} (h : p'.faultTrace = p.faultTrace ++ [kind]) :
    Wrote (pageWrites [kind]) p p' := ⟨[kind], h, rfl⟩

/-- The writes `l` were made or not, and nothing was committed. -/
def Attempted (l : List Bool) (p p' : Pager) : Prop := (Wrote [] p p' ∨ Wrote l p p') ∧ p'.active = p.active

theorem Attempted.refl (l : List Bool) (p : Pager) : Attempted l p p := ⟨.inl (.refl p), rfl⟩

/-- No page was written. -/
def Idle (p p' : Pager) : Prop := Wrote [] p p' ∧ p'.active.pageCount = p.active.pageCount

theorem Idle.refl (p : Pager) : Idle p p := ⟨.refl p, rfl⟩

/-- An allocation appends one page, and commits it unless it fails. -/
theorem commitNewPage_wrote (page : Page) :
    Prog.wp (commitNewPage page)
      (fun _ p' => Wrote [false] p p' ∧ p'.active.pageCount = p.active.pageCount + 1)
      (fun _ p' => Attempted [false] p p') p := by
  refine wp_commitNewPage (fun _ => .refl _ p) fun _ _ _ _ _ => ?_
  refine Prog.wp_mono wp_write_trace (fun _ p₁ h₁ => ?_) fun _ p₁ h₁ => ⟨.inr (.one h₁.1), h₁.2⟩
  refine Prog.wp_mono wp_write_trace (fun _ p₂ h₂ => ?_) fun _ p₂ h₂ =>
    ⟨.inr ((Wrote.one h₁.1).trans (.one h₂.1)), h₂.2.trans h₁.2⟩
  exact ⟨(Wrote.one h₁.1).trans (.one h₂.1), rfl⟩

/-- A recycled page is written over a page of the pool. -/
theorem commitRecycledPage_wrote (page : Page) :
    Prog.wp (commitRecycledPage page) (fun _ p' => Wrote [true] p p' ∧ p'.active = p.active)
      (fun _ p' => Attempted [true] p p') p := by
  refine wp_commitRecycledPage (fun _ => .refl _ p) fun _ _ => ?_
  exact Prog.wp_mono wp_write_trace (fun _ _ h => ⟨.one h.1, h.2⟩) fun _ _ h => ⟨.inr (.one h.1), h.2⟩

/-- Publishing a root writes no page. -/
theorem setRoot_wrote (root : Option ℕ) :
    Prog.wp (setRoot root) (fun _ p' => Idle p p') (fun _ p' => Idle p p') p := by
  have hpublish : ∀ encoded (hroot : encoded = rootNone ∨
      superblockCount ≤ encoded ∧ encoded < p.active.pageCount),
      Prog.wp (publishRoot p encoded hroot) (fun _ p' => Idle p p') (fun _ p' => Idle p p') p := by
    intro encoded hroot
    refine wp_publishRoot hroot (fun _ => .refl p) (fun _ => .refl p) fun _ _ => ?_
    exact Prog.wp_mono wp_write_trace (fun _ p₁ h => ⟨.one h.1, rfl⟩) fun _ p₁ h => ⟨.one h.1, by rw [h.2]⟩
  unfold setRoot
  simp only [Prog.wp_bind, Prog.wp_get, Prog.wp_ofExcept]
  refine ⟨fun _ _ => ?_, fun _ _ => .refl p⟩
  cases root with
  | none => exact hpublish _ _
  | some id =>
    dsimp only
    split_ifs
    · exact .refl p
    · simp only [Prog.wp_bind, Prog.wp_ofExcept]
      exact ⟨fun _ _ => hpublish _ _, fun _ _ => .refl p⟩

end Pager

namespace BPlusTree

variable {s s' s'' : BPlusTree} {n m n' m' : ℕ} {α β : Type}

/-- Between the two states `n` pages of the pool were written, then `m` pages were appended: none of them before the
pool was used up. -/
structure Grows (n m : ℕ) (s s' : BPlusTree) : Prop where
  wrote : Pager.Wrote (List.replicate n true ++ List.replicate m false) s.pager s'.pager
  le : n ≤ s.reusablePages.length
  used : 0 < m → n = s.reusablePages.length
  pool : s'.reusablePages <:+ s.reusablePages.drop n
  count : s'.pager.active.pageCount ≤ s.pager.active.pageCount + m

theorem Grows.refl (s : BPlusTree) : Grows 0 0 s s :=
  ⟨.refl _, Nat.zero_le _, fun h => absurd h (lt_irrefl 0), List.suffix_refl _, le_rfl⟩

/-- Parts of a mutation behind one another, the first of which did not fail. -/
theorem Grows.trans (h : Grows n m s s') (hpool : s'.reusablePages = s.reusablePages.drop n)
    (h' : Grows n' m' s' s'') : Grows (n + n') (m + m') s s'' := by
  have hle := h.le
  have hle' := h'.le
  rw [hpool, List.length_drop] at hle'
  -- Pages that were appended leave nothing in the pool.
  have hempty : 0 < m → n' = 0 := by
    intro hm
    have hused := h.used hm
    omega
  refine ⟨?_, by omega, fun hpos => ?_, ?_, ?_⟩
  · have hwrote := h.wrote.trans h'.wrote
    by_cases hm : 0 < m
    · rw [hempty hm] at hwrote ⊢
      rw [List.replicate_zero, List.nil_append, List.append_assoc, List.replicate_append_replicate] at hwrote
      exact hwrote
    · obtain rfl : m = 0 := by omega
      rw [List.replicate_zero, List.append_nil, ← List.append_assoc, List.replicate_append_replicate] at hwrote
      rw [Nat.zero_add]
      exact hwrote
  · by_cases hm : 0 < m
    · rw [hempty hm, Nat.add_zero]
      exact h.used hm
    · have hused := h'.used (by omega)
      rw [hpool, List.length_drop] at hused
      omega
  · have hsuffix := h'.pool
    rw [hpool, List.drop_drop] at hsuffix
    exact hsuffix
  · have hcount := h.count
    have hcount' := h'.count
    omega

/-- A program that takes its pages from the pool first. -/
def Allocating (x : TreeProg α) : Prop :=
  ∀ s, Prog.wp x (fun _ s' => ∃ n m, Grows n m s s' ∧ s'.reusablePages = s.reusablePages.drop n)
    (fun _ s' => ∃ n m, Grows n m s s') s

/-- A program that leaves the tree as it is. -/
theorem Allocating.of_const {x : TreeProg α} (h : ∀ s, (x s).2 = s) : Allocating x := by
  intro s
  have hs := h s
  unfold Prog.wp
  rcases hrun : x s with ⟨e | a, s'⟩
  · rw [hrun] at hs
    obtain rfl : s' = s := hs
    exact ⟨0, 0, .refl s'⟩
  · rw [hrun] at hs
    obtain rfl : s' = s := hs
    exact ⟨0, 0, .refl s', rfl⟩

theorem Allocating.bind {x : TreeProg α} {f : α → TreeProg β} (hx : Allocating x) (hf : ∀ a, Allocating (f a)) :
    Allocating (x >>= f) := by
  intro s
  rw [Prog.wp_bind]
  refine Prog.wp_mono (hx s) (fun a s' => ?_) fun _ _ h => h
  rintro ⟨n, m, hgrows, hpool⟩
  refine Prog.wp_mono (hf a s') (fun b s'' => ?_) fun e s'' => ?_
  · rintro ⟨n', m', hgrows', hpool'⟩
    exact ⟨n + n', m + m', hgrows.trans hpool hgrows', by rw [hpool', hpool, List.drop_drop]⟩
  · rintro ⟨n', m', hgrows'⟩
    exact ⟨n + n', m + m', hgrows.trans hpool hgrows'⟩

/-- **Writing a page takes it from the pool**, as long as there is one in it. -/
theorem allocating_writeTreePage (kind : PageKind) (fill : Page → Except BtreeError Page) :
    Allocating (writeTreePage kind fill) := by
  rintro ⟨pager, pool⟩
  unfold writeTreePage prepareTreePage commitTreePage
  simp only [Prog.wp_bind, Prog.wp_get]
  cases pool with
  | cons id rest =>
    -- A page leaves the pool before it is written.
    have hpopped : ∀ pager', Pager.Attempted [true] pager pager' →
        ∃ n m, Grows n m ⟨pager, id :: rest⟩ ⟨pager', rest⟩ := by
      rintro pager' ⟨hwrote | hwrote, hactive⟩
      · exact ⟨0, 0, hwrote, Nat.zero_le _, fun h => absurd h (lt_irrefl 0), List.suffix_cons _ _,
          (congrArg Superblock.pageCount hactive).le⟩
      · exact ⟨1, 0, hwrote, Nat.succ_le_succ (Nat.zero_le _), fun h => absurd h (lt_irrefl 0),
          List.suffix_refl _, (congrArg Superblock.pageCount hactive).le⟩
    simp only [Prog.wp_bind, Prog.wp_set, Prog.wp_ofExcept, Prog.wp_pure, if_true, onPager, Prog.wp_zoom]
    refine ⟨fun page _ => ⟨fun page' _ => ?_, fun _ _ => hpopped _ (.refl _ _)⟩, fun _ _ => hpopped _ (.refl _ _)⟩
    refine Prog.wp_mono (Pager.commitRecycledPage_wrote page') (fun _ pager' h => ?_) fun _ pager' => hpopped pager'
    exact ⟨1, 0, ⟨h.1, Nat.succ_le_succ (Nat.zero_le _), fun h => absurd h (lt_irrefl 0), List.suffix_refl _,
      (congrArg Superblock.pageCount h.2).le⟩, rfl⟩
  | nil =>
    have hempty : ∀ pager', Pager.Attempted [false] pager pager' → ∃ n m, Grows n m ⟨pager, []⟩ ⟨pager', []⟩ := by
      rintro pager' ⟨hwrote | hwrote, hactive⟩
      · exact ⟨0, 0, hwrote, le_rfl, fun _ => rfl, List.suffix_refl _, (congrArg Superblock.pageCount hactive).le⟩
      · exact ⟨0, 1, hwrote, le_rfl, fun _ => rfl, List.suffix_refl _, (congrArg Superblock.pageCount hactive).le.trans (Nat.le_succ _)⟩
    simp only [Prog.wp_bind, query, Prog.wp_reads, Prog.wp_ofExcept, Prog.wp_pure, Bool.false_eq_true, if_false,
      onPager, Prog.wp_zoom]
    refine ⟨fun page _ => ⟨fun page' _ => ?_, fun _ _ => hempty _ (.refl _ _)⟩, fun _ _ => hempty _ (.refl _ _)⟩
    refine Prog.wp_mono (Pager.commitNewPage_wrote page') (fun _ pager' h => ?_) fun _ pager' => hempty pager'
    exact ⟨0, 1, ⟨h.1, le_rfl, fun _ => rfl, List.suffix_refl _, h.2.le⟩, rfl⟩

/-- The steps of a mutation take their pages from the pool first. -/
theorem allocating_steps : Steps (fun {_} x => Allocating x) where
  pure a := .of_const fun _ => rfl
  throw e := .of_const fun _ => rfl
  ofExcept x := .of_const fun _ => rfl
  bind := .bind
  get_bind _ h := fun s => h s s
  readPage id := .of_const fun _ => rfl
  decodeLeaf page := .of_const fun _ => rfl
  decodeInternal page := .of_const fun _ => rfl
  writeTreePage kind fill _ := allocating_writeTreePage kind fill
  setRoot root := by
    intro s
    have hgrows : ∀ pager', Pager.Idle s.pager pager' → Grows 0 0 s { s with pager := pager' } := fun pager' h =>
      ⟨h.1, Nat.zero_le _, fun h => absurd h (lt_irrefl 0), List.suffix_refl _, h.2.le⟩
    rw [onPager, Prog.wp_zoom]
    exact Prog.wp_mono (Pager.setRoot_wrote root) (fun _ _ h => ⟨0, 0, hgrows _ h, rfl⟩)
      fun _ _ h => ⟨0, 0, hgrows _ h⟩

/-! ### Mutations -/

/-- A mutation changed nothing, or took its pages from the pool that it collected. -/
def Mutated (s s' : BPlusTree) : Prop :=
  s' = s ∨ ∃ ids n m, s.pager.reachablePages = .ok ids ∧
    Grows n m { s with reusablePages := unreachablePages s.pager ids } s'

/-- A mutation from the collection of its pool on. -/
theorem mutated_collected {x : TreeProg α} (hx : Allocating x) :
    Prog.wp (refreshReusablePages >>= fun _ => x) (fun _ s' => Mutated s s') (fun _ s' => Mutated s s') s := by
  unfold refreshReusablePages query
  simp only [Prog.wp_bind, Prog.wp_reads, Prog.wp_modify]
  refine ⟨fun ids hids => ?_, fun _ _ => .inl rfl⟩
  refine Prog.wp_mono (hx _) (fun _ s' => ?_) fun _ s' => ?_
  · rintro ⟨n, m, hgrows, -⟩
    exact .inr ⟨ids, n, m, hids, hgrows⟩
  · rintro ⟨n, m, hgrows⟩
    exact .inr ⟨ids, n, m, hids, hgrows⟩

theorem wp_mutated (c : Mutation) : Prog.wp c.run (fun _ s' => Mutated s s') (fun _ s' => Mutated s s') s := by
  cases c with
  | put key value =>
    show Prog.wp (put key value) _ _ s
    rw [put_eq, Prog.wp_bind, Prog.wp_ofExcept]
    refine ⟨fun _ _ => ?_, fun _ _ => .inl rfl⟩
    rw [Prog.wp_bind, query, Prog.wp_reads]
    exact ⟨fun previous _ => mutated_collected allocating_steps.putCollected_steps, fun _ _ => .inl rfl⟩
  | delete key =>
    show Prog.wp (delete key) _ _ s
    rw [delete_eq, Prog.wp_bind, Prog.wp_ofExcept]
    refine ⟨fun _ _ => ?_, fun _ _ => .inl rfl⟩
    rw [Prog.wp_bind, query, Prog.wp_reads]
    refine ⟨fun previous _ => ?_, fun _ _ => .inl rfl⟩
    cases previous with
    | none => exact .inl rfl
    | some previous => exact mutated_collected allocating_steps.deleteCollected_steps

theorem run_mutated (c : Mutation) (s : BPlusTree) : Mutated s (c.run s).2 := by
  have h := @wp_mutated s c
  rcases hrun : c.run s with ⟨e | a, s'⟩
  · exact Prog.wp_error h hrun
  · exact Prog.wp_ok h hrun

/-! ### The length of the file -/

/-- The pages that the root of a tree reaches, as far as its validation accepts them. -/
def reachableCount (s : BPlusTree) : ℕ :=
  match s.pager.reachablePages with
  | .ok ids => ids.card
  | .error _ => 0

/-- The page writes between two states. -/
def pagesWritten (s s' : BPlusTree) : ℕ :=
  (pageWrites (s'.pager.faultTrace.drop s.pager.faultTrace.length)).length

theorem pagesWritten_eq {l : List Bool} (h : Pager.Wrote l s.pager s'.pager) : pagesWritten s s' = l.length := by
  obtain ⟨events, htrace, rfl⟩ := h
  rw [pagesWritten, htrace, List.drop_left]

/-- The pool and the reachable pages are all committed pages. -/
theorem unreachablePages_length {pager : Pager} {ids : Finset ℕ}
    (h : ∀ id ∈ ids, superblockCount ≤ id ∧ id < pager.active.pageCount) :
    (unreachablePages pager ids).length + ids.card = pager.dataPageCount := by
  have hcount := pager.active.count_ok
  have hnodup : (unreachablePages pager ids).Nodup := List.Nodup.filter _ List.nodup_range'
  have hset : (unreachablePages pager ids).toFinset = Finset.Ico superblockCount pager.active.pageCount \ ids := by
    ext id
    simp only [unreachablePages, List.mem_toFinset, List.mem_filter, List.mem_range'_1, Pager.dataPageCount,
      decide_not, Bool.not_eq_true', decide_eq_false_iff_not, Finset.mem_sdiff, Finset.mem_Ico]
    constructor
    · rintro ⟨⟨hge, hlt⟩, hid⟩
      exact ⟨⟨hge, by omega⟩, hid⟩
    · rintro ⟨⟨hge, hlt⟩, hid⟩
      exact ⟨⟨hge, by omega⟩, hid⟩
  have hsub : ids ⊆ Finset.Ico superblockCount pager.active.pageCount := fun id hid => Finset.mem_Ico.2 (h id hid)
  rw [← List.toFinset_card_of_nodup hnodup, hset, Finset.card_sdiff_add_card_eq_card hsub, Nat.card_Ico]
  rfl

/-- Reachable pages are committed. -/
theorem reachable_committed (hlive : s.pager.Live) {ids : Finset ℕ} (h : s.pager.reachablePages = .ok ids) :
    ∀ id ∈ ids, superblockCount ≤ id ∧ id < s.pager.active.pageCount := by
  obtain ⟨r, hr, -, rfl⟩ := (reachablePages_eq_ok hlive.healthy hlive.bound).1 h
  intro id hid
  obtain ⟨page, hview⟩ := hr.on.read_all id (Multiset.mem_toFinset.1 hid)
  obtain ⟨hge, hlt, -⟩ := Pager.view_eq_some.1 hview
  exact ⟨hge, hlt⟩

/-- **One mutation**: the file stays as long as it is, or gets as long as the pages that the root reached and
those that were written. -/
theorem Mutated.dataPageCount_le (h : Mutated s s') (hlive : s.pager.Live) :
    s'.pager.dataPageCount ≤ max s.pager.dataPageCount (reachableCount s + pagesWritten s s') := by
  rcases h with rfl | ⟨ids, n, m, hids, hgrows⟩
  · exact le_max_left _ _
  have hpool := unreachablePages_length (reachable_committed hlive hids)
  have hcount : s'.pager.active.pageCount ≤ s.pager.active.pageCount + m := hgrows.count
  have hused : 0 < m → n = (unreachablePages s.pager ids).length := hgrows.used
  have hwritten : pagesWritten s s' = n + m := by
    rw [@pagesWritten_eq s s' _ hgrows.wrote, List.length_append, List.length_replicate, List.length_replicate]
  have hreach : reachableCount s = ids.card := by rw [reachableCount, hids]
  have hmin := s.pager.active.count_ok
  have hdata : s.pager.dataPageCount = s.pager.active.pageCount - superblockCount := rfl
  have hdata' : s'.pager.dataPageCount = s'.pager.active.pageCount - superblockCount := rfl
  by_cases hm : 0 < m
  · refine le_max_of_le_right ?_
    have hn := hused hm
    omega
  · refine le_max_of_le_left ?_
    omega

/-- A run without faults from a new file, with the pages that the root reached before each mutation and the pages
that the mutation wrote. Reads leave the tree as it is. -/
inductive FaultFree : BPlusTree → List (ℕ × ℕ) → Prop
  | created : FaultFree createNew []
  | reopened {s s' : BPlusTree} {needs : List (ℕ × ℕ)} (h : FaultFree s needs)
      (hopen : openFile s.pager.file = .ok s') : FaultFree s' needs
  | mutated {s : BPlusTree} {needs : List (ℕ × ℕ)} (c : Mutation) (h : FaultFree s needs)
      (hfree : (c.run s).2.pager.poisoned = false) :
      FaultFree (c.run s).2 (needs ++ [(reachableCount s, pagesWritten s (c.run s).2)])

theorem FaultFree.session {needs : List (ℕ × ℕ)} (h : FaultFree s needs) : Session s := by
  induction h with
  | created => exact .created
  | reopened h hopen ih => exact .opened hopen
  | mutated c h hfree ih =>
    cases c with
    | put key value => exact ih.put key value hfree
    | delete key => exact ih.delete key hfree

/-- The largest need of a mutation. -/
def largestNeed (needs : List (ℕ × ℕ)) : ℕ := (needs.map fun need => need.1 + need.2).foldr max 0

theorem largestNeed_append (needs : List (ℕ × ℕ)) (need : ℕ × ℕ) :
    largestNeed (needs ++ [need]) = max (largestNeed needs) (need.1 + need.2) := by
  induction needs with
  | nil => simp [largestNeed]
  | cons first needs ih =>
    show max _ (largestNeed (needs ++ [need])) = max (max _ (largestNeed needs)) _
    rw [ih, max_assoc]

/-- Opening the file of a live handle gives its page count. -/
theorem openFile_dataPageCount (hlive : s.pager.Live) (hopen : openFile s.pager.file = .ok s') :
    s'.pager.dataPageCount = s.pager.dataPageCount := by
  have hbytes : s.pager.file.physicalBytes = s.pager.active.pageCount * pageSize := by
    rw [PageFile.physicalBytes, hlive.tail, hlive.extent, Fin.val_zero, Nat.add_zero]
  obtain ⟨p, hp, -, -, hactive, -⟩ := Pager.openFile_of_chosen hlive.chosen hlive.bound hlive.extent.ge
    (by rw [hbytes]; exact Nat.le_add_right _ _)
  unfold openFile at hopen
  rw [hp] at hopen
  obtain ⟨p', hp', hopen⟩ := bind_eq_ok.1 hopen
  cases hp'
  obtain ⟨_, -, hopen⟩ := bind_eq_ok.1 hopen
  obtain ⟨_, -, hopen⟩ := bind_eq_ok.1 hopen
  cases hopen
  rw [Pager.dataPageCount, hactive]
  rfl

theorem FaultFree.dataPageCount_le {needs : List (ℕ × ℕ)} (h : FaultFree s needs) :
    s.pager.dataPageCount ≤ largestNeed needs := by
  induction h with
  | created => exact le_rfl
  | reopened h hopen ih => rwa [openFile_dataPageCount h.session.live.1 hopen]
  | @mutated s needs c h hfree ih =>
    rw [largestNeed_append]
    refine ((run_mutated c s).dataPageCount_le h.session.live.1).trans (max_le_max ih le_rfl)

/-- The page writes of a mutation overwrite pages and then append pages; a page is appended only after as many
pages were overwritten as there are committed pages that the published root does not reach, when none of these is
left in the pool. -/
def AppendsLast (s s' : BPlusTree) : Prop :=
  ∃ n m, Pager.Wrote (List.replicate n true ++ List.replicate m false) s.pager s'.pager ∧
    (0 < m → ∃ ids, s.pager.reachablePages = .ok ids ∧ n = (unreachablePages s.pager ids).length ∧
      s'.reusablePages = [])

theorem Mutated.appendsLast (h : Mutated s s') : AppendsLast s s' := by
  rcases h with rfl | ⟨ids, n, m, hids, hgrows⟩
  · exact ⟨0, 0, .refl _, fun h => absurd h (lt_irrefl 0)⟩
  · refine ⟨n, m, hgrows.wrote, fun hm => ⟨ids, hids, hgrows.used hm, ?_⟩⟩
    have hpool := hgrows.pool
    rw [hgrows.used hm, List.drop_length] at hpool
    exact List.suffix_nil.1 hpool

/-- **Page reuse**: a mutation appends a page only when it has taken every committed page that the published root
does not reach; over a run without faults the file is never longer than the reachable and the written pages of
some mutation. -/
theorem page_reuse : (∀ (c : Mutation) (s : BPlusTree), AppendsLast s (c.run s).2) ∧
    ∀ s needs, FaultFree s needs → s.pager.dataPageCount ≤ largestNeed needs :=
  ⟨fun c s => (run_mutated c s).appendsLast, fun _ _ h => h.dataPageCount_le⟩

/-- Three updates of one key: the third one writes over the page of the first. -/
theorem page_reuse_updates : ∃ s needs, FaultFree s needs ∧ needs = [(0, 1), (1, 1), (1, 1)] ∧
    s.pager.dataPageCount = 2 ∧ s.pager.dataPageCount ≤ largestNeed needs := by
  have h1 := FaultFree.mutated (.put [7] [1]) .created (by decide +kernel)
  have h2 := FaultFree.mutated (.put [7] [2]) h1 (by decide +kernel)
  have h3 := FaultFree.mutated (.put [7] [3]) h2 (by decide +kernel)
  exact ⟨_, _, h3, by decide +kernel, by decide +kernel, page_reuse.2 _ _ h3⟩

end BPlusTree
end DbLab.Btree
