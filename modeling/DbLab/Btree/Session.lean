import DbLab.Btree.Remove

/-!
# Sessions

A session is a handle from `create_new`, or from `open` on any file, after any calls that left it
unpoisoned. Its pager is live, so the specifications of `put` and `delete` apply to it as soon as its
committed root passes the validation; when it does not, both refuse to change anything. The two main
results say exactly when a `put` of a session succeeds, and when the root that it publishes passes
the validation again.
-/

namespace DbLab.Btree

open Checked

namespace BPlusTree

variable {s s' : BPlusTree} {key value : Bytes} {previous : Option Bytes} {r r' : PRoot}

/-- The handles of a program that uses no fault hook. -/
inductive Session : BPlusTree → Prop
  | created : Session createNew
  | opened {file : PageFile} {s : BPlusTree} : openFile file = .ok s → Session s
  | put {s : BPlusTree} (key value : Bytes) : Session s →
      (put key value s).2.pager.poisoned = false → Session (put key value s).2
  | delete {s : BPlusTree} (key : Bytes) : Session s →
      (delete key s).2.pager.poisoned = false → Session (delete key s).2

/-- The committed root passes the validation. -/
def Accepted (s : BPlusTree) : Prop := ∃ ids, s.pager.reachablePages = .ok ids

theorem accepted_iff (hlive : s.pager.Live) :
    s.Accepted ↔ ∃ r, s.pager.Stores r ∧ r.tree.Valid := by
  unfold Accepted
  simp only [reachablePages_eq_ok hlive.healthy hlive.bound]
  exact ⟨fun ⟨_, r, hr, hv, _⟩ => ⟨r, hr, hv⟩, fun ⟨r, hr, hv⟩ => ⟨_, r, hr, hv, rfl⟩⟩

/-! ### Refused calls -/

theorem validateKeyValue_eq_ok : validateKeyValue key value = .ok () ↔
    key.length ≤ maxTreeKeyBytes ∧ value.length ≤ maxTreeValueBytes := by
  have hv := maxTreeValueBytes_eq
  have hm := valueLengthMask_eq
  simp only [validateKeyValue, validateKey, validateValueLen, bind_eq_ok, guard_eq_ok, not_lt,
    pure_eq, and_true]
  constructor
  · rintro ⟨_, hk, _, hv, -⟩
    exact ⟨hk, hv⟩
  · rintro ⟨hk, hv⟩
    have hmask : ¬ valueLengthMask < value.length := by omega
    have h32 : ¬ 2 ^ 32 ≤ value.length := by omega
    exact ⟨(), hk, (), hv, by rw [if_neg h32, if_neg hmask]⟩

/-- A `put` of a pair outside of the limits, or on a root that is not accepted, fails without a
change. -/
theorem put_rejected (h : ¬ (key.length ≤ maxTreeKeyBytes ∧ value.length ≤ maxTreeValueBytes ∧
    s.Accepted)) : ∃ e, put key value s = (.error e, s) := by
  cases hcheck : validateKeyValue key value with
  | error e => exact ⟨e, by rw [put, Prog.bind_error]; rw [hcheck]; rfl⟩
  | ok u =>
    have hput : put key value s = (query (fun pager => pager.get key) >>= fun previous =>
        refreshReusablePages >>= fun _ => storeKey key >>= fun storedKey =>
        storeValue storedKey value >>= fun storedValue =>
        insertAtRoot ⟨storedKey, storedValue⟩ >>= fun replacements =>
        growRoot replacements >>= fun newRoot =>
        onPager (Pager.setRoot (some newRoot)) >>= fun _ => pure previous) s := by
      rw [put, Prog.bind_ok]
      rw [hcheck]
      rfl
    cases hget : s.pager.get key with
    | error e => exact ⟨e, hput.trans (Prog.bind_error (by rw [query, Prog.reads, hget]))⟩
    | ok previous =>
      cases hreach : s.pager.reachablePages with
      | ok ids =>
        obtain ⟨hk, hv⟩ := validateKeyValue_eq_ok.1 hcheck
        exact absurd ⟨hk, hv, ids, hreach⟩ h
      | error e =>
        refine ⟨e, hput.trans ?_⟩
        rw [Prog.bind_ok (a := previous) (t := s) (by rw [query, Prog.reads, hget])]
        refine Prog.bind_error (Prog.bind_error ?_)
        rw [query, Prog.reads, hreach]

/-- A `delete` of a key outside of the limits, or on a root that is not accepted, changes nothing. -/
theorem delete_rejected (h : ¬ (key.length ≤ maxTreeKeyBytes ∧ s.Accepted)) :
    (delete key s).2 = s := by
  cases hcheck : validateKey key with
  | error e =>
    rw [delete, Prog.bind_error (e := e) (t := s)]
    rw [hcheck]
    rfl
  | ok u =>
    have hkey : key.length ≤ maxTreeKeyBytes := by
      simpa only [validateKey, guard_eq_ok, not_lt, and_true] using hcheck
    rw [delete, Prog.bind_ok (a := ()) (t := s) (by rw [hcheck]; rfl)]
    cases hget : s.pager.get key with
    | error e => rw [Prog.bind_error (e := e) (t := s) (by rw [query, Prog.reads, hget])]
    | ok previous =>
      rw [Prog.bind_ok (a := previous) (t := s) (by rw [query, Prog.reads, hget])]
      cases previous with
      | none => rfl
      | some previous =>
        cases hreach : s.pager.reachablePages with
        | ok ids => exact absurd ⟨hkey, ids, hreach⟩ h
        | error e =>
          have hrefresh : refreshReusablePages s = (.error e, s) :=
            Prog.bind_error (by rw [query, Prog.reads, hreach])
          exact congrArg Prod.snd (Prog.bind_error hrefresh)

/-! ### Every handle is live -/

theorem openFile_live {file : PageFile} (h : openFile file = .ok s) :
    s.pager.Live ∧ s.pager.faultSpec = none ∧ s.Accepted := by
  unfold openFile at h
  obtain ⟨p, hp, h⟩ := bind_eq_ok.1 h
  obtain ⟨_, -, h⟩ := bind_eq_ok.1 h
  obtain ⟨ids, hids, h⟩ := bind_eq_ok.1 h
  cases h
  obtain ⟨hlive, hspec, -⟩ := Pager.openFile_live hp
  exact ⟨hlive, hspec, ids, hids⟩

theorem createNew_live : createNew.pager.Live ∧ createNew.pager.faultSpec = none :=
  ⟨Pager.live_createNew, rfl⟩

/-- A mutation that stopped without poisoning the handle left it live. -/
theorem Interrupted.live {why : Prop} {after : PRoot → Prop} (h : Interrupted s r why after s')
    (hp : s'.pager.poisoned = false) : s'.pager.Live ∧ s'.pager.faultSpec = s.pager.faultSpec := by
  rcases h with hhalt | ⟨hpois, -⟩
  · rcases hhalt.safe with ⟨hpois, -⟩ | ⟨hlive, -⟩
    · exact absurd (hp.symm.trans hpois) (by simp)
    · exact ⟨hlive, hhalt.spec⟩
  · exact absurd (hp.symm.trans hpois) (by simp)

/-- One mutation of a live handle. -/
theorem mutation_live {x : TreeProg (Option Bytes)} {Q : Option Bytes → BPlusTree → Prop}
    {why : Prop} {after : PRoot → Prop} (hx : Prog.wp x Q (fun _ s' => Interrupted s r why after s') s)
    (hQ : ∀ a s', Q a s' → ∃ r', Committed s r' s') (hp : (x s).2.pager.poisoned = false) :
    (x s).2.pager.Live ∧ (x s).2.pager.faultSpec = s.pager.faultSpec := by
  rcases hrun : x s with ⟨e | a, s'⟩
  · rw [hrun] at hp
    exact (Prog.wp_error hx hrun).live hp
  · obtain ⟨r', hcommit⟩ := hQ a s' (Prog.wp_ok hx hrun)
    exact ⟨hcommit.live, hcommit.spec⟩

/-- **Every handle of a session is live.** -/
theorem Session.live (h : Session s) : s.pager.Live ∧ s.pager.faultSpec = none := by
  induction h with
  | created => exact createNew_live
  | opened hopen => exact ⟨(openFile_live hopen).1, (openFile_live hopen).2.1⟩
  | @put s key value _ hp ih =>
    obtain ⟨hlive, hspec⟩ := ih
    by_cases hok : key.length ≤ maxTreeKeyBytes ∧ value.length ≤ maxTreeValueBytes ∧ s.Accepted
    · obtain ⟨hkey, hvalue, hacc⟩ := hok
      obtain ⟨r, hr, hvalid⟩ := (accepted_iff hlive).1 hacc
      obtain ⟨hlive', hspec'⟩ := mutation_live (put_stored hlive hr hvalid hkey hvalue)
        (fun _ _ ⟨_, r', hcommit, _⟩ => ⟨r', hcommit⟩) hp
      exact ⟨hlive', hspec'.trans hspec⟩
    · obtain ⟨e, he⟩ := put_rejected hok
      rw [he]
      exact ⟨hlive, hspec⟩
  | @delete s key _ hp ih =>
    obtain ⟨hlive, hspec⟩ := ih
    by_cases hok : key.length ≤ maxTreeKeyBytes ∧ s.Accepted
    · obtain ⟨hkey, hacc⟩ := hok
      obtain ⟨r, hr, hvalid⟩ := (accepted_iff hlive).1 hacc
      obtain ⟨hlive', hspec'⟩ := mutation_live (delete_stored hlive hr hvalid hkey)
        (fun _ _ ⟨_, r', hcommit, _⟩ => ⟨r', hcommit⟩) hp
      exact ⟨hlive', hspec'.trans hspec⟩
    · rw [delete_rejected hok]
      exact ⟨hlive, hspec⟩

/-! ### When a put succeeds -/

/-- A `put` that ends well was of an accepted root, and it published the tree of `Tree.put`. -/
theorem put_ok (hlive : s.pager.Live) (h : put key value s = (.ok previous, s')) :
    ∃ r, s.pager.Stores r ∧ r.tree.Valid ∧ ∃ r', Committed s r' s' ∧
      AfterPut (Entry.of key value) r r' := by
  have hok : key.length ≤ maxTreeKeyBytes ∧ value.length ≤ maxTreeValueBytes ∧ s.Accepted := by
    by_contra hno
    obtain ⟨e, he⟩ := put_rejected hno
    rw [he] at h
    cases h
  obtain ⟨hkey, hvalue, hacc⟩ := hok
  obtain ⟨r, hr, hvalid⟩ := (accepted_iff hlive).1 hacc
  obtain ⟨-, r', hcommit, hafter⟩ := Prog.wp_ok (put_stored hlive hr hvalid hkey hvalue) h
  exact ⟨r, hr, hvalid, r', hcommit, hafter⟩

/-- **A `put` of a session succeeds** exactly when the committed root passes the validation and the
cells that it rewrites fit: on every level of the path of the key in one page or in two behind some
cut, and under a new root the two separators. -/
theorem put_isOk_iff (h : Session s) (hkey : key.length ≤ maxTreeKeyBytes)
    (hvalue : value.length ≤ maxTreeValueBytes) (hroom : (put key value s).2.pager.Unexhausted) :
    (∃ previous, (put key value s).1 = .ok previous) ↔
      s.Accepted ∧ ∀ r, s.pager.Stores r → r.tree.Fits (Entry.of key value) := by
  obtain ⟨hlive, hspec⟩ := h.live
  constructor
  · rintro ⟨previous, hrun⟩
    obtain ⟨r, hr, hvalid, r', -, hafter⟩ := put_ok hlive (Prod.ext hrun rfl)
    refine ⟨(accepted_iff hlive).2 ⟨r, hr, hvalid⟩, fun r₁ hr₁ => ?_⟩
    obtain rfl := hr.unique hr₁ hvalid.proper
    rw [← Tree.put_isSome hvalid.proper hvalid.sorted, hafter.2]
    exact hafter.1
  · rintro ⟨hacc, hfits⟩
    obtain ⟨r, hr, hvalid⟩ := (accepted_iff hlive).1 hacc
    have hsome := (Tree.put_isSome hvalid.proper hvalid.sorted).2 (hfits r hr)
    rcases hrun : put key value s with ⟨e | previous, s'⟩
    · rw [hrun] at hroom
      rcases Prog.wp_error (put_stored hlive hr hvalid hkey hvalue) hrun with hhalt | ⟨-, hw, hs, -⟩
      · have hnone := hhalt.cause (hhalt.spec.trans hspec) hroom
        rw [hnone] at hsome
        cases hsome
      · obtain ⟨spec, hsome', -⟩ := hw
        exact absurd (hsome'.symm.trans (hs.trans hspec)) (by simp)
    · exact ⟨previous, rfl⟩

/-- A session with one small pair. -/
theorem put_isOk_iff_first :
    (∃ previous, (put [97] [1] createNew).1 = .ok previous) ↔
      createNew.Accepted ∧ ∀ r, createNew.pager.Stores r → r.tree.Fits (Entry.of [97] [1]) :=
  put_isOk_iff .created (by decide) (by decide)
    (by unfold Pager.Unexhausted; decide +kernel)

/-- Two cells of almost half a page, and between them one of almost a page: no cut of the three
fits. -/
theorem put_fails_between :
    let first := put [97] (List.replicate 1990 0) createNew
    let second := put [122] (List.replicate 1990 0) first.2
    let third := put [109] (List.replicate 4041 0) second.2
    first.1 = .ok none ∧ second.1 = .ok none ∧
      third.1 = .error (.invalidInput "leaf entries cannot be divided into two valid 4 KiB pages") ∧
      third.2.pager.poisoned = false ∧ third.2.pager.Unexhausted := by
  unfold Pager.Unexhausted
  decide +kernel

/-! ### When a delete succeeds -/

/-- **A `delete` of a session succeeds** on a valid tree exactly when, on every level of the path of the
key, the separators of the rebalanced children fit in one page: the path is never divided. -/
theorem delete_isOk_iff (h : Session s) (hacc : s.Accepted) (hkey : key.length ≤ maxTreeKeyBytes)
    (hroom : (delete key s).2.pager.Unexhausted) :
    (∃ previous, (delete key s).1 = .ok previous) ↔
      ∀ r, s.pager.Stores r → r.tree.RemoveFits key := by
  obtain ⟨hlive, hspec⟩ := h.live
  obtain ⟨r, hr, hvalid⟩ := (accepted_iff hlive).1 hacc
  have hremoves := delete_removes hlive hr hvalid hkey
  constructor
  · rintro ⟨previous, hrun⟩ r₁ hr₁
    obtain rfl := hr.unique hr₁ hvalid.proper
    exact (Prog.wp_ok hremoves (Prod.ext hrun rfl)).2.1
  · intro hfits
    rcases hrun : delete key s with ⟨e | previous, s'⟩
    · rw [hrun] at hroom
      rcases Prog.wp_error hremoves hrun with hhalt | ⟨-, hw, hs, -⟩
      · exact absurd (hfits r hr) (hhalt.cause (hhalt.spec.trans hspec) hroom)
      · obtain ⟨spec, hsome, -⟩ := hw
        exact absurd (hsome.symm.trans (hs.trans hspec)) (by simp)
    · exact ⟨previous, rfl⟩

/-- The only key of a tree. -/
theorem delete_isOk_iff_first :
    let one := (put [97] [1] createNew).2
    (∃ previous, (delete [97] one).1 = .ok previous) ↔
      ∀ r, one.pager.Stores r → r.tree.RemoveFits [97] :=
  delete_isOk_iff (.put [97] [1] .created (by decide +kernel)) ⟨{2}, by decide +kernel⟩ (by decide)
    (by unfold Pager.Unexhausted; decide +kernel)

/-- The smallest key of a leaf is short and the next one is long: without the short one the two
separators of the root do not fit. -/
theorem delete_fails_before :
    let first := put [97] [] createNew
    let second := put (97 :: List.replicate 1100 0) [] first.2
    let third := put (98 :: List.replicate 3000 0) [] second.2
    let fourth := delete [97] third.2
    first.1 = .ok none ∧ second.1 = .ok none ∧ third.1 = .ok none ∧
      third.2.pager.validateReachableTree = .ok () ∧
      fourth.1 = .error (.invalidInput "internal separators exceed one 4 KiB page") ∧
      fourth.2.pager.poisoned = false ∧ fourth.2.pager.Unexhausted := by
  unfold Pager.Unexhausted
  decide +kernel

/-! ### When a put keeps the tree valid -/

/-- The committed root is a valid tree, which every reader accepts: the walk over the whole tree, the
next mutation when it collects its pool, and `open` on the file. -/
structure Sound (s : BPlusTree) : Prop where
  valid : ∃ r, s.pager.Stores r ∧ r.tree.Valid
  validates : s.pager.validateReachableTree = .ok ()
  refreshes : (refreshReusablePages s).1 = .ok ()
  opens : ∃ s', openFile s.pager.file = .ok s'

/-- The file of a live handle opens with the same stored root. -/
theorem openFile_of_stores (hlive : s.pager.Live) (hr : s.pager.Stores r) (hvalid : r.tree.Valid) :
    ∃ s', openFile s.pager.file = .ok s' ∧ s'.pager.Stores r := by
  obtain ⟨p, hopen, hp, -, hroot, hkeeps⟩ := hlive.recovers Set.univ
  have hr' : p.Stores r := hr.keeps hroot (hkeeps.mono (Set.subset_univ _))
  have hreach := (reachablePages_eq_ok hp.healthy hp.bound).2 ⟨r, hr', hvalid, rfl⟩
  refine ⟨⟨p, unreachablePages p r.footprint.toFinset⟩, ?_, hr'⟩
  unfold openFile Pager.validateReachableTree
  simp only [hopen, hreach, ok_bind, pure_eq]

theorem sound_iff (hlive : s.pager.Live) (hr : s.pager.Stores r) (hproper : r.tree.Proper) :
    s.Sound ↔ r.tree.Valid := by
  constructor
  · rintro ⟨⟨r', hr', hvalid⟩, -, -, -⟩
    rwa [hr.unique hr' hproper]
  · intro hvalid
    have hreach := (reachablePages_eq_ok hlive.healthy hlive.bound).2 ⟨r, hr, hvalid, rfl⟩
    obtain ⟨s', hopen, -⟩ := openFile_of_stores hlive hr hvalid
    refine ⟨⟨r, hr, hvalid⟩, ?_, ?_, s', hopen⟩
    · rw [Pager.validateReachableTree, hreach]
      rfl
    · rw [refreshReusablePages, Prog.bind_ok (a := r.footprint.toFinset) (t := s)]
      · rfl
      · rw [query, Prog.reads, hreach]

/-- The tree that `put` leaves is valid exactly when no cut leaves a single child. -/
theorem AfterPut.valid_iff {e : Entry} (h : AfterPut e r r') (hvalid : r.tree.Valid) :
    r'.tree.Proper ∧ (r'.tree.Valid ↔ r.tree.PairsKept e) := by
  obtain ⟨hsome, hput⟩ := h
  obtain ⟨⟨m, t'⟩, ht⟩ := Option.isSome_iff_exists.1 hsome
  rw [ht] at hput ⊢
  obtain ⟨hentries, hproper⟩ := Tree.put_spec hvalid.proper hvalid.sorted hput
  rw [← Tree.put_wide hvalid.proper hvalid.sorted hvalid.wide hput]
  refine ⟨hproper, fun hv => hv.wide, fun hwide => ⟨hproper, ?_, hwide⟩⟩
  rw [Tree.Root.Sorted, Tree.Root.entries, hentries]
  exact hvalid.sorted.upsertBy

/-- **A `put` of a session keeps the tree valid** exactly when no page of children that it divides
is cut behind its first child or before its last one. -/
theorem put_sound_iff (h : Session s) (hput : put key value s = (.ok previous, s')) :
    s'.Sound ↔ ∀ r, s.pager.Stores r → r.tree.PairsKept (Entry.of key value) := by
  obtain ⟨hlive, -⟩ := h.live
  obtain ⟨r, hr, hvalid, r', hcommit, hafter⟩ := put_ok hlive hput
  obtain ⟨hproper, hiff⟩ := hafter.valid_iff hvalid
  rw [sound_iff hcommit.live hcommit.stores hproper, hiff]
  constructor
  · intro hkept r₁ hr₁
    rwa [← hr.unique hr₁ hvalid.proper]
  · exact fun hall => hall r hr

theorem put_sound_iff_first :
    (put [97] [1] createNew).2.Sound ↔
      ∀ r, createNew.pager.Stores r → r.tree.PairsKept (Entry.of [97] [1]) :=
  @put_sound_iff _ _ _ _ none .created (Prod.ext (by decide +kernel) rfl)

/-- Three leaves with separators of 1, 501 and 3686 bytes: the root is cut behind the second one. -/
theorem put_leaves_single_child :
    let first := put [97] (List.replicate 3000 0) createNew
    let second := put (98 :: List.replicate 500 0) (List.replicate 3000 0) first.2
    let third := put (99 :: List.replicate 3685 0) [] second.2
    let found := BtreeError.corruption 0
      "reachable internal page 8 has fewer than two children"
    first.1 = .ok none ∧ second.1 = .ok none ∧ second.2.pager.validateReachableTree = .ok () ∧
      third.1 = .ok none ∧ third.2.pager.validateReachableTree = .error found ∧
      (refreshReusablePages third.2).1 = .error found ∧
      (openFile third.2.pager.file).isOk = false := by
  decide +kernel

end BPlusTree
end DbLab.Btree
