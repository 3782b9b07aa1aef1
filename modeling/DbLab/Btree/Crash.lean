import DbLab.Btree.Session
import DbLab.Btree.Fault

/-!
# Crashes inside a mutation

A mutation of a session is stopped at one of its durable writes. The run without a fault says which
writes there are; the armed run follows it up to the stop, and the specification of the mutation says
what the file holds there. The main result says exactly when the handle then refuses every call and
the file opens with the map of before, or with the map of after once the root superblock was written.
-/

namespace DbLab.Btree

open Checked

namespace BPlusTree

variable {s s' : BPlusTree} {r r' : PRoot} {previous : Option Bytes} {m : ℕ}

/-- A call that changes the tree. -/
inductive Mutation
  | put (key value : Bytes)
  | delete (key : Bytes)

namespace Mutation

def run : Mutation → TreeProg (Option Bytes)
  | put key value => BPlusTree.put key value
  | delete key => BPlusTree.delete key

/-- The map after the mutation. -/
def apply : Mutation → (Bytes → Option Bytes) → Bytes → Option Bytes
  | put key value, map => Function.update map key (some value)
  | delete key, map => Function.update map key none

/-- The key and the value are within the limits. -/
def InLimits : Mutation → Prop
  | put key value => key.length ≤ maxTreeKeyBytes ∧ value.length ≤ maxTreeValueBytes
  | delete key => key.length ≤ maxTreeKeyBytes

/-- The root that the mutation publishes over `r`. -/
def After : Mutation → PRoot → PRoot → Prop
  | put key value => AfterPut (Entry.of key value)
  | delete key => AfterDelete key

/-- The mutation leaves two children in every internal page. -/
def PairsKept : Mutation → PRoot → Prop
  | put key value, r => r.tree.PairsKept (Entry.of key value)
  | delete _, _ => True

variable {c : Mutation}

theorem stored (hlive : s.pager.Live) (hr : s.pager.Stores r) (hvalid : r.tree.Valid)
    (hc : c.InLimits) :
    Prog.wp c.run (fun _ s' => ∃ r', Committed s r' s' ∧ c.After r r')
      (fun _ s' => Interrupted s r True (c.After r) s') s := by
  cases c with
  | put key value =>
    exact Prog.wp_mono (put_stored hlive hr hvalid hc.1 hc.2) (fun _ _ h => h.2) fun _ _ h =>
      h.mono (fun _ => trivial) fun _ h => h
  | delete key =>
    exact Prog.wp_mono (delete_stored hlive hr hvalid hc) (fun _ _ h => h.2) fun _ _ h => h

/-- A mutation that changed something was within the limits, on an accepted root. -/
theorem checked (h : (c.run s).2 ≠ s) : c.InLimits ∧ s.Accepted := by
  cases c with
  | put key value =>
    by_contra hno
    obtain ⟨e, he⟩ := @put_rejected s key value fun hok => hno ⟨⟨hok.1, hok.2.1⟩, hok.2.2⟩
    exact h (congrArg Prod.snd he)
  | delete key =>
    by_contra hno
    exact h (delete_rejected hno)

theorem tracks (spec : FaultSpec) : Prog.Tracks (stopping spec) c.run := by
  cases c with
  | put key value => exact tracks_put
  | delete key => exact tracks_delete

theorem After.valid_iff (h : c.After r r') (hvalid : r.tree.Valid) :
    r'.tree.Proper ∧ (r'.tree.Valid ↔ c.PairsKept r) := by
  cases c with
  | put key value => exact AfterPut.valid_iff h hvalid
  | delete key => exact ⟨h.1.proper, iff_of_true h.1 trivial⟩

/-- The pairs of the new root. -/
theorem After.valueOf_eq (h : c.After r r') (hvalid : r.tree.Valid) (key : Bytes) :
    valueOf key r'.tree.entries = c.apply (fun key => valueOf key r.tree.entries) key := by
  cases c with
  | put k value =>
    obtain ⟨hsome, hput⟩ := h
    obtain ⟨⟨n, t'⟩, ht⟩ := Option.isSome_iff_exists.1 hsome
    rw [ht] at hput ⊢
    obtain ⟨hentries, -⟩ := Tree.put_spec hvalid.proper hvalid.sorted hput
    have hsorted : SortedBy Entry.key r.tree.entries := hvalid.sorted
    rw [Tree.Root.entries, hentries, valueOf, lookupBy_upsertBy hsorted, apply,
      Function.update_apply]
    have hkey : (Entry.of k value).key = k := rfl
    rw [hkey]
    split_ifs
    · rfl
    · rfl
  | delete k =>
    have hsorted : SortedBy Entry.key r.tree.entries := hvalid.sorted
    rw [valueOf, h.2, lookupBy_removeBy hsorted, apply, Function.update_apply]
    split_ifs
    · rfl
    · rfl

end Mutation

/-! ### The two runs -/

/-- The tree with an empty trace and no fault to come. -/
def recording (s : BPlusTree) : BPlusTree :=
  { s with pager := { s.pager with faultSpec := none, faultTrace := [] } }

theorem recording_live (h : s.pager.Live) : s.recording.pager.Live :=
  ⟨h.healthy, h.chosen, h.extent, h.tail, h.bound, by rintro _ ⟨⟩⟩

theorem armed_live (h : s.pager.Live) (spec : FaultSpec) : (s.recording.arm spec).pager.Live :=
  ⟨h.healthy, h.chosen, h.extent, h.tail, h.bound, fun _ _ => Nat.zero_le _⟩

/-- The armed run is stopped at the event that the free run has at this place. -/
theorem armed_run {c : Mutation} {s₁ : BPlusTree} {k : ℕ} {kind : DurableWriteKind}
    (hrun : c.run s.recording = (.ok previous, s₁)) (hk : s₁.pager.faultTrace[k]? = some kind)
    (mode : FaultMode) :
    ∃ e s', c.run (s.recording.arm ⟨k, mode⟩) = (.error e, s') ∧ s'.pager.poisoned = true ∧
      s'.pager.faultTrace[k]? = some kind := by
  obtain ⟨hlen, -⟩ := List.getElem?_eq_some_iff.1 hk
  rcases (c.tracks ⟨k, mode⟩).step s.recording ⟨rfl, Nat.zero_le _⟩ with
    ⟨⟨-, hle⟩, -⟩ | ⟨⟨hpois, -, htrace⟩, e, he⟩
  · rw [hrun] at hle
    exact absurd hlen (not_lt.2 hle)
  · refine ⟨e, (c.run (s.recording.arm ⟨k, mode⟩)).2, Prod.ext he rfl, hpois, ?_⟩
    rw [hrun] at htrace
    have htrace' : (c.run (s.recording.arm ⟨k, mode⟩)).2.pager.faultTrace
        = s₁.pager.faultTrace.take (k + 1) := htrace
    rw [htrace', List.getElem?_take, if_pos (Nat.lt_succ_self k)]
    exact hk

/-! ### What is left behind the stop -/

/-- The handle is poisoned, and every later call fails. A scan is one that asks for rows. -/
structure Refuses (s : BPlusTree) : Prop where
  poisoned : s.pager.poisoned = true
  get : ∀ key, ∃ e, s.pager.get key = .error e
  rangeScan : ∀ start stop limit, limit ≠ 0 → stop ≠ some start →
    ∃ e, s.pager.rangeScan start stop limit = .error e
  mutation : ∀ c : Mutation, ∃ e, (c.run s).1 = .error e

/-- The pairs that a handle shows. -/
def Shows (s : BPlusTree) (map : Bytes → Option Bytes) : Prop :=
  ∀ key : Bytes, key.length ≤ maxTreeKeyBytes → s.pager.get key = .ok (map key)

theorem readPage_poisoned (h : s.pager.poisoned = true) (id : ℕ) :
    s.pager.readPage id = .error .poisoned := by
  rw [Pager.readPage, Pager.ensureUsable, if_pos h]
  rfl

theorem get_poisoned (h : s.pager.poisoned = true) {root : ℕ} (hroot : s.pager.rootPageId = some root)
    (key : Bytes) : ∃ e, s.pager.get key = .error e := by
  rw [Pager.get, hroot]
  cases validateKey key with
  | error e => exact ⟨e, rfl⟩
  | ok _ =>
    have hstep : s.pager.getFrom key maxTreeHeight root = .error .poisoned := by
      show s.pager.getFrom key (63 + 1) root = _
      rw [Pager.getFrom, readPage_poisoned h]
      rfl
    exact ⟨_, hstep⟩

theorem rangeScan_poisoned (h : s.pager.poisoned = true) {root : ℕ}
    (hroot : s.pager.rootPageId = some root) {start : Bytes} {stop : Option Bytes} {limit : ℕ}
    (hlimit : limit ≠ 0) (hstop : stop ≠ some start) :
    ∃ e, s.pager.rangeScan start stop limit = .error e := by
  cases hscan : s.pager.rangeScan start stop limit with
  | error e => exact ⟨e, rfl⟩
  | ok rows =>
    have hstep : s.pager.scanSubtree start stop limit maxTreeHeight root [] = .error .poisoned := by
      show s.pager.scanSubtree start stop limit (63 + 1) root [] = _
      rw [Pager.scanSubtree, readPage_poisoned h]
      rfl
    have hend : (if limit = 0 ∨ stop = some start then (pure [] : Except BtreeError _)
        else do
          let scanned ← s.pager.scanSubtree start stop limit maxTreeHeight root []
          pure scanned.1) ≠ .ok rows := by
      rw [if_neg (by simp [hlimit, hstop]), hstep, error_bind]
      simp
    unfold Pager.rangeScan at hscan
    rw [hroot] at hscan
    obtain ⟨_, -, hscan⟩ := bind_eq_ok.1 hscan
    cases stop with
    | none => exact absurd hscan hend
    | some last =>
      obtain ⟨_, -, hscan⟩ := bind_eq_ok.1 hscan
      by_cases hlt : last < start
      · rw [if_pos hlt] at hscan
        cases hscan
      · rw [if_neg hlt] at hscan
        exact absurd hscan hend

/-- **A poisoned handle refuses every call** exactly when its root is not empty. -/
theorem refuses_iff (h : s.pager.poisoned = true) : s.Refuses ↔ s.pager.rootPageId ≠ none := by
  constructor
  · intro href hnone
    obtain ⟨e, he⟩ := href.get []
    rw [Pager.get, hnone] at he
    cases he
  · intro hne
    obtain ⟨root, hroot⟩ := Option.ne_none_iff_exists'.1 hne
    refine ⟨h, get_poisoned h hroot, fun _ _ _ hl hs => rangeScan_poisoned h hroot hl hs, fun c => ?_⟩
    have hmut : ∀ key, ∀ (check : Except BtreeError Unit)
        (f : Option Bytes → TreeProg (Option Bytes)),
        ∃ e, ((Prog.ofExcept check >>= fun _ => query (fun pager => pager.get key) >>= f) s).1
          = .error e := by
      intro key check f
      cases hcheck : check with
      | error e => exact ⟨e, rfl⟩
      | ok _ =>
        obtain ⟨e, he⟩ := get_poisoned h hroot key
        have hquery : (query (fun pager => pager.get key) >>= f) s = (.error e, s) :=
          Prog.bind_error (by rw [query, Prog.reads, he])
        exact ⟨e, congrArg Prod.fst ((Prog.bind_ok rfl).trans hquery)⟩
    cases c with
    | put key value => exact hmut key _ _
    | delete key => exact hmut key _ _

/-- A pager that stores a valid root opens as a tree that shows its pairs. -/
theorem opens_iff {file : PageFile} {p : Pager} (hopen : Pager.openFile file = .ok p)
    (hlive : p.Live) (hr : p.Stores r) (hproper : r.tree.Proper) :
    (∃ s', openFile file = .ok s') ↔ r.tree.Valid := by
  have hrun : openFile file = p.reachablePages >>= fun _ => p.reachablePages >>= fun reachable =>
      .ok ⟨p, unreachablePages p reachable⟩ := by
    unfold openFile Pager.validateReachableTree
    rw [hopen, ok_bind]
    cases p.reachablePages with
    | error e => rfl
    | ok ids => rfl
  rw [hrun]
  constructor
  · rintro ⟨s', h⟩
    obtain ⟨ids, hids, -⟩ := bind_eq_ok.1 h
    obtain ⟨r', hr', hvalid, -⟩ := (reachablePages_eq_ok hlive.healthy hlive.bound).1 hids
    rwa [hr.unique hr' hproper]
  · intro hvalid
    have hreach := (reachablePages_eq_ok hlive.healthy hlive.bound).2 ⟨r, hr, hvalid, rfl⟩
    exact ⟨_, by rw [hreach]; rfl⟩

theorem openFile_pager {file : PageFile} {p : Pager} (hopen : Pager.openFile file = .ok p)
    (h : openFile file = .ok s') : s'.pager = p := by
  unfold openFile at h
  rw [hopen, ok_bind] at h
  obtain ⟨_, -, h⟩ := bind_eq_ok.1 h
  obtain ⟨_, -, h⟩ := bind_eq_ok.1 h
  cases h
  rfl

theorem shows_valueOf (hlive : s.pager.Live) (hr : s.pager.Stores r) (hvalid : r.tree.Valid) :
    s.Shows fun key => valueOf key r.tree.entries :=
  fun _ hkey => get_stored hlive.healthy hlive.bound hr hvalid hkey

/-- Maps that agree on the keys within the limit. -/
theorem Shows.congr {map map' : Bytes → Option Bytes} (h : s.Shows map)
    (hmap : ∀ key : Bytes, key.length ≤ maxTreeKeyBytes → map key = map' key) : s.Shows map' :=
  fun key hkey => by rw [h key hkey, hmap key hkey]

theorem Mutation.apply_congr {map map' : Bytes → Option Bytes} {c : Mutation} {key : Bytes}
    (h : map key = map' key) : c.apply map key = c.apply map' key := by
  cases c with
  | put k value =>
    simp only [apply, Function.update_apply]
    rw [h]
  | delete k =>
    simp only [apply, Function.update_apply]
    rw [h]

/-- **A stop before the root superblock is complete**: the file opens with the old map. -/
theorem opens_before {map : Bytes → Option Bytes} {file : PageFile} {R : Set ℕ}
    (hr : s.pager.Stores r) (hvalid : r.tree.Valid) (hmap : s.Shows map) (hlive : s.pager.Live)
    (hrec : Pager.Recovers s.pager R file) (hR : {id | id ∈ r.footprint} ⊆ R) :
    ∃ s', openFile file = .ok s' ∧ s'.Shows map := by
  obtain ⟨p, hopen, hp, -, hroot, hkeeps⟩ := hrec
  have hr' : p.Stores r := hr.keeps hroot (hkeeps.mono hR)
  obtain ⟨s', hs'⟩ := (opens_iff hopen hp hr' hvalid.proper).2 hvalid
  have hpager := openFile_pager hopen hs'
  rw [← hpager] at hr' hp
  refine ⟨s', hs', (shows_valueOf hp hr' hvalid).congr fun key hkey => ?_⟩
  have h := get_stored hlive.healthy hlive.bound hr hvalid hkey
  rw [hmap key hkey] at h
  exact (Except.ok.inj h).symm

/-- **A stop behind the complete root superblock**: the file opens, and then with the new map,
exactly when the new root is valid. -/
theorem opens_after {map : Bytes → Option Bytes} {file : PageFile} {p : Pager} {c : Mutation}
    (hr : s.pager.Stores r) (hvalid : r.tree.Valid) (hmap : s.Shows map) (hlive : s.pager.Live)
    (hopen : Pager.openFile file = .ok p) (hp : p.Live) (hr' : p.Stores r') (hafter : c.After r r') :
    (∃ s', openFile file = .ok s' ∧ s'.Shows (c.apply map)) ↔ c.PairsKept r := by
  obtain ⟨hproper, hiff⟩ := hafter.valid_iff hvalid
  rw [← hiff, ← opens_iff hopen hp hr' hproper]
  refine ⟨fun ⟨s', hs', _⟩ => ⟨s', hs'⟩, fun ⟨s', hs'⟩ => ⟨s', hs', ?_⟩⟩
  have hvalid' := (opens_iff hopen hp hr' hproper).1 ⟨s', hs'⟩
  have hpager := openFile_pager hopen hs'
  rw [← hpager] at hr' hp
  refine (shows_valueOf hp hr' hvalid').congr fun key hkey => ?_
  have h := get_stored hlive.healthy hlive.bound hr hvalid hkey
  rw [hmap key hkey] at h
  rw [hafter.valueOf_eq hvalid, Mutation.apply_congr (Except.ok.inj h).symm]

end BPlusTree
end DbLab.Btree
