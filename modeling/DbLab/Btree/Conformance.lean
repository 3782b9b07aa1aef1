import DbLab.Btree.Scan
import DbLab.Btree.Timing
import DbLab.Experiment.Differential

/-!
# The tree conforms to the reference engine

A handle follows the reference engine as long as the two stand for the same map. A put can leave a tree that the
validation does not accept. Lookups in it are right all the same, and the next mutation or opening fails and gives
no wrong answer.
-/

namespace DbLab.Btree

open Checked Memory

namespace BPlusTree

def capabilities : Experiment.EngineCapabilities where
  name := "bplus-tree-v1"
  logicalModel := .keyValue
  storageArchitecture := .bPlusTree
  concurrency := .callerSerialized
  persistence := .persistent
  crashRecovery := .mirroredCopyOnWritePages
  distribution := .standalone
  orderedRangeScan := true
  maxKeyBytes := maxTreeKeyBytes
  maxValueBytes := maxTreeValueBytes

/-- A reopening of the file of a handle: the opened tree replaces it, and a failure poisons it. -/
def reopenFile : Prog BPlusTree DbError Unit := fun s =>
  match openFile s.pager.file with
  | .ok reopened => (.ok (), reopened)
  | .error error => (.error (commonError error), { s with pager := { s.pager with poisoned := true } })

instance : Experiment.KvEngine BPlusTree where
  capabilities _ := capabilities
  put key value := (put key value).mapError commonError
  get key := (query fun pager => pager.get key).mapError commonError
  delete key := (delete key).mapError commonError
  rangeScan start stop limit := (query fun pager => pager.rangeScan start stop limit).mapError commonError
  reopen := reopenFile

variable {s s' : BPlusTree} {key value : Bytes} {previous : Option Bytes} {r r' : PRoot} {file : PageFile}
  {engine : MemoryEngine} {values : SortedMap Bytes Bytes} {map : Bytes → Option Bytes} {c : Mutation}

/-! ### Maps -/

/-- The values are those of the map. -/
def Agrees (map : Bytes → Option Bytes) (values : SortedMap Bytes Bytes) : Prop := ∀ key, map key = values.find key

/-- What a mutation makes of the values. -/
def Mutation.mutate : Mutation → SortedMap Bytes Bytes → SortedMap Bytes Bytes
  | put key value, values => values.insert key value
  | delete key, values => values.erase key

theorem Agrees.mutate (h : Agrees map values) (c : Mutation) : Agrees (c.apply map) (c.mutate values) := by
  intro k
  cases c with
  | put key value =>
    rw [Mutation.apply, Function.update_apply]
    by_cases hkey : k = key
    · rw [if_pos hkey]
      exact (SortedMap.find_insert.trans (if_pos hkey)).symm
    · rw [if_neg hkey, h k]
      exact (SortedMap.find_insert.trans (if_neg hkey)).symm
  | delete key =>
    rw [Mutation.apply, Function.update_apply]
    by_cases hkey : k = key
    · rw [if_pos hkey]
      exact (SortedMap.find_erase.trans (if_pos hkey)).symm
    · rw [if_neg hkey, h k]
      exact (SortedMap.find_erase.trans (if_neg hkey)).symm

/-- A stored tree that is read right, whether the validation accepts it or not. -/
structure Readable (s : BPlusTree) (r : PRoot) : Prop where
  live : s.pager.Live
  stores : s.pager.Stores r
  proper : r.tree.Proper
  sorted : r.tree.Sorted
  height : ∀ n t, r = some ⟨n, t⟩ → n < maxTreeHeight

theorem Holds.readable (h : s.Holds r) : s.Readable r :=
  ⟨h.live, h.stores, h.valid.proper, h.valid.sorted, fun _ _ ht => h.height_lt ht⟩

theorem Readable.get_eq (h : s.Readable r) (hkey : key.length ≤ maxTreeKeyBytes) :
    s.pager.get key = .ok (mapOf r key) :=
  get_proper h.live.healthy h.stores h.proper h.sorted h.height hkey

/-- A readable tree that is accepted is valid. -/
theorem Readable.holds (h : s.Readable r) (haccepted : s.Accepted) : s.Holds r := by
  obtain ⟨r', hr', hvalid⟩ := (accepted_iff h.live).1 haccepted
  rw [← h.stores.unique hr' h.proper] at hvalid
  exact ⟨h.live, h.stores, hvalid⟩

theorem mem_entries_iff (hsorted : r.tree.Sorted) :
    mapOf r key = some value ↔ ∃ e ∈ r.tree.entries, e.pair = (key, value) := by
  rw [mapOf, valueOf, Option.map_eq_some_iff]
  constructor
  · rintro ⟨e, hlook, rfl⟩
    obtain ⟨he, rfl⟩ := (lookupBy_eq_some hsorted).1 hlook
    exact ⟨e, he, rfl⟩
  · rintro ⟨e, he, hpair⟩
    cases hpair
    exact ⟨e, (lookupBy_eq_some hsorted).2 ⟨he, rfl⟩, rfl⟩

/-- No key of a stored tree is longer than the limit. -/
theorem Readable.key_le (h : s.Readable r) (hkey : mapOf r key = some value) : key.length ≤ maxTreeKeyBytes := by
  obtain ⟨e, he, hpair⟩ := (mem_entries_iff h.sorted).1 hkey
  cases hpair
  cases r with
  | none => cases he
  | some t => exact PTree.On.key_le h.stores.on.2 e he

/-- A handle and a reference engine with one map. -/
def Follows (s : BPlusTree) (engine : MemoryEngine) : Prop :=
  ∃ r, s.Readable r ∧ Agrees (mapOf r) engine.values

theorem Follows.get_eq (h : s.Follows engine) (hkey : key.length ≤ maxTreeKeyBytes) :
    s.pager.get key = .ok (engine.values.find key) := by
  obtain ⟨r, hreadable, hagrees⟩ := h
  rw [hreadable.get_eq hkey, hagrees key]

/-- **The rows of a range** are those of the reference engine. -/
theorem Follows.rows_eq {start : Bytes} {stop : Option Bytes} {limit : ℕ} (h : s.Follows engine)
    (hrange : ValidRange start stop) :
    s.pager.rangeScan start stop limit = .ok ((engine.range start stop).take limit) := by
  obtain ⟨r, hreadable, hagrees⟩ := h
  have hrows : rangeRows start stop r.tree.entries = engine.range start stop := by
    have hsorted : SortedBy Prod.fst (rangeRows start stop r.tree.entries) := by
      have hentries : SortedBy Entry.key r.tree.entries := hreadable.sorted
      rw [rangeRows, sortedBy_map]
      exact hentries.sublist List.filter_sublist
    refine hsorted.ext MemoryEngine.sorted_range fun row => ?_
    obtain ⟨key, value⟩ := row
    rw [MemoryEngine.mem_range, ← hagrees key, mem_entries_iff hreadable.sorted, rangeRows, List.mem_map]
    constructor
    · rintro ⟨e, he, hpair⟩
      rw [List.mem_filter, decide_eq_true_eq] at he
      cases hpair
      exact ⟨he.2, e, he.1, rfl⟩
    · rintro ⟨hin, e, he, hpair⟩
      cases hpair
      exact ⟨e, List.mem_filter.2 ⟨he, decide_eq_true hin⟩, rfl⟩
  rw [rangeScan_proper hreadable.live hreadable.stores hreadable.proper hreadable.sorted hreadable.height hrange, hrows]

/-! ### Mutations -/

/-- A deletion from a tree that is not accepted ends well only if the key is absent. -/
theorem delete_unaccepted (hno : ¬ s.Accepted) (hdelete : delete key s = (.ok previous, s')) :
    s.pager.get key = .ok none ∧ previous = none ∧ s' = s := by
  have hsame := @delete_rejected s key fun hok => hno hok.2
  rw [hdelete] at hsame
  obtain rfl : s' = s := hsame
  have hkey := delete_limits hdelete
  have hcheck : validateKey key = .ok () := if_neg (not_lt.2 hkey)
  rw [delete, Prog.bind_ok (a := ()) (t := s') (by rw [hcheck]; rfl)] at hdelete
  cases hget : s'.pager.get key with
  | error e =>
    rw [Prog.bind_error (e := e) (t := s') (by rw [query, Prog.reads, hget])] at hdelete
    cases hdelete
  | ok found =>
    rw [Prog.bind_ok (a := found) (t := s') (by rw [query, Prog.reads, hget])] at hdelete
    cases found with
    | none =>
      cases hdelete
      exact ⟨rfl, rfl, rfl⟩
    | some value =>
      -- the pages of the tree cannot be collected
      cases hreach : s'.pager.reachablePages with
      | ok ids => exact absurd ⟨ids, hreach⟩ hno
      | error e =>
        have hrefresh : refreshReusablePages s' = (.error e, s') :=
          Prog.bind_error (by rw [query, Prog.reads, hreach])
        dsimp only at hdelete
        rw [Prog.bind_error hrefresh] at hdelete
        cases hdelete

/-- **A put that ends well** leaves a readable tree with the new map. -/
theorem Readable.put (h : s.Readable r) (hput : put key value s = (.ok previous, s')) :
    previous = mapOf r key ∧ ∃ r', s'.Readable r' ∧ mapOf r' = (Mutation.put key value).apply (mapOf r) := by
  obtain ⟨r₀, hr₀, hvalid, r', hcommit, hafter⟩ := put_ok h.live hput
  obtain rfl := h.stores.unique hr₀ h.proper
  have hholds : s.Holds r := ⟨h.live, h.stores, hvalid⟩
  obtain ⟨hprevious, r₁, -, hr₁, hproper, hsorted, hmap, -⟩ := hholds.put hput
  obtain rfl := hr₁.unique hcommit.stores hproper
  refine ⟨hprevious, r₁, ⟨hcommit.live, hcommit.stores, hproper, hsorted, fun m t' hr' => ?_⟩, hmap⟩
  rcases hafter.height_le hr' with rfl | ⟨n, t, rfl, hle⟩
  · rw [maxTreeHeight_eq]
    omega
  · have hlt := PTree.levels_add_one_lt h.live.bound h.stores.on.2 h.stores.nodup hvalid.wide
    omega

/-- **A put that ends well** keeps the handle in step. -/
theorem Follows.put (h : s.Follows engine) (hput : put key value s = (.ok previous, s')) :
    previous = engine.values.find key ∧ s'.Follows ⟨(Mutation.put key value).mutate engine.values⟩ := by
  obtain ⟨r, hreadable, hagrees⟩ := h
  obtain ⟨rfl, r', hreadable', hmap⟩ := hreadable.put hput
  refine ⟨hagrees key, r', hreadable', ?_⟩
  rw [hmap]
  exact hagrees.mutate (.put key value)

/-- **A deletion that ends well** keeps the handle in step. -/
theorem Follows.delete (h : s.Follows engine) (hdelete : delete key s = (.ok previous, s')) :
    previous = engine.values.find key ∧ s'.Follows ⟨(Mutation.delete key).mutate engine.values⟩ := by
  obtain ⟨r, hreadable, hagrees⟩ := h
  by_cases haccepted : s.Accepted
  · obtain ⟨rfl, r', hholds, hmap⟩ := (hreadable.holds haccepted).delete hdelete
    refine ⟨hagrees key, r', hholds.readable, ?_⟩
    rw [hmap]
    exact hagrees.mutate (.delete key)
  · obtain ⟨habsent, rfl, rfl⟩ := delete_unaccepted haccepted hdelete
    rw [hreadable.get_eq (delete_limits hdelete), Except.ok.injEq] at habsent
    refine ⟨habsent.symm.trans (hagrees key), r, hreadable, ?_⟩
    have hsame : (Mutation.delete key).apply (mapOf r) = mapOf r := by
      rw [Mutation.apply, ← habsent, Function.update_eq_self]
    rw [← hsame]
    exact hagrees.mutate (.delete key)

theorem Follows.mutated (h : s.Follows engine) (hrun : c.run s = (.ok previous, s')) :
    s'.Follows ⟨c.mutate engine.values⟩ := by
  cases c with
  | put key value => exact (h.put hrun).2
  | delete key => exact (h.delete hrun).2

/-- **A mutation that fails** and does not poison the handle leaves it in step as it was. -/
theorem Follows.failed {e : BtreeError} (h : s.Follows engine) (hrun : c.run s = (.error e, s'))
    (husable : s'.pager.poisoned = false) : s'.Follows engine := by
  by_cases hsame : s' = s
  · rwa [hsame]
  · have hchanged : (c.run s).2 ≠ s := by rwa [hrun]
    obtain ⟨hlimits, haccepted⟩ := Mutation.checked hchanged
    obtain ⟨r, hreadable, hagrees⟩ := h
    have hholds := hreadable.holds haccepted
    rcases Prog.wp_error (Mutation.stored hholds.live hholds.stores hholds.valid hlimits) hrun with
      hhalt | ⟨hpoisoned, -⟩
    · rcases hhalt.safe with ⟨hpoisoned, -⟩ | ⟨hlive', hkeeps⟩
      · rw [husable] at hpoisoned
        cases hpoisoned
      · have hholds' : s'.Holds r := ⟨hlive', hholds.stores.keeps hhalt.root hkeeps, hholds.valid⟩
        exact ⟨r, hholds'.readable, hagrees⟩
    · rw [husable] at hpoisoned
      cases hpoisoned

/-- **A reopening that ends well** keeps the handle in step. -/
theorem Follows.opened (h : s.Follows engine) (hopen : openFile s.pager.file = .ok s') : s'.Follows engine := by
  obtain ⟨r, hreadable, hagrees⟩ := h
  obtain ⟨p, hpager, hp, -, hroot, hkeeps⟩ := hreadable.live.recovers Set.univ
  have hr' : p.Stores r := hreadable.stores.keeps hroot (hkeeps.mono (Set.subset_univ _))
  have hvalid := (opens_iff hpager hp hr' hreadable.proper).1 ⟨s', hopen⟩
  rw [← openFile_pager hpager hopen] at hr' hp
  have hholds : s'.Holds r := ⟨hp, hr', hvalid⟩
  exact ⟨r, hholds.readable, hagrees⟩

/-! ### Conformance -/

theorem put_refines (key value : Bytes) :
    Prog.Refines Follows ((BPlusTree.put key value).mapError commonError) (MemoryEngine.put key value) := by
  intro s engine h previous s' hrun
  have hput := Prog.mapError_eq_ok.1 hrun
  obtain ⟨rfl, hafter⟩ := h.put hput
  exact ⟨_, MemoryEngine.put_run (DbLab.validateKeyValue_eq_ok.2 (put_limits hput)), hafter⟩

theorem get_refines (key : Bytes) :
    Prog.Refines Follows ((query fun pager => pager.get key).mapError commonError) (MemoryEngine.get key) := by
  intro s engine h found s' hrun
  have hquery := Prog.mapError_eq_ok.1 hrun
  rw [query, Prog.reads, Prod.mk.injEq] at hquery
  obtain ⟨hfound, rfl⟩ := hquery
  have hkey : key.length ≤ maxTreeKeyBytes := by
    by_contra hlong
    rw [Pager.get, validateKey, if_pos (not_le.1 hlong)] at hfound
    cases hfound
  rw [h.get_eq hkey] at hfound
  rw [← Except.ok.inj hfound]
  exact ⟨engine, MemoryEngine.get_run (DbLab.validateKey_eq_ok.2 hkey), h⟩

theorem delete_refines (key : Bytes) :
    Prog.Refines Follows ((BPlusTree.delete key).mapError commonError) (MemoryEngine.delete key) := by
  intro s engine h previous s' hrun
  have hdelete := Prog.mapError_eq_ok.1 hrun
  obtain ⟨rfl, hafter⟩ := h.delete hdelete
  exact ⟨_, MemoryEngine.delete_run (DbLab.validateKey_eq_ok.2 (delete_limits hdelete)), hafter⟩

theorem reopen_refines : Prog.Refines Follows reopenFile MemoryEngine.reopen := by
  intro s engine h u s' hrun
  refine ⟨engine, rfl, ?_⟩
  rw [reopenFile] at hrun
  cases hopen : openFile s.pager.file with
  | error error =>
    rw [hopen] at hrun
    cases hrun
  | ok reopened =>
    rw [hopen] at hrun
    obtain rfl : s' = reopened := (Prod.mk.inj hrun).2.symm
    exact h.opened hopen

theorem validRange_of_ok {start : Bytes} {stop : Option Bytes} {limit : ℕ} {rows : List (Bytes × Bytes)}
    (h : s.pager.rangeScan start stop limit = .ok rows) : ValidRange start stop := by
  rw [Pager.rangeScan, validateKey] at h
  obtain ⟨⟨⟩, hstart, h⟩ := bind_eq_ok.1 h
  rw [guard_eq_ok] at hstart
  refine ⟨not_lt.1 hstart.1, ?_⟩
  rintro bound ⟨⟩
  dsimp only at h
  obtain ⟨⟨⟩, hlength, h⟩ := bind_eq_ok.1 h
  rw [validateKey, guard_eq_ok] at hlength
  refine ⟨not_lt.1 hlength.1, ?_⟩
  by_contra hlt
  rw [if_pos (not_le.1 hlt)] at h
  cases h

theorem validateRangeScan_ok {start : Bytes} {stop : Option Bytes} (h : ValidRange start stop) :
    Experiment.validateRangeScan start stop = .ok () := by
  unfold Experiment.validateRangeScan
  rw [DbLab.validateKey_eq_ok (u := ()) |>.2 h.lower, ok_bind]
  cases stop with
  | none => rfl
  | some bound =>
    obtain ⟨hlength, hle⟩ := h.upper bound rfl
    exact bind_eq_ok.2 ⟨(), DbLab.validateKey_eq_ok.2 hlength, failWhen_eq_ok.2 (not_lt.2 hle)⟩

theorem rangeScan_refines (start : Bytes) (stop : Option Bytes) (limit : ℕ) : Prog.Refines Follows
    ((query fun pager => pager.rangeScan start stop limit).mapError commonError)
    (MemoryEngine.rangeScan start stop limit) := by
  intro s engine h rows s' hrun
  have hquery := Prog.mapError_eq_ok.1 hrun
  rw [query, Prog.reads, Prod.mk.injEq] at hquery
  obtain ⟨hrows, rfl⟩ := hquery
  have hrange := validRange_of_ok hrows
  rw [h.rows_eq hrange] at hrows
  rw [← Except.ok.inj hrows]
  exact ⟨engine, MemoryEngine.rangeScan_run (validateRangeScan_ok hrange), h⟩

theorem conforms : Experiment.Conforms Follows :=
  ⟨put_refines, get_refines, delete_refines, rangeScan_refines, reopen_refines⟩

/-- The unpoisoned handles, with the values that the mutations that ended well make of the first ones. -/
inductive Tracked : SortedMap Bytes Bytes → BPlusTree → Prop
  | created : Tracked .empty createNew
  | opened {file : PageFile} {s : BPlusTree} {values : SortedMap Bytes Bytes} : openFile file = .ok s →
      (∀ key value, values.find key = some value → key.length ≤ maxTreeKeyBytes) → s.Shows values.find →
      Tracked values s
  | mutated {values : SortedMap Bytes Bytes} {s s' : BPlusTree} {c : Mutation} {previous : Option Bytes} :
      Tracked values s → c.run s = (.ok previous, s') → Tracked (c.mutate values) s'
  | failed {values : SortedMap Bytes Bytes} {s s' : BPlusTree} {c : Mutation} {e : BtreeError} :
      Tracked values s → c.run s = (.error e, s') → s'.pager.poisoned = false → Tracked values s'
  | reopened {values : SortedMap Bytes Bytes} {s s' : BPlusTree} :
      Tracked values s → openFile s.pager.file = .ok s' → Tracked values s'

theorem Tracked.follows (h : Tracked values s) : s.Follows ⟨values⟩ := by
  induction h with
  | created => exact ⟨none, holds_createNew.readable, fun _ => rfl⟩
  | @opened file s values hopen hkeys hshows =>
    obtain ⟨hlive, -, haccepted⟩ := openFile_live hopen
    obtain ⟨r, hr, hvalid⟩ := (accepted_iff hlive).1 haccepted
    have hholds : s.Holds r := ⟨hlive, hr, hvalid⟩
    refine ⟨r, hholds.readable, fun key => ?_⟩
    by_cases hkey : key.length ≤ maxTreeKeyBytes
    · exact Except.ok.inj ((hholds.shows key hkey).symm.trans (hshows key hkey))
    · -- neither map has a key behind the limit
      have hnone : mapOf r key = none := by
        rw [Option.eq_none_iff_forall_ne_some]
        exact fun value hvalue => hkey (hholds.readable.key_le hvalue)
      have hnone' : values.find key = none := by
        rw [Option.eq_none_iff_forall_ne_some]
        exact fun value hvalue => hkey (hkeys key value hvalue)
      rw [hnone]
      exact hnone'.symm
  | mutated _ hrun ih => exact ih.mutated hrun
  | failed _ hrun husable ih => exact ih.failed hrun husable
  | reopened _ hopen ih => exact ih.opened hopen

theorem comparable : Experiment.checkComparable MemoryEngine.capabilities capabilities = .ok () := rfl

/-- **The tree never answers wrong.** From a new file or from any file that opens, through mutations that end well
or fail and through reopenings, every lookup is that of the mutations that ended well, and no workload tells the
tree from the reference engine: the comparison ends well or at an error of the tree. -/
theorem tree_matches_reference (h : Tracked values s) :
    (∀ key : Bytes, key.length ≤ maxTreeKeyBytes → s.pager.get key = .ok (values.find key)) ∧
    ∀ workload : Experiment.Workload, workload.validate = .ok () →
      (Experiment.compareWorkload workload ((⟨values⟩ : MemoryEngine), s)).1 = .ok ⟨workload.steps.length⟩ ∨
        ∃ index source, (Experiment.compareWorkload workload ((⟨values⟩ : MemoryEngine), s)).1 =
          .error (.rightEngine index source) :=
  ⟨fun _ hkey => h.follows.get_eq hkey, fun _ hvalid => conforms.verdict h.follows hvalid comparable⟩

theorem tree_matches_reference_put : ∃ s, BPlusTree.put [97] [1] createNew = (.ok none, s) ∧
    s.pager.get [97] = .ok (some [1]) ∧ ∀ workload : Experiment.Workload, workload.validate = .ok () →
      (Experiment.compareWorkload workload ((⟨SortedMap.empty.insert [97] [1]⟩ : MemoryEngine), s)).1 =
          .ok ⟨workload.steps.length⟩ ∨
        ∃ index source, (Experiment.compareWorkload workload
          ((⟨SortedMap.empty.insert [97] [1]⟩ : MemoryEngine), s)).1 = .error (.rightEngine index source) := by
  have hrun : (Mutation.put [97] [1]).run createNew = (.ok none, (BPlusTree.put [97] [1] createNew).2) :=
    Prod.ext (by decide +kernel) rfl
  obtain ⟨hget, hcompare⟩ := tree_matches_reference (Tracked.mutated .created hrun)
  exact ⟨_, hrun, hget [97] (by decide), hcompare⟩

end BPlusTree
end DbLab.Btree
