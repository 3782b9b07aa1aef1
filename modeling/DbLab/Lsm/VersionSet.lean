import DbLab.Lsm.Reopen

/-!
# The invariant of the version set over runs

A session starts with a new directory or with a valid one, and goes on with any calls, under any outcomes
of the accesses to the directory. In every state of a run the tables and the memtables are stacked by
their sequence numbers, so that the first layer that has a key has its newest version, and a range scan
shows what the point lookups find.
-/

namespace DbLab.Lsm

open Store LsmEngine

inductive Call
  | put (key value : Bytes)
  | get (key : Bytes)
  | delete (key : Bytes)
  | rangeScan (start : Bytes) (stop : Option Bytes) (limit : ℕ)
  | reopen
  deriving DecidableEq

def Call.run : Call → EngineProg Unit
  | put key value => (fun _ => ()) <$> LsmEngine.put key value
  | get key => (fun _ => ()) <$> LsmEngine.get key
  | delete key => (fun _ => ()) <$> LsmEngine.delete key
  | rangeScan start stop limit => (fun _ => ()) <$> LsmEngine.rangeScan start stop limit
  | reopen => LsmEngine.reopen

/-- The session behind a call, under the outcomes `io` of its accesses. -/
def Session.call (s : Session) (io : List Io) (c : Call) : Session :=
  (c.run { s with store := { s.store with io := io } }).2

/-- The sessions that calls lead to, from a new directory or from a valid one. -/
inductive Reachable : Session → Prop
  | created {io : List Io} {engine : LsmEngine} {store : Store} :
      initializeNew ⟨Files.empty, io, []⟩ = (.ok engine, store) → Reachable ⟨store, engine⟩
  | opened {files : Files} {io : List Io} {engine : LsmEngine} {store : Store} :
      ValidDirectory files → openExisting ⟨files, io, []⟩ = (.ok engine, store) →
      Reachable ⟨store, engine⟩
  | call {s : Session} (io : List Io) (c : Call) : Reachable s → Reachable (s.call io c)

/-- The order of the sequence numbers in the tables and the memtables. -/
structure VersionSetInvariant (e : LsmEngine) : Prop where
  descriptors : e.tables.map SsTable.descriptor = e.version.tables
  ids : (e.version.tables.map SstableDescriptor.tableId).Pairwise (· < ·)
  durables : (e.version.tables.map SstableDescriptor.durableSequence).Pairwise (· < ·)
  /-- A record is at most at the durable sequence of its table. -/
  records_le : ∀ table ∈ e.tables, ∀ key entry, table.index.find key = some entry →
    entry.sequence ≤ table.descriptor.durableSequence
  /-- A record is above the durable sequences of the tables before its own. -/
  records_lt : e.tables.Pairwise fun older newer => ∀ key entry, newer.index.find key = some entry →
    older.descriptor.durableSequence < entry.sequence
  memtables : ∀ table ∈ e.memtables.tables, ∀ key entry, table.entries.find key = some entry →
    e.version.durableSequence < entry.sequence
  newer : e.memtables.tables.Pairwise fun older newer => ∀ key entry key' entry',
    older.entries.find key = some entry → newer.entries.find key' = some entry' →
    entry.sequence < entry'.sequence

variable {s : Session} {files : Files} {e : LsmEngine}

theorem Layered.invariant (h : Layered files e) : VersionSetInvariant e := by
  obtain ⟨last, hmemory, -⟩ := h.memory
  have hmem : (e.memtables.stack last).map Prod.fst = e.memtables.tables.map MemTable.entries :=
    MemTableSet.stack_layers last
  constructor
  · exact h.opened.descriptors_eq
  · exact (List.isChain_iff_pairwise.1 h.rising.ids).of_cons
  · exact (List.isChain_iff_pairwise.1 h.rising.durables).of_cons
  · intro table htable key entry hentry
    exact h.opened.stacked.le_high (List.mem_map.2 ⟨table, htable, rfl⟩) hentry
  · have hpairs := h.opened.stacked.pairwise
    rw [tableStack, List.pairwise_map] at hpairs
    exact hpairs
  · intro table htable key entry hentry
    have hlayer : table.entries ∈ (e.memtables.stack last).map Prod.fst := by
      rw [hmem]
      exact List.mem_map.2 ⟨table, htable, rfl⟩
    obtain ⟨top, htop, heq⟩ := List.mem_map.1 hlayer
    rw [← heq] at hentry
    exact (hmemory.stacked.within htop key entry hentry).1
  · have hlayers := hmemory.stacked.ascending
    rw [hmem, Ascending, List.pairwise_map] at hlayers
    exact hlayers

/-- **One rule for the calls**: they check their arguments and the engine first, a read changes nothing, and
a mutation is `persist_and_apply`. -/
theorem Call.wp_run {J : Files → History → LsmEngine → Prop} {Q : Session → Prop} (c : Call)
    (hJ : J s.store.files s.store.history s.engine) (hread : s.engine.poisoned = false → Q s)
    (hput : ∀ key value, Prog.wp (persistAndApply .put key (some value)) (fun _ s' => Q s') (Kept J) s)
    (hdelete : ∀ key, Prog.wp (persistAndApply .delete key none) (fun _ s' => Q s') (Kept J) s)
    (hreopen : c = .reopen → Prog.wp LsmEngine.reopen (fun _ s' => Q s') (Kept J) s) :
    Prog.wp c.run (fun _ s' => Q s') (Kept J) s := by
  cases c with
  | put key value =>
    rw [Call.run, Prog.wp_map, LsmEngine.put, Prog.wp_bind]
    refine wp_checked hJ fun _ _ => ?_
    rw [Prog.wp_bind]
    refine wp_ensureUsable hJ fun _ _ => ?_
    rw [Prog.wp_bind]
    refine wp_engine ?_
    rw [Prog.wp_bind]
    exact Prog.wp_mono (hput key value) (fun _ _ h' => h') fun _ _ he => he
  | get key =>
    rw [Call.run, Prog.wp_map, LsmEngine.get, Prog.wp_bind]
    refine wp_checked hJ fun _ _ => ?_
    rw [Prog.wp_bind]
    exact wp_ensureUsable hJ fun husable _ => hread husable
  | delete key =>
    rw [Call.run, Prog.wp_map, LsmEngine.delete, Prog.wp_bind]
    refine wp_checked hJ fun _ _ => ?_
    rw [Prog.wp_bind]
    refine wp_ensureUsable hJ fun _ _ => ?_
    rw [Prog.wp_bind]
    refine wp_engine ?_
    rw [Prog.wp_bind]
    exact Prog.wp_mono (hdelete key) (fun _ _ h' => h') fun _ _ he => he
  | rangeScan start stop limit =>
    rw [Call.run, Prog.wp_map, LsmEngine.rangeScan, Prog.wp_bind]
    refine wp_checked hJ fun _ _ => ?_
    rw [Prog.wp_bind]
    refine wp_ensureUsable hJ fun husable _ => ?_
    rw [Prog.wp_bind]
    refine wp_engine ?_
    split_ifs
    · exact hread husable
    · exact hread husable
  | reopen => exact hreopen rfl

/-- Every call keeps the layers. -/
theorem Call.layered (c : Call) (h : Layered s.store.files s.engine) :
    Prog.wp c.run (fun _ s' => Layered s'.store.files s'.engine) (Kept LayeredSession) s := by
  refine c.wp_run h (fun _ => h) (fun _ _ => ?_) (fun _ => ?_) fun _ => reopen_layered h
  · exact persistAndApply_layered h
  · exact persistAndApply_layered h

/-- What a program keeps, whether it succeeds or not. -/
theorem kept_of_wp {J : Files → History → LsmEngine → Prop} {x : EngineProg Unit}
    (h : Prog.wp x (fun _ s' => J s'.store.files s'.store.history s'.engine) (Kept J) s) :
    J (x s).2.store.files (x s).2.store.history (x s).2.engine := by
  rw [Prog.wp_iff_forall] at h
  rcases hx : x s with ⟨err | u, s'⟩
  · exact h.2 err s' hx
  · exact h.1 u s' hx

theorem Reachable.layered (h : Reachable s) : Layered s.store.files s.engine := by
  induction h with
  | created hrun => exact Prog.wp_ok initializeNew_layered hrun
  | opened hvalid hrun => exact (Prog.wp_ok (openExisting_layered hvalid) hrun).1
  | call io c _ ih =>
    exact @kept_of_wp _ LayeredSession _ (Call.layered c ih)

theorem mem_liveRows {visible : VersionMap} {key value : Bytes} :
    (key, value) ∈ liveRows visible ↔ ∃ entry, visible.find key = some entry ∧ entry.value = some value := by
  rw [liveRows, List.mem_filterMap]
  constructor
  · rintro ⟨⟨key', entry⟩, hmem, hvalue⟩
    rw [Option.map_eq_some_iff] at hvalue
    obtain ⟨value', hvalue', heq⟩ := hvalue
    cases heq
    exact ⟨entry, SortedMap.find_eq_some.2 hmem, hvalue'⟩
  · rintro ⟨entry, hfind, hvalue⟩
    exact ⟨(key, entry), SortedMap.find_eq_some.1 hfind, by rw [hvalue]; rfl⟩

theorem sorted_liveRows (visible : VersionMap) : SortedBy Prod.fst (liveRows visible) := by
  refine List.Pairwise.filterMap _ (fun a b hab a' ha' b' hb' => ?_) visible.sorted
  rw [Option.map_eq_some_iff] at ha' hb'
  obtain ⟨_, _, rfl⟩ := ha'
  obtain ⟨_, _, rfl⟩ := hb'
  exact hab

theorem Layered.mem_rows (h : Layered files e) {start key value : Bytes} {stop : Option Bytes} :
    (key, value) ∈ liveRows (e.visibleRange start stop) ↔
      SsTable.InRange start stop key ∧ e.currentValue key = some value := by
  rw [mem_liveRows, h.find_visibleRange]
  by_cases hin : SsTable.InRange start stop key
  · rw [if_pos hin, currentValue, Option.bind_eq_some_iff, and_iff_right hin]
  · rw [if_neg hin]
    simp [hin]

/-- What a successful range scan and a successful lookup return. -/
theorem rangeScan_eq_ok {start : Bytes} {stop : Option Bytes} {limit : ℕ} {rows : List (Bytes × Bytes)}
    {s' : Session} (h : rangeScan start stop limit s = (.ok rows, s')) :
    s.engine.poisoned = false ∧ s.engine.wal.isSome ∧
      (rows = [] ∧ (limit = 0 ∨ stop = some start) ∨
        rows = (liveRows (s.engine.visibleRange start stop)).take limit) := by
  have hwp : Prog.wp (rangeScan start stop limit) (fun rows _ => s.engine.poisoned = false ∧
      s.engine.wal.isSome ∧ (rows = [] ∧ (limit = 0 ∨ stop = some start) ∨
        rows = (liveRows (s.engine.visibleRange start stop)).take limit))
      (Kept fun _ _ _ => True) s := by
    rw [rangeScan, Prog.wp_bind]
    refine wp_checked trivial fun _ _ => ?_
    rw [Prog.wp_bind]
    refine wp_ensureUsable trivial fun hpoisoned hwal => ?_
    rw [Prog.wp_bind]
    refine wp_engine ?_
    split_ifs with hempty
    · exact ⟨hpoisoned, hwal, .inl ⟨rfl, hempty⟩⟩
    · exact ⟨hpoisoned, hwal, .inr rfl⟩
  exact Prog.wp_ok hwp h

theorem get_run {key : Bytes} (hkey : key.length ≤ maxKeyBytes) (hpoisoned : s.engine.poisoned = false)
    (hwal : s.engine.wal.isSome) : LsmEngine.get key s = (.ok (s.engine.currentValue key), s) := by
  have husable : ensureUsable s = (.ok (), s) := by
    rw [ensureUsable, Prog.reads, hpoisoned, if_neg]
    rintro (h | hnone)
    · cases h
    · rw [Option.isNone_iff_eq_none] at hnone
      rw [hnone] at hwal
      cases hwal
  rw [LsmEngine.get, (validateKey_eq_ok (u := ())).2 hkey, Prog.ofExcept_ok_bind, Prog.bind_ok husable]
  rfl

/-- **The version set over runs.** In every reachable state the tables and the memtables are ordered by
their sequence numbers, a point lookup finds the newest version of its key in all layers, and a range scan
returns the values that the point lookups return, in the order of the keys. -/
theorem version_set_invariant (h : Reachable s) :
    ValidDirectory s.store.files ∧ VersionSetInvariant s.engine ∧
    (∀ key, ∀ layer ∈ s.engine.layers, ∀ entry, layer.find key = some entry →
      ∃ first, s.engine.currentEntry key = some first ∧ entry.sequence ≤ first.sequence) ∧
    (∀ key first, s.engine.currentEntry key = some first →
      ∃ layer ∈ s.engine.layers, layer.find key = some first) ∧
    ∀ start stop limit rows s', rangeScan start stop limit s = (.ok rows, s') →
      ∃ all, rows = all.take limit ∧ SortedBy Prod.fst all ∧
        ∀ key value, key.length ≤ maxKeyBytes → ((key, value) ∈ all ↔
          SsTable.InRange start stop key ∧ LsmEngine.get key s = (.ok (some value), s)) := by
  have hlayered := h.layered
  refine ⟨hlayered.directory, hlayered.invariant, ?_, ?_, ?_⟩
  · intro key layer hlayer entry hentry
    cases hfirst : s.engine.currentEntry key with
    | none =>
      rw [currentEntry_eq, firstHit, List.findSome?_eq_none_iff] at hfirst
      have hnone := hfirst layer (List.mem_reverse.2 hlayer)
      rw [hentry] at hnone
      cases hnone
    | some first => exact ⟨first, rfl, hlayered.currentEntry_newest hfirst hlayer hentry⟩
  · intro key first hfirst
    rw [currentEntry_eq] at hfirst
    exact firstHit_mem hfirst
  · intro start stop limit rows s' hscan
    obtain ⟨hpoisoned, hwal, hrows⟩ := rangeScan_eq_ok hscan
    refine ⟨liveRows (s.engine.visibleRange start stop), ?_, sorted_liveRows _, fun key value hkey => ?_⟩
    · rcases hrows with ⟨rfl, hempty⟩ | rfl
      · rcases hempty with rfl | rfl
        · rfl
        · have hnil : liveRows (s.engine.visibleRange start (some start)) = [] := by
            rw [List.eq_nil_iff_forall_not_mem]
            rintro ⟨key, value⟩ hmem
            obtain ⟨⟨hle, hlt⟩, -⟩ := hlayered.mem_rows.1 hmem
            exact (hlt start rfl).not_ge hle
          rw [hnil, List.take_nil]
      · rfl
    · rw [hlayered.mem_rows, get_run hkey hpoisoned hwal]
      simp

theorem exists_initializeNew : ∃ engine store, initializeNew ⟨Files.empty, [], []⟩ = (.ok engine, store) := by
  have hok : (initializeNew ⟨Files.empty, [], []⟩).1.isOk = true := by decide +kernel
  rcases hrun : initializeNew ⟨Files.empty, [], []⟩ with ⟨e | engine, store⟩
  · rw [hrun] at hok
    cases hok
  · exact ⟨engine, store, rfl⟩

/-- A new engine behind its first mutation. -/
theorem version_set_invariant_first : ∃ s, Reachable s ∧ VersionSetInvariant s.engine := by
  obtain ⟨engine, store, hrun⟩ := exists_initializeNew
  have hput : Reachable (Session.call ⟨store, engine⟩ [] (.put [97] [49])) := .call [] _ (.created hrun)
  exact ⟨_, hput, (version_set_invariant hput).2.1⟩

end DbLab.Lsm
