import DbLab.Lsm.Layers

/-!
# The operations keep the layers

A flush moves the oldest frozen memtable to the end of the tables, a compaction replaces the tables by one
table with sequence numbers up to the durable sequence, and a rotation changes no layer. Each of them
keeps `Layered`, also when it fails on the way.
-/

namespace DbLab.Lsm

open Store LsmEngine

/-- Every error leaves a session with `J`. -/
def Kept (J : Files → History → LsmEngine → Prop) : DbError → Session → Prop :=
  fun _ s => J s.store.files s.store.history s.engine

/-- The invariant of the version set, of a session. -/
def LayeredSession (files : Files) (_ : History) (e : LsmEngine) : Prop := Layered files e

variable {s : Session} {α : Type} {J : Files → History → LsmEngine → Prop} {files files' : Files}
  {e : LsmEngine}

theorem wp_onStore {x : StoreProg α} {Q : α → Session → Prop}
    (h : Prog.wp x (fun a t => Q a ⟨t, s.engine⟩) (Fails fun files history => J files history s.engine)
      s.store) : Prog.wp (onStore x) Q (Kept J) s :=
  Prog.wp_zoom.2 h

theorem wp_engine {Q : LsmEngine → Session → Prop} {E : DbError → Session → Prop} (h : Q s.engine s) :
    Prog.wp engine Q E s := h

theorem wp_modifyEngine {f : LsmEngine → LsmEngine} {Q : Unit → Session → Prop}
    {E : DbError → Session → Prop} (h : Q () ⟨s.store, f s.engine⟩) : Prog.wp (modifyEngine f) Q E s := h

theorem wp_checked {x : Except DbError α} {Q : α → Session → Prop}
    (hJ : J s.store.files s.store.history s.engine) (hok : ∀ a, x = .ok a → Q a s) :
    Prog.wp (Prog.ofExcept x) Q (Kept J) s := by
  rw [Prog.wp_ofExcept]
  exact ⟨hok, fun _ _ => hJ⟩

/-- Obsolete files of one family are removed, each of them or not. -/
theorem wp_reclaimObsolete {keys : Files → List ℕ} {obsolete : ℕ → Prop} [DecidablePred obsolete]
    {remove : ℕ → Files → Files} {I : Files → Prop} {Q : Unit → Session → Prop} {E : DbError → Session → Prop}
    (hstart : I s.store.files) (hstep : ∀ id, obsolete id → ∀ files, I files → I (remove id files))
    (hend : ∀ store : Store, I store.files → Q () ⟨store, s.engine⟩) :
    Prog.wp (onStore (reclaim (fun files => (keys files).filter fun id => CanonicalId id ∧ obsolete id) remove))
      Q E s := by
  refine Prog.wp_zoom.2 (Prog.wp_mono (@Store.wp_reclaim s.store (fun files _ => I files) _ remove
    (fun e t => E e ⟨t, s.engine⟩) hstart fun id hid files hfiles => ?_) (fun _ t ht => hend t ht)
    fun _ _ he => he)
  rw [List.mem_filter, decide_eq_true_eq] at hid
  exact hstep id hid.2.2 files hfiles

/-- **The end of a compaction** removes the other tables and manifests. -/
theorem wp_reclaimTables {active : Option ℕ} {manifestId : ℕ} {I : Files → Prop} {Q : Unit → Session → Prop}
    {E : DbError → Session → Prop} (hstart : I s.store.files)
    (htable : ∀ id, some id ≠ active → ∀ files, I files → I (removeTable id files))
    (hmanifest : ∀ id, id ≠ manifestId → ∀ files, I files → I (removeManifest id files))
    (hend : ∀ store : Store, I store.files → Q () ⟨store, s.engine⟩) :
    Prog.wp (onStore (reclaimObsoleteSstables active) >>= fun _ => onStore (reclaimObsoleteManifests manifestId))
      Q E s := by
  rw [Prog.wp_bind]
  exact wp_reclaimObsolete hstart htable fun _ ht => wp_reclaimObsolete ht hmanifest hend

/-- **The end of a rotation** removes the other logs and manifests. -/
theorem wp_reclaimWals {active manifestId : ℕ} {I : Files → Prop} {Q : Unit → Session → Prop}
    {E : DbError → Session → Prop} (hstart : I s.store.files)
    (hwal : ∀ id, id ≠ active → ∀ files, I files → I (removeWal id files))
    (hmanifest : ∀ id, id ≠ manifestId → ∀ files, I files → I (removeManifest id files))
    (hend : ∀ store : Store, I store.files → Q () ⟨store, s.engine⟩) :
    Prog.wp (onStore (reclaimObsoleteWals active) >>= fun _ => onStore (reclaimObsoleteManifests manifestId))
      Q E s := by
  rw [Prog.wp_bind]
  exact wp_reclaimObsolete hstart hwal fun _ ht => wp_reclaimObsolete ht hmanifest hend

/-- The table of a compaction has the id that is not removed. -/
theorem descriptor_ne {table : Option SsTable} {d : SstableDescriptor}
    (hd : d ∈ (table.map SsTable.descriptor).toList) {id : ℕ}
    (hid : some id ≠ table.map (fun table => table.descriptor.tableId)) : d.tableId ≠ id := by
  rintro rfl
  cases table with
  | none => cases hd
  | some table =>
    rw [Option.map_some, Option.toList_some, List.mem_singleton] at hd
    subst hd
    exact hid rfl

theorem wp_activeWal {Q : Wal → Session → Prop} (hJ : J s.store.files s.store.history s.engine)
    (hok : ∀ wal, s.engine.wal = some wal → Q wal s) : Prog.wp activeWal Q (Kept J) s := by
  rw [activeWal, Prog.wp_reads]
  refine ⟨fun wal h => hok wal ?_, fun _ _ => hJ⟩
  cases hwal : s.engine.wal with
  | none =>
    rw [hwal] at h
    cases h
  | some wal' =>
    rw [hwal] at h
    cases h
    rfl

theorem wp_ensureUsable {Q : Unit → Session → Prop} (hJ : J s.store.files s.store.history s.engine)
    (hok : s.engine.poisoned = false → s.engine.wal.isSome → Q () s) :
    Prog.wp ensureUsable Q (Kept J) s := by
  rw [ensureUsable, Prog.wp_reads]
  refine ⟨fun _ h => ?_, fun _ _ => hJ⟩
  split_ifs at h with hpoisoned
  rw [not_or, Bool.not_eq_true, Bool.not_eq_true, Option.isNone_eq_false_iff] at hpoisoned
  exact hok hpoisoned.1 hpoisoned.2

theorem wp_poisonOnError {x : EngineProg α} {Q : α → Session → Prop}
    {J' : Files → History → LsmEngine → Prop}
    (hJ : ∀ files history e, J' files history e → J files history { e with poisoned := true })
    (h : Prog.wp x Q (Kept J') s) : Prog.wp (poisonOnError x) Q (Kept J) s := by
  rw [Prog.wp_iff_forall] at h ⊢
  rcases hx : x s with ⟨err | a, s'⟩
  · have herr : poisonOnError x s =
        (.error err, { s' with engine := { s'.engine with poisoned := true } }) := by
      rw [poisonOnError, hx]
    rw [herr]
    refine ⟨fun _ _ heq => absurd heq (by simp), fun _ _ heq => ?_⟩
    cases heq
    exact hJ _ _ _ (h.2 _ _ hx)
  · have hok : poisonOnError x s = (.ok a, s') := by rw [poisonOnError, hx]
    rw [hok]
    refine ⟨fun _ _ heq => ?_, fun _ _ heq => absurd heq (by simp)⟩
    cases heq
    exact h.1 _ _ hx

/-! ### The invariant under changes of the directory -/

theorem Layered.grow (h : Layered files e) (hgrows : Grows files files')
    (hcurrent : files'.current = files.current) : Layered files' e where
  directory := h.directory.grow hgrows hcurrent
  opened := h.opened.grow hgrows
  rising := h.rising
  durable := h.durable
  legacy := h.legacy
  next := h.next
  memory := h.memory

theorem Layered.setSlot {file : CurrentFile} {slot : Option CurrentSlot} {generation : ℕ}
    (h : Layered files e) (hfile : files.current = some file) (hslot : ∀ s ∈ slot, SlotOk files s) :
    Layered (putCurrent (Store.setSlot generation slot file) files) e where
  directory := h.directory.setSlot hfile hslot
  opened := h.opened.grow ⟨fun _ _ h => h, fun _ _ h => h⟩
  rising := h.rising
  durable := h.durable
  legacy := h.legacy
  next := h.next
  memory := h.memory

theorem Layered.poison (h : Layered files e) : Layered files { e with poisoned := true } where
  directory := h.directory
  opened := h.opened
  rising := h.rising
  durable := h.durable
  legacy := h.legacy
  next := h.next
  memory := h.memory

theorem slotOk_written {version : VersionSet} {tables : List SsTable} {generation id : ℕ}
    {slot : Option CurrentSlot}
    (hid : version.manifestId = id) (hopened : Opened files 0 version.tables tables)
    (hslot : slot = none ∨ slot = some ⟨generation, id⟩) :
    ∀ s ∈ slot, SlotOk (putManifest id (.complete version.written) files) s := by
  rintro s hs
  rcases hslot with rfl | rfl
  · cases hs
  · cases hs
    refine ⟨version.written, tables, ?_, hid, hopened.congr fun _ _ _ hcontent => hcontent⟩
    rw [putManifest, SortedMap.find_insert, if_pos rfl]

theorem Settled.layered {id : ℕ} (h : Settled files id e.version.tables e.tables)
    (h' : Layered files' e) : Layered files e where
  directory := h.valid
  opened := h.opened
  rising := h'.rising
  durable := h'.durable
  legacy := h'.legacy
  next := h'.next
  memory := h'.memory

/-! ### The flush -/

/-- The directory behind the initial manifest. -/
theorem validDirectory_initial {current : CurrentFile} {version : VersionSet}
    (hcases : current = .short ∨ current = .slots (some ⟨0, 1⟩) (some ⟨0, 1⟩))
    (hversion : version.manifestId = 1) (hnil : version.tables = []) :
    ValidDirectory (putCurrent current (putManifest 1 (.complete version) files)) := by
  intro first second hcurrent slot hslot
  rcases hcases with rfl | rfl
  · cases hcurrent
  · cases hcurrent
    have hslot' : slot = ⟨0, 1⟩ := by
      rcases hslot with hslot | hslot
      · exact (Option.some.inj hslot).symm
      · exact (Option.some.inj hslot).symm
    subst hslot'
    refine ⟨version, [], ?_, hversion, by rw [hnil]; exact .nil⟩
    rw [putCurrent, putManifest, SortedMap.find_insert, if_pos rfl]

theorem ensureManifest_layered (h : Layered s.store.files s.engine) :
    Prog.wp ensureManifest
      (fun _ s' => Layered s'.store.files s'.engine ∧ s'.engine.memtables = s.engine.memtables)
      (Kept LayeredSession) s := by
  rw [ensureManifest, Prog.wp_bind]
  refine wp_engine ?_
  by_cases hid : s.engine.version.manifestId = 0
  · obtain ⟨htables, hdurable⟩ := h.legacy hid
    have hopened := h.opened
    rw [htables] at hopened
    -- A directory without a manifest has no tables, and the first version set lists none.
    have hempty : s.engine.tables = [] := by
      have hnil := hopened.descriptors_eq
      rwa [List.map_eq_nil_iff] at hnil
    rw [if_pos hid, Prog.wp_bind]
    refine wp_activeWal h fun wal _ => ?_
    rw [Prog.wp_bind]
    refine wp_onStore (wp_createInitial h (fun _ => h) (fun _ => h) (fun hnone _ manifest => ?_)
      (fun hnone manifest _ _ => ?_) ?_ ?_)
    · exact h.grow (grows_putManifest hnone) rfl
    · exact h.grow (grows_putManifest hnone) rfl
    · intro hnone hcurrent current version hcases hversion hnil
      exact { h with
        directory := validDirectory_initial hcases hversion hnil
        opened := h.opened.congr fun _ _ _ hcontent => hcontent }
    · intro version rest hnone hcurrent hversion hnil hzero _ _
      refine wp_modifyEngine ⟨?_, rfl⟩
      have hmem := h.memory
      rw [hdurable] at hmem
      constructor
      · exact @validDirectory_initial _ _ version.written (.inr rfl) hversion hnil
      · dsimp only
        rw [hnil, hempty]
        exact .nil
      · dsimp only
        rw [hnil]
        exact ⟨List.isChain_singleton _, List.isChain_singleton _⟩
      · dsimp only
        rw [hnil]
        exact Nat.zero_le _
      · intro _
        exact ⟨hnil, hzero⟩
      · exact Nat.zero_lt_two
      · dsimp only
        rw [hzero]
        exact hmem
  · rw [if_neg hid]
    exact ⟨h, rfl⟩

/-- **One round of the flush.** -/
theorem flushOldest_layered {entries : VersionMap} {durableSequence : ℕ}
    (h : Layered s.store.files s.engine)
    (hold : s.engine.memtables.oldestImmutableSnapshot = .ok (some (entries, durableSequence))) :
    Prog.wp (flushOldest entries durableSequence) (fun _ s' => Layered s'.store.files s'.engine)
      (Kept LayeredSession) s := by
  rw [flushOldest, Prog.wp_bind]
  refine Prog.wp_mono (ensureManifest_layered h) (fun _ s₁ h₁ => ?_) fun _ _ he => he
  obtain ⟨h₁, hmemtables⟩ := h₁
  rw [← hmemtables] at hold
  -- The oldest frozen memtable ends where the durable sequence of the new version set is.
  obtain ⟨last, hmemory, hwal⟩ := h₁.memory
  obtain ⟨rest, hretire, hwithin, hdurable, hrest, -⟩ := hmemory.retire hold
  rw [Prog.wp_bind]
  refine wp_engine ?_
  rw [Prog.wp_bind]
  refine wp_checked h₁ fun nextTableId _ => ?_
  rw [Prog.wp_bind]
  refine wp_checked h₁ fun nextManifestId hnext => ?_
  obtain ⟨-, rfl⟩ := checkedSucc_eq_ok.1 hnext
  rw [Prog.wp_bind]
  refine wp_onStore (wp_createSstable h₁ (fun _ => h₁) (fun _ => h₁) (fun hnone table =>
    h₁.grow (grows_putTable hnone) rfl) ?_)
  intro table content io hnone hopen hid _ hdur hindex
  have h₂ : Layered (putTable s₁.engine.nextTableId (.complete content) s₁.store.files) s₁.engine :=
    h₁.grow (grows_putTable hnone) rfl
  -- The new table lies above all tables that the engine has open.
  have hopened : Opened (putTable s₁.engine.nextTableId (.complete content) s₁.store.files) 0
      (s₁.engine.version.tables ++ [table.descriptor]) (s₁.engine.tables ++ [table]) := by
    have htop := h₂.opened.top_eq
    refine h₂.opened.append ?_ hopen ?_ ?_
    · rw [putTable, SortedMap.find_insert, if_pos hid]
    · rw [htop, hdur]
      exact h₂.durable.trans hdurable
    · rw [htop, hdur, hindex]
      exact hwithin.mono h₂.durable le_rfl
  rw [Prog.wp_bind]
  refine wp_onStore (wp_install h₂ (fun _ => h₂) (fun _ => h₂) (fun next _ _ hnone' manifest _ =>
    h₂.grow (grows_putManifest hnone') rfl) ?_ ?_)
  · intro next hnext' _ hnone' file slot _ hfile hslot
    have hid' : next.manifestId = s₁.engine.nextManifestId := by rw [hnext']; rfl
    have htables : next.tables = s₁.engine.version.tables ++ [table.descriptor] := by rw [hnext']; rfl
    rw [← htables] at hopened
    exact (h₂.grow (grows_putManifest hnone') rfl).setSlot hfile (slotOk_written hid' hopened hslot.slot_eq)
  · intro next io' hnext' hinstall hnone' file hfile
    have hid' : next.manifestId = s₁.engine.nextManifestId := by rw [hnext']; rfl
    have htables : next.tables = s₁.engine.version.tables ++ [table.descriptor] := by rw [hnext']; rfl
    have hsequence : next.durableSequence = durableSequence := by rw [hnext']; rfl
    rw [← htables] at hopened
    have hslotOk : ∀ t ∈ some (⟨next.currentGeneration, s₁.engine.nextManifestId⟩ : CurrentSlot), SlotOk _ t :=
      slotOk_written hid' hopened (.inr rfl)
    obtain ⟨hrising, -, hlast⟩ := validateVersionSet_ok hinstall.valid
    rw [Prog.wp_bind]
    refine wp_modifyEngine ?_
    rw [Prog.wp_bind, hretire, Prog.wp_ofExcept]
    refine ⟨fun _ heq => ?_, fun _ heq => absurd heq (by simp)⟩
    cases heq
    refine wp_modifyEngine ?_
    constructor
    · exact (h₂.grow (grows_putManifest hnone') rfl).directory.setSlot hfile hslotOk
    · exact hopened.congr fun _ _ _ hcontent => hcontent
    · exact hrising
    · exact hlast
    · intro hzero
      rw [hid'] at hzero
      exact absurd hzero h₁.next.ne'
    · exact Nat.succ_pos _
    · refine ⟨last, ?_, hwal⟩
      dsimp only
      rw [hsequence]
      exact hrest

theorem flushLoop_layered {rounds : ℕ} (h : Layered s.store.files s.engine) :
    Prog.wp (flushLoop rounds) (fun _ s' => Layered s'.store.files s'.engine) (Kept LayeredSession) s := by
  induction rounds generalizing s with
  | zero => exact h
  | succ rounds ih =>
    rw [flushLoop, Prog.wp_bind]
    refine wp_engine ?_
    rw [Prog.wp_bind]
    refine wp_checked h fun snapshot hsnapshot => ?_
    cases snapshot with
    | none => exact h
    | some snapshot =>
      rw [Option.elim_some, Prog.wp_bind]
      exact Prog.wp_mono (flushOldest_layered h hsnapshot) (fun _ s' h' => ih h') fun _ _ he => he

/-! ### The compaction -/

theorem nil_le_key {key : Bytes} : [] ≤ key := not_lt.1 fun hlt => by cases hlt

/-- The merge finds what a lookup in the tables finds. -/
theorem find_mergedTables {key : Bytes} (h : Layered files e) :
    e.mergedTables.find key = firstHit (e.tables.map SsTable.index) key := by
  have hstack := stacked_filter (p := rangeTest [] none) h.opened.stacked
  have hfind := @find_overlayAll _ _ _ key _ _ hstack
  have hmap : ((tableStack e.tables).map fun top => (top.1.filter (rangeTest [] none), top.2)).map
      Prod.fst = (e.tables.map SsTable.index).map fun layer => layer.filter (rangeTest [] none) := by
    rw [tableStack, List.map_map, List.map_map, List.map_map]
    rfl
  have hlist : (e.tables.map fun table => table.index.filter (rangeTest [] none)) =
      (e.tables.map SsTable.index).map fun layer => layer.filter (rangeTest [] none) := by
    rw [List.map_map]
    rfl
  rw [hmap, firstHit_range, if_pos ⟨nil_le_key, by simp⟩] at hfind
  rw [mergedTables, foldl_overlayRange, hlist]
  exact hfind

/-- The merged tables hold no sequence number above the durable sequence. -/
theorem within_mergedTables (h : Layered files e) :
    Within 0 e.version.durableSequence e.mergedTables := by
  intro key v hv
  rw [find_mergedTables h] at hv
  obtain ⟨layer, hlayer, hfind⟩ := firstHit_mem hv
  obtain ⟨table, htable, rfl⟩ := List.mem_map.1 hlayer
  have htop : (table.index, table.descriptor.durableSequence) ∈ tableStack e.tables :=
    List.mem_map.2 ⟨table, htable, rfl⟩
  have hwithin := h.opened.stacked.within htop key v hfind
  rw [h.opened.top_eq] at hwithin
  exact ⟨hwithin.1, hwithin.2.trans h.durable⟩

/-- What stands behind the merge: the old layers, and the replacement in its file. -/
structure Replaced (files : Files) (e : LsmEngine) (table : Option SsTable) : Prop where
  layered : Layered files e
  opened : Opened files 0 (table.map SsTable.descriptor).toList table.toList

theorem Replaced.grow {table : Option SsTable} (h : Replaced files e table) (hgrows : Grows files files')
    (hcurrent : files'.current = files.current) : Replaced files' e table :=
  ⟨h.layered.grow hgrows hcurrent, h.opened.grow hgrows⟩

theorem createReplacement_layered {live : VersionMap} (h : Layered s.store.files s.engine)
    (hlive : Within 0 s.engine.version.durableSequence live) :
    Prog.wp (createReplacement s.engine live)
      (fun p s' => s'.engine = s.engine ∧ Replaced s'.store.files s.engine p.1)
      (Kept LayeredSession) s := by
  rw [createReplacement]
  by_cases hempty : live.entries = []
  · rw [if_pos hempty]
    exact ⟨rfl, h, .nil⟩
  · rw [if_neg hempty, Prog.wp_bind]
    refine wp_checked h fun nextTableId _ => ?_
    rw [Prog.wp_bind]
    refine wp_onStore (wp_createSstable h (fun _ => h) (fun _ => h) (fun hnone table =>
      h.grow (grows_putTable hnone) rfl) ?_)
    intro table content io hnone hopen hid _ hdurable hindex
    have hfind : (putTable s.engine.nextTableId (.complete content) s.store.files).tables.find
        table.descriptor.tableId = some (.complete content) := by
      rw [putTable, SortedMap.find_insert, if_pos hid]
    refine ⟨rfl, h.grow (grows_putTable hnone) rfl, .cons hfind hopen (Nat.zero_le _) ?_ .nil⟩
    rw [hdurable, hindex]
    exact hlive

/-- **The compaction.** -/
theorem compactLevel0AfterTrigger_layered (h : Layered s.store.files s.engine) :
    Prog.wp compactLevel0AfterTrigger (fun _ s' => Layered s'.store.files s'.engine)
      (Kept LayeredSession) s := by
  rw [compactLevel0AfterTrigger, Prog.wp_bind]
  refine wp_engine ?_
  rw [Prog.wp_bind]
  refine wp_checked h fun _ _ => ?_
  rw [Prog.wp_bind]
  refine wp_checked h fun nextManifestId hnext => ?_
  obtain ⟨-, rfl⟩ := checkedSucc_eq_ok.1 hnext
  rw [Prog.wp_bind]
  refine wp_checked h fun _ _ => ?_
  rw [Prog.wp_bind]
  refine Prog.wp_mono (createReplacement_layered h (Within.filter (within_mergedTables h)))
    (fun ⟨table, nextTableId⟩ s₁ h₁ => ?_) fun _ _ he => he
  obtain ⟨hengine, h₁⟩ := h₁
  dsimp only at h₁ ⊢
  rw [← hengine] at h₁ ⊢
  rw [Prog.wp_bind]
  refine wp_onStore (wp_prepareInstall h₁.layered (fun _ => h₁.layered)
    (fun _ => h₁.layered) (fun next _ _ hnone manifest _ => h₁.layered.grow (grows_putManifest hnone) rfl) ?_)
  -- The new manifest names the one merged table, or none.
  intro next io hnext' hinstall hnone
  have hid : next.manifestId = s₁.engine.nextManifestId := by rw [hnext']; rfl
  have htables : next.tables = (table.map SsTable.descriptor).toList := by rw [hnext']; rfl
  have hsequence : next.durableSequence = s₁.engine.version.durableSequence := by rw [hnext']; rfl
  have h₂ := h₁.grow (@grows_putManifest _ _ (.complete next.written) hnone) rfl
  have hopened := h₁.opened
  rw [← htables] at hopened
  rw [Prog.wp_bind, publishPrepared]
  refine wp_onStore (wp_writeCurrentSlot h₂.layered (fun file slot _ hfile hslot => ?_) fun io file hfile => ?_)
  · rw [hid] at hslot
    exact h₂.layered.setSlot hfile (slotOk_written hid hopened hslot.slot_eq)
  have h₃ : Layered (putCurrent (Store.setSlot next.currentGeneration
      (some ⟨next.currentGeneration, next.manifestId⟩) file)
      (putManifest s₁.engine.nextManifestId (.complete next.written) s₁.store.files)) s₁.engine := by
    rw [hid]
    exact h₂.layered.setSlot hfile (slotOk_written hid hopened (.inr rfl))
  rw [Prog.wp_bind]
  refine wp_onStore (wp_mirrorCurrent h₃ (fun file' slot _ hfile' hslot => ?_) fun io file' hfile' => ?_)
  · rw [hid] at hslot hfile' ⊢
    refine Layered.setSlot (by rw [hid] at h₃; exact h₃) hfile' fun t ht => ?_
    exact (slotOk_written hid hopened hslot.slot_eq t ht).grow ⟨fun _ _ h => h, fun _ _ h => h⟩
  rw [hid] at hfile' ⊢
  cases hfile'
  have hsettled : Settled (putCurrent (Store.setSlot (next.currentGeneration + 1)
      (some ⟨next.currentGeneration + 1, s₁.engine.nextManifestId⟩)
      (Store.setSlot next.currentGeneration (some ⟨next.currentGeneration, s₁.engine.nextManifestId⟩) file))
      (putManifest s₁.engine.nextManifestId (.complete next.written) s₁.store.files))
      s₁.engine.nextManifestId next.tables table.toList :=
    @settled_mirrored _ _ _ file next.currentGeneration next.written hid hopened
  rw [Prog.wp_bind]
  refine wp_modifyEngine ?_
  -- The memtables and the durable sequence are untouched, and the merged table is the one layer.
  have hfinal : Layered (putCurrent (Store.setSlot (next.currentGeneration + 1)
      (some ⟨next.currentGeneration + 1, s₁.engine.nextManifestId⟩)
      (Store.setSlot next.currentGeneration (some ⟨next.currentGeneration, s₁.engine.nextManifestId⟩) file))
      (putManifest s₁.engine.nextManifestId (.complete next.written) s₁.store.files))
      { s₁.engine with
        tables := table.toList
        version := { next with
          currentGeneration := next.currentGeneration + 1
          manifestId := s₁.engine.nextManifestId }
        nextTableId := nextTableId
        nextManifestId := s₁.engine.nextManifestId + 1 } := by
    obtain ⟨hrising, -, hlast⟩ := validateVersionSet_ok hinstall.valid
    constructor
    · exact hsettled.valid
    · exact hsettled.opened
    · exact hrising
    · exact hlast
    · intro hzero
      exact absurd hzero h₁.layered.next.ne'
    · exact Nat.succ_pos _
    · dsimp only
      rw [hsequence]
      exact h₁.layered.memory
  rw [hengine] at hfinal hsettled ⊢
  exact wp_reclaimTables (I := fun files => Settled files _ _ _) hsettled
    (fun id hid files hfiles => hfiles.removeTable fun d hd => descriptor_ne (htables ▸ hd) hid)
    (fun id hid files hfiles => hfiles.removeManifest hid) fun _ ht => ht.layered hfinal

end DbLab.Lsm
