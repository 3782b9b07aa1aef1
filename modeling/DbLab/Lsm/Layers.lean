import DbLab.Lsm.Install

/-!
# The layers of an LSM engine

The tables on disk and the memtables are one stack of layers. `Opened` says that tables were opened from
their files and that each holds the sequence numbers between the durable sequence of the table before it
and its own; `Layered` adds the memtables above them. Then the first hit of a point lookup is the newest
version (`currentEntry_newest`), and a range scan shows the same versions (`find_visibleRange`).
-/

namespace DbLab.Lsm

open Store

/-- The tables of the descriptors, opened from their files. Each holds sequence numbers above the durable
sequence of the one before it, and up to its own. -/
inductive Opened (files : Files) : ℕ → List SstableDescriptor → List SsTable → Prop
  | nil {low : ℕ} : Opened files low [] []
  | cons {low : ℕ} {table : SsTable} {content : TableContent} {descriptors : List SstableDescriptor}
      {tables : List SsTable} :
      files.tables.find table.descriptor.tableId = some (.complete content) →
      SsTable.openContent table.descriptor content = .ok table →
      low ≤ table.descriptor.durableSequence →
      Within low table.descriptor.durableSequence table.index →
      Opened files table.descriptor.durableSequence descriptors tables →
      Opened files low (table.descriptor :: descriptors) (table :: tables)

/-- A slot of `CURRENT` names a complete manifest whose tables open. -/
def SlotOk (files : Files) (slot : CurrentSlot) : Prop :=
  ∃ version tables, files.manifests.find slot.manifestId = some (.complete version) ∧
    version.manifestId = slot.manifestId ∧ Opened files 0 version.tables tables

/-- **A valid directory**: what can be read of `CURRENT` names complete manifests whose tables open. -/
def ValidDirectory (files : Files) : Prop :=
  ∀ first second, files.current = some (.slots first second) →
    ∀ slot, slot ∈ first ∨ slot ∈ second → SlotOk files slot

/-- The layers of the tables, with their durable sequences. -/
def tableStack (tables : List SsTable) : List (VersionMap × ℕ) :=
  tables.map fun table => (table.index, table.descriptor.durableSequence)

/-- The layers of an engine, oldest first. -/
def LsmEngine.layers (e : LsmEngine) : List VersionMap :=
  e.tables.map SsTable.index ++ e.memtables.layers

/-- **The invariant of the version set.** -/
structure Layered (files : Files) (e : LsmEngine) : Prop where
  directory : ValidDirectory files
  opened : Opened files 0 e.version.tables e.tables
  rising : Rising e.version.tables
  durable : lastDurable e.version.tables ≤ e.version.durableSequence
  legacy : e.version.manifestId = 0 → e.version.tables = [] ∧ e.version.durableSequence = 0
  next : 0 < e.nextManifestId
  memory : ∃ last, e.memtables.Ordered e.version.durableSequence last ∧
    ∀ wal ∈ e.wal, last < wal.log.nextSequence

variable {files files' : Files} {low id : ℕ} {descriptors : List SstableDescriptor} {tables : List SsTable}
  {e : LsmEngine} {key start : Bytes} {stop : Option Bytes}

/-! ### The tables -/

theorem Opened.stacked (h : Opened files low descriptors tables) : Stacked low (tableStack tables) := by
  induction h with
  | nil => trivial
  | cons _ _ hle hwithin _ ih => exact ⟨hle, hwithin, ih⟩

theorem Opened.descriptors_eq (h : Opened files low descriptors tables) :
    tables.map SsTable.descriptor = descriptors := by
  induction h with
  | nil => rfl
  | cons _ _ _ _ _ ih => rw [List.map_cons, ih]

theorem Opened.congr (h : Opened files low descriptors tables)
    (hfind : ∀ d ∈ descriptors, ∀ content, files.tables.find d.tableId = some (.complete content) →
      files'.tables.find d.tableId = some (.complete content)) :
    Opened files' low descriptors tables := by
  induction h with
  | nil => exact .nil
  | cons hcontent hopen hle hwithin _ ih =>
    refine .cons (hfind _ List.mem_cons_self _ hcontent) hopen hle hwithin ?_
    exact ih fun d hd => hfind d (List.mem_cons_of_mem _ hd)

/-- The durable sequence of the last table, `low` if there is none. -/
theorem Opened.stackTop_eq (h : Opened files low descriptors tables) :
    stackTop low (tableStack tables) =
      (descriptors.getLast?.map SstableDescriptor.durableSequence).getD low := by
  rw [← h.descriptors_eq, stackTop, tableStack, List.getLast?_map, List.getLast?_map]
  cases tables.getLast? with
  | none => rfl
  | some table => rfl

theorem Opened.top_eq (h : Opened files 0 descriptors tables) :
    stackTop 0 (tableStack tables) = lastDurable descriptors := h.stackTop_eq

theorem Opened.append {table : SsTable} {content : TableContent} (h : Opened files low descriptors tables)
    (hcontent : files.tables.find table.descriptor.tableId = some (.complete content))
    (hopen : SsTable.openContent table.descriptor content = .ok table)
    (hle : stackTop low (tableStack tables) ≤ table.descriptor.durableSequence)
    (hwithin : Within (stackTop low (tableStack tables)) table.descriptor.durableSequence table.index) :
    Opened files low (descriptors ++ [table.descriptor]) (tables ++ [table]) := by
  induction h with
  | nil => exact .cons hcontent hopen hle hwithin .nil
  | @cons low first content' descriptors tables hfirst hfirstOpen hfirstLe hfirstWithin hrest ih =>
    have htop : stackTop low (tableStack (first :: tables)) =
        stackTop first.descriptor.durableSequence (tableStack tables) := stackTop_cons
    rw [htop] at hle hwithin
    exact .cons hfirst hfirstOpen hfirstLe hfirstWithin (ih hle hwithin)

/-- The files determine what opens. -/
theorem wp_openTables {s : Store} {I : Files → History → Prop} {Q : List SsTable → Store → Prop}
    (h : Opened files low descriptors tables) (hfiles : s.files = files) (hI : I s.files s.history)
    (hok : ∀ rest, Q tables ⟨s.files, rest, s.history⟩) :
    Prog.wp (openTables descriptors) Q (Fails I) s := by
  induction h generalizing s Q with
  | nil => exact hok s.io
  | cons hcontent hopen _ _ hrest ih =>
    rw [openTables, Prog.wp_bind, openTable]
    refine wp_reading hI fun table rest htable => ?_
    rw [readTable, hfiles, hcontent, Checked.ok_bind, hopen] at htable
    cases htable
    rw [Prog.wp_bind]
    exact ih hfiles hI fun rest' => hok rest'

/-! ### The directory -/

/-- Every table and every manifest stays. -/
structure Grows (files files' : Files) : Prop where
  tables : ∀ id file, files.tables.find id = some file → files'.tables.find id = some file
  manifests : ∀ id file, files.manifests.find id = some file → files'.manifests.find id = some file

theorem Grows.refl : Grows files files := ⟨fun _ _ h => h, fun _ _ h => h⟩

theorem Grows.trans {files'' : Files} (h : Grows files files') (h' : Grows files' files'') :
    Grows files files'' :=
  ⟨fun id file hf => h'.tables id file (h.tables id file hf),
    fun id file hf => h'.manifests id file (h.manifests id file hf)⟩

theorem grows_putTable {table : TableFile} (h : files.tables.find id = none) :
    Grows files (putTable id table files) where
  tables id' file hfile := by
    rw [putTable, SortedMap.find_insert, if_neg]
    · exact hfile
    · rintro rfl
      rw [h] at hfile
      cases hfile
  manifests _ _ hfile := hfile

theorem grows_putManifest {manifest : ManifestFile} (h : files.manifests.find id = none) :
    Grows files (putManifest id manifest files) where
  tables _ _ hfile := hfile
  manifests id' file hfile := by
    rw [putManifest, SortedMap.find_insert, if_neg]
    · exact hfile
    · rintro rfl
      rw [h] at hfile
      cases hfile

theorem Opened.grow (h : Opened files low descriptors tables) (hgrows : Grows files files') :
    Opened files' low descriptors tables :=
  h.congr fun _ _ _ hcontent => hgrows.tables _ _ hcontent

theorem SlotOk.grow {slot : CurrentSlot} (h : SlotOk files slot) (hgrows : Grows files files') :
    SlotOk files' slot := by
  obtain ⟨version, tables, hmanifest, hid, hopened⟩ := h
  exact ⟨version, tables, hgrows.manifests _ _ hmanifest, hid, hopened.grow hgrows⟩

theorem ValidDirectory.grow (h : ValidDirectory files) (hgrows : Grows files files')
    (hcurrent : files'.current = files.current) : ValidDirectory files' := by
  intro first second hfile slot hslot
  rw [hcurrent] at hfile
  exact (h first second hfile slot hslot).grow hgrows

theorem ValidDirectory.setSlot {file : CurrentFile} {slot : Option CurrentSlot} {generation : ℕ}
    (h : ValidDirectory files) (hfile : files.current = some file)
    (hslot : ∀ s ∈ slot, SlotOk files s) :
    ValidDirectory (putCurrent (setSlot generation slot file) files) := by
  intro first second hcurrent s hs
  have hok : SlotOk files s := by
    rw [putCurrent, Option.some.injEq] at hcurrent
    cases file with
    | short => cases hcurrent
    | slots a b =>
      rw [Store.setSlot] at hcurrent
      split_ifs at hcurrent
      · cases hcurrent
        rcases hs with hs | hs
        · exact hslot s hs
        · exact h a second hfile s (.inr hs)
      · cases hcurrent
        rcases hs with hs | hs
        · exact h first b hfile s (.inl hs)
        · exact hslot s hs
  exact hok.grow ⟨fun _ _ h => h, fun _ _ h => h⟩

/-- Both slots of `CURRENT` name one manifest, and its tables are open. -/
structure Settled (files : Files) (id : ℕ) (descriptors : List SstableDescriptor)
    (tables : List SsTable) : Prop where
  only : ∀ first second, files.current = some (.slots first second) →
    ∀ slot, slot ∈ first ∨ slot ∈ second → slot.manifestId = id
  manifest : ∃ version, files.manifests.find id = some (.complete version) ∧ version.manifestId = id ∧
    version.tables = descriptors
  opened : Opened files 0 descriptors tables

theorem Settled.valid (h : Settled files id descriptors tables) : ValidDirectory files := by
  intro first second hcurrent slot hslot
  obtain ⟨version, hfind, hid, htables⟩ := h.manifest
  have hslotId := h.only first second hcurrent slot hslot
  exact ⟨version, tables, by rw [hslotId]; exact hfind, by rw [hid, hslotId], by
    rw [htables]; exact h.opened⟩

theorem Settled.removeTable {i : ℕ} (h : Settled files id descriptors tables)
    (hi : ∀ d ∈ descriptors, d.tableId ≠ i) :
    Settled (LsmEngine.removeTable i files) id descriptors tables where
  only := h.only
  manifest := h.manifest
  opened := h.opened.congr fun d hd content hcontent => by
    rw [LsmEngine.removeTable, SortedMap.find_erase, if_neg (hi d hd)]
    exact hcontent

theorem Settled.removeManifest {i : ℕ} (h : Settled files id descriptors tables) (hi : i ≠ id) :
    Settled (LsmEngine.removeManifest i files) id descriptors tables where
  only := h.only
  manifest := by
    obtain ⟨version, hfind, hrest⟩ := h.manifest
    exact ⟨version, by rw [LsmEngine.removeManifest, SortedMap.find_erase, if_neg hi.symm]; exact hfind, hrest⟩
  opened := h.opened.congr fun _ _ _ hcontent => hcontent

theorem Settled.removeWal {i : ℕ} (h : Settled files id descriptors tables) :
    Settled (LsmEngine.removeWal i files) id descriptors tables where
  only := h.only
  manifest := h.manifest
  opened := h.opened.congr fun _ _ _ hcontent => hcontent

/-- Two slots written one behind the other name the same manifest. -/
theorem both_slots {file : CurrentFile} {generation generation' : ℕ} {first second : Option CurrentSlot}
    (h : Store.setSlot (generation + 1) (some ⟨generation', id⟩)
      (Store.setSlot generation (some ⟨generation, id⟩) file) = .slots first second) :
    ∀ slot, slot ∈ first ∨ slot ∈ second → slot.manifestId = id := by
  cases file with
  | short => cases h
  | slots a b =>
    intro slot hslot
    by_cases hparity : generation % 2 = 0
    · have hodd : ¬ (generation + 1) % 2 = 0 := by omega
      rw [Store.setSlot, if_pos hparity, Store.setSlot, if_neg hodd] at h
      cases h
      rcases hslot with hslot | hslot
      · cases hslot
        rfl
      · cases hslot
        rfl
    · have heven : (generation + 1) % 2 = 0 := by omega
      rw [Store.setSlot, if_neg hparity, Store.setSlot, if_pos heven] at h
      cases h
      rcases hslot with hslot | hslot
      · cases hslot
        rfl
      · cases hslot
        rfl

/-- A manifest that both slots were written for, one behind the other, is settled. -/
theorem settled_mirrored {file : CurrentFile} {generation : ℕ} {version : VersionSet}
    (hid : version.manifestId = id) (hopened : Opened files 0 version.tables tables) :
    Settled (Store.putCurrent (Store.setSlot (generation + 1) (some ⟨generation + 1, id⟩)
        (Store.setSlot generation (some ⟨generation, id⟩) file))
      (Store.putManifest id (.complete version) files)) id version.tables tables := by
  refine ⟨fun first second hcurrent => both_slots (Option.some.inj hcurrent), ⟨version, ?_, hid, rfl⟩, ?_⟩
  · rw [Store.putCurrent, Store.putManifest, SortedMap.find_insert, if_pos rfl]
  · exact hopened.congr fun _ _ _ hcontent => hcontent

/-! ### Lookups -/

theorem Within.filter {high : ℕ} {layer : VersionMap} {p : Bytes × VersionedEntry → Bool}
    (h : Within low high layer) : Within low high (layer.filter p) := by
  intro k v hv
  rw [SortedMap.find_filter, Option.filter_eq_some_iff] at hv
  exact h k v hv.1

theorem stacked_filter {stack : List (VersionMap × ℕ)} {p : Bytes × VersionedEntry → Bool}
    (h : Stacked low stack) : Stacked low (stack.map fun top => (top.1.filter p, top.2)) := by
  induction stack generalizing low with
  | nil => trivial
  | cons top stack ih =>
    obtain ⟨hle, hwithin, hrest⟩ := h
    exact ⟨hle, Within.filter hwithin, ih hrest⟩

theorem Opened.sequence_le {u : VersionedEntry} {layer : VersionMap}
    (h : Opened files 0 descriptors tables) (hdurable : lastDurable descriptors ≤ low)
    (hlayer : layer ∈ tables.map SsTable.index) (hu : layer.find key = some u) : u.sequence ≤ low := by
  obtain ⟨table, htable, rfl⟩ := List.mem_map.1 hlayer
  have htop : (table.index, table.descriptor.durableSequence) ∈ tableStack tables :=
    List.mem_map.2 ⟨table, htable, rfl⟩
  have hwithin := (h.stacked.within htop key u hu).2
  rw [h.top_eq] at hwithin
  exact hwithin.trans hdurable

namespace LsmEngine

/-- A point lookup is the first hit in the layers. -/
theorem currentEntry_eq : e.currentEntry key = firstHit e.layers key := by
  rw [layers, firstHit_append, ← MemTableSet.get_eq_firstHit, currentEntry]
  cases e.memtables.get key with
  | some entry => rfl
  | none =>
    rw [Option.none_or, firstHit, ← List.map_reverse, List.findSome?_map]
    refine congrArg (fun f => List.findSome? f e.tables.reverse) (funext fun table => ?_)
    exact SsTable.get_eq_find

end LsmEngine

/-- The stack of an engine: its tables, and its memtables up to the last sequence number. -/
def LsmEngine.stack (e : LsmEngine) (last : ℕ) : List (VersionMap × ℕ) :=
  tableStack e.tables ++ e.memtables.stack last

theorem LsmEngine.stack_layers (last : ℕ) : (e.stack last).map Prod.fst = e.layers := by
  rw [stack, layers, List.map_append, MemTableSet.stack_layers, tableStack, List.map_map]
  rfl

theorem Layered.stacked (h : Layered files e) : ∃ last, Stacked 0 (e.stack last) := by
  obtain ⟨last, hmemory, -⟩ := h.memory
  refine ⟨last, stacked_append.2 ⟨h.opened.stacked, ?_⟩⟩
  rw [h.opened.top_eq]
  exact hmemory.stacked.mono h.durable

/-- **The first hit is the newest version.** -/
theorem Layered.currentEntry_newest (h : Layered files e) {entry other : VersionedEntry}
    {layer : VersionMap} (hentry : e.currentEntry key = some entry) (hlayer : layer ∈ e.layers)
    (hother : layer.find key = some other) : other.sequence ≤ entry.sequence := by
  obtain ⟨last, hstacked⟩ := h.stacked
  rw [LsmEngine.currentEntry_eq, ← LsmEngine.stack_layers last] at hentry
  rw [← LsmEngine.stack_layers last] at hlayer
  exact firstHit_newest hstacked hentry hlayer hother

/-- The test of a range, on entries. -/
def rangeTest (start : Bytes) (stop : Option Bytes) (e : Bytes × VersionedEntry) : Bool :=
  SsTable.InRange start stop e.1

theorem foldl_overlayRange (visible : VersionMap) :
    tables.foldl (fun visible (table : SsTable) => table.overlayRange start stop visible) visible =
      (tables.map fun table => table.index.filter (rangeTest start stop)).foldl
        (fun visible layer => overlay visible layer.entries) visible := by
  induction tables generalizing visible with
  | nil => rfl
  | cons table tables ih =>
    rw [List.foldl_cons, List.map_cons, List.foldl_cons, ih, SsTable.overlayRange,
      SsTable.overlayEntries_eq table.index.sorted]
    rfl

theorem filter_rangeTest {o : Option VersionedEntry} :
    (o.filter fun v => rangeTest start stop (key, v)) = if SsTable.InRange start stop key then o else none := by
  by_cases hin : SsTable.InRange start stop key
  · cases o with
    | none => simp
    | some v => simp [rangeTest, hin]
  · cases o with
    | none => simp
    | some v => simp [rangeTest, hin]

theorem firstHit_range {layers : List VersionMap} :
    firstHit (layers.map fun layer => layer.filter (rangeTest start stop)) key =
      if SsTable.InRange start stop key then firstHit layers key else none := by
  induction layers using List.reverseRecOn with
  | nil => simp [firstHit]
  | append_singleton layers layer ih =>
    rw [List.map_append, List.map_singleton, firstHit_concat, firstHit_concat, ih, SortedMap.find_filter,
      filter_rangeTest]
    by_cases hin : SsTable.InRange start stop key
    · rw [if_pos hin, if_pos hin, if_pos hin]
    · rw [if_neg hin, if_neg hin, if_neg hin]
      rfl

/-- **A range scan shows the versions that point lookups find.** -/
theorem Layered.find_visibleRange (h : Layered files e) :
    (e.visibleRange start stop).find key =
      if SsTable.InRange start stop key then e.currentEntry key else none := by
  obtain ⟨last, hmemory, -⟩ := h.memory
  have htables : (e.tables.foldl (fun visible (table : SsTable) => table.overlayRange start stop visible)
      (SortedMap.empty : VersionMap)).find key =
      if SsTable.InRange start stop key then firstHit (e.tables.map SsTable.index) key else none := by
    have hstack := stacked_filter (p := rangeTest start stop) h.opened.stacked
    have hmap : ((tableStack e.tables).map fun top => (top.1.filter (rangeTest start stop), top.2)).map
        Prod.fst = (e.tables.map SsTable.index).map fun layer => layer.filter (rangeTest start stop) := by
      rw [tableStack, List.map_map, List.map_map, List.map_map]
      rfl
    have hlist : (e.tables.map fun table => table.index.filter (rangeTest start stop)) =
        (e.tables.map SsTable.index).map fun layer => layer.filter (rangeTest start stop) := by
      rw [List.map_map]
      rfl
    have hfind := @find_overlayAll _ _ _ key _ _ hstack
    rw [hmap, firstHit_range] at hfind
    rw [foldl_overlayRange, hlist]
    exact hfind
  have hvisible : e.memtables.visibleState.find key = firstHit e.memtables.layers key := by
    rw [MemTableSet.visibleState, ← MemTableSet.stack_layers last]
    exact find_overlayAll hmemory.stacked
  have hfilter : (lookupBy Prod.fst key (e.memtables.visibleState.entries.filter fun x =>
      SsTable.InRange start stop x.1)).map Prod.snd =
      if SsTable.InRange start stop key then firstHit e.memtables.layers key else none := by
    rw [← hvisible, ← filter_rangeTest]
    exact SortedMap.find_filter
  rw [LsmEngine.visibleRange, find_overlay (e.memtables.visibleState.sorted.sublist List.filter_sublist), htables, hfilter,
    LsmEngine.currentEntry_eq, LsmEngine.layers, firstHit_append]
  by_cases hin : SsTable.InRange start stop key
  · rw [if_pos hin, if_pos hin, if_pos hin]
    cases hmem : firstHit e.memtables.layers key with
    | none => simp
    | some v =>
      rw [Option.some_or]
      refine newer_of_lt fun u hu => ?_
      obtain ⟨layer, hlayer, hfind⟩ := firstHit_mem hu
      -- The memtables are above all tables, so their hit is the newer one.
      have hbelow := h.opened.sequence_le h.durable hlayer hfind
      obtain ⟨layer', hlayer', hfind'⟩ := firstHit_mem hmem
      rw [← MemTableSet.stack_layers last] at hlayer'
      obtain ⟨top, htop, rfl⟩ := List.mem_map.1 hlayer'
      exact hbelow.trans_lt (hmemory.stacked.within htop key v hfind').1
  · rw [if_neg hin, if_neg hin, if_neg hin]
    rfl

end DbLab.Lsm
