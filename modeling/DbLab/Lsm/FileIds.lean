import DbLab.Lsm.VersionSet

/-!
# The ids of files are fresh

The next ids are found anew by every opening, from the names in the directory and from the watermark of
the manifest, and they are advanced by the flush, the compaction and the rotation. Over every run, with
failures and crashes at any access, no file is created under a name that is taken, and no table under an
id that a published version set has listed.
-/

namespace DbLab.Lsm

open Store LsmEngine

/-- No file was there at the creation. -/
def Event.Fresh : Event → Prop
  | created _ present => present = false
  | published _ => True

/-- The later event creates no table that the earlier one has published. -/
def Event.Unused : Event → Event → Prop
  | created (.table id) _, published tableIds => id ∉ tableIds
  | _, _ => True

/-- Every creation finds its name free, and no table gets an id that was published before. -/
structure FreshIds (history : History) : Prop where
  fresh : ∀ event ∈ history, event.Fresh
  unused : history.Pairwise Event.Unused

/-- The id of a table was listed in a version set that `CURRENT` named. -/
def Published (history : History) (id : ℕ) : Prop :=
  ∃ tableIds, .published tableIds ∈ history ∧ id ∈ tableIds

/-- No published id is above `high`. -/
def Bounded (history : History) (high : ℕ) : Prop := ∀ id, Published history id → id ≤ high

section History

variable {history : History} {name : FileName} {present : Bool} {tableIds : List ℕ} {id high high' : ℕ}

theorem published_created : Published (.created name present :: history) id ↔ Published history id := by
  simp [Published]

theorem published_published :
    Published (.published tableIds :: history) id ↔ id ∈ tableIds ∨ Published history id := by
  simp only [Published, List.mem_cons, Event.published.injEq]
  constructor
  · rintro ⟨ids, rfl | hmem, hid⟩
    · exact .inl hid
    · exact .inr ⟨ids, hmem, hid⟩
  · rintro (hid | ⟨ids, hmem, hid⟩)
    · exact ⟨tableIds, .inl rfl, hid⟩
    · exact ⟨ids, .inr hmem, hid⟩

theorem freshIds_nil : FreshIds [] := ⟨fun _ h => absurd h List.not_mem_nil, List.Pairwise.nil⟩

theorem FreshIds.created (h : FreshIds history) (hname : ∀ id, name = .table id → ¬ Published history id) :
    FreshIds (.created name false :: history) := by
  constructor
  · intro event hevent
    rcases List.mem_cons.1 hevent with rfl | hmem
    · exact rfl
    · exact h.fresh event hmem
  · refine List.Pairwise.cons (fun event hevent => ?_) h.unused
    cases name with
    | table id =>
      cases event with
      | created => trivial
      | published tableIds => exact fun hid => hname id rfl ⟨tableIds, hevent, hid⟩
    | wal id => trivial
    | manifest id => trivial
    | current => trivial

theorem FreshIds.published (h : FreshIds history) : FreshIds (.published tableIds :: history) := by
  constructor
  · intro event hevent
    rcases List.mem_cons.1 hevent with rfl | hmem
    · trivial
    · exact h.fresh event hmem
  · exact List.Pairwise.cons (fun event _ => trivial) h.unused

theorem Bounded.created (h : Bounded history high) : Bounded (.created name present :: history) high :=
  fun id hid => h id (published_created.1 hid)

theorem Bounded.published (h : Bounded history high) (hids : ∀ id ∈ tableIds, id ≤ high) :
    Bounded (.published tableIds :: history) high := by
  intro id hid
  rcases published_published.1 hid with hmem | hpublished
  · exact hids id hmem
  · exact h id hpublished

theorem Bounded.mono (h : Bounded history high) (hle : high ≤ high') : Bounded history high' :=
  fun id hid => (h id hid).trans hle

end History

/-! ### The slots of `CURRENT` -/

/-- The slot for a generation. -/
def slotAt (generation : ℕ) (first second : Option CurrentSlot) : Option CurrentSlot :=
  if generation % 2 = 0 then first else second

/-- `CURRENT` is at a generation: it stands in its slot, and the other slot is not newer. -/
def Named (files : Files) (generation manifestId : ℕ) : Prop :=
  ∃ first second, files.current = some (.slots first second) ∧ manifestId ≠ 0 ∧
    slotAt generation first second = some ⟨generation, manifestId⟩ ∧
    ∀ other ∈ slotAt (generation + 1) first second,
      other.generation + 1 = generation ∨ other = ⟨generation, manifestId⟩

variable {files : Files} {history : History} {generation manifestId : ℕ} {file : CurrentFile}

theorem chooseSlot_same {slot : CurrentSlot} : chooseSlot (some slot) (some slot) = .ok slot := by
  rw [chooseSlot, if_pos rfl, if_neg (by simp)]

theorem chooseSlot_newer {older newer : CurrentSlot} (h : older.generation + 1 = newer.generation) :
    chooseSlot (some older) (some newer) = .ok newer ∧ chooseSlot (some newer) (some older) = .ok newer := by
  constructor
  · rw [chooseSlot, if_neg (by omega), if_pos (by omega)]
    dsimp only
    rw [if_neg (by omega)]
  · rw [chooseSlot, if_neg (by omega), if_neg (by omega)]
    dsimp only
    rw [if_neg (by omega)]

/-- Opening finds the generation that `CURRENT` is at. -/
theorem Named.readCurrent_eq (h : Named files generation manifestId) :
    readCurrent files = .ok ⟨generation, manifestId⟩ := by
  obtain ⟨first, second, hcurrent, hne, hslot, hother⟩ := h
  have hparse : parseCurrentSlot (some ⟨generation, manifestId⟩) = some ⟨generation, manifestId⟩ := by
    rw [parseCurrentSlot, Option.filter_eq_some_iff]
    exact ⟨rfl, by simpa using hne⟩
  have hrest : ∀ other ∈ parseCurrentSlot (slotAt (generation + 1) first second),
      other.generation + 1 = generation ∨ other = ⟨generation, manifestId⟩ := by
    intro other hmem
    rw [parseCurrentSlot, Option.mem_def, Option.filter_eq_some_iff] at hmem
    exact hother other hmem.1
  rw [readCurrent, hcurrent]
  dsimp only
  by_cases heven : generation % 2 = 0
  · have hodd : ¬ (generation + 1) % 2 = 0 := by omega
    rw [slotAt, if_pos heven] at hslot
    rw [slotAt, if_neg hodd] at hrest
    rw [hslot, hparse]
    cases hsecond : parseCurrentSlot second with
    | none => rfl
    | some other =>
      rcases hrest other hsecond with hold | rfl
      · exact (chooseSlot_newer hold).2
      · exact chooseSlot_same
  · have hnext : (generation + 1) % 2 = 0 := by omega
    rw [slotAt, if_neg heven] at hslot
    rw [slotAt, if_pos hnext] at hrest
    rw [hslot, hparse]
    cases hfirst : parseCurrentSlot first with
    | none => rfl
    | some other =>
      rcases hrest other hfirst with hold | rfl
      · exact (chooseSlot_newer hold).1
      · exact chooseSlot_same

theorem slotAt_setSlot {first second slot : Option CurrentSlot} (g : ℕ) :
    ∃ first' second', setSlot g slot (.slots first second) = .slots first' second' ∧
      slotAt g first' second' = slot ∧ slotAt (g + 1) first' second' = slotAt (g + 1) first second := by
  by_cases heven : g % 2 = 0
  · have hodd : ¬ (g + 1) % 2 = 0 := by omega
    refine ⟨slot, second, by rw [setSlot, if_pos heven], by rw [slotAt, if_pos heven], ?_⟩
    rw [slotAt, slotAt, if_neg hodd, if_neg hodd]
  · have hnext : (g + 1) % 2 = 0 := by omega
    refine ⟨first, slot, by rw [setSlot, if_neg heven], by rw [slotAt, if_neg heven], ?_⟩
    rw [slotAt, slotAt, if_pos hnext, if_pos hnext]

theorem slotAt_add_two {first second : Option CurrentSlot} (g : ℕ) :
    slotAt (g + 1 + 1) first second = slotAt g first second := by
  have hmod : (g + 1 + 1) % 2 = g % 2 := by omega
  rw [slotAt, slotAt, hmod]

/-- A torn write to the other slot leaves the generation. -/
theorem Named.torn (h : Named files generation manifestId) (hfile : files.current = some file) :
    Named (putCurrent (setSlot (generation + 1) none file) files) generation manifestId := by
  obtain ⟨first, second, hcurrent, hne, hslot, -⟩ := h
  rw [hfile, Option.some.injEq] at hcurrent
  subst hcurrent
  obtain ⟨first', second', hset, hnew, hold⟩ := @slotAt_setSlot first second none (generation + 1)
  rw [slotAt_add_two, slotAt_add_two, hslot] at hold
  refine ⟨first', second', by rw [putCurrent, hset], hne, hold, ?_⟩
  rw [hnew]
  rintro _ ⟨⟩

/-- A whole write to the other slot is the next generation. -/
theorem Named.next {manifestId' : ℕ} (h : Named files generation manifestId)
    (hfile : files.current = some file) (hne' : manifestId' ≠ 0) :
    Named (putCurrent (setSlot (generation + 1) (some ⟨generation + 1, manifestId'⟩) file) files)
      (generation + 1) manifestId' := by
  obtain ⟨first, second, hcurrent, -, hslot, -⟩ := h
  rw [hfile, Option.some.injEq] at hcurrent
  subst hcurrent
  obtain ⟨first', second', hset, hnew, hold⟩ :=
    @slotAt_setSlot first second (some ⟨generation + 1, manifestId'⟩) (generation + 1)
  rw [slotAt_add_two, slotAt_add_two, hslot] at hold
  refine ⟨first', second', by rw [putCurrent, hset], hne', hnew, ?_⟩
  rw [slotAt_add_two, hold]
  rintro _ ⟨⟩
  exact .inl rfl

theorem named_initial : Named (putCurrent (.slots (some ⟨0, 1⟩) (some ⟨0, 1⟩)) files) 0 1 := by
  refine ⟨_, _, rfl, Nat.one_ne_zero, rfl, ?_⟩
  rintro _ ⟨⟩
  exact .inr rfl

/-! ### The invariants -/

/-- The manifest of a version set is on disk, and its watermark covers the ids that were published. -/
def Recorded (files : Files) (history : History) (version : VersionSet) : Prop :=
  ∃ written, files.manifests.find version.manifestId = some (.complete written) ∧
    written.tables = version.tables ∧ written.tableIdHighWatermark ≤ version.tableIdHighWatermark ∧
    (∀ d ∈ written.tables, d.tableId ≤ written.tableIdHighWatermark) ∧
    Bounded history written.tableIdHighWatermark

/-- **The invariant of a directory**, with or without an engine. -/
structure Ledger (files : Files) (history : History) : Prop where
  ids : FreshIds history
  unpublished : files.current = none → ∀ id, ¬ Published history id
  named : ∀ first second, files.current = some (.slots first second) →
    ∃ generation version, Named files generation version.manifestId ∧ Recorded files history version

/-- The version set of an engine, and the ids for its next files. -/
structure Ids where
  version : VersionSet
  table : ℕ
  manifest : ℕ
  wal : ℕ

def LsmEngine.ids (e : LsmEngine) : Ids := ⟨e.version, e.nextTableId, e.nextManifestId, e.nextWalId⟩

/-- **The invariant of an engine**: its next ids are above all that the directory and the history have. -/
structure IdsAhead (files : Files) (history : History) (c : Ids) : Prop where
  ids : FreshIds history
  tables : ∀ id, (files.tables.find id).isSome → id < c.table
  manifests : ∀ id, (files.manifests.find id).isSome → id < c.manifest
  wals : ∀ id, (files.wals.find id).isSome → id < c.wal
  bounded : Bounded history c.version.tableIdHighWatermark
  watermark : c.version.tableIdHighWatermark < c.table
  listed : ∀ d ∈ c.version.tables, d.tableId < c.table
  positive : 0 < c.manifest
  current : c.version.manifestId ≠ 0 →
    Named files c.version.currentGeneration c.version.manifestId ∧ Recorded files history c.version
  legacy : c.version.manifestId = 0 → files.current = none ∧ (∀ id, files.manifests.find id = none) ∧
    ∀ id, ¬ Published history id

variable {c : Ids} {version next : VersionSet} {name : FileName} {id : ℕ} {events : List Event}
  {slot : Option CurrentSlot}

theorem Recorded.created (h : Recorded files history version) :
    Recorded files (.created name false :: history) version := by
  obtain ⟨written, hfind, htables, hle, hlisted, hbounded⟩ := h
  exact ⟨written, hfind, htables, hle, hlisted, hbounded.created⟩

theorem Recorded.congr {files' : Files} (h : Recorded files history version)
    (hfind : ∀ file, files.manifests.find version.manifestId = some file →
      files'.manifests.find version.manifestId = some file) : Recorded files' history version := by
  obtain ⟨written, hwritten, hrest⟩ := h
  exact ⟨written, hfind _ hwritten, hrest⟩

theorem Named.congr {files' : Files} (h : Named files generation manifestId)
    (hcurrent : files'.current = files.current) : Named files' generation manifestId := by
  rw [Named, hcurrent]
  exact h

theorem Ledger.created (h : Ledger files history) (hname : ∀ id, name = .table id → ¬ Published history id) :
    Ledger files (.created name false :: history) where
  ids := h.ids.created hname
  unpublished hcurrent id hid := h.unpublished hcurrent id (published_created.1 hid)
  named first second hcurrent := by
    obtain ⟨generation, version, hnamed, hrecorded⟩ := h.named first second hcurrent
    exact ⟨generation, version, hnamed, hrecorded.created⟩

/-- Only the manifests and `CURRENT` count. -/
theorem Ledger.grow {files' : Files} (h : Ledger files history) (hgrows : Grows files files')
    (hcurrent : files'.current = files.current) : Ledger files' history where
  ids := h.ids
  unpublished hnone := h.unpublished (by rw [← hcurrent]; exact hnone)
  named first second hsome := by
    obtain ⟨generation, version, hnamed, hrecorded⟩ := h.named first second (by rw [← hcurrent]; exact hsome)
    exact ⟨generation, version, hnamed.congr hcurrent, hrecorded.congr fun _ hfind => hgrows.manifests _ _ hfind⟩

theorem IdsAhead.ledger (h : IdsAhead files history c) : Ledger files history where
  ids := h.ids
  unpublished hnone := by
    by_cases hzero : c.version.manifestId = 0
    · exact (h.legacy hzero).2.2
    · obtain ⟨⟨first, second, hcurrent, -⟩, -⟩ := h.current hzero
      rw [hnone] at hcurrent
      cases hcurrent
  named first second hsome := by
    by_cases hzero : c.version.manifestId = 0
    · rw [(h.legacy hzero).1] at hsome
      cases hsome
    · exact ⟨_, c.version, h.current hzero⟩

theorem IdsAhead.unpublished (h : IdsAhead files history c) : ¬ Published history c.table := fun hid =>
  (h.bounded _ hid).not_gt h.watermark

/-- With a `CURRENT` there is a version set that it names. -/
theorem IdsAhead.exists_manifest (h : IdsAhead files history c) (hfile : files.current = some file) :
    c.version.manifestId ≠ 0 := fun hzero => by
  rw [(h.legacy hzero).1] at hfile
  cases hfile

/-! ### New files -/

theorem IdsAhead.putTable {table : TableFile} (h : IdsAhead files history c) :
    IdsAhead (Store.putTable c.table table files) (.created (.table c.table) false :: history)
      { c with table := c.table + 1 } where
  ids := h.ids.created fun id hid => by
    cases hid
    exact h.unpublished
  tables id hid := by
    rw [Store.putTable, SortedMap.find_insert] at hid
    dsimp only
    split_ifs at hid with heq
    · omega
    · have hlt := h.tables id hid
      omega
  manifests := h.manifests
  wals := h.wals
  bounded := h.bounded.created
  watermark := h.watermark.trans (Nat.lt_succ_self _)
  listed d hd := (h.listed d hd).trans (Nat.lt_succ_self _)
  positive := h.positive
  current hne := ⟨(h.current hne).1, (h.current hne).2.created.congr fun _ hfind => hfind⟩
  legacy hzero := ⟨(h.legacy hzero).1, (h.legacy hzero).2.1, fun id hid =>
    (h.legacy hzero).2.2 id (published_created.1 hid)⟩

/-- A manifest under the next id, of an engine that has a version set. -/
theorem IdsAhead.putManifest {manifest : ManifestFile} (h : IdsAhead files history c)
    (hne : c.version.manifestId ≠ 0) :
    IdsAhead (Store.putManifest c.manifest manifest files) (.created (.manifest c.manifest) false :: history)
      { c with manifest := c.manifest + 1 } where
  ids := h.ids.created fun id hid => by cases hid
  tables := h.tables
  manifests id hid := by
    rw [Store.putManifest, SortedMap.find_insert] at hid
    dsimp only
    split_ifs at hid with heq
    · omega
    · have hlt := h.manifests id hid
      omega
  wals := h.wals
  bounded := h.bounded.created
  watermark := h.watermark
  listed := h.listed
  positive := Nat.succ_pos _
  current hne := by
    obtain ⟨hnamed, hrecorded⟩ := h.current hne
    refine ⟨hnamed.congr rfl, hrecorded.created.congr fun file hfind => ?_⟩
    rw [Store.putManifest, SortedMap.find_insert, if_neg]
    · exact hfind
    · have hlt := h.manifests c.version.manifestId (by rw [hfind]; rfl)
      exact hlt.ne
  legacy hzero := absurd hzero hne

theorem IdsAhead.putWal {bytes : Bytes} (h : IdsAhead files history c) :
    IdsAhead (Store.putWal c.wal bytes files) (.created (.wal c.wal) false :: history)
      { c with wal := c.wal + 1 } where
  ids := h.ids.created fun id hid => by cases hid
  tables := h.tables
  manifests := h.manifests
  wals id hid := by
    rw [Store.putWal, SortedMap.find_insert] at hid
    dsimp only
    split_ifs at hid with heq
    · omega
    · have hlt := h.wals id hid
      omega
  bounded := h.bounded.created
  watermark := h.watermark
  listed := h.listed
  positive := h.positive
  current hne := ⟨(h.current hne).1, (h.current hne).2.created.congr fun _ hfind => hfind⟩
  legacy hzero := ⟨(h.legacy hzero).1, (h.legacy hzero).2.1, fun id hid =>
    (h.legacy hzero).2.2 id (published_created.1 hid)⟩

theorem IdsAhead.rewriteWal {bytes : Bytes} (h : IdsAhead files history c)
    (hid : (files.wals.find id).isSome) : IdsAhead (Store.putWal id bytes files) history c :=
  { h with
    wals := fun id' hid' => by
      rw [Store.putWal, SortedMap.find_insert] at hid'
      split_ifs at hid' with heq
      · rw [heq]
        exact h.wals id hid
      · exact h.wals id' hid' }

theorem IdsAhead.removeTable (h : IdsAhead files history c) :
    IdsAhead (LsmEngine.removeTable id files) history c :=
  { h with
    tables := fun id' hid' => by
      rw [LsmEngine.removeTable, SortedMap.find_erase] at hid'
      split_ifs at hid' with heq
      · cases hid'
      · exact h.tables id' hid' }

theorem IdsAhead.removeWal (h : IdsAhead files history c) :
    IdsAhead (LsmEngine.removeWal id files) history c :=
  { h with
    wals := fun id' hid' => by
      rw [LsmEngine.removeWal, SortedMap.find_erase] at hid'
      split_ifs at hid' with heq
      · cases hid'
      · exact h.wals id' hid' }

theorem IdsAhead.removeManifest (h : IdsAhead files history c) (hne : id ≠ c.version.manifestId) :
    IdsAhead (LsmEngine.removeManifest id files) history c :=
  { h with
    manifests := fun id' hid' => by
      rw [LsmEngine.removeManifest, SortedMap.find_erase] at hid'
      split_ifs at hid' with heq
      · cases hid'
      · exact h.manifests id' hid'
    current := fun hzero => by
      obtain ⟨hnamed, hrecorded⟩ := h.current hzero
      refine ⟨hnamed.congr rfl, hrecorded.congr fun file hfind => ?_⟩
      rw [LsmEngine.removeManifest, SortedMap.find_erase, if_neg hne.symm]
      exact hfind
    legacy := fun hzero => by
      obtain ⟨hcurrent, hnone, hpublished⟩ := h.legacy hzero
      refine ⟨hcurrent, fun id' => ?_, hpublished⟩
      rw [LsmEngine.removeManifest, SortedMap.find_erase, hnone, ite_self] }

/-! ### Publication -/

/-- A version set that can follow: its manifest is written, and its watermark covers its tables. -/
structure Follows (files : Files) (c : Ids) (next : VersionSet) : Prop where
  generation : next.currentGeneration = c.version.currentGeneration + 1
  id : next.manifestId ≠ 0
  written : files.manifests.find next.manifestId = some (.complete next.written)
  watermark : c.version.tableIdHighWatermark ≤ next.tableIdHighWatermark
  listed : ∀ d ∈ next.tables, d.tableId ≤ next.tableIdHighWatermark
  lt : next.tableIdHighWatermark < c.table

theorem Follows.recorded (h : Follows files c next) (hbounded : Bounded history c.version.tableIdHighWatermark) :
    Recorded files history next :=
  ⟨next.written, h.written, rfl, le_rfl, h.listed, hbounded.mono h.watermark⟩

theorem IdsAhead.torn (h : IdsAhead files history c) (hfile : files.current = some file) :
    IdsAhead (putCurrent (setSlot (c.version.currentGeneration + 1) none file) files) history c :=
  { h with
    current := fun hne => ⟨(h.current hne).1.torn hfile, (h.current hne).2.congr fun _ hfind => hfind⟩
    legacy := fun hzero => absurd hzero (h.exists_manifest hfile) }

theorem IdsAhead.publish (h : IdsAhead files history c) (hnext : Follows files c next)
    (hfile : files.current = some file) :
    IdsAhead (putCurrent (setSlot next.currentGeneration (some ⟨next.currentGeneration, next.manifestId⟩) file)
        files)
      (.published (next.tables.map SstableDescriptor.tableId) :: history) { c with version := next } := by
  have hids : ∀ id ∈ next.tables.map SstableDescriptor.tableId, id ≤ next.tableIdHighWatermark := by
    intro id hid
    obtain ⟨d, hd, rfl⟩ := List.mem_map.1 hid
    exact hnext.listed d hd
  have hbounded : Bounded (.published (next.tables.map SstableDescriptor.tableId) :: history)
      next.tableIdHighWatermark := (h.bounded.mono hnext.watermark).published hids
  refine { h with
    ids := h.ids.published
    bounded := hbounded
    watermark := hnext.lt
    listed := fun d hd => (hnext.listed d hd).trans_lt hnext.lt
    current := fun _ => ⟨?_, ⟨next.written, hnext.written, rfl, le_rfl, hnext.listed, hbounded⟩⟩
    legacy := fun hzero => absurd hzero hnext.id }
  dsimp only
  rw [hnext.generation]
  exact (h.current (h.exists_manifest hfile)).1.next hfile hnext.id

/-- However the write to the slot ends. -/
theorem IdsAhead.slotWrite (h : IdsAhead files history c) (hnext : Follows files c next)
    (hfile : files.current = some file)
    (hslot : SlotWrite ⟨next.currentGeneration, next.manifestId⟩ (next.tables.map SstableDescriptor.tableId)
      slot events) :
    Ledger (putCurrent (setSlot next.currentGeneration slot file) files) (events ++ history) := by
  rcases hslot with ⟨rfl, rfl⟩ | ⟨rfl, rfl⟩
  · rw [hnext.generation]
    exact (h.torn hfile).ledger
  · exact (h.publish hnext hfile).ledger

end DbLab.Lsm
