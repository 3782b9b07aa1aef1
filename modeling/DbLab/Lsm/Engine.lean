import DbLab.Lsm.Manifest

/-!
# The LSM engine

A mutation is appended to the log and enters the mutable memtable. Frozen memtables are written out as
tables of level 0; four of them are merged with everything else into one table of level 1, which drops
the tombstones; and when the tables cover the whole log, a new segment begins. Every version set is
published by a manifest and a slot of `CURRENT` before the files that it replaces are removed.

Counters and timings are left out.
-/

namespace DbLab.Lsm

open Store Record

def mutableMemtableBytesLimit : ℕ := 64 * 1024
def level0CompactionTrigger : ℕ := 4

structure LsmEngine where
  wal : Option Wal
  memtables : MemTableSet
  tables : List SsTable
  version : VersionSet
  nextTableId : ℕ
  nextManifestId : ℕ
  nextWalId : ℕ
  poisoned : Bool

/-- An engine and its directory. -/
structure Session where
  store : Store
  engine : LsmEngine

abbrev EngineProg := Prog Session DbError

/-! ### The names of the files -/

/-- Numbers that `parse_numbered_name` accepts: sixteen digits, not all zero. -/
def CanonicalId (id : ℕ) : Prop := 0 < id ∧ id < 10 ^ 16

instance {id : ℕ} : Decidable (CanonicalId id) := inferInstanceAs (Decidable (_ ∧ _))

/-- A number in decimal, filled up with zeros to sixteen digits. -/
def pad16 (id : ℕ) : String :=
  let digits := Nat.toDigits 10 id
  String.ofList (List.replicate (16 - digits.length) '0' ++ digits)

def walFileName (id : ℕ) : String := s!"wal-{pad16 id}.log"
def manifestFileName (id : ℕ) : String := s!"MANIFEST-{pad16 id}"
def sstableFileName (id : ℕ) : String := s!"sst-{pad16 id}.sst"

/-- The entries whose names `validate_layout` does not know. -/
def unknownNames (files : Files) : List String :=
  files.unknown ++ (files.wals.keys.filter fun id => ¬ CanonicalId id).map walFileName ++
    (files.manifests.keys.filter fun id => ¬ CanonicalId id).map manifestFileName ++
    (files.tables.keys.filter fun id => ¬ CanonicalId id).map sstableFileName

/-- The entry that the error names, "" if there is none. -/
def firstUnknown (files : Files) : String := (unknownNames files).head?.getD ""

def maxId (ids : List ℕ) : ℕ := ids.foldl max 0

structure Layout where
  walIds : List ℕ
  maxWalId : ℕ
  maxTableId : ℕ
  maxManifestId : ℕ
  hasVersionSet : Bool

/-- Source `validate_layout`. -/
def validateLayout (files : Files) : Except DbError Layout := do
  failWhen (unknownNames files ≠ [])
    (corruption s!"unknown file in LSM directory: {firstUnknown files}")
  failWhen (files.wals.keys = []) (corruption "LSM directory contains no canonical WAL segment")
  let layout (hasVersionSet : Bool) : Layout :=
    { walIds := files.wals.keys
      maxWalId := maxId files.wals.keys
      maxTableId := maxId files.tables.keys
      maxManifestId := maxId files.manifests.keys
      hasVersionSet := hasVersionSet }
  match files.current.isSome, decide (maxId files.manifests.keys ≠ 0) with
  | true, true => .ok (layout true)
  | false, false =>
    if maxId files.tables.keys = 0 ∧ files.wals.keys = [initialWalId] then .ok (layout false)
    else .error (corruption "legacy WAL-only layout must contain exactly wal-0000000000000001.log")
  | false, true => .error (corruption "LSM directory has manifest snapshots but is missing CURRENT")
  | true, false => .error (corruption "LSM directory has CURRENT but no manifest snapshot")

/-! ### Opening -/

/-- The version set of a directory without manifests. -/
def legacyVersion : VersionSet where
  currentGeneration := 0
  manifestId := 0
  durableSequence := 0
  tombstoneGcSequence := 0
  tableIdHighWatermark := 0
  walId := initialWalId
  walFirstSequence := initialFirstSequence
  tables := []

def loadVersion (layout : Layout) : StoreProg VersionSet :=
  if layout.hasVersionSet then load else pure legacyVersion

def readTable (id : ℕ) (files : Files) : Except DbError TableContent :=
  match files.tables.find id with
  | none => .error notFound
  | some .damaged => .error (corruption "SSTable whole-file checksum mismatch")
  | some (.complete content) => .ok content

/-- Source `SsTable::open`. -/
def openTable (descriptor : SstableDescriptor) : StoreProg SsTable :=
  reading fun files => readTable descriptor.tableId files >>= SsTable.openContent descriptor

def openTables : List SstableDescriptor → StoreProg (List SsTable)
  | [] => pure []
  | descriptor :: rest => do
    let table ← openTable descriptor
    let tables ← openTables rest
    pure (table :: tables)

/-- Source `SsTable::create_new`, with the level. -/
def createSstable (tableId level durableSequence : ℕ) (entries : VersionMap) : StoreProg SsTable := do
  let (content, descriptor) ← Prog.ofExcept (SsTable.create tableId level durableSequence entries)
  createTable tableId content
  openTable descriptor

def readWal (walId : ℕ) (files : Files) : Except DbError Bytes :=
  match files.wals.find walId with
  | none => .error notFound
  | some bytes => .ok bytes

/-- A mutation of the log enters the memtables, unless the tables have it. -/
def replayMutation (durableSequence : ℕ) (memtables : MemTableSet) (m : Mutation) :
    Except DbError MemTableSet :=
  if durableSequence < m.sequence then memtables.apply m.sequence m.key m.value else .ok memtables

/-- Cut an incomplete last record off. -/
def truncateTail {σ : Type} (walId : ℕ) (file : Bytes) (scan : ScanResult σ) : StoreProg Unit :=
  if scan.recoverableTail.isSome then
    rewriteWal walId (file.take scan.validBytes) fun _ => file
  else pure ()

/-- Source `Wal::open`, with the replay into memtables. -/
def openWal (walId firstSequence durableSequence : ℕ) (memtables : MemTableSet) :
    StoreProg (Wal × MemTableSet) := do
  let file ← reading (readWal walId)
  let scan ← Prog.ofExcept
    (scanWal (replayMutation durableSequence) memtables file walId firstSequence)
  truncateTail walId file scan
  let wal : Wal :=
    { log :=
        { file := file.take scan.validBytes
          nextSequence := scan.nextSequence
          recordCount := scan.recordCount
          acknowledgedValidBytes := scan.validBytes
          acknowledgedPrefix := file.take scan.validBytes }
      walId := walId
      firstSequence := firstSequence }
  pure (wal, scan.values)

/-- Source `Wal::create_new`. -/
def createNewWal (walId firstSequence : ℕ) : StoreProg Wal := do
  let wal ← Prog.ofExcept (Wal.createNew walId firstSequence)
  createWal walId wal.log.file
  pure wal

namespace LsmEngine

/-- Source `initialize_new`, on a fresh directory. -/
def initializeNew : StoreProg LsmEngine := do
  let wal ← createNewWal initialWalId initialFirstSequence
  let version ← createInitial initialWalId initialFirstSequence
  let memtables ← Prog.ofExcept (MemTableSet.new mutableMemtableBytesLimit)
  pure
    { wal := some wal
      memtables := memtables
      tables := []
      version := version
      nextTableId := 1
      nextManifestId := 2
      nextWalId := 2
      poisoned := false }

/-- Source `open_existing`. -/
def openExisting : StoreProg LsmEngine := do
  let layout ← reading validateLayout
  let loaded ← loadVersion layout
  let version := { loaded with tableIdHighWatermark := max loaded.tableIdHighWatermark layout.maxTableId }
  let tables ← openTables version.tables
  Prog.ofExcept (failWhen (version.walId ∉ layout.walIds)
    (corruption s!"manifest references missing WAL segment {version.walId}"))
  let memtables ← Prog.ofExcept (MemTableSet.new mutableMemtableBytesLimit)
  let (wal, memtables) ← openWal version.walId version.walFirstSequence version.durableSequence memtables
  Prog.ofExcept (failWhen (wal.log.nextSequence ≤ version.durableSequence)
    (corruption s!"manifest durable sequence {version.durableSequence} is not below WAL next sequence {wal.log.nextSequence}"))
  let nextTableId ← Prog.ofExcept (checkedNextId version.tableIdHighWatermark "SSTable")
  let nextManifestId ← Prog.ofExcept (checkedNextId layout.maxManifestId "manifest")
  let nextWalId ← Prog.ofExcept (checkedNextId layout.maxWalId "WAL")
  pure
    { wal := some wal
      memtables := memtables
      tables := tables
      version := version
      nextTableId := nextTableId
      nextManifestId := nextManifestId
      nextWalId := nextWalId
      poisoned := false }

/-- Work on the directory. -/
def onStore {α : Type} (x : StoreProg α) : EngineProg α :=
  Prog.zoom Session.store (fun s store => { s with store := store }) x

def engine : EngineProg LsmEngine := Prog.reads fun s => .ok s.engine

def modifyEngine (f : LsmEngine → LsmEngine) : EngineProg Unit :=
  Prog.modify fun s => { s with engine := f s.engine }

def ensureUsable : EngineProg Unit :=
  Prog.reads fun s => if s.engine.poisoned ∨ s.engine.wal.isNone then .error .poisoned else .ok ()

/-- An error poisons the engine. -/
def poisonOnError {α : Type} (x : EngineProg α) : EngineProg α := fun s =>
  match x s with
  | (.ok a, s') => (.ok a, s')
  | (.error e, s') => (.error e, { s' with engine := { s'.engine with poisoned := true } })

/-- The open segment. -/
def activeWal : EngineProg Wal := Prog.reads fun s => s.engine.wal.elim (.error .poisoned) .ok

/-! ### Reading -/

/-- Source `current_entry`: the memtables, then the tables from the newest one. -/
def currentEntry (engine : LsmEngine) (key : Bytes) : Option VersionedEntry :=
  match engine.memtables.get key with
  | some entry => some entry
  | none => engine.tables.reverse.findSome? fun table => table.get key

/-- Source `current_value`. -/
def currentValue (engine : LsmEngine) (key : Bytes) : Option Bytes :=
  (engine.currentEntry key).bind Version.value

/-- The versions of a range that are visible: the tables, and the memtables over them. -/
def visibleRange (engine : LsmEngine) (start : Bytes) (stop : Option Bytes) : VersionMap :=
  let visible := engine.tables.foldl (fun visible table => table.overlayRange start stop visible) .empty
  overlay visible (engine.memtables.visibleState.entries.filter fun e => SsTable.InRange start stop e.1)

/-- The values of the versions that are no tombstones. -/
def liveRows (visible : VersionMap) : List (Bytes × Bytes) :=
  visible.entries.filterMap fun e => e.2.value.map fun value => (e.1, value)

/-! ### Writing out the memtables -/

/-- The initial manifest of a directory that has none. -/
def ensureManifest : EngineProg Unit := do
  let e ← engine
  if e.version.manifestId = 0 then do
    let wal ← activeWal
    let version ← onStore (createInitial wal.walId wal.firstSequence)
    modifyEngine fun e => { e with version := version, nextManifestId := 2 }
  else pure ()

/-- One round of the loop of `flush_frozen_memtables`. -/
def flushOldest (entries : VersionMap) (durableSequence : ℕ) : EngineProg Unit := do
  ensureManifest
  let e ← engine
  let nextTableId ← Prog.ofExcept (checkedSucc e.nextTableId (corruption "SSTable id exhausted"))
  let nextManifestId ← Prog.ofExcept (checkedSucc e.nextManifestId (corruption "manifest id exhausted"))
  let table ← onStore (createSstable e.nextTableId 0 durableSequence entries)
  let next ← onStore (install e.version e.nextManifestId
    { durableSequence := durableSequence
      tombstoneGcSequence := e.version.tombstoneGcSequence
      walId := e.version.walId
      walFirstSequence := e.version.walFirstSequence
      tables := e.version.tables ++ [table.descriptor] })
  modifyEngine fun e => { e with
    tables := e.tables ++ [table]
    version := next
    nextTableId := nextTableId
    nextManifestId := nextManifestId }
  let memtables ← Prog.ofExcept e.memtables.retireOldestImmutable
  modifyEngine fun e => { e with memtables := memtables }

/-- The loop of `flush_frozen_memtables`: every round retires one frozen table. -/
def flushLoop : ℕ → EngineProg Unit
  | 0 => pure ()
  | rounds + 1 => do
    let e ← engine
    let snapshot ← Prog.ofExcept e.memtables.oldestImmutableSnapshot
    snapshot.elim (pure ()) fun (entries, durableSequence) => do
      flushOldest entries durableSequence
      flushLoop rounds

/-! ### Compaction -/

def removeTable (id : ℕ) (files : Files) : Files := { files with tables := files.tables.erase id }
def removeManifest (id : ℕ) (files : Files) : Files := { files with manifests := files.manifests.erase id }
def removeWal (id : ℕ) (files : Files) : Files := { files with wals := files.wals.erase id }

/-- Source `reclaim_obsolete_sstables`. -/
def reclaimObsoleteSstables (active : Option ℕ) : StoreProg Unit :=
  reclaim (fun files => files.tables.keys.filter fun id => CanonicalId id ∧ some id ≠ active) removeTable

/-- Source `reclaim_obsolete_manifests`. -/
def reclaimObsoleteManifests (active : ℕ) : StoreProg Unit :=
  reclaim (fun files => files.manifests.keys.filter fun id => CanonicalId id ∧ id ≠ active) removeManifest

/-- Source `reclaim_obsolete_wals`. -/
def reclaimObsoleteWals (active : ℕ) : StoreProg Unit :=
  reclaim (fun files => files.wals.keys.filter fun id => CanonicalId id ∧ id ≠ active) removeWal

/-- All versions of all tables. -/
def mergedTables (engine : LsmEngine) : VersionMap :=
  engine.tables.foldl (fun visible table => table.overlayRange [] none visible) .empty

/-- The table of level 1 for the versions that are no tombstones, if there is one, and the id behind it.
-/
def createReplacement (e : LsmEngine) (live : VersionMap) : EngineProg (Option SsTable × ℕ) :=
  if live.entries = [] then pure (none, e.nextTableId)
  else do
    let nextTableId ← Prog.ofExcept (checkedNextId e.nextTableId "SSTable")
    let table ← onStore (createSstable e.nextTableId 1 e.version.durableSequence live)
    pure (some table, nextTableId)

/-- Source `compact_level0_after_trigger`. -/
def compactLevel0AfterTrigger : EngineProg Unit := do
  let e ← engine
  let merged := e.mergedTables
  Prog.ofExcept (failWhen (merged.entries = [])
    (corruption "full-set compaction unexpectedly produced no entries"))
  let nextManifestId ← Prog.ofExcept (checkedNextId e.nextManifestId "manifest")
  Prog.ofExcept (failWhen (∃ x ∈ merged.entries, e.version.durableSequence < x.2.sequence)
    (corruption "full-set compaction input exceeds the manifest durable sequence"))
  let live := merged.filter fun x => x.2.value.isSome
  let (table, nextTableId) ← createReplacement e live
  let compacted ← onStore (prepareInstall e.version e.nextManifestId
    { durableSequence := e.version.durableSequence
      tombstoneGcSequence := e.version.durableSequence
      walId := e.version.walId
      walFirstSequence := e.version.walFirstSequence
      tables := (table.map SsTable.descriptor).toList })
  onStore (publishPrepared compacted)
  let mirrored ← onStore (mirrorCurrent compacted)
  modifyEngine fun e => { e with
    tables := table.toList
    version := mirrored
    nextTableId := nextTableId
    nextManifestId := nextManifestId }
  onStore (reclaimObsoleteSstables (table.map fun table => table.descriptor.tableId))
  onStore (reclaimObsoleteManifests mirrored.manifestId)

/-- Source `maybe_compact_level0`. -/
def maybeCompactLevel0 : EngineProg Unit := do
  let e ← engine
  if (e.version.tables.filter fun table => table.level = 0).length < level0CompactionTrigger then pure ()
  else compactLevel0AfterTrigger

/-! ### Rotation of the log -/

def rotateWal (wal : Wal) (firstSequence : ℕ) : EngineProg Unit := do
  let e ← engine
  let followingWalId ← Prog.ofExcept (checkedNextId e.nextWalId "WAL")
  let followingManifestId ← Prog.ofExcept (checkedNextId e.nextManifestId "manifest")
  let newWal ← onStore (createNewWal e.nextWalId firstSequence)
  let rotated ← onStore (install e.version e.nextManifestId
    { durableSequence := e.version.durableSequence
      tombstoneGcSequence := e.version.tombstoneGcSequence
      walId := e.nextWalId
      walFirstSequence := firstSequence
      tables := e.version.tables })
  let mirrored ← onStore (mirrorCurrent rotated)
  modifyEngine fun e => { e with
    wal := some newWal
    version := mirrored
    nextWalId := followingWalId
    nextManifestId := followingManifestId }
  onStore (reclaimObsoleteWals e.nextWalId)
  onStore (reclaimObsoleteManifests mirrored.manifestId)

/-- Source `maybe_rotate_wal`. -/
def maybeRotateWal : EngineProg Unit := do
  let e ← engine
  if u64Limit ≤ e.version.durableSequence + 1 then pure ()
  else do
    let wal ← activeWal
    if wal.log.recordCount = 0 ∨ wal.log.nextSequence ≠ e.version.durableSequence + 1 ∨
        wal.firstSequence = e.version.durableSequence + 1 then pure ()
    else rotateWal wal (e.version.durableSequence + 1)

/-- Source `flush_frozen_memtables`. -/
def flushFrozenMemtables : EngineProg Unit := do
  let e ← engine
  flushLoop e.memtables.immutable.length
  maybeCompactLevel0
  maybeRotateWal

/-! ### The operations -/

/-- Source `append`: the sequence number of the new record. -/
def appendWal (kind : RecordKind) (key value : Bytes) : EngineProg ℕ := do
  let wal ← activeWal
  let (sequence, next) ← Prog.ofExcept (wal.append kind key value)
  onStore (rewriteWal wal.walId next.log.file fun written =>
    next.log.file.take (wal.log.file.length + written))
  modifyEngine fun e => { e with wal := some next }
  pure sequence

def applyMemtables (sequence : ℕ) (key : Bytes) (value : Option Bytes) : EngineProg Unit := do
  let e ← engine
  let memtables ← Prog.ofExcept (e.memtables.apply sequence key value)
  modifyEngine fun e => { e with memtables := memtables }

/-- Source `persist_and_apply`. -/
def persistAndApply (kind : RecordKind) (key : Bytes) (value : Option Bytes) : EngineProg Unit := do
  ensureUsable
  let sequence ← poisonOnError (appendWal kind key (value.getD []))
  poisonOnError (applyMemtables sequence key value)
  poisonOnError flushFrozenMemtables

def put (key value : Bytes) : EngineProg (Option Bytes) := do
  Prog.ofExcept (validateKeyValue key value)
  ensureUsable
  let e ← engine
  persistAndApply .put key (some value)
  pure (e.currentValue key)

def get (key : Bytes) : EngineProg (Option Bytes) := do
  Prog.ofExcept (validateKey key)
  ensureUsable
  let e ← engine
  pure (e.currentValue key)

def delete (key : Bytes) : EngineProg (Option Bytes) := do
  Prog.ofExcept (validateKey key)
  ensureUsable
  let e ← engine
  persistAndApply .delete key none
  pure (e.currentValue key)

/-- Source `validate_range_scan`. -/
def validateRangeScan (start : Bytes) (stop : Option Bytes) : Except DbError Unit := do
  validateKey start
  (stop.toList).forM fun bound => do
    validateKey bound
    failWhen (bound < start) (.invalidInput "ordered range end must not sort before start")

def rangeScan (start : Bytes) (stop : Option Bytes) (limit : ℕ) : EngineProg (List (Bytes × Bytes)) := do
  Prog.ofExcept (validateRangeScan start stop)
  ensureUsable
  let e ← engine
  if limit = 0 ∨ stop = some start then pure []
  else pure ((liveRows (e.visibleRange start stop)).take limit)

def reopen : EngineProg Unit := fun s =>
  match openExisting s.store with
  | (.ok engine, store) => (.ok (), ⟨store, engine⟩)
  | (.error e, store) => (.error e, ⟨store, { s.engine with wal := none, poisoned := true }⟩)

end LsmEngine
end DbLab.Lsm
