import DbLab.Lsm.Conformance
import DbLab.Record.Explain

/-!
# Verification of a directory

`verify` reads what an opening reads and changes nothing. The two accept the same directories, up to a table
number that is used up and a count that does not fit, and the numbers of the report are those of the handle that
an opening makes.
-/

namespace DbLab.Lsm

open Checked Experiment Record Store

variable {files : Files} {history : History} {t : Store} {io : List Io} {e : LsmEngine}

/-! ### The reports -/

/-- Source `LsmStats`. -/
structure LsmStats where
  walRecords : ℕ
  activeWalId : ℕ
  activeWalFirstSequence : ℕ
  mutableEntries : ℕ
  immutableMemtables : ℕ
  immutableEntries : ℕ
  sstables : ℕ
  level0Sstables : ℕ
  level1Sstables : ℕ
  sstableEntries : ℕ
  durableSequence : ℕ
  tombstoneGcSequence : ℕ
  deriving DecidableEq

/-- Source `WalVerification`. -/
structure WalVerification where
  formatVersion : ℕ
  walId : ℕ
  firstSequence : ℕ
  fileBytes : ℕ
  validBytes : ℕ
  recordCount : ℕ
  nextSequence : ℕ
  recoverableTail : Option TruncatedTail
  deriving DecidableEq

/-- Source `VerificationReport`. -/
structure VerificationReport where
  wal : WalVerification
  memtables : LsmStats
  deriving DecidableEq

namespace MemTableSet

def mutableEntries (set : MemTableSet) : ℕ := set.mutable.entries.entries.length

def immutableCount (set : MemTableSet) : ℕ := set.immutable.length

def immutableEntries (set : MemTableSet) : ℕ := (set.immutable.map fun table => table.entries.entries.length).sum

end MemTableSet

/-- Source `verification`. -/
def verification {σ : Type} (scan : ScanResult σ) (walId firstSequence : ℕ) : WalVerification where
  formatVersion := walFormatVersion
  walId := walId
  firstSequence := firstSequence
  fileBytes := scan.fileBytes
  validBytes := scan.validBytes
  recordCount := scan.recordCount
  nextSequence := scan.nextSequence
  recoverableTail := scan.recoverableTail

/-- The entries of the tables, counted from a total on. -/
def countEntries (overflow : DbError) (tables : List SstableDescriptor) (total : ℕ) : Except DbError ℕ :=
  tables.foldlM (fun total table => checkedAdd total table.entryCount overflow) total

/-- The numbers of a version set, of a segment and of memtables. -/
def statsOf (version : VersionSet) (recordCount walId firstSequence sstables sstableEntries : ℕ)
    (memtables : MemTableSet) : LsmStats where
  walRecords := recordCount
  activeWalId := walId
  activeWalFirstSequence := firstSequence
  mutableEntries := memtables.mutableEntries
  immutableMemtables := memtables.immutableCount
  immutableEntries := memtables.immutableEntries
  sstables := sstables
  level0Sstables := (version.tables.filter fun table => table.level = 0).length
  level1Sstables := (version.tables.filter fun table => table.level = 1).length
  sstableEntries := sstableEntries
  durableSequence := version.durableSequence
  tombstoneGcSequence := version.tombstoneGcSequence

/-- The loop of `verify` over the tables. -/
def verifyTables : List SstableDescriptor → ℕ → StoreProg ℕ
  | [], sstableEntries => pure sstableEntries
  | descriptor :: rest, sstableEntries => do
    let _ ← openTable descriptor
    let sstableEntries ← Prog.ofExcept (checkedAdd sstableEntries descriptor.entryCount
      (corruption "SSTable verification entry count overflowed u64"))
    verifyTables rest sstableEntries

/-- Source `Wal::verify`, with the replay into memtables. -/
def verifyWal (walId firstSequence durableSequence : ℕ) (memtables : MemTableSet) :
    StoreProg (WalVerification × MemTableSet) := do
  let file ← reading (readWal walId)
  let scan ← Prog.ofExcept (scanWal (replayMutation durableSequence) memtables file walId firstSequence)
  pure (verification scan walId firstSequence, scan.values)

namespace LsmEngine

/-- Source `stats`. -/
def stats (e : LsmEngine) : Except DbError LsmStats := do
  failWhen (e.poisoned = true ∨ e.wal.isNone = true) .poisoned
  let wal ← e.wal.elim (.error .poisoned) .ok
  let sstableEntries ← countEntries (corruption "SSTable entry count overflowed u64") e.version.tables 0
  .ok (statsOf e.version wal.log.recordCount wal.walId wal.firstSequence e.tables.length sstableEntries e.memtables)

/-- Source `verify`. -/
def verify : StoreProg VerificationReport := do
  let layout ← reading validateLayout
  let version ← loadVersion layout
  let sstableEntries ← verifyTables version.tables 0
  Prog.ofExcept (failWhen (version.walId ∉ layout.walIds)
    (corruption s!"manifest references missing WAL segment {version.walId}"))
  let memtables ← Prog.ofExcept (MemTableSet.new mutableMemtableBytesLimit)
  let (wal, memtables) ← verifyWal version.walId version.walFirstSequence version.durableSequence memtables
  Prog.ofExcept (failWhen (wal.nextSequence ≤ version.durableSequence)
    (corruption s!"manifest durable sequence {version.durableSequence} is not below WAL next sequence {wal.nextSequence}"))
  pure
    { wal := wal
      memtables := statsOf version wal.recordCount wal.walId wal.firstSequence version.tables.length sstableEntries
        memtables }

end LsmEngine

/-! ### Programs that read -/

/-- The program computes a function of the directory and changes nothing. A disturbed access makes it fail. -/
structure Reads {α : Type} (x : StoreProg α) (f : Files → Except DbError α) : Prop where
  still : ∀ s, (x s).2.files = s.files ∧ (x s).2.history = s.history
  quiet : ∀ files history, x ⟨files, [], history⟩ = (f files, ⟨files, [], history⟩)
  answers : ∀ s, (x s).1 = f s.files ∨ (x s).1 = .error ioFault

theorem reads_reading {α : Type} (f : Files → Except DbError α) : Reads (reading f) f where
  still s := by
    rw [reading, access]
    dsimp only
    split_ifs <;> exact ⟨rfl, rfl⟩
  quiet _ _ := rfl
  answers s := by
    rw [reading, access]
    dsimp only
    split_ifs
    · exact .inl rfl
    · exact .inr rfl

theorem reads_ofExcept {α : Type} (x : Except DbError α) : Reads (Prog.ofExcept x) fun _ => x :=
  ⟨fun _ => ⟨rfl, rfl⟩, fun _ _ => rfl, fun _ => .inl rfl⟩

theorem reads_pure {α : Type} (a : α) : Reads (pure a) fun _ => .ok a :=
  ⟨fun _ => ⟨rfl, rfl⟩, fun _ _ => rfl, fun _ => .inl rfl⟩

theorem Reads.bind {α β : Type} {x : StoreProg α} {f : Files → Except DbError α} {y : α → StoreProg β}
    {g : α → Files → Except DbError β} (hx : Reads x f) (hy : ∀ a, Reads (y a) (g a)) :
    Reads (x >>= y) fun files => f files >>= fun a => g a files where
  still s := by
    rcases hrun : x s with ⟨err | a, s₁⟩
    · have hstill := hx.still s
      rw [hrun] at hstill
      rwa [Prog.bind_error hrun]
    · have hstill := hx.still s
      rw [hrun] at hstill
      rw [Prog.bind_ok hrun]
      exact ⟨((hy a).still s₁).1.trans hstill.1, ((hy a).still s₁).2.trans hstill.2⟩
  quiet files history := by
    have hrun := hx.quiet files history
    cases hf : f files with
    | error err =>
      rw [hf] at hrun
      rw [Prog.bind_error hrun, error_bind]
    | ok a =>
      rw [hf] at hrun
      rw [Prog.bind_ok hrun, ok_bind, (hy a).quiet]
  answers s := by
    have hanswer := hx.answers s
    rcases hrun : x s with ⟨err | a, s₁⟩
    · rw [hrun] at hanswer
      rw [Prog.bind_error hrun]
      rcases hanswer with hanswer | hanswer
      · left
        rw [← hanswer, error_bind]
      · obtain rfl : err = ioFault := Except.error.inj hanswer
        exact .inr rfl
    · have hstill := hx.still s
      rw [hrun] at hanswer hstill
      rw [Prog.bind_ok hrun]
      rcases hanswer with hanswer | ⟨⟨⟩⟩
      rw [← hanswer, ok_bind, ← hstill.1]
      exact (hy a).answers s₁

theorem Reads.eq_ok {α : Type} {x : StoreProg α} {f : Files → Except DbError α} {a : α} (h : Reads x f) :
    x ⟨files, [], history⟩ = (.ok a, t) ↔ f files = .ok a ∧ t = ⟨files, [], history⟩ := by
  rw [h.quiet, Prod.mk.injEq, @eq_comm _ t]

/-- What `loadVersion` reads. -/
def loadFrom (layout : Layout) (files : Files) : Except DbError VersionSet :=
  if layout.hasVersionSet then do
    let current ← readCurrent files
    let version ← readManifest current.manifestId files
    .ok { version with currentGeneration := current.generation }
  else .ok legacyVersion

theorem reads_loadVersion (layout : Layout) : Reads (loadVersion layout) (loadFrom layout) := by
  unfold loadVersion loadFrom
  by_cases h : layout.hasVersionSet
  · simp only [h, if_true]
    exact (reads_reading _).bind fun current => (reads_reading _).bind fun version => reads_pure _
  · simp only [h]
    exact reads_pure _

/-- What `openTable` reads. -/
def openFrom (descriptor : SstableDescriptor) (files : Files) : Except DbError SsTable :=
  readTable descriptor.tableId files >>= SsTable.openContent descriptor

def openTablesFrom : List SstableDescriptor → Files → Except DbError (List SsTable)
  | [], _ => .ok []
  | descriptor :: rest, files => do
    let table ← openFrom descriptor files
    let tables ← openTablesFrom rest files
    .ok (table :: tables)

theorem openTablesFrom_congr {files' : Files} {descriptors : List SstableDescriptor}
    (h : files'.tables = files.tables) :
    openTablesFrom descriptors files' = openTablesFrom descriptors files := by
  induction descriptors with
  | nil => rfl
  | cons descriptor rest ih => rw [openTablesFrom, openTablesFrom, openFrom, openFrom, readTable, readTable, h, ih]

theorem reads_openTables (descriptors : List SstableDescriptor) :
    Reads (openTables descriptors) (openTablesFrom descriptors) := by
  induction descriptors with
  | nil => exact reads_pure _
  | cons descriptor rest ih => exact (reads_reading _).bind fun table => ih.bind fun tables => reads_pure _

def verifyTablesFrom : List SstableDescriptor → ℕ → Files → Except DbError ℕ
  | [], sstableEntries, _ => .ok sstableEntries
  | descriptor :: rest, sstableEntries, files => do
    let _ ← openFrom descriptor files
    let sstableEntries ← checkedAdd sstableEntries descriptor.entryCount
      (corruption "SSTable verification entry count overflowed u64")
    verifyTablesFrom rest sstableEntries files

theorem reads_verifyTables (descriptors : List SstableDescriptor) (total : ℕ) :
    Reads (verifyTables descriptors total) (verifyTablesFrom descriptors total) := by
  induction descriptors generalizing total with
  | nil => exact reads_pure _
  | cons descriptor rest ih =>
    exact (reads_reading _).bind fun table => (reads_ofExcept _).bind fun total => ih total

def verifyWalFrom (walId firstSequence durableSequence : ℕ) (memtables : MemTableSet) (files : Files) :
    Except DbError (WalVerification × MemTableSet) := do
  let file ← readWal walId files
  let scan ← scanWal (replayMutation durableSequence) memtables file walId firstSequence
  .ok (verification scan walId firstSequence, scan.values)

theorem reads_verifyWal (walId firstSequence durableSequence : ℕ) (memtables : MemTableSet) :
    Reads (verifyWal walId firstSequence durableSequence memtables)
      (verifyWalFrom walId firstSequence durableSequence memtables) :=
  (reads_reading _).bind fun _ => (reads_ofExcept _).bind fun _ => reads_pure _

/-- What `verify` reads. -/
def verifyFrom (files : Files) : Except DbError VerificationReport := do
  let layout ← validateLayout files
  let version ← loadFrom layout files
  let sstableEntries ← verifyTablesFrom version.tables 0 files
  failWhen (version.walId ∉ layout.walIds)
    (corruption s!"manifest references missing WAL segment {version.walId}")
  let memtables ← MemTableSet.new mutableMemtableBytesLimit
  let (wal, memtables) ← verifyWalFrom version.walId version.walFirstSequence version.durableSequence memtables files
  failWhen (wal.nextSequence ≤ version.durableSequence)
    (corruption s!"manifest durable sequence {version.durableSequence} is not below WAL next sequence {wal.nextSequence}")
  .ok
    { wal := wal
      memtables := statsOf version wal.recordCount wal.walId wal.firstSequence version.tables.length sstableEntries
        memtables }

/-- **Verification reads only.** -/
theorem reads_verify : Reads LsmEngine.verify verifyFrom :=
  (reads_reading _).bind fun layout => (reads_loadVersion layout).bind fun version =>
    (reads_verifyTables version.tables 0).bind fun _ => (reads_ofExcept _).bind fun _ =>
      (reads_ofExcept _).bind fun memtables => (reads_verifyWal _ _ _ memtables).bind fun _ =>
        (reads_ofExcept _).bind fun _ => reads_pure _

/-! ### What verification and opening accept -/

variable {layout : Layout} {loaded : VersionSet} {tables : List SsTable} {file : Bytes} {scan : ScanResult MemTableSet}
  {total entries : ℕ} {descriptors : List SstableDescriptor} {report : VerificationReport}

/-- A directory that can be read as a whole, and what is read. -/
structure Inspected (files : Files) (layout : Layout) (loaded : VersionSet) (tables : List SsTable) (file : Bytes)
    (scan : ScanResult MemTableSet) : Prop where
  validated : validateLayout files = .ok layout
  loads : loadFrom layout files = .ok loaded
  opens : openTablesFrom loaded.tables files = .ok tables
  listed : loaded.walId ∈ layout.walIds
  reads : readWal loaded.walId files = .ok file
  scans : scanWal (replayMutation loaded.durableSequence) ⟨.empty, [], mutableMemtableBytesLimit⟩ file loaded.walId
    loaded.walFirstSequence = .ok scan
  above : loaded.durableSequence < scan.nextSequence

/-- The entries that a version set names. -/
def entryTotal (descriptors : List SstableDescriptor) : ℕ := (descriptors.map SstableDescriptor.entryCount).sum

theorem countEntries_eq_ok {overflow : DbError} (htotal : total < u64Limit) :
    countEntries overflow descriptors total = .ok entries ↔
      total + entryTotal descriptors < u64Limit ∧ entries = total + entryTotal descriptors := by
  induction descriptors generalizing total with
  | nil => simp [countEntries, entryTotal, htotal, eq_comm]
  | cons descriptor rest ih =>
    have hcons : entryTotal (descriptor :: rest) = descriptor.entryCount + entryTotal rest := by
      rw [entryTotal, List.map_cons, List.sum_cons, entryTotal]
    rw [countEntries, List.foldlM_cons, bind_eq_ok, hcons, ← Nat.add_assoc]
    constructor
    · rintro ⟨next, hnext, hrest⟩
      obtain ⟨hlt, rfl⟩ := checkedAdd_eq_ok.1 hnext
      exact (ih hlt).1 hrest
    · rintro ⟨hlt, rfl⟩
      have hnext : total + descriptor.entryCount < u64Limit := by omega
      exact ⟨_, checkedAdd_eq_ok.2 ⟨hnext, rfl⟩, (ih hnext).2 ⟨hlt, rfl⟩⟩

theorem verifyTablesFrom_eq_ok (htotal : total < u64Limit) :
    verifyTablesFrom descriptors total files = .ok entries ↔
      (∃ tables, openTablesFrom descriptors files = .ok tables) ∧
        total + entryTotal descriptors < u64Limit ∧ entries = total + entryTotal descriptors := by
  induction descriptors generalizing total with
  | nil => simp [verifyTablesFrom, openTablesFrom, entryTotal, htotal, eq_comm]
  | cons descriptor rest ih =>
    have hcons : entryTotal (descriptor :: rest) = descriptor.entryCount + entryTotal rest := by
      rw [entryTotal, List.map_cons, List.sum_cons, entryTotal]
    simp only [verifyTablesFrom, openTablesFrom, bind_eq_ok, hcons, ← Nat.add_assoc]
    constructor
    · rintro ⟨table, htable, next, hnext, hrest⟩
      obtain ⟨hlt, rfl⟩ := checkedAdd_eq_ok.1 hnext
      obtain ⟨⟨tables, htables⟩, hsum⟩ := (ih hlt).1 hrest
      exact ⟨⟨table :: tables, table, htable, tables, htables, rfl⟩, hsum⟩
    · rintro ⟨⟨opened, table, htable, tables, htables, -⟩, hlt, rfl⟩
      have hnext : total + descriptor.entryCount < u64Limit := by omega
      exact ⟨table, htable, _, checkedAdd_eq_ok.2 ⟨hnext, rfl⟩, (ih hnext).2 ⟨⟨tables, htables⟩, hlt, rfl⟩⟩

/-- The report on what is read. -/
def reportOf (loaded : VersionSet) (scan : ScanResult MemTableSet) : VerificationReport where
  wal := verification scan loaded.walId loaded.walFirstSequence
  memtables := statsOf loaded scan.recordCount loaded.walId loaded.walFirstSequence loaded.tables.length
    (entryTotal loaded.tables) scan.values

theorem newMemtables :
    MemTableSet.new mutableMemtableBytesLimit = .ok ⟨.empty, [], mutableMemtableBytesLimit⟩ := rfl

theorem verifyFrom_eq_ok : verifyFrom files = .ok report ↔ ∃ layout loaded tables file scan,
    Inspected files layout loaded tables file scan ∧ entryTotal loaded.tables < u64Limit ∧
      report = reportOf loaded scan := by
  have hzero : 0 < u64Limit := by
    rw [u64Limit_eq]
    decide
  constructor
  · intro h
    obtain ⟨layout, hlayout, h⟩ := bind_eq_ok.1 h
    obtain ⟨loaded, hloaded, h⟩ := bind_eq_ok.1 h
    obtain ⟨entries, hentries, h⟩ := bind_eq_ok.1 h
    obtain ⟨⟨tables, htables⟩, hlt, rfl⟩ := (verifyTablesFrom_eq_ok hzero).1 hentries
    obtain ⟨⟨⟩, hlisted, h⟩ := bind_eq_ok.1 h
    rw [newMemtables, ok_bind] at h
    obtain ⟨⟨wal, memtables⟩, hwal, h⟩ := bind_eq_ok.1 h
    obtain ⟨file, hfile, hwal⟩ := bind_eq_ok.1 hwal
    obtain ⟨scan, hscan, hwal⟩ := bind_eq_ok.1 hwal
    cases hwal
    obtain ⟨⟨⟩, habove, h⟩ := bind_eq_ok.1 h
    cases h
    rw [failWhen_eq_ok, not_not] at hlisted
    rw [failWhen_eq_ok, not_le] at habove
    rw [Nat.zero_add] at hlt ⊢
    exact ⟨layout, loaded, tables, file, scan, ⟨hlayout, hloaded, htables, hlisted, hfile, hscan, habove⟩, hlt, rfl⟩
  · rintro ⟨layout, loaded, tables, file, scan, h, hentries, rfl⟩
    have hcount : verifyTablesFrom loaded.tables 0 files = .ok (entryTotal loaded.tables) :=
      (verifyTablesFrom_eq_ok hzero).2 ⟨⟨tables, h.opens⟩, by rwa [Nat.zero_add], (Nat.zero_add _).symm⟩
    have hwal : verifyWalFrom loaded.walId loaded.walFirstSequence loaded.durableSequence
        ⟨.empty, [], mutableMemtableBytesLimit⟩ files =
        .ok (verification scan loaded.walId loaded.walFirstSequence, scan.values) := by
      rw [verifyWalFrom, h.reads, ok_bind, h.scans, ok_bind]
    rw [verifyFrom, h.validated, ok_bind, h.loads, ok_bind, hcount, ok_bind,
      failWhen_eq_ok (u := ()) |>.2 (not_not.2 h.listed), ok_bind, newMemtables, ok_bind, hwal, ok_bind]
    exact bind_eq_ok.2 ⟨(), failWhen_eq_ok.2 (not_le.2 h.above), rfl⟩

/-- The directory behind an opening: a torn record is cut off. -/
def cut (loaded : VersionSet) (file : Bytes) (scan : ScanResult MemTableSet) (files : Files) : Files :=
  if scan.recoverableTail.isSome then putWal loaded.walId (file.take scan.validBytes) files else files

/-- The handle that an opening makes. -/
def handleOf (layout : Layout) (loaded : VersionSet) (tables : List SsTable) (file : Bytes)
    (scan : ScanResult MemTableSet) : Except DbError LsmEngine := do
  let high := max loaded.tableIdHighWatermark layout.maxTableId
  let nextTableId ← checkedNextId high "SSTable"
  let nextManifestId ← checkedNextId layout.maxManifestId "manifest"
  let nextWalId ← checkedNextId layout.maxWalId "WAL"
  .ok
    { wal := some (walOf loaded.walId loaded.walFirstSequence file scan)
      memtables := scan.values
      tables := tables
      version := { loaded with tableIdHighWatermark := high }
      nextTableId := nextTableId
      nextManifestId := nextManifestId
      nextWalId := nextWalId
      poisoned := false }

theorem Inspected.find_wal (h : Inspected files layout loaded tables file scan) :
    files.wals.find loaded.walId = some file := by
  have hread := h.reads
  rw [readWal] at hread
  cases hfind : files.wals.find loaded.walId with
  | none =>
    rw [hfind] at hread
    cases hread
  | some found =>
    rw [hfind] at hread
    rw [Except.ok.inj hread]

theorem Inspected.truncate (h : Inspected files layout loaded tables file scan) :
    truncateTail loaded.walId file scan ⟨files, [], history⟩ = (.ok (), ⟨cut loaded file scan files, [], history⟩) := by
  rw [truncateTail, cut]
  by_cases htail : scan.recoverableTail.isSome
  · rw [if_pos htail, if_pos htail, rewriteWal, access]
    dsimp only [List.headD_nil]
    rw [h.find_wal]
    rfl
  · rw [if_neg htail, if_neg htail]
    rfl

theorem Inspected.openExisting (h : Inspected files layout loaded tables file scan) :
    LsmEngine.openExisting ⟨files, [], history⟩ =
      (handleOf layout loaded tables file scan, ⟨cut loaded file scan files, [], history⟩) := by
  have hlayout := (reads_reading validateLayout).quiet files history
  have hloaded := (reads_loadVersion layout).quiet files history
  have htables := (reads_openTables loaded.tables).quiet files history
  have hfile := (reads_reading (readWal loaded.walId)).quiet files history
  rw [h.validated] at hlayout
  rw [h.loads] at hloaded
  rw [h.opens] at htables
  rw [h.reads] at hfile
  have hwal : openWal loaded.walId loaded.walFirstSequence loaded.durableSequence
      ⟨.empty, [], mutableMemtableBytesLimit⟩ ⟨files, [], history⟩ =
      (.ok (walOf loaded.walId loaded.walFirstSequence file scan, scan.values),
        ⟨cut loaded file scan files, [], history⟩) := by
    rw [openWal, Prog.bind_ok hfile, h.scans, Prog.ofExcept_ok_bind, Prog.bind_ok h.truncate]
    rfl
  rw [LsmEngine.openExisting, Prog.bind_ok hlayout, Prog.bind_ok hloaded]
  dsimp only
  rw [Prog.bind_ok htables, failWhen_eq_ok (u := ()) |>.2 (not_not.2 h.listed), Prog.ofExcept_ok_bind, newMemtables,
    Prog.ofExcept_ok_bind, Prog.bind_ok hwal]
  have habove : failWhen (scan.nextSequence ≤ loaded.durableSequence)
      (corruption s!"manifest durable sequence {loaded.durableSequence} is not below WAL next sequence {scan.nextSequence}") =
      .ok () := failWhen_eq_ok.2 (not_le.2 h.above)
  refine (Prog.bind_ok (a := ()) (t := ⟨cut loaded file scan files, [], history⟩)
    (congrArg (·, (⟨cut loaded file scan files, [], history⟩ : Store)) habove)).trans ?_
  unfold handleOf
  dsimp only
  cases checkedNextId (max loaded.tableIdHighWatermark layout.maxTableId) "SSTable" with
  | error err => rfl
  | ok nextTableId =>
    cases checkedNextId layout.maxManifestId "manifest" with
    | error err => rfl
    | ok nextManifestId =>
      cases checkedNextId layout.maxWalId "WAL" with
      | error err => rfl
      | ok nextWalId => rfl

theorem inspected_of_openExisting (h : LsmEngine.openExisting ⟨files, [], history⟩ = (.ok e, t)) :
    ∃ layout loaded tables file scan, Inspected files layout loaded tables file scan := by
  obtain ⟨layout, s₁, hrun₁, h₁⟩ := Prog.bind_eq_ok.1 h
  obtain ⟨hlayout, rfl⟩ := (reads_reading _).eq_ok.1 hrun₁
  obtain ⟨loaded, s₂, hrun₂, h₂⟩ := Prog.bind_eq_ok.1 h₁
  obtain ⟨hloaded, rfl⟩ := (reads_loadVersion _).eq_ok.1 hrun₂
  obtain ⟨tables, s₃, hrun₃, h₃⟩ := Prog.bind_eq_ok.1 h₂
  obtain ⟨htables, rfl⟩ := (reads_openTables _).eq_ok.1 hrun₃
  obtain ⟨⟨⟩, s₄, hrun₄, h₄⟩ := Prog.bind_eq_ok.1 h₃
  obtain ⟨hlisted, rfl⟩ := ofExcept_eq_ok.1 hrun₄
  rw [newMemtables, Prog.ofExcept_ok_bind] at h₄
  obtain ⟨⟨wal, memtables⟩, s₅, hwal, h₅⟩ := Prog.bind_eq_ok.1 h₄
  obtain ⟨file, s₆, hrun₆, h₆⟩ := Prog.bind_eq_ok.1 hwal
  obtain ⟨hfile, rfl⟩ := (reads_reading _).eq_ok.1 hrun₆
  obtain ⟨scan, s₇, hrun₇, h₇⟩ := Prog.bind_eq_ok.1 h₆
  obtain ⟨hscan, rfl⟩ := ofExcept_eq_ok.1 hrun₇
  obtain ⟨⟨⟩, s₈, -, h₈⟩ := Prog.bind_eq_ok.1 h₇
  cases h₈
  obtain ⟨⟨⟩, s₉, hrun₉, -⟩ := Prog.bind_eq_ok.1 h₅
  obtain ⟨habove, rfl⟩ := ofExcept_eq_ok.1 hrun₉
  rw [failWhen_eq_ok, not_not] at hlisted
  exact ⟨layout, loaded, tables, file, scan, hlayout, hloaded, htables, hlisted, hfile, hscan,
    not_le.1 (failWhen_eq_ok.1 habove)⟩

/-! ### The numbers of names -/

theorem maxId_lt {ids : List ℕ} {bound : ℕ} (hbound : 0 < bound) (h : ∀ id ∈ ids, id < bound) : maxId ids < bound :=
  (foldl_max (fun id => id) ids 0).2.2 bound hbound h

theorem canonical_of_unknownNames {ids : List ℕ} (names : ℕ → String) (hunknown : unknownNames files = [])
    (hpart : ∀ name ∈ (ids.filter fun id => ¬ CanonicalId id).map names, name ∈ unknownNames files) :
    maxId ids < 10 ^ 16 := by
  refine maxId_lt (by decide) fun id hid => ?_
  by_contra hlarge
  have hmem : names id ∈ unknownNames files := by
    refine hpart _ (List.mem_map_of_mem (List.mem_filter.2 ⟨hid, ?_⟩))
    rw [decide_eq_true_eq]
    exact fun hcanonical => hlarge hcanonical.2
  rw [hunknown] at hmem
  exact List.not_mem_nil hmem

/-- The numbers in names have sixteen digits. -/
theorem canonical_of_validateLayout (h : validateLayout files = .ok layout) :
    layout.maxWalId < 10 ^ 16 ∧ layout.maxManifestId < 10 ^ 16 ∧ layout.maxTableId < 10 ^ 16 := by
  have hlayout := validateLayout_eq_ok h
  unfold validateLayout at h
  simp only [bind_eq_ok, failWhen_eq_ok, not_not] at h
  obtain ⟨-, hunknown, -⟩ := h
  rw [hlayout.wals, hlayout.manifests, hlayout.tables]
  refine ⟨canonical_of_unknownNames walFileName hunknown fun name hname => ?_,
    canonical_of_unknownNames manifestFileName hunknown fun name hname => ?_,
    canonical_of_unknownNames sstableFileName hunknown fun name hname => ?_⟩
  · exact List.mem_append_left _ (List.mem_append_left _ (List.mem_append_right _ hname))
  · exact List.mem_append_left _ (List.mem_append_right _ hname)
  · exact List.mem_append_right _ hname

/-- An opening fails only when the numbers of the tables are used up. -/
theorem handleOf_eq (h : Inspected files layout loaded tables file scan) :
    handleOf layout loaded tables file scan =
      if loaded.tableIdHighWatermark + 1 < u64Limit then .ok
        { wal := some (walOf loaded.walId loaded.walFirstSequence file scan)
          memtables := scan.values
          tables := tables
          version := { loaded with tableIdHighWatermark := max loaded.tableIdHighWatermark layout.maxTableId }
          nextTableId := max loaded.tableIdHighWatermark layout.maxTableId + 1
          nextManifestId := layout.maxManifestId + 1
          nextWalId := layout.maxWalId + 1
          poisoned := false }
      else .error (corruption "SSTable id space exhausted") := by
  obtain ⟨hwals, hmanifests, htables⟩ := canonical_of_validateLayout h.validated
  have hlimit : (10 : ℕ) ^ 16 < u64Limit := by
    rw [u64Limit_eq]
    decide
  by_cases hfree : loaded.tableIdHighWatermark + 1 < u64Limit
  · rw [if_pos hfree, handleOf]
    rw [checkedNextId, checkedSucc_eq_ok.2 ⟨by omega, rfl⟩, ok_bind, checkedNextId,
      checkedSucc_eq_ok.2 ⟨by omega, rfl⟩, ok_bind, checkedNextId, checkedSucc_eq_ok.2 ⟨by omega, rfl⟩, ok_bind]
  · rw [if_neg hfree, handleOf, checkedNextId, checkedSucc, if_neg (by omega), error_bind]
    rfl

/-! ### The scan behind a cut -/

/-- The scan of what a scan has accepted. -/
theorem scanWal_again {σ : Type} {apply : σ → Mutation → Except DbError σ} {values : σ} {walId firstSequence : ℕ}
    {r : ScanResult σ} (h : scanWal apply values file walId firstSequence = .ok r) :
    scanWal apply values (file.take r.validBytes) walId firstSequence =
      .ok { r with fileBytes := r.validBytes, recoverableTail := none } := by
  obtain ⟨hok, -, ms, hholds, hreplay⟩ := holds_of_scanWal h
  have hfile : file.take r.validBytes = encodeWalHeader walId firstSequence ++ walRecordFormat.recordsBytes ms :=
    hholds.file_eq
  have hlength : r.validBytes = (file.take r.validBytes).length := hholds.acknowledged
  have hcount : r.recordCount = ms.length := hholds.recordCount
  have hnext : r.nextSequence = firstSequence + ms.length := hholds.nextSequence
  have hcut : walRecordFormat.Cut ms (walRecordFormat.recordsBytes ms).length ms.length [] :=
    ⟨le_rfl, by rw [List.take_length, List.take_length, List.append_nil], .inl rfl⟩
  have hwhole := hholds.scanWal_cut hok hcut apply values
  have htake : (walOf walId firstSequence file r).log.file.take (walHeaderLen +
      (walRecordFormat.recordsBytes ms).length) = file.take r.validBytes := by
    refine List.take_of_length_le ?_
    rw [hholds.file_eq, List.length_append, encodeWalHeader_length]
  have hstart : walRecordFormat.recordStart walHeaderLen ms ms.length = r.validBytes := by
    rw [RecordFormat.recordStart, List.take_length, hlength, hfile, List.length_append, encodeWalHeader_length]
  rw [htake, List.take_length, hreplay, ok_bind, hstart, ← hlength, ← hnext, ← hcount, RecordFormat.cutTail,
    if_pos rfl] at hwhole
  exact hwhole

theorem validateLayout_putWal {id : ℕ} {bytes : Bytes} (h : (files.wals.find id).isSome) :
    validateLayout (putWal id bytes files) = validateLayout files := by
  have hkeys : (putWal id bytes files).wals.keys = files.wals.keys := SortedMap.keys_insert h
  unfold validateLayout firstUnknown unknownNames
  rw [hkeys]
  rfl

/-- What is left behind the cut is read as before, without the torn record. -/
theorem Inspected.again (h : Inspected files layout loaded tables file scan) :
    Inspected (cut loaded file scan files) layout loaded tables (file.take scan.validBytes)
      { scan with fileBytes := scan.validBytes, recoverableTail := none } := by
  have hfind := h.find_wal
  rw [cut]
  by_cases htail : scan.recoverableTail.isSome
  · rw [if_pos htail]
    have hsome : (files.wals.find loaded.walId).isSome := by rw [hfind]; rfl
    refine ⟨?_, h.loads, ?_, h.listed, ?_, scanWal_again h.scans, h.above⟩
    · rw [validateLayout_putWal hsome]
      exact h.validated
    · have hsame : (putWal loaded.walId (file.take scan.validBytes) files).tables = files.tables := rfl
      rw [openTablesFrom_congr hsame]
      exact h.opens
    · rw [readWal, putWal, SortedMap.find_insert, if_pos rfl]
  · rw [if_neg htail]
    have hwhole : file.take scan.validBytes = file := by
      refine (holds_of_scanWal h.scans).2.1 ?_
      rwa [Option.not_isSome_iff_eq_none] at htail
    have hscan := scanWal_again h.scans
    rw [hwhole] at hscan ⊢
    exact ⟨h.validated, h.loads, h.opens, h.listed, h.reads, hscan, h.above⟩

/-- What a scan says of the bytes of a segment. -/
theorem scanWal_bytes {σ : Type} {apply : σ → Mutation → Except DbError σ} {values : σ} {walId firstSequence : ℕ}
    {r : ScanResult σ} (h : scanWal apply values file walId firstSequence = .ok r) :
    r.fileBytes = file.length ∧ (r.recoverableTail = none ↔ file.take r.validBytes = file) := by
  unfold scanWal at h
  by_cases hshort : file.length < walHeaderLen
  · rw [if_pos hshort] at h
    cases h
  rw [if_neg hshort, bind_eq_ok] at h
  obtain ⟨-, -, hscan⟩ := h
  obtain ⟨ms, tail, hread⟩ := RecordFormat.scanRecords_eq_ok (by rw [List.length_drop]; omega)
    (by rw [List.length_drop]; simp only; omega) hscan
  have hbytes : r.fileBytes = walHeaderLen + (file.drop walHeaderLen).length := hread.fileBytes
  have hvalid : r.validBytes = walHeaderLen + (walRecordFormat.recordsBytes ms).length := hread.validBytes
  have hrest := congrArg List.length hread.rest_eq
  rw [List.length_drop, List.length_append] at hrest
  rw [List.length_drop] at hbytes
  refine ⟨by omega, ?_⟩
  rw [List.take_eq_self_iff]
  rcases hread.tail_ok with ⟨hnone, rfl⟩ | ⟨required, htorn, hsome⟩
  · refine iff_of_true hnone ?_
    rw [List.length_nil] at hrest
    omega
  · have hpos := List.length_pos_iff.2 htorn.ne_nil
    refine iff_of_false (by simp [hsome]) ?_
    omega

/-! ### Verification and opening -/

/-- The summary of a segment file is that of the handle on what is kept of it. -/
structure WalVerification.Describes (v : WalVerification) (file : Bytes) (wal : Wal) : Prop where
  walId : v.walId = wal.walId
  firstSequence : v.firstSequence = wal.firstSequence
  recordCount : v.recordCount = wal.log.recordCount
  nextSequence : v.nextSequence = wal.log.nextSequence
  fileBytes : v.fileBytes = file.length
  kept : wal.log.file = file.take v.validBytes
  torn : v.recoverableTail = none ↔ wal.log.file = file

/-- The report behind an opening, which has cut a torn record off. -/
def VerificationReport.repaired (report : VerificationReport) : VerificationReport :=
  { report with wal := { report.wal with fileBytes := report.wal.validBytes, recoverableTail := none } }

theorem Inspected.describes (h : Inspected files layout loaded tables file scan) :
    (reportOf loaded scan).wal.Describes file (walOf loaded.walId loaded.walFirstSequence file scan) := by
  obtain ⟨hbytes, htail⟩ := scanWal_bytes h.scans
  exact ⟨rfl, rfl, rfl, rfl, hbytes, rfl, htail⟩

theorem openTablesFrom_length {descriptors : List SstableDescriptor} {tables : List SsTable}
    (h : openTablesFrom descriptors files = .ok tables) : tables.length = descriptors.length := by
  induction descriptors generalizing tables with
  | nil =>
    cases h
    rfl
  | cons descriptor rest ih =>
    obtain ⟨table, -, h⟩ := bind_eq_ok.1 h
    obtain ⟨opened, hopened, h⟩ := bind_eq_ok.1 h
    cases h
    rw [List.length_cons, List.length_cons, ih hopened]

/-- The statistics of the handle are those of the report, unless the count of the entries does not fit. -/
theorem Inspected.stats_eq_ok {stats : LsmStats} (h : Inspected files layout loaded tables file scan)
    (hhandle : handleOf layout loaded tables file scan = .ok e) :
    e.stats = .ok stats ↔ entryTotal loaded.tables < u64Limit ∧ stats = (reportOf loaded scan).memtables := by
  rw [handleOf_eq h] at hhandle
  split_ifs at hhandle
  cases hhandle
  have hzero : 0 < u64Limit := by
    rw [u64Limit_eq]
    decide
  rw [LsmEngine.stats, failWhen_eq_ok (u := ()) |>.2 (by simp), ok_bind]
  dsimp only [Option.elim]
  rw [ok_bind, bind_eq_ok]
  simp only [countEntries_eq_ok hzero, Nat.zero_add, openTablesFrom_length h.opens, Except.ok.injEq]
  constructor
  · rintro ⟨entries, ⟨hlt, rfl⟩, rfl⟩
    exact ⟨hlt, rfl⟩
  · rintro ⟨hlt, rfl⟩
    exact ⟨_, ⟨hlt, rfl⟩, rfl⟩

/-- **Verification tells what an opening does.** It leaves the directory alone, whatever the accesses meet. When it
succeeds, an opening makes a handle with the numbers of the report, and the directory behind it passes again without a
torn record; only a directory whose table numbers are used up does not open. When an opening succeeds and its counts
fit, verification succeeds. -/
theorem verify_tells_open (files : Files) (history : History) :
    (∀ io, (LsmEngine.verify ⟨files, io, history⟩).2.files = files ∧
      (LsmEngine.verify ⟨files, io, history⟩).2.history = history ∧
      ((LsmEngine.verify ⟨files, io, history⟩).1 = (LsmEngine.verify ⟨files, [], history⟩).1 ∨
        (LsmEngine.verify ⟨files, io, history⟩).1 = .error ioFault)) ∧
    (∀ report, (LsmEngine.verify ⟨files, [], history⟩).1 = .ok report →
      (∃ e wal file files', LsmEngine.openExisting ⟨files, [], history⟩ = (.ok e, ⟨files', [], history⟩) ∧
        e.stats = .ok report.memtables ∧ e.wal = some wal ∧ files.wals.find wal.walId = some file ∧
        report.wal.Describes file wal ∧ (LsmEngine.verify ⟨files', [], history⟩).1 = .ok report.repaired) ∨
      (LsmEngine.openExisting ⟨files, [], history⟩).1 = .error (corruption "SSTable id space exhausted")) ∧
    ∀ e t stats, LsmEngine.openExisting ⟨files, [], history⟩ = (.ok e, t) → e.stats = .ok stats →
      ∃ report, (LsmEngine.verify ⟨files, [], history⟩).1 = .ok report ∧ report.memtables = stats := by
  have hquiet : ∀ files, (LsmEngine.verify ⟨files, [], history⟩).1 = verifyFrom files := fun files => by
    rw [reads_verify.quiet]
  refine ⟨fun io => ?_, fun report hreport => ?_, fun e t stats hopen hstats => ?_⟩
  · obtain ⟨hfiles, hhistory⟩ := reads_verify.still ⟨files, io, history⟩
    rw [hquiet]
    exact ⟨hfiles, hhistory, reads_verify.answers ⟨files, io, history⟩⟩
  · rw [hquiet] at hreport
    obtain ⟨layout, loaded, tables, file, scan, h, hentries, rfl⟩ := verifyFrom_eq_ok.1 hreport
    cases hhandle : handleOf layout loaded tables file scan with
    | error err =>
      right
      have herror := handleOf_eq h
      split_ifs at herror
      · rw [hhandle] at herror
        cases herror
      · rw [h.openExisting, herror]
    | ok e =>
      left
      have hopen : LsmEngine.openExisting ⟨files, [], history⟩ = _ := h.openExisting
      rw [hhandle] at hopen
      have hwal : e.wal = some (walOf loaded.walId loaded.walFirstSequence file scan) := by
        rw [handleOf_eq h] at hhandle
        split_ifs at hhandle
        cases hhandle
        rfl
      refine ⟨e, _, file, _, hopen, (h.stats_eq_ok hhandle).2 ⟨hentries, rfl⟩, hwal, h.find_wal, h.describes, ?_⟩
      rw [hquiet]
      exact verifyFrom_eq_ok.2 ⟨layout, loaded, tables, _, _, h.again, hentries, rfl⟩
  · obtain ⟨layout, loaded, tables, file, scan, h⟩ := inspected_of_openExisting hopen
    rw [h.openExisting, Prod.mk.injEq] at hopen
    obtain ⟨hentries, rfl⟩ := (h.stats_eq_ok hopen.1).1 hstats
    refine ⟨_, ?_, rfl⟩
    rw [hquiet]
    exact verifyFrom_eq_ok.2 ⟨layout, loaded, tables, file, scan, h, hentries, rfl⟩

/-- A new directory passes. -/
example : (LsmEngine.verify ⟨(LsmEngine.initializeNew ⟨Files.empty, [], []⟩).2.files, [], []⟩).1.isOk = true := by
  decide +kernel

end DbLab.Lsm
