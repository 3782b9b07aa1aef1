import DbLab.Lsm.FileRuns
import DbLab.Lsm.Logged

/-!
# What a directory gives back

`Backed` says that a directory has a version set, its tables and the mutations of its segment. Opening
such a directory loads these tables and replays these mutations (`Reopened.eq_of_backed`), whatever else
stands in it. A compaction leaves a directory that is backed by the old version set or by the new one, also
when it fails on the way.
-/

namespace DbLab.Lsm

open Store LsmEngine Record RecordFormat

variable {s : Session} {t : Store} {files files' : Files} {e : LsmEngine} {ms : List Mutation}
  {version next : VersionSet} {tables : List SsTable} {low id : ℕ} {key : Bytes}

/-- The files determine what opens. -/
theorem Opened.unique {low' : ℕ} {descriptors descriptors' : List SstableDescriptor} {tables' : List SsTable}
    (h : Opened files low descriptors tables) (h' : Opened files low' descriptors' tables')
    (heq : descriptors = descriptors') : tables = tables' := by
  induction h generalizing low' descriptors' tables' with
  | nil =>
    cases h' with
    | nil => rfl
    | cons => cases heq
  | @cons low table content descriptors tables hcontent hopen _ _ _ ih =>
    cases h' with
    | nil => cases heq
    | @cons _ table' content' descriptors' tables' hcontent' hopen' _ _ hrest' =>
      rw [List.cons.injEq] at heq
      obtain ⟨hdescriptor, hdescriptors⟩ := heq
      rw [← hdescriptor, hcontent] at hcontent'
      cases hcontent'
      rw [← hdescriptor, hopen, Except.ok.injEq] at hopen'
      rw [hopen', ih hrest' hdescriptors]

/-- A directory with a version set, its tables and the mutations of its segment. -/
structure Backed (files : Files) (version : VersionSet) (tables : List SsTable) (ms : List Mutation) :
    Prop where
  manifest : files.current = none ∧ Agrees legacyVersion version ∨
    Named files version.currentGeneration version.manifestId ∧
      ∃ written, files.manifests.find version.manifestId = some (.complete written) ∧ Agrees written version
  opened : Opened files 0 version.tables tables
  segment : ∃ wal : Wal, files.wals.find version.walId = some wal.log.file ∧
    wal.Holds version.walId version.walFirstSequence ms
  header : WalHeaderOk version.walId version.walFirstSequence

/-- A usable engine is backed by its directory. -/
theorem Logged.backed (h : Logged files e ms) (hlayered : Layered files e) {history : History}
    (hids : IdsAhead files history e.ids) : Backed files e.version e.tables ms where
  manifest := by
    by_cases hzero : e.version.manifestId = 0
    · exact .inl ⟨(hids.legacy hzero).1, h.legacy hzero⟩
    · exact .inr ⟨(hids.current hzero).1, h.manifest hzero⟩
  opened := hlayered.opened
  segment := by
    obtain ⟨wal, -, -, -, hfile, hholds⟩ := h.wal
    exact ⟨wal, hfile, hholds⟩
  header := h.header

theorem Backed.grow (h : Backed files version tables ms) (hgrows : Grows files files')
    (hcurrent : files'.current = files.current) (hwals : files'.wals = files.wals) :
    Backed files' version tables ms where
  manifest := by
    rcases h.manifest with ⟨hnone, hagrees⟩ | ⟨hnamed, written, hfind, hagrees⟩
    · exact .inl ⟨hcurrent.trans hnone, hagrees⟩
    · exact .inr ⟨hnamed.congr hcurrent, written, hgrows.manifests _ _ hfind, hagrees⟩
  opened := h.opened.grow hgrows
  segment := by
    rw [hwals]
    exact h.segment
  header := h.header

/-! ### Slots -/

theorem Backed.named {file : CurrentFile} (h : Backed files version tables ms)
    (hfile : files.current = some file) :
    Named files version.currentGeneration version.manifestId ∧
      ∃ written, files.manifests.find version.manifestId = some (.complete written) ∧
        Agrees written version := by
  rcases h.manifest with ⟨hnone, -⟩ | hnamed
  · rw [hnone] at hfile
    cases hfile
  · exact hnamed

/-- A torn write to the other slot. -/
theorem Backed.torn {file : CurrentFile} (h : Backed files version tables ms)
    (hfile : files.current = some file) :
    Backed (putCurrent (setSlot (version.currentGeneration + 1) none file) files) version tables ms where
  manifest := .inr ⟨(h.named hfile).1.torn hfile, (h.named hfile).2⟩
  opened := h.opened.congr fun _ _ _ hcontent => hcontent
  segment := h.segment
  header := h.header

/-- A whole write to the other slot. -/
theorem Backed.publish {file : CurrentFile} {tables' : List SsTable} {written : VersionSet}
    (h : Backed files version tables ms)
    (hfile : files.current = some file) (hgeneration : next.currentGeneration = version.currentGeneration + 1)
    (hne : next.manifestId ≠ 0) (hwritten : files.manifests.find next.manifestId = some (.complete written))
    (hagrees : Agrees written next) (hopened : Opened files 0 next.tables tables')
    (hwal : next.walId = version.walId) (hfirst : next.walFirstSequence = version.walFirstSequence) :
    Backed (putCurrent (setSlot next.currentGeneration (some ⟨next.currentGeneration, next.manifestId⟩) file)
      files) next tables' ms where
  manifest := by
    rw [hgeneration]
    exact .inr ⟨(h.named hfile).1.next hfile hne, written, hwritten, hagrees⟩
  opened := hopened.congr fun _ _ _ hcontent => hcontent
  segment := by
    rw [hwal, hfirst]
    exact h.segment
  header := by
    rw [hwal, hfirst]
    exact h.header

theorem Backed.removeTable (h : Backed files version tables ms)
    (hne : ∀ d ∈ version.tables, d.tableId ≠ id) :
    Backed (LsmEngine.removeTable id files) version tables ms where
  manifest := h.manifest
  opened := h.opened.congr fun d hd content hcontent => by
    rw [LsmEngine.removeTable, SortedMap.find_erase, if_neg (hne d hd)]
    exact hcontent
  segment := h.segment
  header := h.header

theorem Backed.removeManifest (h : Backed files version tables ms) (hne : id ≠ version.manifestId) :
    Backed (LsmEngine.removeManifest id files) version tables ms where
  manifest := by
    rcases h.manifest with hlegacy | ⟨hnamed, written, hfind, hagrees⟩
    · exact .inl hlegacy
    · refine .inr ⟨hnamed, written, ?_, hagrees⟩
      rw [LsmEngine.removeManifest, SortedMap.find_erase, if_neg hne.symm]
      exact hfind
  opened := h.opened.congr fun _ _ _ hcontent => hcontent
  segment := h.segment
  header := h.header

/-! ### Opening -/

/-- What `CURRENT` and its manifest give, or the layout without manifests. -/
def Loads (files : Files) (version : VersionSet) : Prop :=
  files.current = none ∧ version = legacyVersion ∨
    ∃ slot stored, readCurrent files = .ok slot ∧ stored.manifestId = slot.manifestId ∧
      files.manifests.find slot.manifestId = some (.complete stored) ∧
      version = { stored with currentGeneration := slot.generation }

/-- An engine that opening makes of a directory, and the directory behind it. -/
def Reopened (files files' : Files) (e : LsmEngine) : Prop :=
  ∃ (loaded : VersionSet) (file : Bytes) (scan : ScanResult MemTableSet),
    Loads files loaded ∧ Opened files 0 loaded.tables e.tables ∧
    files.wals.find loaded.walId = some file ∧
    scanWal (replayMutation loaded.durableSequence) ⟨.empty, [], mutableMemtableBytesLimit⟩ file loaded.walId
      loaded.walFirstSequence = .ok scan ∧
    (files' = files ∧ scan.recoverableTail = none ∨
      files' = putWal loaded.walId (file.take scan.validBytes) files) ∧
    e.wal = some (walOf loaded.walId loaded.walFirstSequence file scan) ∧ e.memtables = scan.values ∧
    e.version = { loaded with tableIdHighWatermark := e.version.tableIdHighWatermark } ∧ e.poisoned = false

theorem wp_loadVersion_loads {layout : Layout} (hlayout : LayoutOf t.files layout) :
    Prog.wp (loadVersion layout) (fun version t' => Loads t.files version ∧ t'.files = t.files)
      (Fails fun _ _ => True) t := by
  rw [loadVersion]
  cases hversion : layout.hasVersionSet with
  | false => exact ⟨.inl ⟨(hlayout.legacy hversion).1, rfl⟩, rfl⟩
  | true =>
    rw [if_pos rfl, load, Prog.wp_bind]
    refine wp_reading trivial fun slot io hslot => ?_
    rw [Prog.wp_bind]
    refine wp_reading trivial fun version io' hread => ?_
    dsimp only at hread
    refine ⟨.inr ⟨slot, version, hslot, ?_⟩, rfl⟩
    rw [readManifest] at hread
    cases hfind : t.files.manifests.find slot.manifestId with
    | none =>
      rw [hfind] at hread
      cases hread
    | some file =>
      rw [hfind] at hread
      cases file with
      | damaged => cases hread
      | complete stored =>
        simp only [Checked.bind_eq_ok, failWhen_eq_ok, not_not] at hread
        obtain ⟨_, hid, _, -, _, -, hresult⟩ := hread
        cases hresult
        exact ⟨hid, rfl, rfl⟩

theorem wp_openWal_scan {walId firstSequence durable : ℕ} {memtables : MemTableSet}
    {Q : Wal × MemTableSet → Store → Prop}
    (hok : ∀ file scan files' io, t.files.wals.find walId = some file →
      scanWal (replayMutation durable) memtables file walId firstSequence = .ok scan →
      (files' = t.files ∧ scan.recoverableTail = none ∨
        files' = putWal walId (file.take scan.validBytes) t.files) →
      Q (walOf walId firstSequence file scan, scan.values) ⟨files', io, t.history⟩) :
    Prog.wp (openWal walId firstSequence durable memtables) Q (Fails fun _ _ => True) t := by
  rw [openWal, Prog.wp_bind]
  refine wp_reading trivial fun file io hread => ?_
  have hfile : t.files.wals.find walId = some file := by
    rw [readWal] at hread
    cases hfind : t.files.wals.find walId with
    | none =>
      rw [hfind] at hread
      cases hread
    | some bytes =>
      rw [hfind, Except.ok.injEq] at hread
      rw [hread]
  rw [Prog.wp_bind]
  refine wp_check trivial fun scan hscan => ?_
  rw [Prog.wp_bind, truncateTail]
  by_cases htail : scan.recoverableTail.isSome
  · rw [if_pos htail]
    exact wp_rewriteWal trivial (fun _ _ _ => trivial) fun io' _ => hok file scan _ _ hfile hscan (.inr rfl)
  · rw [if_neg htail]
    rw [Bool.not_eq_true, Option.isSome_eq_false_iff, Option.isNone_iff_eq_none] at htail
    exact hok file scan _ _ hfile hscan (.inl ⟨rfl, htail⟩)

/-- **Opening.** -/
theorem openExisting_reopened (h : ValidDirectory t.files) :
    Prog.wp openExisting (fun e t' => Reopened t.files t'.files e) (Fails fun _ _ => True) t := by
  rw [openExisting, Prog.wp_bind]
  refine wp_reading trivial fun layout io hlayout => ?_
  rw [Prog.wp_bind]
  refine Prog.wp_mono (Prog.wp_and (wp_loadVersion_loads (validateLayout_eq_ok hlayout))
    (@wp_loadVersion _ (fun _ _ => True) _
      (fun version t' => ∃ tables, Loaded t.files version tables) h trivial
      fun version tables io' hloaded => ⟨tables, hloaded⟩)) (fun loaded t₁ h₁ => ?_) fun _ _ _ => trivial
  obtain ⟨⟨hloads, hfiles⟩, tables, hloaded⟩ := h₁
  rw [Prog.wp_bind]
  refine wp_openTables hloaded.opened hfiles trivial fun io'' => ?_
  rw [Prog.wp_bind]
  refine wp_check trivial fun _ _ => ?_
  rw [Prog.wp_bind]
  refine wp_check trivial fun memtables hmemtables => ?_
  rw [MemTableSet.new_eq_ok hmemtables, Prog.wp_bind]
  refine wp_openWal_scan fun file scan files' io₃ hfile hscan hcases => ?_
  dsimp only at hfile hcases ⊢
  rw [hfiles] at hfile hcases
  rw [Prog.wp_bind]
  refine wp_check trivial fun _ _ => ?_
  rw [Prog.wp_bind]
  refine wp_check trivial fun nextTableId _ => ?_
  rw [Prog.wp_bind]
  refine wp_check trivial fun nextManifestId _ => ?_
  rw [Prog.wp_bind]
  refine wp_check trivial fun nextWalId _ => ?_
  exact ⟨loaded, file, scan, hloads, hloaded.opened, hfile, hscan, hcases, rfl, rfl, rfl, rfl⟩

theorem Loads.agrees (h : Loads files version) (hbacked : Backed files next tables ms) : Agrees version next := by
  rcases h with ⟨hnone, rfl⟩ | ⟨slot, stored, hread, -, hstored, rfl⟩
  · rcases hbacked.manifest with ⟨-, hagrees⟩ | ⟨⟨first, second, hcurrent, -⟩, -⟩
    · exact hagrees
    · rw [hnone] at hcurrent
      cases hcurrent
  · rcases hbacked.manifest with ⟨hnone, -⟩ | ⟨hnamed, written, hwritten, hagrees⟩
    · rw [readCurrent, hnone] at hread
      cases hread
    · rw [hnamed.readCurrent_eq, Except.ok.injEq] at hread
      subst hread
      rw [hwritten] at hstored
      cases hstored
      exact ⟨hagrees.tables, hagrees.durableSequence, hagrees.walId, hagrees.walFirstSequence⟩

/-- **Opening gives back what the directory has**: the tables of its version set, and the mutations of its
segment above the durable sequence. -/
theorem Reopened.eq_of_backed (h : Reopened files files' e) (hbacked : Backed files version tables ms) :
    e.tables = tables ∧
      ∀ key, firstHit e.memtables.layers key = newestAbove version.durableSequence ms key := by
  obtain ⟨loaded, file, scan, hloads, hopened, hfile, hscan, -, -, hmemtables, -⟩ := h
  have hagrees := hloads.agrees hbacked
  obtain ⟨wal, hsegment, hholds⟩ := hbacked.segment
  rw [hagrees.walId] at hfile hscan
  rw [hagrees.walFirstSequence] at hscan
  rw [hsegment, Option.some.injEq] at hfile
  subst hfile
  obtain ⟨hreplay, -⟩ := hholds.scanWal_whole hbacked.header _ _ hscan
  refine ⟨hopened.unique hbacked.opened hagrees.tables, fun key => ?_⟩
  rw [hmemtables, firstHit_replay hreplay, firstHit_new, Option.or_none, hagrees.durableSequence]

/-- Opening finds the memtables in its log. -/
theorem Reopened.logged (h : Reopened files files' e) (hvalid : ValidDirectory files) :
    ∃ ms, Logged files' e ms ∧ Covered e ms := by
  obtain ⟨loaded, file, scan, hloads, -, hfile, hscan, hcases, hwal, hmemtables, hversion, -⟩ := h
  obtain ⟨hok, hwhole, ms, hholds, hreplay⟩ := holds_of_scanWal hscan
  have hid : e.version.walId = loaded.walId := by rw [hversion]
  have hfirst : e.version.walFirstSequence = loaded.walFirstSequence := by rw [hversion]
  have hdurable : e.version.durableSequence = loaded.durableSequence := by rw [hversion]
  have hmanifestId : e.version.manifestId = loaded.manifestId := by rw [hversion]
  have hagrees : Agrees loaded e.version := by
    rw [hversion]
    exact ⟨rfl, rfl, rfl, rfl⟩
  have hmanifests : files'.manifests = files.manifests := by
    rcases hcases with ⟨rfl, -⟩ | rfl
    · rfl
    · rfl
  refine ⟨ms, ⟨⟨_, hwal, ?_⟩, ?_, fun hne => ?_, fun hzero => ?_⟩, fun key => ?_⟩
  · rw [hid, hfirst]
    refine ⟨rfl, rfl, ?_, hholds⟩
    rcases hcases with ⟨rfl, hnone⟩ | rfl
    · rw [hfile, walOf, hwhole hnone]
    · rw [putWal, SortedMap.find_insert, if_pos rfl]
      rfl
  · rw [hid, hfirst]
    exact hok
  · rw [hmanifestId] at hne ⊢
    rcases hloads with ⟨-, rfl⟩ | ⟨slot, stored, -, hstored, hfind, rfl⟩
    · exact absurd rfl hne
    · refine ⟨stored, ?_, hagrees.tables, hagrees.durableSequence, hagrees.walId, hagrees.walFirstSequence⟩
      rw [hmanifests]
      dsimp only
      rw [hstored]
      exact hfind
  · rw [hmanifestId] at hzero
    rcases hloads with ⟨-, rfl⟩ | ⟨slot, stored, hread, hstored, -, rfl⟩
    · exact hagrees
    · dsimp only at hzero
      rw [hstored] at hzero
      exact absurd hzero (readCurrent_valid hvalid hread).2
  · rw [hmemtables, hdurable, firstHit_replay hreplay, firstHit_new, Option.or_none]

end DbLab.Lsm
