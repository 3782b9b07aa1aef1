import DbLab.Lsm.Engine

/-!
# What the programs over the directory do

One rule for each program that the engine runs on its directory: which files it can leave when it fails,
and what it has done when it succeeds.
-/

namespace DbLab.Lsm

open Store

variable {s : Store} {I : Files → History → Prop}

/-- **A new table.** It opens under its descriptor and holds the entries. -/
theorem wp_createSstable {tableId level durableSequence : ℕ} {entries : VersionMap}
    {Q : SsTable → Store → Prop} (hI : I s.files s.history)
    (hexists : (s.files.tables.find tableId).isSome →
      I s.files (.created (.table tableId) true :: s.history))
    (hsame : s.files.tables.find tableId = none → I s.files (.created (.table tableId) false :: s.history))
    (hput : s.files.tables.find tableId = none → ∀ table,
      I (putTable tableId table s.files) (.created (.table tableId) false :: s.history))
    (hok : ∀ table content rest, s.files.tables.find tableId = none →
      SsTable.openContent table.descriptor content = .ok table → table.descriptor.tableId = tableId →
      table.descriptor.level = level → table.descriptor.durableSequence = durableSequence →
      table.index = entries → Q table ⟨putTable tableId (.complete content) s.files, rest,
        .created (.table tableId) false :: s.history⟩) :
    Prog.wp (createSstable tableId level durableSequence entries) Q (Fails I) s := by
  rw [createSstable, Prog.wp_bind]
  refine wp_check hI fun ⟨content, descriptor⟩ hcreate => ?_
  obtain ⟨hrecords, -, hid, hlevel, hdurable⟩ := SsTable.create_eq_ok hcreate
  dsimp only
  rw [Prog.wp_bind]
  refine wp_creating hexists hsame (fun hnone b _ => hput hnone b) fun rest hnone => ?_
  refine wp_reading (hput hnone _) fun table rest hopen => ?_
  have hfind : (putTable tableId (.complete content) s.files).tables.find descriptor.tableId =
      some (.complete content) := by
    rw [putTable, SortedMap.find_insert, if_pos hid]
  rw [readTable, hfind, Checked.ok_bind] at hopen
  obtain ⟨hdescriptor, hindex, -⟩ := SsTable.openContent_eq_ok hopen
  refine hok table content rest hnone (by rw [hdescriptor]; exact hopen) (by rw [hdescriptor]; exact hid)
    (by rw [hdescriptor]; exact hlevel) (by rw [hdescriptor]; exact hdurable) ?_
  refine SortedMap.ext_find fun k => ?_
  rw [SortedMap.find, SortedMap.find, hindex, hrecords]

/-- The version set as its manifest has it. -/
def VersionSet.written (version : VersionSet) : VersionSet := { version with currentGeneration := 0 }

theorem listedIds_written {version : VersionSet} {manifestId : ℕ} {files : Files} :
    listedIds manifestId (putManifest manifestId (.complete version.written) files) =
      version.tables.map SstableDescriptor.tableId := by
  rw [listedIds, putManifest, SortedMap.find_insert, if_pos rfl]
  rfl

theorem wp_writeManifestNew {version : VersionSet} {Q : Unit → Store → Prop} (hI : I s.files s.history)
    (hexists : (s.files.manifests.find version.manifestId).isSome →
      I s.files (.created (.manifest version.manifestId) true :: s.history))
    (hsame : s.files.manifests.find version.manifestId = none →
      I s.files (.created (.manifest version.manifestId) false :: s.history))
    (hput : validateVersionSet version = .ok () → s.files.manifests.find version.manifestId = none →
      ∀ manifest, (manifest = .complete version.written ∨ manifest = .damaged) →
        I (putManifest version.manifestId manifest s.files)
          (.created (.manifest version.manifestId) false :: s.history))
    (hok : ∀ rest, validateVersionSet version = .ok () →
      s.files.manifests.find version.manifestId = none →
      Q () ⟨putManifest version.manifestId (.complete version.written) s.files, rest,
        .created (.manifest version.manifestId) false :: s.history⟩) :
    Prog.wp (writeManifestNew version) Q (Fails I) s := by
  rw [writeManifestNew, Prog.wp_bind]
  refine wp_check hI fun _ hvalid => ?_
  rw [Prog.wp_bind]
  refine wp_check hI fun _ _ => ?_
  refine wp_creating hexists hsame (fun hnone b hb => hput hvalid hnone b ?_) fun rest hnone => hok rest hvalid hnone
  rcases hb with rfl | ⟨-, rfl⟩
  · exact .inl rfl
  · exact .inr rfl

/-- What `prepare_install` checks of a new version set. -/
structure Installable (current : VersionSet) (state : ManifestState) (next : VersionSet) : Prop where
  durable_le : current.durableSequence ≤ state.durableSequence
  valid : validateVersionSet next = .ok ()

theorem wp_prepareInstall {current : VersionSet} {manifestId : ℕ} {state : ManifestState}
    {Q : VersionSet → Store → Prop} (hI : I s.files s.history)
    (hexists : (s.files.manifests.find manifestId).isSome →
      I s.files (.created (.manifest manifestId) true :: s.history))
    (hsame : s.files.manifests.find manifestId = none →
      I s.files (.created (.manifest manifestId) false :: s.history))
    (hput : ∀ next, next = nextVersion current manifestId state (current.currentGeneration + 1) →
      Installable current state next → s.files.manifests.find manifestId = none →
      ∀ manifest, (manifest = .complete next.written ∨ manifest = .damaged) →
        I (putManifest manifestId manifest s.files) (.created (.manifest manifestId) false :: s.history))
    (hok : ∀ next rest, next = nextVersion current manifestId state (current.currentGeneration + 1) →
      Installable current state next → s.files.manifests.find manifestId = none →
      Q next ⟨putManifest manifestId (.complete next.written) s.files, rest,
        .created (.manifest manifestId) false :: s.history⟩) :
    Prog.wp (prepareInstall current manifestId state) Q (Fails I) s := by
  rw [prepareInstall, Prog.wp_bind]
  refine wp_check hI fun _ hdurable => ?_
  rw [failWhen_eq_ok, not_lt] at hdurable
  rw [Prog.wp_bind]
  refine wp_check hI fun _ _ => ?_
  rw [Prog.wp_bind]
  refine wp_check hI fun generation hgeneration => ?_
  obtain ⟨-, rfl⟩ := checkedSucc_eq_ok.1 hgeneration
  dsimp only
  rw [Prog.wp_bind]
  refine wp_check hI fun _ hvalid => ?_
  rw [Prog.wp_bind]
  refine wp_writeManifestNew hI hexists hsame (fun _ hnone manifest hmanifest =>
    hput _ rfl ⟨hdurable, hvalid⟩ hnone manifest hmanifest) fun rest _ hnone => ?_
  exact hok _ rest rfl ⟨hdurable, hvalid⟩ hnone

/-- **An installation**: a manifest, and then one slot of `CURRENT`. -/
theorem wp_install {current : VersionSet} {manifestId : ℕ} {state : ManifestState}
    {Q : VersionSet → Store → Prop} (hI : I s.files s.history)
    (hexists : (s.files.manifests.find manifestId).isSome →
      I s.files (.created (.manifest manifestId) true :: s.history))
    (hsame : s.files.manifests.find manifestId = none →
      I s.files (.created (.manifest manifestId) false :: s.history))
    (hput : ∀ next, next = nextVersion current manifestId state (current.currentGeneration + 1) →
      Installable current state next → s.files.manifests.find manifestId = none →
      ∀ manifest, (manifest = .complete next.written ∨ manifest = .damaged) →
        I (putManifest manifestId manifest s.files) (.created (.manifest manifestId) false :: s.history))
    (hslot : ∀ next, next = nextVersion current manifestId state (current.currentGeneration + 1) →
      Installable current state next → s.files.manifests.find manifestId = none →
      ∀ file slot events, s.files.current = some file →
        SlotWrite ⟨next.currentGeneration, manifestId⟩ (next.tables.map SstableDescriptor.tableId) slot events →
        I (putCurrent (setSlot next.currentGeneration slot file)
          (putManifest manifestId (.complete next.written) s.files))
          (events ++ .created (.manifest manifestId) false :: s.history))
    (hok : ∀ next rest, next = nextVersion current manifestId state (current.currentGeneration + 1) →
      Installable current state next → s.files.manifests.find manifestId = none →
      ∀ file, s.files.current = some file →
        Q next ⟨putCurrent (setSlot next.currentGeneration
            (some ⟨next.currentGeneration, manifestId⟩) file)
          (putManifest manifestId (.complete next.written) s.files), rest,
          .published (next.tables.map SstableDescriptor.tableId) ::
            .created (.manifest manifestId) false :: s.history⟩) :
    Prog.wp (install current manifestId state) Q (Fails I) s := by
  rw [install, Prog.wp_bind]
  refine wp_prepareInstall hI hexists hsame hput fun next rest hnext hinstall hnone => ?_
  have hid : next.manifestId = manifestId := by rw [hnext]; rfl
  rw [Prog.wp_bind, publishPrepared]
  refine wp_writeCurrentSlot (hput next hnext hinstall hnone _ (.inl rfl)) ?_ ?_
  · intro file slot events hfile hslot'
    rw [hid, listedIds_written] at hslot'
    exact hslot next hnext hinstall hnone file slot events hfile hslot'
  · intro rest' file hfile
    rw [hid, listedIds_written]
    exact hok next rest' hnext hinstall hnone file hfile

theorem wp_mirrorCurrent {current : VersionSet} {Q : VersionSet → Store → Prop}
    (hI : I s.files s.history)
    (hslot : ∀ file slot events, s.files.current = some file →
      SlotWrite ⟨current.currentGeneration + 1, current.manifestId⟩
        (listedIds current.manifestId s.files) slot events →
      I (putCurrent (setSlot (current.currentGeneration + 1) slot file) s.files) (events ++ s.history))
    (hok : ∀ rest file, s.files.current = some file →
      Q { current with currentGeneration := current.currentGeneration + 1 }
        ⟨putCurrent (setSlot (current.currentGeneration + 1)
          (some ⟨current.currentGeneration + 1, current.manifestId⟩) file) s.files, rest,
          .published (listedIds current.manifestId s.files) :: s.history⟩) :
    Prog.wp (mirrorCurrent current) Q (Fails I) s := by
  rw [mirrorCurrent, Prog.wp_bind]
  refine wp_check hI fun generation hgeneration => ?_
  obtain ⟨-, rfl⟩ := checkedSucc_eq_ok.1 hgeneration
  rw [Prog.wp_bind]
  exact wp_writeCurrentSlot hI hslot fun rest file hfile => hok rest file hfile

theorem wp_createInitial {walId walFirstSequence : ℕ} {Q : VersionSet → Store → Prop}
    (hI : I s.files s.history)
    (hexists : (s.files.manifests.find 1).isSome → I s.files (.created (.manifest 1) true :: s.history))
    (hsame : s.files.manifests.find 1 = none → I s.files (.created (.manifest 1) false :: s.history))
    (hcurrent : s.files.manifests.find 1 = none → s.files.current.isSome → ∀ manifest,
      I (putManifest 1 manifest s.files)
        (.created .current true :: .created (.manifest 1) false :: s.history))
    (hput : s.files.manifests.find 1 = none → ∀ manifest events,
      (events = [] ∨ s.files.current = none ∧ events = [.created .current false]) →
      I (putManifest 1 manifest s.files) (events ++ .created (.manifest 1) false :: s.history))
    (hboth : s.files.manifests.find 1 = none → s.files.current = none →
      ∀ current version, (current = .short ∨ current = .slots (some ⟨0, 1⟩) (some ⟨0, 1⟩)) →
      version.manifestId = 1 → version.tables = [] →
      I (putCurrent current (putManifest 1 (.complete version) s.files))
        (.created .current false :: .created (.manifest 1) false :: s.history))
    (hok : ∀ version rest, s.files.manifests.find 1 = none → s.files.current = none →
      version.manifestId = 1 → version.tables = [] → version.durableSequence = 0 →
      version.tableIdHighWatermark = 0 → version.currentGeneration = 0 →
      Q version ⟨putCurrent (.slots (some ⟨0, 1⟩) (some ⟨0, 1⟩))
        (putManifest 1 (.complete version.written) s.files), rest,
        .created .current false :: .created (.manifest 1) false :: s.history⟩) :
    Prog.wp (createInitial walId walFirstSequence) Q (Fails I) s := by
  rw [createInitial, Prog.wp_bind]
  refine wp_writeManifestNew hI hexists hsame (fun _ hnone manifest _ => hput hnone manifest [] (.inl rfl))
    fun rest _ hnone => ?_
  rw [Prog.wp_bind]
  refine wp_creating (fun hsome => hcurrent hnone hsome _)
    (fun hcur => hput hnone _ [_] (.inr ⟨hcur, rfl⟩)) ?_ ?_
  · intro hcur current hcases
    refine hboth hnone hcur current _ ?_ rfl rfl
    rcases hcases with rfl | ⟨-, rfl⟩
    · exact .inr rfl
    · exact .inl rfl
  · intro rest' hcur
    exact hok _ rest' hnone hcur rfl rfl rfl rfl rfl

theorem wp_createNewWal {walId firstSequence : ℕ} {Q : Wal → Store → Prop} (hI : I s.files s.history)
    (hexists : (s.files.wals.find walId).isSome → I s.files (.created (.wal walId) true :: s.history))
    (hsame : s.files.wals.find walId = none → I s.files (.created (.wal walId) false :: s.history))
    (hput : s.files.wals.find walId = none → ∀ bytes,
      I (putWal walId bytes s.files) (.created (.wal walId) false :: s.history))
    (hok : ∀ wal rest, Wal.createNew walId firstSequence = .ok wal → s.files.wals.find walId = none →
      Q wal ⟨putWal walId wal.log.file s.files, rest, .created (.wal walId) false :: s.history⟩) :
    Prog.wp (createNewWal walId firstSequence) Q (Fails I) s := by
  rw [createNewWal, Prog.wp_bind]
  refine wp_check hI fun wal hwal => ?_
  rw [Prog.wp_bind]
  exact wp_creating hexists hsame (fun hnone bytes _ => hput hnone bytes) fun rest hnone =>
    hok wal rest hwal hnone

end DbLab.Lsm
