import DbLab.Lsm.Store

/-!
# Manifests and `CURRENT`

A version set is published in two steps: a new manifest file, and one slot of `CURRENT`, chosen by the
parity of the generation. Reading takes the slot of the larger generation.
-/

namespace DbLab.Lsm

open Store

/-- Source `checked_next_id`. -/
def checkedNextId (maxId : ℕ) (label : String) : Except DbError ℕ :=
  checkedSucc maxId (corruption s!"{label} id space exhausted")

/-- The loop of `validate_version_set` over the tables. -/
def validateTables : List SstableDescriptor → ℕ → ℕ → ℕ → Except DbError Unit
  | [], _, _, _ => .ok ()
  | descriptor :: rest, previousTableId, previousDurable, level1Tables => do
    failWhen (1 < descriptor.level) (corruption "manifest SSTable level exceeds implemented L1 policy")
    failWhen (descriptor.level = 1 ∧ 1 ≤ level1Tables)
      (corruption "current L1 policy permits exactly one non-overlapping run")
    failWhen (descriptor.tableId ≤ previousTableId)
      (corruption "manifest table ids are not strictly increasing")
    failWhen (descriptor.durableSequence ≤ previousDurable)
      (corruption "manifest SSTable durable sequences are not strictly increasing")
    validateTables rest descriptor.tableId descriptor.durableSequence
      (if descriptor.level = 1 then level1Tables + 1 else level1Tables)

/-- The last id of the tables, 0 if there is none. -/
def lastTableId (tables : List SstableDescriptor) : ℕ :=
  (tables.getLast?.map SstableDescriptor.tableId).getD 0

/-- The durable sequence of the last table, 0 if there is none. -/
def lastDurable (tables : List SstableDescriptor) : ℕ :=
  (tables.getLast?.map SstableDescriptor.durableSequence).getD 0

/-- Source `validate_version_set`. -/
def validateVersionSet (version : VersionSet) : Except DbError Unit := do
  failWhen (version.durableSequence < version.tombstoneGcSequence)
    (.corruption 64
      s!"manifest tombstone GC sequence {version.tombstoneGcSequence} exceeds durable sequence {version.durableSequence}")
  failWhen (0 < version.durableSequence ∧ version.tableIdHighWatermark = 0)
    (.corruption 72 "nonempty durable history requires a nonzero SSTable id high watermark")
  failWhen (version.walId = 0 ∨ version.walFirstSequence = 0)
    (corruption "manifest WAL id and first sequence must both be nonzero")
  failWhen (min (version.durableSequence + 1) (u64Limit - 1) < version.walFirstSequence)
    (corruption
      s!"manifest WAL first sequence {version.walFirstSequence} is beyond durable sequence {version.durableSequence} + 1")
  validateTables version.tables 0 0 0
  failWhen (version.tableIdHighWatermark < lastTableId version.tables)
    (.corruption 72
      s!"manifest SSTable id high watermark {version.tableIdHighWatermark} is below active table id {lastTableId version.tables}")
  failWhen (version.tables = [] ∧ version.durableSequence ≠ version.tombstoneGcSequence)
    (.corruption 24
      s!"table-less manifest durable sequence {version.durableSequence} is not fully covered by tombstone GC sequence {version.tombstoneGcSequence}")
  failWhen (version.tables ≠ [] ∧ version.durableSequence ≠ lastDurable version.tables)
    (corruption
      s!"manifest durable sequence {version.durableSequence} does not equal latest table watermark {lastDurable version.tables}")

/-- Source `encode_descriptor`, as far as it can fail. -/
def encodeDescriptor (descriptor : SstableDescriptor) : Except DbError Unit := do
  failWhen (1 < descriptor.level) (corruption "manifest SSTable level exceeds implemented L1 policy")
  failWhen (maxKeyBytes < descriptor.smallestKey.length ∨ maxKeyBytes < descriptor.largestKey.length)
    (corruption "manifest SSTable key bound exceeds common key limit")

/-- Source `decode_descriptor`, for a descriptor whose bytes are sound. -/
def decodeDescriptor (descriptor : SstableDescriptor) : Except DbError Unit := do
  failWhen (1 < descriptor.level) (corruption "manifest SSTable level exceeds implemented L1 policy")
  failWhen (maxKeyBytes < descriptor.smallestKey.length ∨ maxKeyBytes < descriptor.largestKey.length)
    (corruption "manifest key bound exceeds common key limit")
  failWhen (descriptor.tableId = 0 ∨ descriptor.fileBytes = 0 ∨ descriptor.entryCount = 0 ∨
      descriptor.durableSequence = 0 ∨ descriptor.largestKey < descriptor.smallestKey)
    (corruption "invalid manifest SSTable descriptor values")

/-- Source `write_manifest_new`. The generation stays in `CURRENT`. -/
def writeManifestNew (version : VersionSet) : StoreProg Unit := do
  Prog.ofExcept (validateVersionSet version)
  Prog.ofExcept (version.tables.forM encodeDescriptor)
  createManifest version.manifestId { version with currentGeneration := 0 }

/-- Source `create_initial`. -/
def createInitial (walId walFirstSequence : ℕ) : StoreProg VersionSet := do
  let version : VersionSet :=
    { currentGeneration := 0
      manifestId := 1
      durableSequence := 0
      tombstoneGcSequence := 0
      tableIdHighWatermark := 0
      walId := walId
      walFirstSequence := walFirstSequence
      tables := [] }
  writeManifestNew version
  createCurrent ⟨0, 1⟩
  pure version

/-- What `parse_current_slot` accepts of a slot. -/
def parseCurrentSlot (slot : Option CurrentSlot) : Option CurrentSlot :=
  slot.filter fun slot => slot.manifestId ≠ 0

/-- Source `read_current`, for the slots that can be read. -/
def chooseSlot : Option CurrentSlot → Option CurrentSlot → Except DbError CurrentSlot
  | none, none => .error (corruption "both CURRENT slots are invalid")
  | some slot, none => .ok slot
  | none, some slot => .ok slot
  | some left, some right =>
    if left.generation = right.generation then
      if left.manifestId ≠ right.manifestId then
        .error (corruption "equal-generation CURRENT slots disagree on manifest id")
      else .ok left
    else
      let (older, newer) := if left.generation < right.generation then (left, right) else (right, left)
      if newer.generation - older.generation ≠ 1 then
        .error (corruption "CURRENT slot generations differ by more than one")
      else .ok newer

/-- Source `read_current`. -/
def readCurrent (files : Files) : Except DbError CurrentSlot :=
  match files.current with
  | none => .error notFound
  | some .short => .error (corruption "CURRENT does not have two slots")
  | some (.slots first second) => chooseSlot (parseCurrentSlot first) (parseCurrentSlot second)

/-- Source `read_manifest`. -/
def readManifest (manifestId : ℕ) (files : Files) : Except DbError VersionSet :=
  match files.manifests.find manifestId with
  | none => .error notFound
  | some .damaged => .error (corruption "manifest file checksum mismatch")
  | some (.complete version) => do
    failWhen (version.manifestId ≠ manifestId)
      (.corruption 16 "manifest id does not match filename/CURRENT")
    version.tables.forM decodeDescriptor
    validateVersionSet version
    .ok version

/-- Source `load`. -/
def load : StoreProg VersionSet := do
  let current ← reading readCurrent
  let version ← reading (readManifest current.manifestId)
  pure { version with currentGeneration := current.generation }

/-- Source `ManifestState`. -/
structure ManifestState where
  durableSequence : ℕ
  tombstoneGcSequence : ℕ
  walId : ℕ
  walFirstSequence : ℕ
  tables : List SstableDescriptor

/-- The version set that an installation writes. -/
def nextVersion (current : VersionSet) (manifestId : ℕ) (state : ManifestState) (generation : ℕ) :
    VersionSet where
  currentGeneration := generation
  manifestId := manifestId
  durableSequence := state.durableSequence
  tombstoneGcSequence := state.tombstoneGcSequence
  tableIdHighWatermark :=
    state.tables.foldl (fun high descriptor => max high descriptor.tableId) current.tableIdHighWatermark
  walId := state.walId
  walFirstSequence := state.walFirstSequence
  tables := state.tables

/-- Source `prepare_install`. -/
def prepareInstall (current : VersionSet) (newManifestId : ℕ) (state : ManifestState) :
    StoreProg VersionSet := do
  Prog.ofExcept (failWhen (state.durableSequence < current.durableSequence)
    (.corruption 24 "manifest install would move the durable sequence backward"))
  Prog.ofExcept (failWhen (state.tombstoneGcSequence < current.tombstoneGcSequence)
    (.corruption 64 "manifest install would move the tombstone GC sequence backward"))
  let generation ← Prog.ofExcept (checkedSucc current.currentGeneration (corruption "CURRENT generation exhausted"))
  let next := nextVersion current newManifestId state generation
  Prog.ofExcept (validateVersionSet next)
  writeManifestNew next
  pure next

/-- Source `publish_prepared`. -/
def publishPrepared (prepared : VersionSet) : StoreProg Unit :=
  writeCurrentSlot prepared.currentGeneration prepared.manifestId

/-- Source `install`. -/
def install (current : VersionSet) (newManifestId : ℕ) (state : ManifestState) : StoreProg VersionSet := do
  let next ← prepareInstall current newManifestId state
  publishPrepared next
  pure next

/-- Source `mirror_current`. -/
def mirrorCurrent (current : VersionSet) : StoreProg VersionSet := do
  let generation ← Prog.ofExcept (checkedSucc current.currentGeneration
    (corruption "CURRENT generation exhausted while mirroring"))
  writeCurrentSlot generation current.manifestId
  pure { current with currentGeneration := generation }

/-! ### Valid version sets -/

/-- What `validate_version_set` says of the tables: ids and durable sequences increase. -/
structure Rising (tables : List SstableDescriptor) : Prop where
  ids : (0 :: tables.map SstableDescriptor.tableId).IsChain (· < ·)
  durables : (0 :: tables.map SstableDescriptor.durableSequence).IsChain (· < ·)

theorem validateTables_ok {tables : List SstableDescriptor} {previousId previousDurable level1 : ℕ}
    {u : Unit} (h : validateTables tables previousId previousDurable level1 = .ok u) :
    (previousId :: tables.map SstableDescriptor.tableId).IsChain (· < ·) ∧
      (previousDurable :: tables.map SstableDescriptor.durableSequence).IsChain (· < ·) := by
  induction tables generalizing previousId previousDurable level1 with
  | nil => exact ⟨List.isChain_singleton _, List.isChain_singleton _⟩
  | cons descriptor rest ih =>
    rw [validateTables] at h
    simp only [Checked.bind_eq_ok, failWhen_eq_ok, not_le] at h
    obtain ⟨-, -, -, -, -, hid, -, hdurable, hrest⟩ := h
    obtain ⟨hids, hdurables⟩ := ih hrest
    rw [List.map_cons, List.map_cons, List.isChain_cons_cons, List.isChain_cons_cons]
    exact ⟨⟨hid, hids⟩, hdurable, hdurables⟩

theorem validateVersionSet_ok {version : VersionSet} {u : Unit}
    (h : validateVersionSet version = .ok u) :
    Rising version.tables ∧ lastTableId version.tables ≤ version.tableIdHighWatermark ∧
      lastDurable version.tables ≤ version.durableSequence := by
  unfold validateVersionSet at h
  simp only [Checked.bind_eq_ok, failWhen_eq_ok] at h
  obtain ⟨-, -, -, -, -, -, -, -, _, htables, -, hwatermark, -, -, hlast⟩ := h
  obtain ⟨hids, hdurables⟩ := validateTables_ok htables
  refine ⟨⟨hids, hdurables⟩, not_lt.1 hwatermark, ?_⟩
  by_cases hne : version.tables = []
  · rw [hne]
    exact Nat.zero_le _
  · by_contra hlt
    exact hlast ⟨hne, fun heq => hlt heq.ge⟩

end DbLab.Lsm
