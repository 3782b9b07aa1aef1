import DbLab.Lsm.Flush

/-!
# Rotation, appends and reopening keep the layers

A rotation starts a segment behind the durable sequence; an append takes the next sequence number, which
is above all numbers in memory; and a replay hands the mutations out in the order of their numbers, so
that the memtables it fills are in order again.
-/

namespace DbLab.Lsm

open Store LsmEngine Record RecordFormat

variable {s : Session} {files files' : Files} {e : LsmEngine}

theorem Wal.createNew_eq_ok {walId firstSequence : ℕ} {wal : Wal}
    (h : Wal.createNew walId firstSequence = .ok wal) :
    wal.walId = walId ∧ wal.firstSequence = firstSequence ∧ wal.log.nextSequence = firstSequence := by
  rw [Wal.createNew, Checked.guard_eq_ok, Except.ok.injEq] at h
  obtain ⟨-, rfl⟩ := h
  exact ⟨rfl, rfl, rfl⟩

theorem Wal.append_eq_ok {wal next : Wal} {kind : RecordKind} {key value : Bytes} {sequence : ℕ}
    (h : wal.append kind key value = .ok (sequence, next)) :
    sequence = wal.log.nextSequence ∧ next.log.nextSequence = sequence + 1 ∧ next.walId = wal.walId := by
  rw [Wal.append, Checked.bind_eq_ok] at h
  obtain ⟨log, hlog, h⟩ := h
  rw [Checked.bind_eq_ok] at h
  obtain ⟨-, -, h⟩ := h
  cases h
  unfold Appender.prepare at hlog
  simp only [Checked.bind_eq_ok, checkedSucc_eq_ok, Except.ok.injEq] at hlog
  obtain ⟨_, ⟨-, rfl⟩, _, -, _, -, _, -, rfl⟩ := hlog
  exact ⟨rfl, rfl, rfl⟩

theorem grows_putWal {id : ℕ} {bytes : Bytes} : Grows files (putWal id bytes files) :=
  ⟨fun _ _ h => h, fun _ _ h => h⟩

/-! ### The rotation -/

/-- **The rotation of the log.** -/
theorem rotateWal_layered {wal : Wal} (h : Layered s.store.files s.engine)
    (hwal : s.engine.wal = some wal) (hnext : wal.log.nextSequence = s.engine.version.durableSequence + 1) :
    Prog.wp (rotateWal wal (s.engine.version.durableSequence + 1))
      (fun _ s' => Layered s'.store.files s'.engine) (Kept LayeredSession) s := by
  rw [rotateWal, Prog.wp_bind]
  refine wp_engine ?_
  rw [Prog.wp_bind]
  refine wp_checked h fun followingWalId _ => ?_
  rw [Prog.wp_bind]
  refine wp_checked h fun followingManifestId hmanifest => ?_
  obtain ⟨-, rfl⟩ := checkedSucc_eq_ok.1 hmanifest
  rw [Prog.wp_bind]
  refine wp_onStore (wp_createNewWal h (fun _ => h) (fun _ => h) (fun _ bytes => h.grow grows_putWal rfl) ?_)
  -- The new segment is a file that no manifest names yet.
  intro newWal io hnew _
  obtain ⟨-, -, hnewNext⟩ := Wal.createNew_eq_ok hnew
  have h₁ : Layered (putWal s.engine.nextWalId newWal.log.file s.store.files) s.engine :=
    h.grow grows_putWal rfl
  rw [Prog.wp_bind]
  refine wp_onStore (wp_install h₁ (fun _ => h₁) (fun _ => h₁) (fun next _ _ hnone manifest _ =>
    h₁.grow (grows_putManifest hnone) rfl) ?_ ?_)
  · intro next hnext' _ hnone file slot _ hfile hslot
    have hid : next.manifestId = s.engine.nextManifestId := by rw [hnext']; rfl
    have htables : next.tables = s.engine.version.tables := by rw [hnext']; rfl
    have hopened := h₁.opened
    rw [← htables] at hopened
    exact (h₁.grow (grows_putManifest hnone) rfl).setSlot hfile (slotOk_written hid hopened hslot.slot_eq)
  -- The installed version set has the tables and the durable sequence of the old one.
  intro next io' hnext' hinstall hnone file hfile
  have hid : next.manifestId = s.engine.nextManifestId := by rw [hnext']; rfl
  have htables : next.tables = s.engine.version.tables := by rw [hnext']; rfl
  have hsequence : next.durableSequence = s.engine.version.durableSequence := by rw [hnext']; rfl
  have hopened := h₁.opened
  rw [← htables] at hopened
  have h₂ : Layered (putCurrent (Store.setSlot next.currentGeneration
      (some ⟨next.currentGeneration, s.engine.nextManifestId⟩) file)
      (putManifest s.engine.nextManifestId (.complete next.written)
        (putWal s.engine.nextWalId newWal.log.file s.store.files))) s.engine :=
    (h₁.grow (grows_putManifest hnone) rfl).setSlot hfile (slotOk_written hid hopened (.inr rfl))
  rw [Prog.wp_bind]
  refine wp_onStore (wp_mirrorCurrent h₂ (fun file' slot _ hfile' hslot => ?_) fun io'' file' hfile' => ?_)
  · rw [hid] at hslot
    refine h₂.setSlot hfile' fun t ht => ?_
    exact (slotOk_written hid hopened hslot.slot_eq t ht).grow ⟨fun _ _ h => h, fun _ _ h => h⟩
  cases hfile'
  have hsettled : Settled (putCurrent (Store.setSlot (next.currentGeneration + 1)
      (some ⟨next.currentGeneration + 1, next.manifestId⟩)
      (Store.setSlot next.currentGeneration (some ⟨next.currentGeneration, s.engine.nextManifestId⟩) file))
      (putManifest s.engine.nextManifestId (.complete next.written)
        (putWal s.engine.nextWalId newWal.log.file s.store.files)))
      next.manifestId next.tables s.engine.tables := by
    rw [hid]
    exact @settled_mirrored _ _ _ file next.currentGeneration next.written hid hopened
  -- Only the log and the ids of the engine have changed, so its layers are those from before.
  have hfinal : Layered (putCurrent (Store.setSlot (next.currentGeneration + 1)
      (some ⟨next.currentGeneration + 1, next.manifestId⟩)
      (Store.setSlot next.currentGeneration (some ⟨next.currentGeneration, s.engine.nextManifestId⟩) file))
      (putManifest s.engine.nextManifestId (.complete next.written)
        (putWal s.engine.nextWalId newWal.log.file s.store.files)))
      { s.engine with
        wal := some newWal
        version := { next with currentGeneration := next.currentGeneration + 1 }
        nextWalId := followingWalId
        nextManifestId := s.engine.nextManifestId + 1 } := by
    obtain ⟨hrising, -, hlast⟩ := validateVersionSet_ok hinstall.valid
    constructor
    · exact hsettled.valid
    · exact hsettled.opened
    · exact hrising
    · exact hlast
    · intro hzero
      dsimp only at hzero
      rw [hid] at hzero
      exact absurd hzero h.next.ne'
    · exact Nat.succ_pos _
    · obtain ⟨last, hmemory, hlt⟩ := h.memory
      refine ⟨last, ?_, ?_⟩
      · dsimp only
        rw [hsequence]
        exact hmemory
      · rintro _ ⟨⟩
        rw [hnewNext, ← hnext]
        exact hlt wal hwal
  rw [Prog.wp_bind]
  refine wp_modifyEngine ?_
  exact wp_reclaimWals (I := fun files => Settled files _ _ _) hsettled
    (fun _ _ files hfiles => hfiles.removeWal) (fun id hid files hfiles => hfiles.removeManifest hid)
    fun _ ht => ht.layered hfinal

theorem maybeRotateWal_layered (h : Layered s.store.files s.engine) :
    Prog.wp maybeRotateWal (fun _ s' => Layered s'.store.files s'.engine) (Kept LayeredSession) s := by
  rw [maybeRotateWal, Prog.wp_bind]
  refine wp_engine ?_
  by_cases hlimit : u64Limit ≤ s.engine.version.durableSequence + 1
  · rw [if_pos hlimit]
    exact h
  · rw [if_neg hlimit, Prog.wp_bind]
    refine wp_activeWal h fun wal hwal => ?_
    split_ifs with hskip
    · exact h
    · rw [not_or, not_or, not_not] at hskip
      exact rotateWal_layered h hwal hskip.2.1

theorem maybeCompactLevel0_layered (h : Layered s.store.files s.engine) :
    Prog.wp maybeCompactLevel0 (fun _ s' => Layered s'.store.files s'.engine) (Kept LayeredSession) s := by
  rw [maybeCompactLevel0, Prog.wp_bind]
  refine wp_engine ?_
  split_ifs
  · exact h
  · exact compactLevel0AfterTrigger_layered h

theorem flushFrozenMemtables_layered (h : Layered s.store.files s.engine) :
    Prog.wp flushFrozenMemtables (fun _ s' => Layered s'.store.files s'.engine) (Kept LayeredSession) s := by
  rw [flushFrozenMemtables, Prog.wp_bind]
  refine wp_engine ?_
  rw [Prog.wp_bind]
  refine Prog.wp_mono (flushLoop_layered h) (fun _ s₁ h₁ => ?_) fun _ _ he => he
  rw [Prog.wp_bind]
  exact Prog.wp_mono (maybeCompactLevel0_layered h₁) (fun _ s₂ h₂ => maybeRotateWal_layered h₂) fun _ _ he => he

/-! ### The mutation -/

/-- A sequence number that is above those in memory and below the next one of the log. -/
def Ahead (e : LsmEngine) (sequence : ℕ) : Prop :=
  (∃ last, e.memtables.Ordered e.version.durableSequence last ∧ last < sequence) ∧
    ∀ wal ∈ e.wal, sequence < wal.log.nextSequence

theorem appendWal_layered {kind : RecordKind} {key value : Bytes} (h : Layered s.store.files s.engine) :
    Prog.wp (appendWal kind key value)
      (fun sequence s' => Layered s'.store.files s'.engine ∧ Ahead s'.engine sequence)
      (Kept LayeredSession) s := by
  rw [appendWal, Prog.wp_bind]
  refine wp_activeWal h fun wal hwal => ?_
  rw [Prog.wp_bind]
  refine wp_checked h fun ⟨sequence, next⟩ happend => ?_
  obtain ⟨hsequence, hnext, -⟩ := Wal.append_eq_ok happend
  obtain ⟨last, hmemory, hlt⟩ := h.memory
  have hlast := hlt wal hwal
  rw [← hsequence] at hlast
  dsimp only
  rw [Prog.wp_bind]
  refine wp_onStore (wp_rewriteWal h (fun _ bytes _ => h.grow grows_putWal rfl) fun io _ => ?_)
  rw [Prog.wp_bind]
  refine wp_modifyEngine ⟨?_, ⟨last, hmemory, hlast⟩, ?_⟩
  · refine { h.grow grows_putWal rfl with memory := ⟨last, hmemory, ?_⟩ }
    rintro _ ⟨⟩
    rw [hnext]
    omega
  · rintro _ ⟨⟩
    rw [hnext]
    omega

theorem applyMemtables_layered {sequence : ℕ} {key : Bytes} {value : Option Bytes}
    (h : Layered s.store.files s.engine) (hahead : Ahead s.engine sequence) :
    Prog.wp (applyMemtables sequence key value) (fun _ s' => Layered s'.store.files s'.engine)
      (Kept LayeredSession) s := by
  obtain ⟨⟨last, hmemory, hlt⟩, hwal⟩ := hahead
  rw [applyMemtables, Prog.wp_bind]
  refine wp_engine ?_
  rw [Prog.wp_bind]
  refine wp_checked h fun memtables happly => ?_
  exact wp_modifyEngine { h with memory := ⟨sequence, hmemory.apply hlt happly, hwal⟩ }

/-- **A mutation keeps the layers.** -/
theorem persistAndApply_layered {kind : RecordKind} {key : Bytes} {value : Option Bytes}
    (h : Layered s.store.files s.engine) :
    Prog.wp (persistAndApply kind key value) (fun _ s' => Layered s'.store.files s'.engine)
      (Kept LayeredSession) s := by
  have hpoison : ∀ files history e, LayeredSession files history e →
      LayeredSession files history { e with poisoned := true } := fun _ _ _ h => Layered.poison h
  rw [persistAndApply, Prog.wp_bind]
  refine wp_ensureUsable h fun _ _ => ?_
  rw [Prog.wp_bind]
  refine Prog.wp_mono (wp_poisonOnError hpoison (appendWal_layered h)) (fun sequence s₁ h₁ => ?_)
    fun _ _ he => he
  rw [Prog.wp_bind]
  refine Prog.wp_mono (wp_poisonOnError hpoison (applyMemtables_layered h₁.1 h₁.2)) (fun _ s₂ h₂ => ?_)
    fun _ _ he => he
  exact wp_poisonOnError hpoison (flushFrozenMemtables_layered h₂)

/-! ### Opening -/

/-- What opening reads of a directory. -/
structure Loaded (files : Files) (version : VersionSet) (tables : List SsTable) : Prop where
  opened : Opened files 0 version.tables tables
  rising : Rising version.tables
  durable : lastDurable version.tables ≤ version.durableSequence
  legacy : version.manifestId = 0 → version.tables = [] ∧ version.durableSequence = 0

/-- The directory of a call that only reads manifests and tables. -/
def Unchanged (files : Files) (files' : Files) : Prop :=
  files'.tables = files.tables ∧ files'.manifests = files.manifests ∧ files'.current = files.current

theorem Unchanged.refl : Unchanged files files := ⟨rfl, rfl, rfl⟩

theorem Unchanged.grows (h : Unchanged files files') : Grows files files' :=
  ⟨fun _ _ hf => by rw [h.1]; exact hf, fun _ _ hf => by rw [h.2.1]; exact hf⟩

theorem chooseSlot_mem {first second : Option CurrentSlot} {slot : CurrentSlot}
    (h : chooseSlot first second = .ok slot) : slot ∈ first ∨ slot ∈ second := by
  rcases first with _ | left
  · rcases second with _ | right
    · cases h
    · cases h
      exact .inr rfl
  · rcases second with _ | right
    · cases h
      exact .inl rfl
    · rw [chooseSlot] at h
      split_ifs at h with h1 h2 h3
      · cases h
        exact .inl rfl
      all_goals
        dsimp only at h
        split_ifs at h
        cases h
        first
          | exact .inl rfl
          | exact .inr rfl

theorem readCurrent_valid {slot : CurrentSlot} (h : ValidDirectory files) (hread : readCurrent files = .ok slot) :
    SlotOk files slot ∧ slot.manifestId ≠ 0 := by
  unfold readCurrent at hread
  cases hcurrent : files.current with
  | none =>
    rw [hcurrent] at hread
    cases hread
  | some file =>
    cases file with
    | short =>
      rw [hcurrent] at hread
      cases hread
    | slots first second =>
      rw [hcurrent] at hread
      have hmem := chooseSlot_mem hread
      rw [Option.mem_def, Option.mem_def, parseCurrentSlot, parseCurrentSlot, Option.filter_eq_some_iff,
        Option.filter_eq_some_iff, decide_eq_true_eq] at hmem
      rcases hmem with ⟨hmem, hne⟩ | ⟨hmem, hne⟩
      · exact ⟨h first second hcurrent slot (.inl hmem), hne⟩
      · exact ⟨h first second hcurrent slot (.inr hmem), hne⟩

section Opening

variable {t : Store} {I : Files → History → Prop}

theorem wp_loadVersion {layout : Layout} {Q : VersionSet → Store → Prop} (h : ValidDirectory t.files)
    (hI : I t.files t.history)
    (hok : ∀ version tables io, Loaded t.files version tables → Q version ⟨t.files, io, t.history⟩) :
    Prog.wp (loadVersion layout) Q (Fails I) t := by
  rw [loadVersion]
  split_ifs
  · rw [load, Prog.wp_bind]
    refine wp_reading hI fun slot io hslot => ?_
    obtain ⟨⟨version, tables, hfind, hid, hopened⟩, hne⟩ := readCurrent_valid h hslot
    rw [Prog.wp_bind]
    refine wp_reading hI fun version' io' hread => ?_
    dsimp only at hread
    rw [readManifest, hfind] at hread
    simp only [Checked.bind_eq_ok] at hread
    obtain ⟨-, -, -, -, _, hvalid, hversion⟩ := hread
    cases hversion
    obtain ⟨hrising, -, hlast⟩ := validateVersionSet_ok hvalid
    refine hok _ tables io' ⟨hopened, hrising, hlast, fun hzero => ?_⟩
    dsimp only at hzero
    rw [hid] at hzero
    exact absurd hzero hne
  · exact hok legacyVersion [] t.io ⟨.nil, ⟨List.isChain_singleton _, List.isChain_singleton _⟩,
      Nat.zero_le _, fun _ => ⟨rfl, rfl⟩⟩

/-- **A replay fills the memtables in order.** -/
theorem replay_ordered {ms : List Mutation} {set set' : MemTableSet} {low next : ℕ}
    (h : ∃ last, set.Ordered low last ∧ last ≤ max low (next - 1)) (hseq : Consecutive next ms)
    (hfold : ms.foldlM (replayMutation low) set = .ok set') :
    ∃ last, set'.Ordered low last ∧ last ≤ max low (next + ms.length - 1) := by
  induction ms generalizing set next with
  | nil =>
    cases hfold
    simpa using h
  | cons m ms ih =>
    obtain ⟨rfl, hrest⟩ := hseq
    rw [List.foldlM_cons, Checked.bind_eq_ok] at hfold
    obtain ⟨middle, hmiddle, hfold⟩ := hfold
    obtain ⟨last, hordered, hle⟩ := h
    have hnext : ∃ last, middle.Ordered low last ∧ last ≤ max low (m.sequence + 1 - 1) := by
      rw [replayMutation] at hmiddle
      split_ifs at hmiddle with hlow
      · exact ⟨m.sequence, hordered.apply (by omega) hmiddle, by omega⟩
      · cases hmiddle
        exact ⟨last, hordered, by omega⟩
    obtain ⟨last', hordered', hle'⟩ := ih hnext hrest hfold
    refine ⟨last', hordered', ?_⟩
    rw [List.length_cons]
    omega

theorem scanWal_eq_ok {σ : Type} {apply : σ → Mutation → Except DbError σ} {values : σ} {file : Bytes}
    {walId firstSequence : ℕ} {r : ScanResult σ} (h : scanWal apply values file walId firstSequence = .ok r) :
    ∃ ms, Consecutive firstSequence ms ∧ ms.foldlM apply values = .ok r.values ∧
      r.nextSequence = firstSequence + ms.length := by
  unfold scanWal at h
  split_ifs at h with hshort
  rw [Checked.bind_eq_ok] at h
  obtain ⟨-, -, h⟩ := h
  obtain ⟨ms, tail, hreplayed⟩ := scanRecords_eq_ok (by rw [List.length_drop]; omega)
    (by rw [List.length_drop]; dsimp only; omega) h
  exact ⟨ms, hreplayed.consecutive, hreplayed.values, hreplayed.nextSequence⟩

theorem wp_openWal {walId firstSequence durable limit : ℕ} {Q : Wal × MemTableSet → Store → Prop}
    (hI : ∀ files', Unchanged t.files files' → I files' t.history)
    (hok : ∀ wal memtables files' io, Unchanged t.files files' →
      (durable < wal.log.nextSequence → ∃ last, memtables.Ordered durable last ∧ last < wal.log.nextSequence) →
      Q (wal, memtables) ⟨files', io, t.history⟩) :
    Prog.wp (openWal walId firstSequence durable ⟨.empty, [], limit⟩) Q (Fails I) t := by
  have hself := hI t.files Unchanged.refl
  rw [openWal, Prog.wp_bind]
  refine wp_reading hself fun file io _ => ?_
  rw [Prog.wp_bind]
  refine wp_check hself fun scan hscan => ?_
  obtain ⟨ms, hseq, hfold, hnext⟩ := scanWal_eq_ok hscan
  have hordered := replay_ordered ⟨durable, MemTableSet.ordered_new le_rfl, le_max_left _ _⟩ hseq hfold
  rw [← hnext] at hordered
  have hmemory : durable < scan.nextSequence →
      ∃ last, scan.values.Ordered durable last ∧ last < scan.nextSequence := by
    obtain ⟨last, hlast, hle⟩ := hordered
    exact fun hlt => ⟨last, hlast, by omega⟩
  rw [Prog.wp_bind, truncateTail]
  split_ifs
  · refine wp_rewriteWal hself (fun _ bytes _ => hI _ ⟨rfl, rfl, rfl⟩) fun io' _ => ?_
    exact hok _ _ _ _ ⟨rfl, rfl, rfl⟩ hmemory
  · exact hok _ _ _ _ Unchanged.refl hmemory

/-- **Opening a valid directory.** -/
theorem openExisting_layered (h : ValidDirectory t.files) :
    Prog.wp openExisting (fun e t' => Layered t'.files e ∧ Unchanged t.files t'.files)
      (Fails fun files' _ => Unchanged t.files files') t := by
  have hself : Unchanged t.files t.files := Unchanged.refl
  rw [openExisting, Prog.wp_bind]
  refine wp_reading hself fun layout io _ => ?_
  rw [Prog.wp_bind]
  refine wp_loadVersion h hself fun loaded tables io' hloaded => ?_
  rw [Prog.wp_bind]
  refine wp_openTables hloaded.opened rfl hself fun io'' => ?_
  rw [Prog.wp_bind]
  refine wp_check hself fun _ _ => ?_
  rw [Prog.wp_bind]
  refine wp_check hself fun memtables hmemtables => ?_
  rw [MemTableSet.new_eq_ok hmemtables, Prog.wp_bind]
  refine wp_openWal (fun _ hunchanged => hunchanged) fun wal memtables' files' io₃ hunchanged hmemory => ?_
  dsimp only
  rw [Prog.wp_bind]
  refine wp_check hunchanged fun _ hnext => ?_
  rw [failWhen_eq_ok, not_le] at hnext
  rw [Prog.wp_bind]
  refine wp_check hunchanged fun nextTableId _ => ?_
  rw [Prog.wp_bind]
  refine wp_check hunchanged fun nextManifestId hmanifest => ?_
  rw [Prog.wp_bind]
  refine wp_check hunchanged fun nextWalId _ => ?_
  obtain ⟨-, rfl⟩ := checkedSucc_eq_ok.1 hmanifest
  obtain ⟨last, hordered, hlt⟩ := hmemory hnext
  refine ⟨?_, hunchanged⟩
  constructor
  · exact h.grow hunchanged.grows hunchanged.2.2
  · exact hloaded.opened.grow hunchanged.grows
  · exact hloaded.rising
  · exact hloaded.durable
  · exact hloaded.legacy
  · exact Nat.succ_pos _
  · refine ⟨last, hordered, ?_⟩
    rintro _ ⟨⟩
    exact hlt

theorem initializeNew_layered {io : List Io} {history : History} :
    Prog.wp initializeNew (fun e t' => Layered t'.files e)
      (Fails fun files _ => ValidDirectory files) ⟨Files.empty, io, history⟩ := by
  have hempty : ValidDirectory Files.empty := by
    intro first second hcurrent
    cases hcurrent
  have hwal : ∀ bytes, ValidDirectory (putWal initialWalId bytes Files.empty) := fun bytes =>
    hempty.grow grows_putWal rfl
  rw [initializeNew, Prog.wp_bind]
  refine wp_createNewWal hempty (fun _ => hempty) (fun _ => hempty) (fun _ bytes => hwal bytes) fun wal rest hcreate _ => ?_
  obtain ⟨-, -, hnext⟩ := Wal.createNew_eq_ok hcreate
  rw [Prog.wp_bind]
  refine wp_createInitial (hwal _) (fun _ => hwal _) (fun _ => hwal _)
    (fun hnone _ manifest => (hwal _).grow (grows_putManifest hnone) rfl)
    (fun hnone manifest _ _ => (hwal _).grow (grows_putManifest hnone) rfl)
    (fun _ _ current version hcases hversion hnil => validDirectory_initial hcases hversion hnil) ?_
  intro version rest' _ _ hversion hnil hzero _ _
  rw [Prog.wp_bind]
  refine wp_check (@validDirectory_initial _ _ version.written (.inr rfl) hversion hnil) fun memtables hmemtables => ?_
  rw [MemTableSet.new_eq_ok hmemtables]
  constructor
  · exact @validDirectory_initial _ _ version.written (.inr rfl) hversion hnil
  · dsimp only
    rw [hnil]
    exact .nil
  · dsimp only
    rw [hnil]
    exact ⟨List.isChain_singleton _, List.isChain_singleton _⟩
  · dsimp only
    rw [hnil]
    exact Nat.zero_le _
  · intro hone
    exact ⟨hnil, hzero⟩
  · exact Nat.zero_lt_two
  · dsimp only
    rw [hzero]
    refine ⟨0, MemTableSet.ordered_new le_rfl, ?_⟩
    rintro _ ⟨⟩
    rw [hnext]
    exact Nat.zero_lt_one

end Opening

/-- What `reopen` leaves: the engine that opening makes, or the old one without its segment. -/
theorem wp_reopen {Q : LsmEngine → Store → Prop} {E : DbError → Store → Prop} {P : Session → Prop}
    {J : Files → History → LsmEngine → Prop} (h : Prog.wp openExisting Q E s.store)
    (hok : ∀ engine store, Q engine store → P ⟨store, engine⟩)
    (herror : ∀ err store, E err store →
      J store.files store.history { s.engine with wal := none, poisoned := true }) :
    Prog.wp reopen (fun _ s' => P s') (Kept J) s := by
  rw [Prog.wp_iff_forall] at h ⊢
  rcases hrun : openExisting s.store with ⟨err | engine, store⟩
  · have hresult : reopen s = (.error err, ⟨store, { s.engine with wal := none, poisoned := true }⟩) := by
      rw [reopen, hrun]
    rw [hresult]
    -- the handle keeps its engine, but serves nothing with it
    refine ⟨fun _ _ heq => absurd heq (by simp), fun _ _ heq => ?_⟩
    cases heq
    exact herror err store (h.2 _ _ hrun)
  · have hresult : reopen s = (.ok (), ⟨store, engine⟩) := by
      rw [reopen, hrun]
    rw [hresult]
    refine ⟨fun _ _ heq => ?_, fun _ _ heq => absurd heq (by simp)⟩
    cases heq
    exact hok engine store (h.1 _ _ hrun)

/-- Reopening keeps the layers, whether it succeeds or not. -/
theorem reopen_layered (h : Layered s.store.files s.engine) :
    Prog.wp reopen (fun _ s' => Layered s'.store.files s'.engine) (Kept LayeredSession) s := by
  refine wp_reopen (openExisting_layered h.directory) (fun _ _ hopen => hopen.1) fun _ store hunchanged => ?_
  have hunchanged : Unchanged s.store.files store.files := hunchanged
  obtain ⟨last, hordered, -⟩ := h.memory
  exact { h.grow hunchanged.grows hunchanged.2.2 with memory := ⟨last, hordered, by simp⟩ }

end DbLab.Lsm
