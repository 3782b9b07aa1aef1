import DbLab.Lsm.Backed

/-!
# Compaction and what is visible

A compaction puts the newest versions of all tables into one table and drops the tombstones, under the
same durable sequence and over the same segment. Whether it succeeds or not, the engine shows the same
values, and so does every engine that is opened on the directory it leaves (`compaction_keeps_view`).
-/

namespace DbLab.Lsm

open Store LsmEngine Record RecordFormat

variable {s s' : Session} {files files' : Files} {e e' : LsmEngine} {ms : List Mutation}
  {version next : VersionSet} {tables tables' : List SsTable} {key : Bytes}

/-! ### The merge -/

/-- The values that tables show to a lookup behind the memtables. -/
def tableValue (tables : List SsTable) (key : Bytes) : Option Bytes :=
  (firstHit (tables.map SsTable.index) key).bind Version.value

theorem currentValue_eq : e.currentValue key =
    match firstHit e.memtables.layers key with
    | some entry => entry.value
    | none => tableValue e.tables key := by
  rw [currentValue, currentEntry_eq, layers, firstHit_append, tableValue]
  cases firstHit e.memtables.layers key with
  | some entry => rfl
  | none => rfl

theorem bind_filter_value {o : Option VersionedEntry} :
    (o.filter fun v => v.value.isSome).bind Version.value = o.bind Version.value := by
  cases o with
  | none => rfl
  | some v =>
    rw [Option.filter_some]
    cases hvalue : v.value with
    | none => simp [hvalue]
    | some bytes => simp [hvalue]

/-- Dropping the tombstones of the merge drops no value. -/
theorem live_value (h : Layered files e) :
    ((e.mergedTables.filter fun x => x.2.value.isSome).find key).bind Version.value =
      tableValue e.tables key := by
  rw [SortedMap.find_filter, find_mergedTables h, tableValue]
  exact bind_filter_value

/-- The tables of another version set show the same values, over the same segment. -/
structure Replaces (e : LsmEngine) (version : VersionSet) (tables : List SsTable) : Prop where
  durableSequence : version.durableSequence = e.version.durableSequence
  walId : version.walId = e.version.walId
  walFirstSequence : version.walFirstSequence = e.version.walFirstSequence
  value : ∀ key, tableValue tables key = tableValue e.tables key

theorem Replaces.refl : Replaces e e.version e.tables := ⟨rfl, rfl, rfl, fun _ => rfl⟩

/-- What a compaction that fails leaves: the engine as it was, and a directory that shows its values. -/
def Abandoned (e : LsmEngine) (ms : List Mutation) (files : Files) (_ : History) (e' : LsmEngine) : Prop :=
  e' = e ∧ ∃ version tables, Replaces e version tables ∧ Backed files version tables ms

/-- The replacement shows the live versions. -/
theorem createReplacement_value {live : VersionMap} :
    Prog.wp (createReplacement s.engine live)
      (fun p s' => s'.engine = s.engine ∧ ∀ key, firstHit (p.1.toList.map SsTable.index) key = live.find key)
      (Kept fun _ _ e => e = s.engine) s := by
  rw [createReplacement]
  by_cases hempty : live.entries = []
  · rw [if_pos hempty]
    refine ⟨rfl, fun key => ?_⟩
    rw [SortedMap.find, hempty]
    rfl
  · rw [if_neg hempty, Prog.wp_bind]
    refine wp_checked rfl fun nextTableId _ => ?_
    rw [Prog.wp_bind]
    refine wp_onStore (wp_createSstable rfl (fun _ => rfl) (fun _ => rfl) (fun _ _ => rfl) ?_)
    intro table content io _ _ _ _ _ hindex
    refine ⟨rfl, fun key => ?_⟩
    show firstHit ([] ++ [table.index]) key = _
    rw [firstHit_concat, hindex]
    exact Option.or_none

theorem createReplacement_backed {live : VersionMap}
    (h : Backed s.store.files s.engine.version s.engine.tables ms) :
    Prog.wp (createReplacement s.engine live)
      (fun _ s' => Backed s'.store.files s.engine.version s.engine.tables ms)
      (Kept (Abandoned s.engine ms)) s := by
  have hself : Abandoned s.engine ms s.store.files s.store.history s.engine :=
    ⟨rfl, _, _, .refl, h⟩
  rw [createReplacement]
  by_cases hempty : live.entries = []
  · rw [if_pos hempty]
    exact h
  · rw [if_neg hempty, Prog.wp_bind]
    refine wp_checked hself fun nextTableId _ => ?_
    rw [Prog.wp_bind]
    refine wp_onStore (wp_createSstable hself (fun _ => hself) (fun _ => hself) (fun hnone table =>
      ⟨rfl, _, _, .refl, h.grow (grows_putTable hnone) rfl rfl⟩) ?_)
    intro table content io hnone _ _ _ _ _
    exact h.grow (grows_putTable hnone) rfl rfl

/-- **The compaction**, whether it succeeds or not. -/
theorem compactLevel0AfterTrigger_backed (hlayered : Layered s.store.files s.engine)
    (h : Backed s.store.files s.engine.version s.engine.tables ms) :
    Prog.wp compactLevel0AfterTrigger
      (fun _ s' => Replaces s.engine s'.engine.version s'.engine.tables ∧
        Backed s'.store.files s'.engine.version s'.engine.tables ms ∧ s'.engine.version.manifestId ≠ 0 ∧
        s'.engine.memtables = s.engine.memtables ∧ s'.engine.wal = s.engine.wal ∧
        s'.engine.poisoned = s.engine.poisoned)
      (Kept (Abandoned s.engine ms)) s := by
  have hself : Abandoned s.engine ms s.store.files s.store.history s.engine :=
    ⟨rfl, _, _, .refl, h⟩
  rw [compactLevel0AfterTrigger, Prog.wp_bind]
  refine wp_engine ?_
  rw [Prog.wp_bind]
  refine wp_checked hself fun _ _ => ?_
  rw [Prog.wp_bind]
  refine wp_checked hself fun nextManifestId _ => ?_
  rw [Prog.wp_bind]
  refine wp_checked hself fun _ _ => ?_
  rw [Prog.wp_bind]
  refine Prog.wp_mono (Prog.wp_and
    (createReplacement_layered hlayered (Within.filter (within_mergedTables hlayered)))
    (Prog.wp_and createReplacement_value (createReplacement_backed h)))
    (fun created s₁ h₁ => ?_) fun _ _ he => he.2.2
  obtain ⟨table, nextTableId⟩ := created
  obtain ⟨⟨hengine, hreplaced⟩, ⟨-, hfind⟩, hbacked⟩ := h₁
  dsimp only at hreplaced hfind ⊢
  have hvalue : ∀ key, tableValue table.toList key = tableValue s.engine.tables key := fun key => by
    rw [tableValue, hfind key, live_value hlayered]
  have hold : ∀ files' history', Backed files' s.engine.version s.engine.tables ms →
      Abandoned s.engine ms files' history' s₁.engine :=
    fun _ _ hbacked' => ⟨hengine, _, _, .refl, hbacked'⟩
  rw [Prog.wp_bind]
  refine wp_onStore (wp_prepareInstall (hold _ _ hbacked) (fun _ => hold _ _ hbacked)
    (fun _ => hold _ _ hbacked)
    (fun next _ _ hnone manifest _ => hold _ _ (hbacked.grow (grows_putManifest hnone) rfl rfl)) ?_)
  intro next io hnext' hinstall hnone
  have hid : next.manifestId = s.engine.nextManifestId := by rw [hnext']; rfl
  have htables : next.tables = (table.map SsTable.descriptor).toList := by rw [hnext']; rfl
  have hgeneration : next.currentGeneration = s.engine.version.currentGeneration + 1 := by rw [hnext']; rfl
  have hreplaces : Replaces s.engine next table.toList := by
    rw [hnext']
    exact ⟨rfl, rfl, rfl, hvalue⟩
  have hne : next.manifestId ≠ 0 := by
    rw [hid]
    exact hlayered.next.ne'
  have hopened := hreplaced.opened
  rw [← htables] at hopened
  have hgrows := @grows_putManifest _ _ (.complete next.written) hnone
  have hbacked₁ := hbacked.grow hgrows rfl rfl
  have hwritten : (putManifest s.engine.nextManifestId (.complete next.written)
      s₁.store.files).manifests.find next.manifestId = some (.complete next.written) := by
    rw [hid, putManifest, SortedMap.find_insert, if_pos rfl]
  have hopened₁ := hopened.grow hgrows
  rw [Prog.wp_bind, publishPrepared]
  -- The slot is torn, and the old version set stays, or it is whole, and the new one is current.
  have hpublish : ∀ file, (putManifest s.engine.nextManifestId (.complete next.written)
      s₁.store.files).current = some file →
      Backed (putCurrent (setSlot next.currentGeneration
        (some ⟨next.currentGeneration, next.manifestId⟩) file)
        (putManifest s.engine.nextManifestId (.complete next.written) s₁.store.files)) next table.toList ms :=
    fun file hfile => hbacked₁.publish hfile hgeneration hne hwritten ⟨rfl, rfl, rfl, rfl⟩ hopened₁
      hreplaces.walId hreplaces.walFirstSequence
  refine wp_onStore (wp_writeCurrentSlot (hold _ _ hbacked₁) (fun file slot _ hfile hslot => ?_)
    fun io file hfile => ?_)
  · rcases hslot.slot_eq with rfl | rfl
    · rw [hgeneration]
      exact hold _ _ (hbacked₁.torn hfile)
    · exact ⟨hengine, _, _, hreplaces, hpublish file hfile⟩
  have hbacked₂ := hpublish file hfile
  have hmirror : ∀ file', (putCurrent (setSlot next.currentGeneration
      (some ⟨next.currentGeneration, next.manifestId⟩) file)
      (putManifest s.engine.nextManifestId (.complete next.written) s₁.store.files)).current = some file' →
      Backed (putCurrent (setSlot (next.currentGeneration + 1)
          (some ⟨next.currentGeneration + 1, next.manifestId⟩) file')
        (putCurrent (setSlot next.currentGeneration (some ⟨next.currentGeneration, next.manifestId⟩) file)
          (putManifest s.engine.nextManifestId (.complete next.written) s₁.store.files)))
        { next with currentGeneration := next.currentGeneration + 1 } table.toList ms :=
    fun file' hfile' => @Backed.publish _ _ _ { next with currentGeneration := next.currentGeneration + 1 }
      _ _ _ next.written hbacked₂ hfile' rfl hne hwritten ⟨rfl, rfl, rfl, rfl⟩
      (hopened₁.congr fun _ _ _ hcontent => hcontent) rfl rfl
  have hreplaces' : Replaces s.engine { next with currentGeneration := next.currentGeneration + 1 }
      table.toList :=
    ⟨hreplaces.durableSequence, hreplaces.walId, hreplaces.walFirstSequence, hvalue⟩
  rw [Prog.wp_bind]
  refine wp_onStore (wp_mirrorCurrent ⟨hengine, _, _, hreplaces, hbacked₂⟩
    (fun file' slot _ hfile' hslot => ?_) fun io file' hfile' => ?_)
  · rcases hslot.slot_eq with rfl | rfl
    · exact ⟨hengine, _, _, hreplaces, hbacked₂.torn hfile'⟩
    · exact ⟨hengine, _, _, hreplaces', hmirror file' hfile'⟩
  rw [Prog.wp_bind]
  refine wp_modifyEngine ?_
  refine wp_reclaimTables (I := fun files => Backed files _ _ _) (hmirror file' hfile')
    (fun id hid files hfiles => hfiles.removeTable fun d hd => descriptor_ne (htables ▸ hd) hid)
    (fun id hid files hfiles => hfiles.removeManifest hid) fun t ht => ?_
  rw [hengine]
  exact ⟨hreplaces', ht, hne, rfl, rfl, rfl⟩

/-! ### Usable engines -/

/-- **The invariant of a usable engine**: its layers, its ids, and the log behind its memtables. -/
structure Steady (files : Files) (history : History) (e : LsmEngine) : Prop where
  layered : Layered files e
  ids : IdsAhead files history e.ids
  log : ∃ ms, Logged files e ms ∧ Covered e ms
  usable : e.poisoned = false

/-- An engine whose new record is in the log and not in the memtables. -/
structure Pending (op : Op) (sequence : ℕ) (files : Files) (history : History) (e : LsmEngine) : Prop where
  layered : Layered files e
  ahead : Ahead e sequence
  ids : IdsAhead files history e.ids
  log : ∃ ms, Logged files e (ms ++ [op.mutation sequence]) ∧ Covered e ms
  usable : e.poisoned = false

/-- A session with `J`. -/
abbrev At (J : Files → History → LsmEngine → Prop) (s : Session) : Prop :=
  J s.store.files s.store.history s.engine

theorem appendWal_pending (op : Op) (h : At Steady s) :
    Prog.wp (appendWal op.kind op.key op.value) (fun sequence s' => At (Pending op sequence) s')
      (Kept Anyhow) s := by
  obtain ⟨hlayered, hids, ⟨ms, hlogged, hcovered⟩, husable⟩ := h
  refine Prog.wp_mono (Prog.wp_and (appendWal_layered hlayered)
    (Prog.wp_and (appendWal_ids hids) (appendWal_logged op hlogged))) (fun sequence s₁ h₁ => ?_)
    fun _ _ _ => trivial
  obtain ⟨⟨hlayered₁, hahead⟩, hids₁, hlogged₁, hmemtables, hversion, hpoisoned⟩ := h₁
  refine ⟨hlayered₁, hahead, hids₁, ⟨ms, hlogged₁, fun key => ?_⟩, hpoisoned.trans husable⟩
  rw [hmemtables, hversion]
  exact hcovered key

theorem applyMemtables_steady {op : Op} {sequence : ℕ} (h : At (Pending op sequence) s) :
    Prog.wp (applyMemtables sequence op.key (written op)) (fun _ s' => At Steady s') (Kept Anyhow) s := by
  obtain ⟨hlayered, hahead, hids, ⟨ms, hlogged, hcovered⟩, husable⟩ := h
  obtain ⟨last, hordered, hlast⟩ := id hahead.1
  rw [mutation_eq] at hlogged
  refine Prog.wp_mono (Prog.wp_and (applyMemtables_layered hlayered hahead)
    (Prog.wp_and (applyMemtables_ids hids)
      (applyMemtables_logged hlogged hcovered (hordered.low_le.trans_lt hlast)))) (fun _ s₁ h₁ => ?_)
    fun _ _ _ => trivial
  obtain ⟨hlayered₁, hids₁, hlogged₁, hcovered₁, hpoisoned⟩ := h₁
  exact ⟨hlayered₁, hids₁, ⟨_, hlogged₁, hcovered₁⟩, hpoisoned.trans husable⟩

theorem flushLoop_steady {rounds : ℕ} (h : At Steady s) :
    Prog.wp (flushLoop rounds) (fun _ s' => At Steady s') (Kept Anyhow) s := by
  obtain ⟨hlayered, hids, ⟨ms, hlogged, hcovered⟩, husable⟩ := h
  refine Prog.wp_mono (Prog.wp_and (flushLoop_layered hlayered)
    (Prog.wp_and (flushLoop_ids hids) (flushLoop_logged hlayered hlogged hcovered)))
    (fun _ s₁ h₁ => ?_) fun _ _ _ => trivial
  obtain ⟨hlayered₁, hids₁, hlogged₁, hcovered₁, hpoisoned⟩ := h₁
  exact ⟨hlayered₁, hids₁, ⟨_, hlogged₁, hcovered₁⟩, hpoisoned.trans husable⟩

theorem compactLevel0AfterTrigger_steady (h : At Steady s) :
    Prog.wp compactLevel0AfterTrigger (fun _ s' => At Steady s') (Kept Anyhow) s := by
  obtain ⟨hlayered, hids, ⟨ms, hlogged, hcovered⟩, husable⟩ := h
  refine Prog.wp_mono (Prog.wp_and (compactLevel0AfterTrigger_layered hlayered)
    (Prog.wp_and (compactLevel0AfterTrigger_ids hids)
      (compactLevel0AfterTrigger_backed hlayered (hlogged.backed hlayered hids))))
    (fun _ s₁ h₁ => ?_) fun _ _ _ => trivial
  obtain ⟨hlayered₁, hids₁, hreplaces, hbacked, hne, hmemtables, hwal, hpoisoned⟩ := h₁
  obtain ⟨wal, hopen, hwalId, hfirst, -, hholds⟩ := hlogged.wal
  obtain ⟨wal', hfile, hholds'⟩ := hbacked.segment
  have hsame : wal'.log.file = wal.log.file := by
    rw [hreplaces.walId, hreplaces.walFirstSequence] at hholds'
    rw [hholds.file_eq, hholds'.file_eq]
  refine ⟨hlayered₁, hids₁, ⟨ms, ⟨⟨wal, hwal.trans hopen, ?_⟩, hbacked.header, fun _ => ?_,
    fun hzero => absurd hzero hne⟩, fun key => ?_⟩, hpoisoned.trans husable⟩
  · rw [hsame] at hfile
    refine ⟨hwalId.trans hreplaces.walId.symm, hfirst.trans hreplaces.walFirstSequence.symm, hfile, ?_⟩
    rw [hreplaces.walId, hreplaces.walFirstSequence]
    exact hholds
  · rcases hbacked.manifest with ⟨hnone, -⟩ | ⟨-, hwritten⟩
    · obtain ⟨⟨first, second, hcurrent, -⟩, -⟩ := hids₁.current hne
      rw [hnone] at hcurrent
      cases hcurrent
    · exact hwritten
  · rw [hmemtables, hreplaces.durableSequence]
    exact hcovered key

theorem maybeCompactLevel0_steady (h : At Steady s) :
    Prog.wp maybeCompactLevel0 (fun _ s' => At Steady s') (Kept Anyhow) s := by
  rw [maybeCompactLevel0, Prog.wp_bind]
  refine wp_engine ?_
  by_cases hfew : (s.engine.version.tables.filter fun table => table.level = 0).length < level0CompactionTrigger
  · rw [if_pos hfew]
    exact h
  · rw [if_neg hfew]
    exact compactLevel0AfterTrigger_steady h

theorem maybeRotateWal_steady (h : At Steady s) :
    Prog.wp maybeRotateWal (fun _ s' => At Steady s') (Kept Anyhow) s := by
  obtain ⟨hlayered, hids, ⟨ms, hlogged, hcovered⟩, husable⟩ := h
  refine Prog.wp_mono (Prog.wp_and (maybeRotateWal_layered hlayered)
    (Prog.wp_and (maybeRotateWal_ids hids) (maybeRotateWal_logged hlayered hlogged hcovered)))
    (fun _ s₁ h₁ => ?_) fun _ _ _ => trivial
  obtain ⟨hlayered₁, hids₁, hlog, hpoisoned⟩ := h₁
  exact ⟨hlayered₁, hids₁, hlog, hpoisoned.trans husable⟩

theorem flushFrozenMemtables_steady (h : At Steady s) :
    Prog.wp flushFrozenMemtables (fun _ s' => At Steady s') (Kept Anyhow) s := by
  rw [flushFrozenMemtables, Prog.wp_bind]
  refine wp_engine ?_
  rw [Prog.wp_bind]
  refine Prog.wp_mono (flushLoop_steady h) (fun _ s₁ h₁ => ?_) fun _ _ he => he
  rw [Prog.wp_bind]
  exact Prog.wp_mono (maybeCompactLevel0_steady h₁) (fun _ s₂ h₂ => maybeRotateWal_steady h₂) fun _ _ he => he

/-- An engine that is steady or poisoned. -/
def Resting (files : Files) (history : History) (e : LsmEngine) : Prop :=
  e.poisoned = false → Steady files history e

/-- **A mutation** ends in a steady engine or in a poisoned one. -/
theorem persistAndApply_resting (op : Op) (h : At Resting s) :
    Prog.wp (persistAndApply op.kind op.key (written op)) (fun _ s' => At Resting s') (Kept Resting) s := by
  have hpoison : ∀ files history e, Anyhow files history e →
      Resting files history { e with poisoned := true } := fun _ _ _ _ hfalse => by cases hfalse
  rw [persistAndApply, Prog.wp_bind]
  refine wp_ensureUsable h fun hpoisoned _ => ?_
  rw [written_getD, Prog.wp_bind]
  refine Prog.wp_mono (wp_poisonOnError hpoison (appendWal_pending op (h hpoisoned))) (fun sequence s₁ h₁ => ?_)
    fun _ _ he => he
  rw [Prog.wp_bind]
  refine Prog.wp_mono (wp_poisonOnError hpoison (applyMemtables_steady h₁)) (fun _ s₂ h₂ => ?_) fun _ _ he => he
  exact Prog.wp_mono (wp_poisonOnError hpoison (flushFrozenMemtables_steady h₂)) (fun _ _ h₃ _ => h₃)
    fun _ _ he => he

/-! ### Runs -/

theorem openExisting_steady {t : Store} (hvalid : ValidDirectory t.files) (hledger : Ledger t.files t.history) :
    Prog.wp openExisting (fun e t' => Steady t'.files t'.history e) (Fails fun _ _ => True) t := by
  refine Prog.wp_mono (Prog.wp_and (openExisting_layered hvalid)
    (Prog.wp_and (openExisting_ids hledger) (openExisting_reopened hvalid))) (fun e t' h => ?_)
    fun _ _ _ => trivial
  obtain ⟨⟨hlayered, -⟩, hids, hreopened⟩ := h
  have hlog := hreopened.logged hvalid
  obtain ⟨_, _, _, -, -, -, -, -, -, -, -, husable⟩ := hreopened
  exact ⟨hlayered, hids, hlog, husable⟩

theorem initializeNew_steady {io : List Io} :
    Prog.wp initializeNew (fun e t' => Steady t'.files t'.history e) (Fails fun _ _ => True)
      ⟨Files.empty, io, []⟩ := by
  have hlogged : Prog.wp initializeNew
      (fun e t' => (∃ ms, Logged t'.files e ms ∧ Covered e ms) ∧ e.poisoned = false)
      (Fails fun _ _ => True) ⟨Files.empty, io, []⟩ := by
    rw [initializeNew, Prog.wp_bind]
    refine wp_createNewWal trivial (fun _ => trivial) (fun _ => trivial) (fun _ _ => trivial)
      fun wal rest hcreate _ => ?_
    have hlimit : initialWalId < u64Limit := by
      rw [u64Limit_eq]
      decide
    obtain ⟨hok, hholds⟩ := Wal.createNew_holds hlimit hlimit hcreate
    obtain ⟨hwalId, hfirst, -⟩ := Wal.createNew_eq_ok hcreate
    rw [Prog.wp_bind]
    refine Prog.wp_mono (Prog.wp_and createInitial_wal
      (@wp_createInitial _ (fun _ _ => True) initialWalId initialFirstSequence
        (fun version t => version.manifestId = 1 ∧ t.files.wals.find initialWalId = some wal.log.file ∧
          t.files.manifests.find 1 = some (.complete version.written)) trivial
        (fun _ => trivial) (fun _ => trivial) (fun _ _ _ => trivial) (fun _ _ _ _ => trivial)
        (fun _ _ _ _ _ _ _ => trivial)
        fun version rest' _ _ hversion _ _ _ _ => ⟨hversion, ?_, ?_⟩))
      (fun version t ht => ?_) fun _ _ _ => trivial
    · exact (SortedMap.find_insert ..).trans (if_pos rfl)
    · exact (SortedMap.find_insert ..).trans (if_pos rfl)
    · obtain ⟨⟨hversionWal, hversionFirst⟩, hversion, hfile, hmanifest⟩ := ht
      rw [Prog.wp_bind]
      refine wp_check trivial fun memtables hmemtables => ?_
      rw [MemTableSet.new_eq_ok hmemtables]
      refine ⟨⟨[], ⟨⟨wal, rfl, ?_⟩, ?_, fun _ => ?_, fun hzero => ?_⟩, fun key => rfl⟩, rfl⟩
      · dsimp only
        rw [hversionWal, hversionFirst]
        exact ⟨hwalId, hfirst, hfile, hholds⟩
      · dsimp only
        rw [hversionWal, hversionFirst]
        exact hok
      · dsimp only
        rw [hversion]
        exact ⟨version.written, hmanifest, rfl, rfl, rfl, rfl⟩
      · dsimp only at hzero
        rw [hversion] at hzero
        cases hzero
  refine Prog.wp_mono (Prog.wp_and initializeNew_layered (Prog.wp_and initializeNew_ids hlogged))
    (fun e t' h => ?_) fun _ _ _ => trivial
  obtain ⟨hlayered, hids, hlog, husable⟩ := h
  exact ⟨hlayered, hids, hlog, husable⟩

theorem reopen_resting (hlayered : Layered s.store.files s.engine) (hledger : Ledger s.store.files s.store.history) :
    Prog.wp reopen (fun _ s' => At Resting s') (Kept Resting) s := by
  refine wp_reopen (openExisting_steady hlayered.directory hledger) (fun _ _ hopen _ => hopen) fun _ _ _ hfalse => ?_
  cases hfalse

theorem Call.resting (c : Call) (hlayered : Layered s.store.files s.engine)
    (hintact : Intact s.store.files s.store.history s.engine) (h : At Resting s) :
    Prog.wp c.run (fun _ s' => At Resting s') (Kept Resting) s := by
  refine c.wp_run h (fun _ => h) (fun key value => ?_) (fun key => ?_) fun _ => reopen_resting hlayered hintact.1
  · exact persistAndApply_resting (.put key value) h
  · exact persistAndApply_resting (.delete key) h

/-- What opening leaves, whether it succeeds or not. -/
theorem opened_resting {x : StoreProg LsmEngine} {t store : Store} {result : Except DbError LsmEngine}
    (h : Prog.wp x (fun e t' => Layered t'.files e) (Fails fun files _ => ValidDirectory files) t)
    (hsteady : Prog.wp x (fun e t' => Steady t'.files t'.history e) (Fails fun _ _ => True) t)
    (hrun : x t = (result, store)) :
    ValidDirectory store.files ∧ ∀ e ∈ result.toOption,
      Layered store.files e ∧ Resting store.files store.history e := by
  cases result with
  | error err => exact ⟨Prog.wp_error h hrun, by rintro _ ⟨⟩⟩
  | ok e =>
    have hlayered := Prog.wp_ok h hrun
    refine ⟨hlayered.directory, ?_⟩
    rintro _ ⟨⟩
    exact ⟨hlayered, fun _ => Prog.wp_ok hsteady hrun⟩

/-- **The handles of runs are steady or poisoned.** -/
theorem Run.resting {history : History} {handle : Option LsmEngine} (h : Run files history handle) :
    ValidDirectory files ∧ ∀ e ∈ handle, Layered files e ∧ Resting files history e := by
  induction h with
  | created hrun => exact opened_resting initializeNew_layered initializeNew_steady hrun
  | legacy htables hmanifests hcurrent =>
    refine ⟨fun first second hslots => ?_, by rintro _ ⟨⟩⟩
    rw [hcurrent] at hslots
    cases hslots
  | opened hbefore hrun ih =>
    refine opened_resting (Prog.wp_mono (openExisting_layered ih.1) (fun _ _ h' => h'.1) fun _ _ h' => ?_)
      (openExisting_steady ih.1 hbefore.intact.1) hrun
    exact ih.1.grow h'.grows h'.2.2
  | @call files history e s io call hbefore hcall ih =>
    have hstep := Prog.wp_and (@Call.layered ⟨⟨files, io, history⟩, e⟩ call (ih.2 e rfl).1)
      (@Call.resting ⟨⟨files, io, history⟩, e⟩ call (ih.2 e rfl).1 (hbefore.intact.2 e rfl) (ih.2 e rfl).2)
    have hend : Layered s.store.files s.engine ∧ At Resting s := by
      rw [← hcall]
      exact @kept_of_wp _ (fun files history e => Layered files e ∧ Resting files history e) _ hstep
    refine ⟨hend.1.directory, ?_⟩
    rintro _ ⟨⟩
    exact hend
  | dropped _ ih => exact ⟨ih.1, by rintro _ ⟨⟩⟩

/-- The sessions of a run with a usable handle: between the calls, and in a mutation behind its append to
the memtables, between the rounds of its flush and behind its compaction. -/
inductive Moment : Session → Prop
  | handle {files : Files} {history : History} {e : LsmEngine} (io : List Io) :
      Run files history (some e) → e.poisoned = false → Moment ⟨⟨files, io, history⟩, e⟩
  | applied {s s₁ s₂ : Session} {op : Op} {sequence : ℕ} : Moment s →
      appendWal op.kind op.key op.value s = (.ok sequence, s₁) →
      applyMemtables sequence op.key (written op) s₁ = (.ok (), s₂) → Moment s₂
  | flushed {s s' : Session} {rounds : ℕ} : Moment s → flushLoop rounds s = (.ok (), s') → Moment s'
  | compacted {s s' : Session} : Moment s → maybeCompactLevel0 s = (.ok (), s') → Moment s'
  | rotated {s s' : Session} : Moment s → maybeRotateWal s = (.ok (), s') → Moment s'

theorem Moment.steady (h : Moment s) : At Steady s := by
  induction h with
  | handle io hrun husable => exact (hrun.resting.2 _ rfl).2 husable
  | applied _ happend happly ih =>
    exact Prog.wp_ok (applyMemtables_steady (Prog.wp_ok (appendWal_pending _ ih) happend)) happly
  | flushed _ hflush ih => exact Prog.wp_ok (flushLoop_steady ih) hflush
  | compacted _ hcompact ih => exact Prog.wp_ok (maybeCompactLevel0_steady ih) hcompact
  | rotated _ hrotate ih => exact Prog.wp_ok (maybeRotateWal_steady ih) hrotate

/-! ### Views -/

/-- Every get and every range scan returns the same. -/
def SameView (s s' : Session) : Prop :=
  (∀ key, (LsmEngine.get key s').1 = (LsmEngine.get key s).1) ∧
    ∀ start stop limit, (rangeScan start stop limit s').1 = (rangeScan start stop limit s).1

theorem ensureUsable_run : ensureUsable s =
    (if s.engine.poisoned ∨ s.engine.wal.isNone then .error .poisoned else .ok (), s) := rfl

theorem get_fst : (LsmEngine.get key s).1 = (validateKey key >>= fun _ =>
    if s.engine.poisoned ∨ s.engine.wal.isNone then .error .poisoned else .ok (s.engine.currentValue key)) := by
  rw [LsmEngine.get]
  cases validateKey key with
  | error err => rfl
  | ok _ =>
    rw [Prog.ofExcept_ok_bind]
    by_cases hunusable : s.engine.poisoned ∨ s.engine.wal.isNone
    · have hrun : ensureUsable s = (.error .poisoned, s) := by rw [ensureUsable_run, if_pos hunusable]
      rw [Prog.bind_error hrun, Checked.ok_bind, if_pos hunusable]
    · have hrun : ensureUsable s = (.ok (), s) := by rw [ensureUsable_run, if_neg hunusable]
      rw [Prog.bind_ok hrun, Checked.ok_bind, if_neg hunusable]
      rfl

theorem rangeScan_fst {start : Bytes} {stop : Option Bytes} {limit : ℕ} :
    (rangeScan start stop limit s).1 = (validateRangeScan start stop >>= fun _ =>
      if s.engine.poisoned ∨ s.engine.wal.isNone then .error .poisoned
      else if limit = 0 ∨ stop = some start then .ok []
      else .ok ((liveRows (s.engine.visibleRange start stop)).take limit)) := by
  rw [rangeScan]
  cases validateRangeScan start stop with
  | error err => rfl
  | ok _ =>
    rw [Prog.ofExcept_ok_bind]
    by_cases hunusable : s.engine.poisoned ∨ s.engine.wal.isNone
    · have hrun : ensureUsable s = (.error .poisoned, s) := by rw [ensureUsable_run, if_pos hunusable]
      rw [Prog.bind_error hrun, Checked.ok_bind, if_pos hunusable]
    · have hrun : ensureUsable s = (.ok (), s) := by rw [ensureUsable_run, if_neg hunusable]
      have hengine : engine s = (.ok s.engine, s) := rfl
      rw [Prog.bind_ok hrun, Prog.bind_ok hengine, Checked.ok_bind, if_neg hunusable]
      by_cases hempty : limit = 0 ∨ stop = some start
      · rw [if_pos hempty, if_pos hempty]
        rfl
      · rw [if_neg hempty, if_neg hempty]
        rfl

/-- **A range scan is determined by the gets.** -/
theorem Layered.sameView (h : Layered s.store.files s.engine) (h' : Layered s'.store.files s'.engine)
    (hpoisoned : s'.engine.poisoned = s.engine.poisoned) (hwal : s'.engine.wal.isNone = s.engine.wal.isNone)
    (hvalue : ∀ key, s'.engine.currentValue key = s.engine.currentValue key) : SameView s s' := by
  refine ⟨fun key => ?_, fun start stop limit => ?_⟩
  · rw [get_fst, get_fst, hpoisoned, hwal, hvalue]
  · have hrows : liveRows (s'.engine.visibleRange start stop) =
        liveRows (s.engine.visibleRange start stop) := by
      refine (sorted_liveRows _).ext (sorted_liveRows _) fun row => ?_
      rw [h'.mem_rows, h.mem_rows, hvalue]
    rw [rangeScan_fst, rangeScan_fst, hpoisoned, hwal, hrows]

theorem SameView.trans {s'' : Session} (h : SameView s s') (h' : SameView s' s'') : SameView s s'' :=
  ⟨fun key => (h'.1 key).trans (h.1 key), fun start stop limit => (h'.2 start stop limit).trans (h.2 start stop limit)⟩

theorem currentValue_congr (hmemtables : ∀ key, firstHit e'.memtables.layers key = firstHit e.memtables.layers key)
    (htables : ∀ key, tableValue e'.tables key = tableValue e.tables key) :
    e'.currentValue key = e.currentValue key := by
  rw [currentValue_eq, currentValue_eq, hmemtables, htables]

/-- The engine of a compaction: the tables show the same values, and the memtables stay. -/
theorem compactLevel0AfterTrigger_value (h : Layered s.store.files s.engine) :
    Prog.wp compactLevel0AfterTrigger
      (fun _ s' => (∀ key, tableValue s'.engine.tables key = tableValue s.engine.tables key) ∧
        s'.engine.memtables = s.engine.memtables ∧ s'.engine.wal = s.engine.wal ∧
        s'.engine.poisoned = s.engine.poisoned)
      (Kept fun _ _ e => e = s.engine) s := by
  rw [compactLevel0AfterTrigger, Prog.wp_bind]
  refine wp_engine ?_
  rw [Prog.wp_bind]
  refine wp_checked rfl fun _ _ => ?_
  rw [Prog.wp_bind]
  refine wp_checked rfl fun nextManifestId _ => ?_
  rw [Prog.wp_bind]
  refine wp_checked rfl fun _ _ => ?_
  rw [Prog.wp_bind]
  refine Prog.wp_mono createReplacement_value (fun created s₁ h₁ => ?_) fun _ _ he => he
  obtain ⟨table, nextTableId⟩ := created
  obtain ⟨hengine, hfind⟩ := h₁
  dsimp only at hfind ⊢
  rw [Prog.wp_bind]
  refine wp_onStore (wp_prepareInstall hengine (fun _ => hengine) (fun _ => hengine)
    (fun _ _ _ _ _ _ => hengine) fun next io _ _ _ => ?_)
  rw [Prog.wp_bind, publishPrepared]
  refine wp_onStore (wp_writeCurrentSlot hengine (fun _ _ _ _ _ => hengine) fun io file _ => ?_)
  rw [Prog.wp_bind]
  refine wp_onStore (wp_mirrorCurrent hengine (fun _ _ _ _ _ => hengine) fun io file' _ => ?_)
  rw [Prog.wp_bind]
  refine wp_modifyEngine ?_
  refine wp_reclaimTables (I := fun _ => True) trivial (fun _ _ _ _ => trivial) (fun _ _ _ _ => trivial)
    fun _ _ => ⟨fun key => ?_, ?_⟩
  · show tableValue table.toList key = _
    rw [tableValue, hfind key, live_value h]
  · rw [hengine]
    exact ⟨rfl, rfl, rfl⟩

/-- Opening a directory that is backed by the engine, or by what replaces its version set. -/
theorem Steady.opened_view (t : Store) {store : Store} (h : At Steady s)
    (hlogged : Logged s.store.files s.engine ms) (hcovered : Covered s.engine ms)
    (hreplaces : Replaces s.engine version tables) (hbacked : Backed t.files version tables ms)
    (hvalid : ValidDirectory t.files) (hrun : openExisting t = (.ok e, store)) : SameView s ⟨store, e⟩ := by
  have hlayered := (Prog.wp_ok (openExisting_layered hvalid) hrun).1
  have hreopened := Prog.wp_ok (openExisting_reopened hvalid) hrun
  obtain ⟨rfl, hmemtables⟩ := hreopened.eq_of_backed hbacked
  obtain ⟨_, _, _, -, -, -, -, -, hwal, -, -, husable⟩ := hreopened
  obtain ⟨wal, hopen, -⟩ := hlogged.wal
  refine h.layered.sameView hlayered (husable.trans h.usable.symm) ?_ fun key => ?_
  · rw [hwal, hopen]
    rfl
  · refine currentValue_congr (fun key => ?_) hreplaces.value
    rw [hmemtables, hreplaces.durableSequence, hcovered]

/-- **A compaction keeps the view.** In every layered engine it changes the result of no get and of no range
scan, under any outcomes of its accesses; and what is opened on the directory behind it shows the same,
where the log covers the memtables, as it does at every moment of a run. -/
theorem compaction_keeps_view :
    (∀ s : Session, Layered s.store.files s.engine → SameView s (compactLevel0AfterTrigger s).2) ∧
    (∀ s : Session, At Steady s → ∀ io s',
      LsmEngine.reopen ⟨{ (compactLevel0AfterTrigger s).2.store with io := io },
        (compactLevel0AfterTrigger s).2.engine⟩ = (.ok (), s') → SameView s s') ∧
    ∀ s : Session, Moment s → At Steady s := by
  refine ⟨fun s h => ?_, fun s h io s' hreopen => ?_, fun s h => h.steady⟩
  · have hlayered := compactLevel0AfterTrigger_layered h
    have hvalue := compactLevel0AfterTrigger_value h
    rcases hrun : compactLevel0AfterTrigger s with ⟨err | _, s₁⟩
    · have hengine : s₁.engine = s.engine := Prog.wp_error hvalue hrun
      have hlayered₁ : Layered s₁.store.files s₁.engine := Prog.wp_error hlayered hrun
      refine h.sameView hlayered₁ ?_ ?_ fun key => ?_
      · rw [hengine]
      · rw [hengine]
      · rw [hengine]
    · obtain ⟨htables, hmemtables, hwal, hpoisoned⟩ := Prog.wp_ok hvalue hrun
      refine h.sameView (Prog.wp_ok hlayered hrun) hpoisoned (by rw [hwal]) fun key => ?_
      exact currentValue_congr (fun key => by rw [hmemtables]) htables
  · obtain ⟨ms, hlogged, hcovered⟩ := h.log
    have hlayered := compactLevel0AfterTrigger_layered h.layered
    have hbacked := compactLevel0AfterTrigger_backed h.layered (hlogged.backed h.layered h.ids)
    -- The directory behind the compaction is backed, by the old version set or by the new one.
    have hleft : ValidDirectory (compactLevel0AfterTrigger s).2.store.files ∧ ∃ version tables,
        Replaces s.engine version tables ∧
        Backed (compactLevel0AfterTrigger s).2.store.files version tables ms := by
      rcases hrun : compactLevel0AfterTrigger s with ⟨err | _, s₁⟩
      · exact ⟨(Prog.wp_error hlayered hrun).directory, (Prog.wp_error hbacked hrun).2⟩
      · obtain ⟨hreplaces, hbacked₁, -⟩ := Prog.wp_ok hbacked hrun
        exact ⟨(Prog.wp_ok hlayered hrun).directory, _, _, hreplaces, hbacked₁⟩
    obtain ⟨hvalid, version, tables, hreplaces, hbacked₁⟩ := hleft
    rcases hopen : openExisting { (compactLevel0AfterTrigger s).2.store with io := io } with ⟨err | e, store⟩
    · rw [LsmEngine.reopen, hopen] at hreopen
      cases hreopen
    · rw [LsmEngine.reopen, hopen] at hreopen
      cases hreopen
      exact Steady.opened_view { (compactLevel0AfterTrigger s).2.store with io := io } h hlogged hcovered
        hreplaces hbacked₁ hvalid hopen

/-- A new engine whose memtables freeze at every mutation. -/
def Session.freezing (s : Session) : Session :=
  { s with engine := { s.engine with memtables := { s.engine.memtables with mutableBytesLimit := 1 } } }

theorem Steady.freezing (h : At Steady s) : At Steady s.freezing where
  layered := by
    obtain ⟨last, hordered, hlast⟩ := h.layered.memory
    exact { h.layered with memory := ⟨last, ⟨hordered.stacked, hordered.frozen, hordered.mutable_le⟩, hlast⟩ }
  ids := h.ids
  log := by
    obtain ⟨ms, hlogged, hcovered⟩ := h.log
    exact ⟨ms, ⟨hlogged.wal, hlogged.header, hlogged.manifest, hlogged.legacy⟩, hcovered⟩
  usable := h.usable

/-- A mutation, and a round of the flush behind it. -/
def mutateAndFlush (op : Op) : EngineProg Unit := do
  let sequence ← appendWal op.kind op.key op.value
  applyMemtables sequence op.key (written op)
  flushLoop 1

theorem mutateAndFlush_steady {op : Op} (h : At Steady s) (hrun : mutateAndFlush op s = (.ok (), s')) :
    At Steady s' := by
  rw [mutateAndFlush, Prog.bind_eq_ok] at hrun
  obtain ⟨sequence, s₁, happend, hrun⟩ := hrun
  rw [Prog.bind_eq_ok] at hrun
  obtain ⟨_, s₂, happly, hflush⟩ := hrun
  have h₁ := Prog.wp_ok (appendWal_pending op h) happend
  exact Prog.wp_ok (flushLoop_steady (Prog.wp_ok (applyMemtables_steady h₁) happly)) hflush

/-- A key that is written and deleted, each in its own table. -/
def deletedKey : EngineProg Unit := do
  mutateAndFlush (.put [97] [49])
  mutateAndFlush (.delete [97])

/-- The first session of a new directory. -/
def firstSession : Option Session :=
  match initializeNew ⟨Files.empty, [], []⟩ with
  | (.ok engine, store) => some ⟨store, engine⟩
  | (.error _, _) => none

/-- A compaction that writes no table. -/
theorem compaction_keeps_view_empty : ∃ s, At Steady s ∧ s.engine.tables.length = 2 ∧
    (compactLevel0AfterTrigger s).1.isOk = true ∧ (compactLevel0AfterTrigger s).2.engine.tables.length = 0 ∧
    SameView s (compactLevel0AfterTrigger s).2 := by
  have hrun : (firstSession.map fun s => ((deletedKey s.freezing).1.isOk,
      (deletedKey s.freezing).2.engine.tables.length,
      (compactLevel0AfterTrigger (deletedKey s.freezing).2).1.isOk,
      (compactLevel0AfterTrigger (deletedKey s.freezing).2).2.engine.tables.length)) =
      some (true, 2, true, 0) := by decide +kernel
  obtain ⟨engine, store, hstart⟩ := exists_initializeNew
  rw [firstSession, hstart, Option.map_some, Option.some.injEq] at hrun
  simp only [Prod.mk.injEq] at hrun
  obtain ⟨hok, htables, hcompacted, hempty⟩ := hrun
  have hsteady : At Steady (⟨store, engine⟩ : Session) := Prog.wp_ok initializeNew_steady hstart
  rcases hdeleted : deletedKey (⟨store, engine⟩ : Session).freezing with ⟨err | _, s⟩
  · rw [hdeleted] at hok
    cases hok
  · rw [hdeleted] at htables hcompacted hempty
    have hs : At Steady s := by
      rw [deletedKey, Prog.bind_eq_ok] at hdeleted
      obtain ⟨_, s₁, hput, hdelete⟩ := hdeleted
      exact mutateAndFlush_steady (mutateAndFlush_steady (Steady.freezing hsteady) hput) hdelete
    exact ⟨s, hs, htables, hcompacted, hempty, compaction_keeps_view.1 s hs.layered⟩

end DbLab.Lsm
