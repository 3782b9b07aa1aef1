import DbLab.Lsm.ManifestCodec
import DbLab.Lsm.NextOpen

/-!
# Sequences of installations

An engine takes the number behind its last manifest for the next one, and an installation never moves the
durable sequence or the watermark of the tables backward. So the version sets that a handle installs, one
after the other, advance.
-/

namespace DbLab.Lsm

open Store LsmEngine

variable {s s' : Session} {t : Store} {α : Type}

/-- The next engine has a greater manifest, and nothing that it counts is behind. -/
structure Advance (e next : LsmEngine) : Prop where
  manifestId : e.version.manifestId < next.version.manifestId
  durableSequence : e.version.durableSequence ≤ next.version.durableSequence
  tableIdHighWatermark : e.version.tableIdHighWatermark ≤ next.version.tableIdHighWatermark
  nextTableId : e.nextTableId ≤ next.nextTableId
  nextManifestId : e.nextManifestId ≤ next.nextManifestId
  nextWalId : e.nextWalId ≤ next.nextWalId

theorem Advance.trans {e₁ e₂ e₃ : LsmEngine} (h : Advance e₁ e₂) (h' : Advance e₂ e₃) : Advance e₁ e₃ :=
  ⟨h.manifestId.trans h'.manifestId, h.durableSequence.trans h'.durableSequence,
    h.tableIdHighWatermark.trans h'.tableIdHighWatermark, h.nextTableId.trans h'.nextTableId,
    h.nextManifestId.trans h'.nextManifestId, h.nextWalId.trans h'.nextWalId⟩

/-- The number of the next manifest is free, and an engine without a manifest has nothing durable. -/
structure Numbered (e : LsmEngine) : Prop where
  ahead : e.version.manifestId < e.nextManifestId
  legacy : e.version.manifestId = 0 →
    e.version.durableSequence = 0 ∧ e.version.tableIdHighWatermark = 0 ∧ e.nextManifestId ≤ 2

/-- **One installation advances**, and the next number is free again. -/
theorem advance_nextVersion {e next : LsmEngine} {version : VersionSet} {state : ManifestState} {generation : ℕ}
    (h : Numbered e) (hversion : version = nextVersion e.version e.nextManifestId state generation)
    (hinstall : Installable e.version state version) (hid : next.version.manifestId = version.manifestId)
    (hdurable : next.version.durableSequence = version.durableSequence)
    (hwatermark : next.version.tableIdHighWatermark = version.tableIdHighWatermark)
    (htable : e.nextTableId ≤ next.nextTableId) (hmanifest : next.nextManifestId = e.nextManifestId + 1)
    (hwal : e.nextWalId ≤ next.nextWalId) : Numbered next ∧ Advance e next := by
  have hahead := h.ahead
  have hnext : next.version.manifestId = e.nextManifestId := by
    rw [hid, hversion]
    rfl
  refine ⟨⟨?_, fun hzero => ?_⟩, ⟨?_, ?_, ?_, htable, ?_, hwal⟩⟩
  · omega
  · omega
  · omega
  · rw [hdurable, hversion]
    exact hinstall.durable_le
  · rw [hwatermark, hversion]
    exact (foldl_max _ _ _).1
  · omega

/-- What a program has done when it succeeds. -/
theorem wp_self {x : EngineProg α} : Prog.wp x (fun a s' => x s = (.ok a, s')) (Kept Anything) s := by
  rw [Prog.wp_iff_forall]
  exact ⟨fun _ _ h => h, fun _ _ _ => trivial⟩

/-! ### The programs that install -/

/-- The initial manifest takes nothing back. -/
theorem ensureManifest_numbered (h : Numbered s.engine) :
    Prog.wp ensureManifest (fun _ s' => Numbered s'.engine ∧
      ∀ next, Advance s'.engine next → Advance s.engine next) (Kept Anything) s := by
  rw [ensureManifest, Prog.wp_bind]
  refine wp_engine ?_
  split_ifs with hzero
  · rw [Prog.wp_bind]
    refine wp_activeWal trivial fun wal hwal => ?_
    rw [Prog.wp_bind]
    refine wp_onStore (@wp_createInitial _ (fun _ _ => True) _ _ _ trivial (fun _ => trivial) (fun _ => trivial)
      (fun _ _ _ => trivial) (fun _ _ _ _ => trivial) (fun _ _ _ _ _ _ _ => trivial) ?_)
    intro version rest _ _ hid _ hdurable hwatermark _
    obtain ⟨hdurable', hwatermark', hmanifest⟩ := h.legacy hzero
    refine wp_modifyEngine ⟨⟨?_, fun _ => ⟨hdurable, hwatermark, le_rfl⟩⟩, fun next hnext => ?_⟩
    · show version.manifestId < 2
      omega
    · obtain ⟨hid', -, -, htable, hnumber, hwal⟩ := hnext
      refine ⟨?_, ?_, ?_, htable, hmanifest.trans hnumber, hwal⟩
      · rw [hzero]
        exact (Nat.zero_le _).trans_lt hid'
      · rw [hdurable']
        exact Nat.zero_le _
      · rw [hwatermark']
        exact Nat.zero_le _
  · exact ⟨h, fun _ hnext => hnext⟩

theorem flushOldest_advance {entries : VersionMap} {durableSequence : ℕ} (h : Numbered s.engine) :
    Prog.wp (flushOldest entries durableSequence)
      (fun _ s' => Numbered s'.engine ∧ Advance s.engine s'.engine) (Kept Anything) s := by
  rw [flushOldest, Prog.wp_bind]
  refine Prog.wp_mono (ensureManifest_numbered h) (fun _ s₁ h₁ => ?_) fun _ _ he => he
  obtain ⟨hnumbered, hback⟩ := h₁
  -- from here on the engine has a manifest, and `hback` goes back to the engine before it
  rw [Prog.wp_bind]
  refine wp_engine ?_
  rw [Prog.wp_bind]
  refine wp_checked trivial fun nextTableId htable => ?_
  obtain ⟨-, rfl⟩ := checkedSucc_eq_ok.1 htable
  rw [Prog.wp_bind]
  refine wp_checked trivial fun nextManifestId hmanifest => ?_
  obtain ⟨-, rfl⟩ := checkedSucc_eq_ok.1 hmanifest
  rw [Prog.wp_bind]
  refine wp_onStore (@wp_createSstable _ (fun _ _ => True) _ _ _ _ _ trivial (fun _ => trivial) (fun _ => trivial)
    (fun _ _ => trivial) ?_)
  intro table content io _ _ _ _ _ _
  rw [Prog.wp_bind]
  refine wp_onStore (@wp_install _ (fun _ _ => True) _ _ _ _ trivial (fun _ => trivial) (fun _ => trivial)
    (fun _ _ _ _ _ _ => trivial) (fun _ _ _ _ _ _ _ _ _ => trivial) ?_)
  intro next io' hnext hinstall _ file hfile
  rw [Prog.wp_bind]
  refine wp_modifyEngine ?_
  rw [Prog.wp_bind]
  refine wp_checked trivial fun memtables _ => ?_
  refine wp_modifyEngine ?_
  have hadvance := @advance_nextVersion s₁.engine { s₁.engine with
    tables := s₁.engine.tables ++ [table]
    version := next
    nextTableId := s₁.engine.nextTableId + 1
    nextManifestId := s₁.engine.nextManifestId + 1
    memtables := memtables } _ _ _ hnumbered hnext hinstall rfl rfl rfl (Nat.le_succ _) rfl le_rfl
  exact ⟨hadvance.1, hback _ hadvance.2⟩

theorem createReplacement_engine {live : VersionMap} :
    Prog.wp (createReplacement s.engine live)
      (fun p s' => s'.engine = s.engine ∧ s.engine.nextTableId ≤ p.2) (Kept Anything) s := by
  rw [createReplacement]
  split_ifs
  · exact ⟨rfl, le_rfl⟩
  · rw [Prog.wp_bind]
    refine wp_checked trivial fun nextTableId htable => ?_
    obtain ⟨-, rfl⟩ := checkedSucc_eq_ok.1 htable
    rw [Prog.wp_bind]
    exact wp_onStore (@wp_createSstable _ (fun _ _ => True) _ _ _ _ _ trivial (fun _ => trivial) (fun _ => trivial)
      (fun _ _ => trivial) fun _ _ _ _ _ _ _ _ _ => ⟨rfl, Nat.le_succ _⟩)

theorem compactLevel0AfterTrigger_advance (h : Numbered s.engine) :
    Prog.wp compactLevel0AfterTrigger
      (fun _ s' => Numbered s'.engine ∧ Advance s.engine s'.engine) (Kept Anything) s := by
  rw [compactLevel0AfterTrigger, Prog.wp_bind]
  refine wp_engine ?_
  rw [Prog.wp_bind]
  refine wp_checked trivial fun _ _ => ?_
  rw [Prog.wp_bind]
  refine wp_checked trivial fun nextManifestId hmanifest => ?_
  obtain ⟨-, rfl⟩ := checkedSucc_eq_ok.1 hmanifest
  rw [Prog.wp_bind]
  refine wp_checked trivial fun _ _ => ?_
  rw [Prog.wp_bind]
  refine Prog.wp_mono createReplacement_engine (fun p s₁ h₁ => ?_) fun _ _ he => he
  obtain ⟨table, nextTableId⟩ := p
  obtain ⟨hengine, htable⟩ := h₁
  dsimp only at htable ⊢
  rw [Prog.wp_bind]
  refine wp_onStore (@wp_prepareInstall _ (fun _ _ => True) _ _ _ _ trivial (fun _ => trivial) (fun _ => trivial)
    (fun _ _ _ _ _ _ => trivial) ?_)
  intro next io hnext hinstall _
  rw [Prog.wp_bind, publishPrepared]
  refine wp_onStore (@wp_writeCurrentSlot _ (fun _ _ => True) _ _ _ trivial (fun _ _ _ _ _ => trivial) ?_)
  intro io' file hfile
  rw [Prog.wp_bind]
  refine wp_onStore (@wp_mirrorCurrent _ (fun _ _ => True) _ _ trivial (fun _ _ _ _ _ => trivial) ?_)
  intro io'' file' hfile'
  rw [Prog.wp_bind]
  refine wp_modifyEngine ?_
  -- what is reclaimed does not matter to the numbers of the engine
  refine @wp_reclaimTables _ _ _ (fun _ => True) _ _ trivial (fun _ _ _ _ => trivial) (fun _ _ _ _ => trivial) ?_
  rintro store -
  refine advance_nextVersion h hnext hinstall rfl rfl rfl htable rfl ?_
  show s.engine.nextWalId ≤ s₁.engine.nextWalId
  rw [hengine]

theorem rotateWal_advance {wal : Wal} {firstSequence : ℕ} (h : Numbered s.engine) :
    Prog.wp (rotateWal wal firstSequence)
      (fun _ s' => Numbered s'.engine ∧ Advance s.engine s'.engine) (Kept Anything) s := by
  rw [rotateWal, Prog.wp_bind]
  refine wp_engine ?_
  rw [Prog.wp_bind]
  refine wp_checked trivial fun followingWalId hwal => ?_
  obtain ⟨-, rfl⟩ := checkedSucc_eq_ok.1 hwal
  rw [Prog.wp_bind]
  refine wp_checked trivial fun followingManifestId hmanifest => ?_
  obtain ⟨-, rfl⟩ := checkedSucc_eq_ok.1 hmanifest
  rw [Prog.wp_bind]
  refine wp_onStore (@wp_createNewWal _ (fun _ _ => True) _ _ _ trivial (fun _ => trivial) (fun _ => trivial)
    (fun _ _ => trivial) ?_)
  intro newWal io _ _
  rw [Prog.wp_bind]
  refine wp_onStore (@wp_install _ (fun _ _ => True) _ _ _ _ trivial (fun _ => trivial) (fun _ => trivial)
    (fun _ _ _ _ _ _ => trivial) (fun _ _ _ _ _ _ _ _ _ => trivial) ?_)
  intro next io' hnext hinstall _ file hfile
  rw [Prog.wp_bind]
  refine wp_onStore (@wp_mirrorCurrent _ (fun _ _ => True) _ _ trivial (fun _ _ _ _ _ => trivial) ?_)
  intro io'' file' hfile'
  rw [Prog.wp_bind]
  refine wp_modifyEngine ?_
  refine @wp_reclaimWals _ _ _ (fun _ => True) _ _ trivial (fun _ _ _ _ => trivial) (fun _ _ _ _ => trivial) ?_
  rintro store -
  exact advance_nextVersion h hnext hinstall rfl rfl rfl le_rfl rfl (Nat.le_succ _)

/-! ### Sequences of installations -/

/-- A program that installs a version set has succeeded. -/
inductive InstallStep : LsmEngine → LsmEngine → Prop
  | flushed {entries : VersionMap} {durableSequence : ℕ} {s s' : Session} :
      flushOldest entries durableSequence s = (.ok (), s') → InstallStep s.engine s'.engine
  | compacted {s s' : Session} : compactLevel0AfterTrigger s = (.ok (), s') → InstallStep s.engine s'.engine
  | rotated {wal : Wal} {firstSequence : ℕ} {s s' : Session} :
      rotateWal wal firstSequence s = (.ok (), s') → InstallStep s.engine s'.engine

/-- The engines behind the installations from the first engine to the last one. -/
inductive InstallRun : LsmEngine → List LsmEngine → LsmEngine → Prop
  | refl {e : LsmEngine} : InstallRun e [] e
  /-- Between two installations the log and the memtables change. -/
  | quiet {e e₁ : LsmEngine} {installs : List LsmEngine} {wal : Option Wal} {memtables : MemTableSet}
      {poisoned : Bool} : InstallRun e installs e₁ →
      InstallRun e installs { e₁ with wal := wal, memtables := memtables, poisoned := poisoned }
  | installed {e e₁ e₂ : LsmEngine} {installs : List LsmEngine} : InstallRun e installs e₁ → InstallStep e₁ e₂ →
      InstallRun e (installs ++ [e₂]) e₂

/-- **One successful installation advances.** -/
theorem InstallStep.advance {e next : LsmEngine} (h : InstallStep e next) (hnumbered : Numbered e) :
    Numbered next ∧ Advance e next := by
  cases h with
  | flushed hrun => exact Prog.wp_ok (flushOldest_advance hnumbered) hrun
  | compacted hrun => exact Prog.wp_ok (compactLevel0AfterTrigger_advance hnumbered) hrun
  | rotated hrun => exact Prog.wp_ok (rotateWal_advance hnumbered) hrun

/-- **A sequence of installations advances**: each of its engines to all that follow. -/
theorem InstallRun.advance {e last : LsmEngine} {installs : List LsmEngine} (h : InstallRun e installs last)
    (hnumbered : Numbered e) : (e :: installs).Pairwise Advance ∧ Numbered last ∧
      ∀ next, Advance last next → ∀ e' ∈ e :: installs, Advance e' next := by
  -- the last conjunct carries the induction: what is ahead of the last engine is ahead of all of them
  induction h with
  | refl =>
    refine ⟨List.pairwise_singleton _ _, hnumbered, fun next hnext e' he' => ?_⟩
    rw [List.mem_singleton] at he'
    rw [he']
    exact hnext
  | @quiet e₁ installs wal memtables poisoned _ ih =>
    obtain ⟨hpairwise, hlast, hall⟩ := ih
    refine ⟨hpairwise, ⟨hlast.ahead, hlast.legacy⟩, fun next hnext => hall next ?_⟩
    exact ⟨hnext.manifestId, hnext.durableSequence, hnext.tableIdHighWatermark, hnext.nextTableId,
      hnext.nextManifestId, hnext.nextWalId⟩
  | @installed e₁ e₂ installs _ hstep ih =>
    obtain ⟨hpairwise, hlast, hall⟩ := ih
    obtain ⟨hnumbered₂, hadvance⟩ := hstep.advance hlast
    rw [← List.cons_append]
    refine ⟨List.pairwise_append.2 ⟨hpairwise, List.pairwise_singleton _ _, fun e' he' next hnext => ?_⟩,
      hnumbered₂, fun next hnext e' he' => ?_⟩
    · rw [List.mem_singleton] at hnext
      rw [hnext]
      exact hall e₂ hadvance e' he'
    · rcases List.mem_append.1 he' with he' | he'
      · exact (hall e₂ hadvance e' he').trans hnext
      · rw [List.mem_singleton] at he'
        rw [he']
        exact hnext

/-! ### Calls -/

/-- An engine that is not usable, or that installations lead to. -/
def Installed (e : LsmEngine) (_ : Files) (_ : History) (e' : LsmEngine) : Prop :=
  e'.poisoned = true ∨ ∃ installs, InstallRun e installs e'

theorem flushLoop_installs {rounds : ℕ} {e : LsmEngine} (h : ∃ installs, InstallRun e installs s.engine) :
    Prog.wp (flushLoop rounds) (fun _ s' => ∃ installs, InstallRun e installs s'.engine) (Kept Anything) s := by
  induction rounds generalizing s with
  | zero => exact h
  | succ rounds ih =>
    rw [flushLoop, Prog.wp_bind]
    refine wp_engine ?_
    rw [Prog.wp_bind]
    refine wp_checked trivial fun snapshot _ => ?_
    cases snapshot with
    | none => exact h
    | some snapshot =>
      rw [Option.elim_some, Prog.wp_bind]
      refine Prog.wp_mono wp_self (fun _ s' hrun => ih ?_) fun _ _ he => he
      obtain ⟨installs, hinstalls⟩ := h
      exact ⟨_, hinstalls.installed (.flushed hrun)⟩

theorem flushFrozenMemtables_installs {e : LsmEngine} (h : ∃ installs, InstallRun e installs s.engine) :
    Prog.wp flushFrozenMemtables (fun _ s' => ∃ installs, InstallRun e installs s'.engine) (Kept Anything) s := by
  rw [flushFrozenMemtables, Prog.wp_bind]
  refine wp_engine ?_
  rw [Prog.wp_bind]
  refine Prog.wp_mono (flushLoop_installs h) (fun _ s₁ h₁ => ?_) fun _ _ he => he
  obtain ⟨installs, hinstalls⟩ := h₁
  have hcompact : Prog.wp maybeCompactLevel0 (fun _ s' => ∃ installs, InstallRun e installs s'.engine)
      (Kept Anything) s₁ := by
    rw [maybeCompactLevel0, Prog.wp_bind]
    refine wp_engine ?_
    split_ifs
    · exact ⟨installs, hinstalls⟩
    · exact Prog.wp_mono wp_self (fun _ s' hrun => ⟨_, hinstalls.installed (.compacted hrun)⟩) fun _ _ he => he
  rw [Prog.wp_bind]
  refine Prog.wp_mono hcompact (fun _ s₂ h₂ => ?_) fun _ _ he => he
  obtain ⟨installs₂, hinstalls₂⟩ := h₂
  rw [maybeRotateWal, Prog.wp_bind]
  refine wp_engine ?_
  split_ifs
  · exact ⟨installs₂, hinstalls₂⟩
  rw [Prog.wp_bind]
  refine wp_activeWal trivial fun wal _ => ?_
  split_ifs
  · exact ⟨installs₂, hinstalls₂⟩
  · exact Prog.wp_mono wp_self (fun _ s' hrun => ⟨_, hinstalls₂.installed (.rotated hrun)⟩) fun _ _ he => he

theorem persistAndApply_installs {kind : Record.RecordKind} {key : Bytes} {value : Option Bytes} :
    Prog.wp (persistAndApply kind key value) (fun _ s' => ∃ installs, InstallRun s.engine installs s'.engine)
      (Kept (Installed s.engine)) s := by
  have hpoison : ∀ files history e', Anything files history e' →
      Installed s.engine files history { e' with poisoned := true } := fun _ _ _ _ => .inl rfl
  rw [persistAndApply, Prog.wp_bind]
  refine wp_ensureUsable (.inr ⟨[], .refl⟩) fun _ _ => ?_
  rw [Prog.wp_bind]
  refine wp_poisonOnError hpoison ?_
  rw [appendWal, Prog.wp_bind]
  refine wp_activeWal trivial fun wal _ => ?_
  rw [Prog.wp_bind]
  refine wp_checked trivial fun appended _ => ?_
  obtain ⟨sequence, next⟩ := appended
  dsimp only
  rw [Prog.wp_bind]
  refine wp_onStore (wp_rewriteWal trivial (fun _ _ _ => trivial) fun io _ => ?_)
  rw [Prog.wp_bind]
  refine wp_modifyEngine ?_
  rw [Prog.wp_pure, Prog.wp_bind]
  refine wp_poisonOnError hpoison ?_
  rw [applyMemtables, Prog.wp_bind]
  refine wp_engine ?_
  rw [Prog.wp_bind]
  refine wp_checked trivial fun memtables _ => ?_
  refine wp_modifyEngine ?_
  have hquiet : InstallRun s.engine [] { s.engine with
      wal := some next
      memtables := memtables
      poisoned := s.engine.poisoned } := .quiet .refl
  exact wp_poisonOnError hpoison (flushFrozenMemtables_installs ⟨[], hquiet⟩)

/-- **The calls of a handle install in sequence**, under any outcomes, until it is poisoned. -/
theorem Call.installs (call : Call) (hreopen : call ≠ .reopen) :
    Prog.wp call.run (fun _ s' => ∃ installs, InstallRun s.engine installs s'.engine)
      (Kept (Installed s.engine)) s := by
  refine call.wp_run (.inr ⟨[], .refl⟩) (fun _ => ⟨[], .refl⟩) (fun _ _ => ?_) (fun _ => ?_)
    fun hcall => absurd hcall hreopen
  · exact persistAndApply_installs
  · exact persistAndApply_installs

/-! ### Openings -/

/-- **Opening numbers the next files**, whatever directory it is. -/
theorem openExisting_numbered : Prog.wp openExisting (fun e _ => Numbered e) (Fails fun _ _ => True) t := by
  rw [openExisting, Prog.wp_bind]
  refine wp_reading trivial fun layout io hlayout => ?_
  have hlayoutOf := validateLayout_eq_ok hlayout
  rw [Prog.wp_bind]
  refine Prog.wp_mono (wp_loadVersion_loads hlayoutOf) (fun loaded t₁ h₁ => ?_) fun _ _ _ => trivial
  obtain ⟨hloads, -⟩ := h₁
  rw [Prog.wp_bind]
  refine Prog.wp_mono (wp_openTables_files _) (fun tables t₂ _ => ?_) fun _ _ _ => trivial
  rw [Prog.wp_bind]
  refine wp_check trivial fun _ _ => ?_
  rw [Prog.wp_bind]
  refine wp_check trivial fun memtables _ => ?_
  rw [Prog.wp_bind]
  refine wp_openWal_scan fun file scan files' io₃ _ _ _ => ?_
  rw [Prog.wp_bind]
  refine wp_check trivial fun _ _ => ?_
  rw [Prog.wp_bind]
  refine wp_check trivial fun nextTableId _ => ?_
  rw [Prog.wp_bind]
  refine wp_check trivial fun nextManifestId hmanifest => ?_
  obtain ⟨-, rfl⟩ := checkedSucc_eq_ok.1 hmanifest
  rw [Prog.wp_bind]
  refine wp_check trivial fun nextWalId _ => ?_
  rcases hloads with ⟨hnone, rfl⟩ | ⟨slot, stored, hread, hid, hstored, rfl⟩
  · -- without manifests the directory has no tables either, so both numbers start at the beginning
    obtain ⟨hmanifests, htables, -⟩ := validateLayout_legacy hlayout hnone
    have hmanifest : layout.maxManifestId = 0 := by
      rw [hlayoutOf.manifests, keys_eq_nil hmanifests]
      rfl
    have htable : layout.maxTableId = 0 := by
      rw [hlayoutOf.tables, keys_eq_nil htables]
      rfl
    refine ⟨Nat.succ_pos _, fun _ => ⟨rfl, ?_, ?_⟩⟩
    · show max 0 layout.maxTableId = 0
      omega
    · show layout.maxManifestId + 1 ≤ 2
      omega
  · obtain ⟨-, hne⟩ := readCurrent_manifestId hread
    have hsome : (t.files.manifests.find slot.manifestId).isSome := by
      rw [hstored]
      rfl
    have hle := le_maxId (SortedMap.mem_keys.2 hsome)
    refine ⟨?_, fun hzero => ?_⟩
    · show stored.manifestId < layout.maxManifestId + 1
      rw [hid, hlayoutOf.manifests]
      omega
    · have hzero' : stored.manifestId = 0 := hzero
      omega

/-- A new directory has its numbers too. -/
theorem initializeNew_numbered : Prog.wp initializeNew (fun e _ => Numbered e) (Fails fun _ _ => True) t := by
  rw [initializeNew, Prog.wp_bind]
  refine @wp_createNewWal _ (fun _ _ => True) _ _ _ trivial (fun _ => trivial) (fun _ => trivial)
    (fun _ _ => trivial) ?_
  intro wal io _ _
  rw [Prog.wp_bind]
  refine @wp_createInitial _ (fun _ _ => True) _ _ _ trivial (fun _ => trivial) (fun _ => trivial)
    (fun _ _ _ => trivial) (fun _ _ _ _ => trivial) (fun _ _ _ _ _ _ _ => trivial) ?_
  intro version rest _ _ hid _ hdurable hwatermark _
  rw [Prog.wp_bind]
  refine wp_check trivial fun memtables _ => ?_
  refine ⟨?_, fun _ => ⟨hdurable, hwatermark, le_rfl⟩⟩
  show version.manifestId < 2
  omega

/-! ### The manifests of a handle -/

/-- An engine that `initialize_new` or `open_existing` has made. -/
def FreshHandle (e : LsmEngine) : Prop :=
  ∃ t t' : Store, initializeNew t = (.ok e, t') ∨ openExisting t = (.ok e, t')

theorem FreshHandle.numbered {e : LsmEngine} (h : FreshHandle e) : Numbered e := by
  obtain ⟨t, t', hnew | hopen⟩ := h
  · exact Prog.wp_ok initializeNew_numbered hnew
  · exact Prog.wp_ok openExisting_numbered hopen

/-- **Manifests.** A valid version set is written and read back, what is read is valid, and installations
advance. -/
theorem manifests_advance :
    (∀ version : VersionSet, validateVersionSet version = .ok () → Writable version →
      92 + (version.tables.flatMap descriptorBytes).length < u64Limit →
      ∃ bytes, manifestBytes version = .ok bytes ∧
        readManifestBytes version.manifestId bytes = .ok version.written) ∧
    (∀ manifestId bytes version, readManifestBytes manifestId bytes = .ok version →
      validateVersionSet version = .ok ()) ∧
    ∀ e installs last, FreshHandle e → InstallRun e installs last → (e :: installs).Pairwise Advance := by
  refine ⟨fun version hvalid hwritable hfits => ?_, fun manifestId bytes version hread => ?_,
    fun e installs last hfresh hrun => ?_⟩
  · obtain ⟨bytes, hbytes, hlength⟩ := exists_manifestBytes hvalid hwritable (by omega)
    refine ⟨bytes, hbytes, ?_⟩
    exact readManifestBytes_eq hwritable.wide (storable_of_valid hvalid hwritable) hbytes (by omega)
  · exact (readManifestBytes_valid hread).1
  · exact (hrun.advance hfresh.numbered).1

/-- A version set with one table. -/
def oneTable : VersionSet where
  currentGeneration := 3
  manifestId := 4
  durableSequence := 7
  tombstoneGcSequence := 2
  tableIdHighWatermark := 5
  walId := 2
  walFirstSequence := 8
  tables := [
    { tableId := 5
      level := 1
      fileBytes := 200
      entryCount := 2
      durableSequence := 7
      smallestKey := [65]
      largestKey := [66, 67] }]

/-- Its manifest is read back, and the compaction of a directory advances. -/
theorem manifests_advance_oneTable :
    (∃ bytes, manifestBytes oneTable = .ok bytes ∧ readManifestBytes 4 bytes = .ok oneTable.written) ∧
      ∃ e store s', openExisting ⟨orphanDirectory, [], []⟩ = (.ok e, store) ∧
        compactLevel0AfterTrigger ⟨store, e⟩ = (.ok (), s') ∧ [e, s'.engine].Pairwise Advance := by
  have hvalid : validateVersionSet oneTable = .ok () := by decide +kernel
  have hwritable : Writable oneTable := by
    refine ⟨⟨by decide, by decide, by decide, by decide, by decide, by decide⟩, fun d hd => ?_⟩
    rw [oneTable, List.mem_singleton] at hd
    subst hd
    exact ⟨by decide, by decide, by decide, by decide, by decide, by decide, by decide⟩
  have hfits : 92 + (oneTable.tables.flatMap descriptorBytes).length < u64Limit := by
    rw [u64Limit_eq]
    decide +kernel
  refine ⟨manifests_advance.1 oneTable hvalid hwritable hfits, ?_⟩
  have hcheck : (openExisting ⟨orphanDirectory, [], []⟩).1.toOption.any (fun e =>
      (compactLevel0AfterTrigger ⟨(openExisting ⟨orphanDirectory, [], []⟩).2, e⟩).1.toOption.isSome) = true := by
    decide +kernel
  rcases hopen : openExisting ⟨orphanDirectory, [], []⟩ with ⟨err | e, store⟩
  · rw [hopen] at hcheck
    cases hcheck
  simp only [hopen, Except.toOption, Option.any_some] at hcheck
  rcases hcompact : compactLevel0AfterTrigger ⟨store, e⟩ with ⟨err | u, s'⟩
  · rw [hcompact] at hcheck
    cases hcheck
  refine ⟨e, store, s', rfl, hcompact, ?_⟩
  exact manifests_advance.2.2 e [s'.engine] s'.engine ⟨_, _, .inr hopen⟩ (.installed .refl (.compacted hcompact))

end DbLab.Lsm
