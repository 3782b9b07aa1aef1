import DbLab.Lsm.FileNames

/-!
# What the next opening finds

A usable engine has its segment, and either the layout without manifests or `CURRENT` with the manifest of
its version set. So the next opening accepts the layout, unless the engine has taken a number of more than
sixteen digits.
-/

namespace DbLab.Lsm

open Store LsmEngine

variable {s : Session} {t : Store} {files : Files} {history : History} {e : LsmEngine}

/-- The directory behind a usable engine. -/
structure Laid (files : Files) (e : LsmEngine) : Prop where
  usable : e.poisoned = false
  segment : ∃ wal, e.wal = some wal ∧ (files.wals.find wal.walId).isSome
  next : e.nextManifestId ≠ 0
  kind : e.version.manifestId = 0 ∧ files.current = none ∧ (∀ id, files.manifests.find id = none) ∧
      (∀ id, files.tables.find id = none) ∧ (∀ id, (files.wals.find id).isSome ↔ id = initialWalId) ∨
    e.version.manifestId ≠ 0 ∧ files.current.isSome ∧ (files.manifests.find e.version.manifestId).isSome

/-- The engine is not usable, or its directory is laid out. -/
def UsableLaid (files : Files) (_ : History) (e : LsmEngine) : Prop := e.poisoned = false → Laid files e

/-- Nothing is said behind an error that poisons the engine. -/
def Anything (_ : Files) (_ : History) (_ : LsmEngine) : Prop := True

theorem isSome_find_insert_self {β : Type} {m : SortedMap ℕ β} {id : ℕ} {b : β} :
    ((m.insert id b).find id).isSome := by
  simp

theorem isSome_find_insert_of {β : Type} {m : SortedMap ℕ β} {id id' : ℕ} {b : β} (h : (m.find id').isSome) :
    ((m.insert id b).find id').isSome := by
  rw [SortedMap.find_insert]
  split_ifs
  · rfl
  · exact h

theorem isSome_find_erase_of {β : Type} {m : SortedMap ℕ β} {id id' : ℕ} (h : (m.find id').isSome) (hne : id' ≠ id) :
    ((m.erase id).find id').isSome := by
  rw [SortedMap.find_erase, if_neg hne]
  exact h

/-! ### Files that are not named -/

/-- A version set with a manifest is the current one. -/
theorem Laid.named (h : Laid files e) (hnamed : e.version.manifestId ≠ 0) : e.version.manifestId ≠ 0 ∧
    files.current.isSome ∧ (files.manifests.find e.version.manifestId).isSome :=
  h.kind.resolve_left fun hzero => hnamed hzero.1

theorem Laid.removeTable (h : Laid files e) (hnamed : e.version.manifestId ≠ 0) {id : ℕ} :
    Laid (removeTable id files) e :=
  ⟨h.usable, h.segment, h.next, .inr (h.named hnamed)⟩

theorem Laid.removeManifest (h : Laid files e) (hnamed : e.version.manifestId ≠ 0) {id : ℕ}
    (hne : id ≠ e.version.manifestId) : Laid (removeManifest id files) e := by
  obtain ⟨-, hcurrent, hmanifest⟩ := h.named hnamed
  exact ⟨h.usable, h.segment, h.next, .inr ⟨hnamed, hcurrent, isSome_find_erase_of hmanifest hne.symm⟩⟩

theorem Laid.removeWal (h : Laid files e) (hnamed : e.version.manifestId ≠ 0) {id : ℕ} {wal : Wal}
    (hwal : e.wal = some wal) (hne : id ≠ wal.walId) : Laid (removeWal id files) e := by
  obtain ⟨wal', hwal', hfind⟩ := h.segment
  obtain rfl : wal' = wal := Option.some.inj (hwal'.symm.trans hwal)
  exact ⟨h.usable, ⟨wal', hwal, isSome_find_erase_of hfind hne.symm⟩, h.next, .inr (h.named hnamed)⟩

/-! ### The steps of a mutation -/

theorem appendWal_laid {kind : Record.RecordKind} {key value : Bytes} (h : Laid s.store.files s.engine) :
    Prog.wp (appendWal kind key value) (fun _ s' => Laid s'.store.files s'.engine) (Kept Anything) s := by
  rw [appendWal, Prog.wp_bind]
  refine wp_activeWal trivial fun wal hwal => ?_
  rw [Prog.wp_bind]
  refine wp_checked trivial fun appended happend => ?_
  obtain ⟨sequence, next⟩ := appended
  obtain ⟨-, -, hid⟩ := Wal.append_eq_ok happend
  dsimp only
  rw [Prog.wp_bind]
  refine wp_onStore (wp_rewriteWal trivial (fun _ _ _ => trivial) fun io hsome => ?_)
  rw [Prog.wp_bind]
  refine wp_modifyEngine ?_
  refine ⟨h.usable, ⟨next, rfl, ?_⟩, h.next, h.kind.imp ?_ ?_⟩
  · rw [hid]
    exact isSome_find_insert_self
  · rintro ⟨hversion, hcurrent, hmanifests, htables, hwals⟩
    refine ⟨hversion, hcurrent, hmanifests, htables, fun id => ?_⟩
    -- the segment that is rewritten was there
    have hwalId := (hwals wal.walId).1 hsome
    constructor
    · intro hfind
      rcases isSome_find_insert hfind with hfind | hfind
      · exact hfind.trans hwalId
      · exact (hwals id).1 hfind
    · intro hfind
      exact isSome_find_insert_of ((hwals id).2 hfind)
  · exact fun hkind => hkind

theorem applyMemtables_laid {sequence : ℕ} {key : Bytes} {value : Option Bytes} (h : Laid s.store.files s.engine) :
    Prog.wp (applyMemtables sequence key value) (fun _ s' => Laid s'.store.files s'.engine) (Kept Anything) s := by
  rw [applyMemtables, Prog.wp_bind]
  refine wp_engine ?_
  rw [Prog.wp_bind]
  refine wp_checked trivial fun memtables _ => ?_
  exact wp_modifyEngine ⟨h.usable, h.segment, h.next, h.kind⟩

theorem ensureManifest_laid (h : Laid s.store.files s.engine) :
    Prog.wp ensureManifest (fun _ s' => Laid s'.store.files s'.engine) (Kept Anything) s := by
  rw [ensureManifest, Prog.wp_bind]
  refine wp_engine ?_
  split_ifs
  · rw [Prog.wp_bind]
    refine wp_activeWal trivial fun wal hwal => ?_
    rw [Prog.wp_bind]
    refine wp_onStore (@wp_createInitial _ (fun _ _ => True) _ _ _ trivial (fun _ => trivial) (fun _ => trivial)
      (fun _ _ _ => trivial) (fun _ _ _ _ => trivial) (fun _ _ _ _ _ _ _ => trivial) ?_)
    intro version rest _ _ hid _ _ _ _
    refine wp_modifyEngine ⟨h.usable, h.segment, Nat.succ_ne_zero 1, .inr ⟨?_, rfl, ?_⟩⟩
    · dsimp only
      rw [hid]
      exact Nat.one_ne_zero
    · dsimp only
      rw [hid]
      exact isSome_find_insert_self
  · exact h

theorem flushOldest_laid {entries : VersionMap} {durableSequence : ℕ} (h : Laid s.store.files s.engine) :
    Prog.wp (flushOldest entries durableSequence) (fun _ s' => Laid s'.store.files s'.engine) (Kept Anything) s := by
  rw [flushOldest, Prog.wp_bind]
  refine Prog.wp_mono (ensureManifest_laid h) (fun _ s₁ h₁ => ?_) fun _ _ he => he
  rw [Prog.wp_bind]
  refine wp_engine ?_
  rw [Prog.wp_bind]
  refine wp_checked trivial fun nextTableId _ => ?_
  rw [Prog.wp_bind]
  refine wp_checked trivial fun nextManifestId hmanifest => ?_
  obtain ⟨-, rfl⟩ := checkedSucc_eq_ok.1 hmanifest
  rw [Prog.wp_bind]
  refine wp_onStore (@wp_createSstable _ (fun _ _ => True) _ _ _ _ _ trivial (fun _ => trivial) (fun _ => trivial)
    (fun _ _ => trivial) ?_)
  intro table content io _ _ _ _ _ _
  rw [Prog.wp_bind]
  refine wp_onStore (@wp_install _ (fun _ _ => True) _ _ _ _ trivial (fun _ => trivial) (fun _ => trivial)
    (fun _ _ _ _ _ _ => trivial) (fun _ _ _ _ _ _ _ _ _ => trivial) ?_)
  intro next io' hnext _ _ file hfile
  have hid : next.manifestId = s₁.engine.nextManifestId := by
    rw [hnext]
    rfl
  rw [Prog.wp_bind]
  refine wp_modifyEngine ?_
  rw [Prog.wp_bind]
  refine wp_checked trivial fun memtables _ => ?_
  refine wp_modifyEngine ⟨h₁.usable, h₁.segment, Nat.succ_ne_zero _, .inr ⟨?_, rfl, ?_⟩⟩
  · dsimp only
    rw [hid]
    exact h₁.next
  · dsimp only
    rw [hid]
    exact isSome_find_insert_self

theorem flushLoop_laid {rounds : ℕ} (h : Laid s.store.files s.engine) :
    Prog.wp (flushLoop rounds) (fun _ s' => Laid s'.store.files s'.engine) (Kept Anything) s := by
  induction rounds generalizing s with
  | zero => exact h
  | succ rounds ih =>
    rw [flushLoop, Prog.wp_bind]
    refine wp_engine ?_
    rw [Prog.wp_bind]
    refine wp_checked trivial fun snapshot _ => ?_
    cases snapshot with
    | none => exact h
    | some snapshot =>
      rw [Option.elim_some, Prog.wp_bind]
      exact Prog.wp_mono (flushOldest_laid h) (fun _ s' h' => ih h') fun _ _ he => he

/-! ### Compaction and rotation -/

theorem createReplacement_wals {live : VersionMap} :
    Prog.wp (createReplacement s.engine live)
      (fun _ s' => s'.engine = s.engine ∧ s'.store.files.wals = s.store.files.wals) (Kept Anything) s := by
  rw [createReplacement]
  split_ifs
  · exact ⟨rfl, rfl⟩
  · rw [Prog.wp_bind]
    refine wp_checked trivial fun nextTableId _ => ?_
    rw [Prog.wp_bind]
    exact wp_onStore (@wp_createSstable _ (fun _ _ => True) _ _ _ _ _ trivial (fun _ => trivial) (fun _ => trivial)
      (fun _ _ => trivial) fun _ _ _ _ _ _ _ _ _ => ⟨rfl, rfl⟩)

theorem compactLevel0AfterTrigger_laid (h : Laid s.store.files s.engine) :
    Prog.wp compactLevel0AfterTrigger (fun _ s' => Laid s'.store.files s'.engine) (Kept Anything) s := by
  rw [compactLevel0AfterTrigger, Prog.wp_bind]
  refine wp_engine ?_
  rw [Prog.wp_bind]
  refine wp_checked trivial fun _ _ => ?_
  rw [Prog.wp_bind]
  refine wp_checked trivial fun nextManifestId hmanifest => ?_
  obtain ⟨-, rfl⟩ := checkedSucc_eq_ok.1 hmanifest
  rw [Prog.wp_bind]
  refine wp_checked trivial fun _ _ => ?_
  rw [Prog.wp_bind]
  refine Prog.wp_mono createReplacement_wals (fun p s₁ h₁ => ?_) fun _ _ he => he
  obtain ⟨table, nextTableId⟩ := p
  -- The merged table is a new file, and neither the engine nor the segments have changed.
  obtain ⟨hengine, hwals⟩ := h₁
  have husable : s₁.engine.poisoned = false := by
    rw [hengine]
    exact h.usable
  have hsegment : ∃ wal, s₁.engine.wal = some wal ∧ (s₁.store.files.wals.find wal.walId).isSome := by
    rw [hengine, hwals]
    exact h.segment
  dsimp only
  rw [Prog.wp_bind]
  refine wp_onStore (@wp_prepareInstall _ (fun _ _ => True) _ _ _ _ trivial (fun _ => trivial) (fun _ => trivial)
    (fun _ _ _ _ _ _ => trivial) ?_)
  intro next io hnext _ _
  have hid : next.manifestId = s.engine.nextManifestId := by
    rw [hnext]
    rfl
  have hnamed : next.manifestId ≠ 0 := by
    rw [hid]
    exact h.next
  rw [Prog.wp_bind, publishPrepared]
  refine wp_onStore (@wp_writeCurrentSlot _ (fun _ _ => True) _ _ _ trivial (fun _ _ _ _ _ => trivial) ?_)
  intro io' file hfile
  rw [Prog.wp_bind]
  refine wp_onStore (@wp_mirrorCurrent _ (fun _ _ => True) _ _ trivial (fun _ _ _ _ _ => trivial) ?_)
  intro io'' file' hfile'
  rw [Prog.wp_bind]
  refine wp_modifyEngine ?_
  refine @wp_reclaimTables _ _ _ (fun files => Laid files ({ s₁.engine with
    tables := table.toList
    version := { next with currentGeneration := next.currentGeneration + 1 }
    nextTableId := nextTableId
    nextManifestId := s.engine.nextManifestId + 1 })) _ _ ?_ ?_ ?_ fun _ hlaid => hlaid
  · refine ⟨husable, hsegment, Nat.succ_ne_zero _, .inr ⟨hnamed, rfl, ?_⟩⟩
    dsimp only
    rw [hid]
    exact isSome_find_insert_self
  · exact fun _ _ files hfiles => hfiles.removeTable hnamed
  · exact fun _ hne files hfiles => hfiles.removeManifest hnamed hne

theorem rotateWal_laid {wal : Wal} {firstSequence : ℕ} (h : Laid s.store.files s.engine) :
    Prog.wp (rotateWal wal firstSequence) (fun _ s' => Laid s'.store.files s'.engine) (Kept Anything) s := by
  rw [rotateWal, Prog.wp_bind]
  refine wp_engine ?_
  rw [Prog.wp_bind]
  refine wp_checked trivial fun followingWalId _ => ?_
  rw [Prog.wp_bind]
  refine wp_checked trivial fun followingManifestId hmanifest => ?_
  obtain ⟨-, rfl⟩ := checkedSucc_eq_ok.1 hmanifest
  rw [Prog.wp_bind]
  refine wp_onStore (@wp_createNewWal _ (fun _ _ => True) _ _ _ trivial (fun _ => trivial) (fun _ => trivial)
    (fun _ _ => trivial) ?_)
  intro newWal io hnew _
  obtain ⟨hwalId, -, -⟩ := Wal.createNew_eq_ok hnew
  rw [Prog.wp_bind]
  refine wp_onStore (@wp_install _ (fun _ _ => True) _ _ _ _ trivial (fun _ => trivial) (fun _ => trivial)
    (fun _ _ _ _ _ _ => trivial) (fun _ _ _ _ _ _ _ _ _ => trivial) ?_)
  intro next io' hnext _ _ file hfile
  have hid : next.manifestId = s.engine.nextManifestId := by
    rw [hnext]
    rfl
  have hnamed : next.manifestId ≠ 0 := by
    rw [hid]
    exact h.next
  rw [Prog.wp_bind]
  refine wp_onStore (@wp_mirrorCurrent _ (fun _ _ => True) _ _ trivial (fun _ _ _ _ _ => trivial) ?_)
  intro io'' file' hfile'
  rw [Prog.wp_bind]
  refine wp_modifyEngine ?_
  refine @wp_reclaimWals _ _ _ (fun files => Laid files ({ s.engine with
    wal := some newWal
    version := { next with currentGeneration := next.currentGeneration + 1 }
    nextWalId := followingWalId
    nextManifestId := s.engine.nextManifestId + 1 })) _ _ ?_ ?_ ?_ fun _ hlaid => hlaid
  · refine ⟨h.usable, ⟨newWal, rfl, ?_⟩, Nat.succ_ne_zero _, .inr ⟨hnamed, rfl, ?_⟩⟩
    · rw [hwalId]
      exact isSome_find_insert_self
    · dsimp only
      rw [hid]
      exact isSome_find_insert_self
  · exact fun _ hne files hfiles => hfiles.removeWal hnamed rfl (by rwa [hwalId])
  · exact fun _ hne files hfiles => hfiles.removeManifest hnamed hne

theorem flushFrozenMemtables_laid (h : Laid s.store.files s.engine) :
    Prog.wp flushFrozenMemtables (fun _ s' => Laid s'.store.files s'.engine) (Kept Anything) s := by
  have hcompact : ∀ s : Session, Laid s.store.files s.engine →
      Prog.wp maybeCompactLevel0 (fun _ s' => Laid s'.store.files s'.engine) (Kept Anything) s := by
    intro s h
    rw [maybeCompactLevel0, Prog.wp_bind]
    refine wp_engine ?_
    split_ifs
    · exact h
    · exact compactLevel0AfterTrigger_laid h
  have hrotate : ∀ s : Session, Laid s.store.files s.engine →
      Prog.wp maybeRotateWal (fun _ s' => Laid s'.store.files s'.engine) (Kept Anything) s := by
    intro s h
    rw [maybeRotateWal, Prog.wp_bind]
    refine wp_engine ?_
    split_ifs
    · exact h
    rw [Prog.wp_bind]
    refine wp_activeWal trivial fun wal _ => ?_
    split_ifs
    · exact h
    · exact rotateWal_laid h
  rw [flushFrozenMemtables, Prog.wp_bind]
  refine wp_engine ?_
  rw [Prog.wp_bind]
  refine Prog.wp_mono (flushLoop_laid h) (fun _ s₁ h₁ => ?_) fun _ _ he => he
  rw [Prog.wp_bind]
  exact Prog.wp_mono (hcompact s₁ h₁) (fun _ s₂ h₂ => hrotate s₂ h₂) fun _ _ he => he

/-! ### Calls -/

theorem usableLaid_poison (files : Files) (history : History) (e : LsmEngine) :
    Anything files history e → UsableLaid files history { e with poisoned := true } := by
  intro _ husable
  cases husable

theorem persistAndApply_laid {kind : Record.RecordKind} {key : Bytes} {value : Option Bytes}
    (h : UsableLaid s.store.files s.store.history s.engine) :
    Prog.wp (persistAndApply kind key value) (fun _ s' => Laid s'.store.files s'.engine) (Kept UsableLaid) s := by
  rw [persistAndApply, Prog.wp_bind]
  refine wp_ensureUsable h fun husable _ => ?_
  rw [Prog.wp_bind]
  refine wp_poisonOnError usableLaid_poison ?_
  refine Prog.wp_mono (appendWal_laid (h husable)) (fun sequence s₁ h₁ => ?_) fun _ _ he => he
  rw [Prog.wp_bind]
  refine wp_poisonOnError usableLaid_poison ?_
  refine Prog.wp_mono (applyMemtables_laid h₁) (fun _ s₂ h₂ => ?_) fun _ _ he => he
  exact wp_poisonOnError usableLaid_poison (flushFrozenMemtables_laid h₂)

/-! ### Opening -/

theorem readCurrent_manifestId {slot : CurrentSlot} (h : readCurrent files = .ok slot) :
    files.current.isSome ∧ slot.manifestId ≠ 0 := by
  unfold readCurrent at h
  cases hcurrent : files.current with
  | none =>
    rw [hcurrent] at h
    cases h
  | some file =>
    refine ⟨rfl, ?_⟩
    rw [hcurrent] at h
    cases file with
    | short => cases h
    | slots first second =>
      have hmem := chooseSlot_mem h
      rw [Option.mem_def, Option.mem_def, parseCurrentSlot, parseCurrentSlot, Option.filter_eq_some_iff,
        Option.filter_eq_some_iff, decide_eq_true_eq] at hmem
      exact hmem.elim And.right And.right

/-- What a layout without manifests has. -/
theorem validateLayout_legacy {layout : Layout} (h : validateLayout files = .ok layout) (hnone : files.current = none) :
    (∀ id, files.manifests.find id = none) ∧ (∀ id, files.tables.find id = none) ∧
      ∀ id, (files.wals.find id).isSome ↔ id = initialWalId := by
  have hcanonical := unknownNames_eq_nil.1 (validateLayout_unknownNames h)
  have hzero : ∀ {β : Type} {m : SortedMap ℕ β}, maxId m.keys = 0 →
      (∀ id, (m.find id).isSome → CanonicalId id) → ∀ id, m.find id = none := by
    intro β m hmax hids id
    by_contra hne
    have hsome := Option.isSome_iff_ne_none.2 hne
    have hle := le_maxId (SortedMap.mem_keys.2 hsome)
    have hpos := (hids id hsome).1
    omega
  -- a manifest without `CURRENT` is refused, so only the branch of the initial segment is left
  unfold validateLayout at h
  simp only [Checked.bind_eq_ok, failWhen_eq_ok, not_not] at h
  obtain ⟨-, -, -, -, h⟩ := h
  rw [hnone] at h
  by_cases hmanifests : maxId files.manifests.keys = 0
  · rw [decide_eq_false (by simpa using hmanifests)] at h
    dsimp only [Option.isSome_none] at h
    split_ifs at h with hlegacy
    refine ⟨hzero hmanifests hcanonical.2.2.1, hzero hlegacy.1 hcanonical.2.2.2, fun id => ?_⟩
    rw [← SortedMap.mem_keys, hlegacy.2, List.mem_singleton]
  · rw [decide_eq_true hmanifests] at h
    cases h

/-- The tables are read only. -/
theorem wp_openTables_files (descriptors : List SstableDescriptor) :
    Prog.wp (openTables descriptors) (fun _ t' => t'.files = t.files) (Fails fun _ _ => True) t := by
  induction descriptors generalizing t with
  | nil => exact rfl
  | cons descriptor rest ih =>
    rw [openTables, Prog.wp_bind]
    refine wp_reading trivial fun table io _ => ?_
    rw [Prog.wp_bind]
    exact Prog.wp_mono ih (fun _ _ h => h) fun _ _ _ => trivial

/-- **Opening lays a directory out**, whatever directory it is. -/
theorem openExisting_laid :
    Prog.wp openExisting (fun e t' => Laid t'.files e) (Fails fun _ _ => True) t := by
  rw [openExisting, Prog.wp_bind]
  refine wp_reading trivial fun layout io hlayout => ?_
  rw [Prog.wp_bind]
  refine Prog.wp_mono (wp_loadVersion_loads (validateLayout_eq_ok hlayout)) (fun loaded t₁ h₁ => ?_)
    fun _ _ _ => trivial
  obtain ⟨hloads, hfiles⟩ := h₁
  rw [Prog.wp_bind]
  refine Prog.wp_mono (wp_openTables_files _) (fun tables t₂ htables => ?_) fun _ _ _ => trivial
  rw [hfiles] at htables
  rw [Prog.wp_bind]
  refine wp_check trivial fun _ _ => ?_
  rw [Prog.wp_bind]
  refine wp_check trivial fun memtables _ => ?_
  rw [Prog.wp_bind]
  refine wp_openWal_scan fun file scan files' io₃ hfile _ hcases => ?_
  dsimp only at hfile hcases ⊢
  rw [htables] at hfile hcases
  rw [Prog.wp_bind]
  refine wp_check trivial fun _ _ => ?_
  rw [Prog.wp_bind]
  refine wp_check trivial fun nextTableId _ => ?_
  rw [Prog.wp_bind]
  refine wp_check trivial fun nextManifestId hmanifest => ?_
  obtain ⟨-, rfl⟩ := checkedSucc_eq_ok.1 hmanifest
  rw [Prog.wp_bind]
  refine wp_check trivial fun nextWalId _ => ?_
  -- The open rewrites at most the segment it reads, which was there before.
  have hstays : ∀ id, (files'.wals.find id).isSome ↔ (t.files.wals.find id).isSome := by
    intro id
    rcases hcases with ⟨rfl, -⟩ | rfl
    · exact Iff.rfl
    · constructor
      · intro hsome
        rcases isSome_find_insert hsome with rfl | hsome
        · rw [hfile]
          rfl
        · exact hsome
      · exact isSome_find_insert_of
  have hrest : files'.current = t.files.current ∧ files'.manifests = t.files.manifests ∧
      files'.tables = t.files.tables := by
    rcases hcases with ⟨rfl, -⟩ | rfl
    · exact ⟨rfl, rfl, rfl⟩
    · exact ⟨rfl, rfl, rfl⟩
  obtain ⟨hcurrent, hmanifests, htables'⟩ := hrest
  refine ⟨rfl, ⟨_, rfl, (hstays _).2 ?_⟩, Nat.succ_ne_zero _, ?_⟩
  · show (t.files.wals.find loaded.walId).isSome
    rw [hfile]
    rfl
  · rw [hcurrent, hmanifests, htables']
    -- The directory has no version set yet, or a slot that names a stored manifest.
    rcases hloads with ⟨hnone, rfl⟩ | ⟨slot, stored, hread, hid, hstored, rfl⟩
    · obtain ⟨hmanifest, htable, hwal⟩ := validateLayout_legacy hlayout hnone
      exact .inl ⟨rfl, hnone, hmanifest, htable, fun id => (hstays id).trans (hwal id)⟩
    · obtain ⟨hsome, hne⟩ := readCurrent_manifestId hread
      refine .inr ⟨?_, hsome, ?_⟩
      · show stored.manifestId ≠ 0
        rwa [hid]
      · show (t.files.manifests.find stored.manifestId).isSome
        rw [hid, hstored]
        rfl

theorem reopen_laid : Prog.wp reopen (fun _ s' => Laid s'.store.files s'.engine) (Kept UsableLaid) s := by
  refine wp_reopen openExisting_laid (fun _ _ hopen => hopen) fun _ _ _ husable => ?_
  cases husable

/-- A call that succeeds leaves a usable engine and its directory laid out. -/
theorem Call.laid (call : Call) (h : UsableLaid s.store.files s.store.history s.engine) :
    Prog.wp call.run (fun _ s' => Laid s'.store.files s'.engine) (Kept UsableLaid) s := by
  refine call.wp_run h (fun husable => h husable) (fun _ _ => ?_) (fun _ => ?_) fun _ => reopen_laid
  · exact persistAndApply_laid h
  · exact persistAndApply_laid h

theorem AdmittedRun.usableLaid {handle : Option LsmEngine} (h : AdmittedRun files history handle) :
    ∀ e ∈ handle, UsableLaid files history e := by
  have hopened : ∀ {t store : Store} {e : LsmEngine}, openExisting t = (.ok e, store) →
      UsableLaid store.files store.history e := fun hrun _ => Prog.wp_ok openExisting_laid hrun
  induction h with
  | admitted hrun =>
    rintro _ ⟨⟩
    exact hopened hrun
  | @opened files history io result store _ hrun ih =>
    cases result with
    | error err => rintro _ ⟨⟩
    | ok e =>
      rintro _ ⟨⟩
      exact hopened hrun
  | @call files history e s io call _ hcall ih =>
    rintro _ ⟨⟩
    have hstep := @Call.laid ⟨⟨files, io, history⟩, e⟩ call (ih e rfl)
    rw [← hcall]
    exact kept_of_wp (Prog.wp_mono hstep (fun _ _ hlaid _ => hlaid) fun _ _ he => he)
  | dropped _ ih => rintro _ ⟨⟩

/-! ### The next opening -/

theorem keys_eq_nil {β : Type} {m : SortedMap ℕ β} (h : ∀ id, m.find id = none) : m.keys = [] := by
  rw [List.eq_nil_iff_forall_not_mem]
  intro id hid
  have hsome := SortedMap.mem_keys.1 hid
  rw [h id] at hsome
  cases hsome

theorem keys_eq_singleton {β : Type} {m : SortedMap ℕ β} {a : ℕ} (h : ∀ id, (m.find id).isSome ↔ id = a) :
    m.keys = [a] := by
  have hsorted : m.keys.Pairwise (· < ·) := List.pairwise_map.2 m.sorted
  have hmem : ∀ id, id ∈ m.keys ↔ id = a := fun id => SortedMap.mem_keys.trans (h id)
  generalize m.keys = keys at hsorted hmem
  match keys, hsorted, hmem with
  | [], _, hmem => exact absurd ((hmem a).2 rfl) List.not_mem_nil
  | [b], _, hmem => rw [(hmem b).1 (List.mem_singleton_self b)]
  | b :: c :: rest, hsorted, hmem =>
    have hb := (hmem b).1 (by simp)
    have hc := (hmem c).1 (by simp)
    have hlt : b < c := (List.pairwise_cons.1 hsorted).1 c (by simp)
    omega

/-- **A directory that is laid out is accepted**, if no name in it has more than sixteen digits. -/
theorem Laid.validateLayout (h : Laid files e) (hknown : unknownNames files = []) :
    ∃ layout, validateLayout files = .ok layout := by
  obtain ⟨wal, -, hsegment⟩ := h.segment
  have hwals : files.wals.keys ≠ [] := List.ne_nil_of_mem (SortedMap.mem_keys.2 hsegment)
  unfold Lsm.validateLayout
  simp only [failWhen, hknown, hwals, ne_eq, not_true]
  rcases h.kind with ⟨-, hcurrent, hmanifests, htables, hwal⟩ | ⟨-, hcurrent, hmanifest⟩
  · rw [hcurrent, keys_eq_nil hmanifests, keys_eq_nil htables, keys_eq_singleton hwal]
    exact ⟨_, rfl⟩
  · have hpos := ((unknownNames_eq_nil.1 hknown).2.2.1 _ hmanifest).1
    have hle := le_maxId (SortedMap.mem_keys.2 hmanifest)
    have hmax : maxId files.manifests.keys ≠ 0 := by omega
    rw [hcurrent, decide_eq_true hmax]
    exact ⟨_, rfl⟩

/-- The names of the engine's files are closed: each reads back as the file that it was made for, the
directory has no other names, and behind a success the next opening accepts the layout. -/
structure NamesClosed (files : Files) (history : History) (handle : Option LsmEngine) : Prop where
  reads : ∀ name present, Event.created name present ∈ history → readName name.text = some name
  known : unknownNames files = []
  accepted : ∀ e ∈ handle, e.poisoned = false → ∃ layout, validateLayout files = .ok layout
  success : ∀ e ∈ handle, ∀ io call s', Call.run call ⟨⟨files, io, history⟩, e⟩ = (.ok (), s') →
    s'.engine.poisoned = false

/-- Four tables of level 0, with one record each. -/
def levelTables : List (TableContent × SstableDescriptor) :=
  [1, 2, 3, 4].filterMap fun id => (SsTable.create id 0 id (SortedMap.empty.insert [65] ⟨id, some [66]⟩)).toOption

/-- A directory behind the fourth flush, with a manifest that nothing uses under the greatest canonical
number. -/
def orphanDirectory : Files where
  wals := SortedMap.empty.insert 2 (encodeWalHeader 2 5)
  tables := levelTables.foldl (fun tables made => tables.insert made.1.tableId (.complete made.1)) .empty
  manifests := (SortedMap.empty.insert 6 (.complete
    { currentGeneration := 0
      manifestId := 6
      durableSequence := 4
      tombstoneGcSequence := 0
      tableIdHighWatermark := 4
      walId := 2
      walFirstSequence := 5
      tables := levelTables.map Prod.snd })).insert 9999999999999999 .damaged
  current := some (.slots (some ⟨1, 6⟩) (some ⟨0, 5⟩))
  unknown := []

end DbLab.Lsm
