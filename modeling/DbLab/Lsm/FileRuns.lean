import DbLab.Lsm.FileIds

/-!
# Fresh ids over runs

What the programs of the engine keep of `IdsAhead`, and of `Ledger` when they fail; and from them, that in
every run of openings, calls and crashes the ids are fresh.
-/

namespace DbLab.Lsm

open Store LsmEngine

section Programs

variable {t : Store} {c : Ids}

/-- A manifest for the next version set. -/
theorem prepareInstall_ids {state : ManifestState} {Q : VersionSet → Store → Prop}
    (h : IdsAhead t.files t.history c) (hne : c.version.manifestId ≠ 0)
    (htables : ∀ d ∈ state.tables, d.tableId < c.table)
    (hok : ∀ next t', next = nextVersion c.version c.manifest state (c.version.currentGeneration + 1) →
      IdsAhead t'.files t'.history { c with manifest := c.manifest + 1 } →
      Follows t'.files { c with manifest := c.manifest + 1 } next → Q next t') :
    Prog.wp (prepareInstall c.version c.manifest state) Q (Fails Ledger) t := by
  refine wp_prepareInstall h.ledger (fun hsome => absurd (h.manifests _ hsome) (lt_irrefl _))
    (fun _ => h.ledger.created fun id hid => by cases hid)
    (fun _ _ _ hnone manifest _ => (h.putManifest hne).ledger) fun next rest hnext hinstall hnone => ?_
  have hid : next.manifestId = c.manifest := by rw [hnext]; rfl
  refine hok next _ hnext (h.putManifest hne) ?_
  obtain ⟨hhigh, hmem, hlt⟩ := foldl_max SstableDescriptor.tableId state.tables c.version.tableIdHighWatermark
  have hwritten := hid
  subst hnext
  constructor
  · rfl
  · exact h.positive.ne'
  · dsimp only
    rw [Store.putManifest, SortedMap.find_insert, if_pos hwritten]
  · exact hhigh
  · exact hmem
  · exact hlt _ h.watermark htables

/-- The slot of `CURRENT` for a version set that follows. -/
theorem publishPrepared_ids {next : VersionSet} {Q : Unit → Store → Prop} (h : IdsAhead t.files t.history c)
    (hnext : Follows t.files c next)
    (hok : ∀ t', IdsAhead t'.files t'.history { c with version := next } →
      t'.files.manifests = t.files.manifests → Q () t') :
    Prog.wp (publishPrepared next) Q (Fails Ledger) t := by
  have hlisted : listedIds next.manifestId t.files = next.tables.map SstableDescriptor.tableId := by
    rw [listedIds, hnext.written]
    rfl
  refine wp_writeCurrentSlot h.ledger (fun file slot events hfile hslot => ?_) fun rest file hfile => ?_
  · rw [hlisted] at hslot
    exact h.slotWrite hnext hfile hslot
  · rw [hlisted]
    exact hok _ (h.publish hnext hfile) rfl

/-- The other slot of `CURRENT`. -/
theorem mirrorCurrent_ids {Q : VersionSet → Store → Prop} (h : IdsAhead t.files t.history c)
    (hwritten : t.files.manifests.find c.version.manifestId = some (.complete c.version.written))
    (hid : c.version.manifestId ≠ 0)
    (hlisted : ∀ d ∈ c.version.tables, d.tableId ≤ c.version.tableIdHighWatermark)
    (hok : ∀ t', IdsAhead t'.files t'.history
        { c with version := { c.version with currentGeneration := c.version.currentGeneration + 1 } } →
      Q { c.version with currentGeneration := c.version.currentGeneration + 1 } t') :
    Prog.wp (mirrorCurrent c.version) Q (Fails Ledger) t := by
  rw [mirrorCurrent, Prog.wp_bind]
  refine wp_check h.ledger fun generation hgeneration => ?_
  obtain ⟨-, rfl⟩ := checkedSucc_eq_ok.1 hgeneration
  have hnext : Follows t.files c { c.version with currentGeneration := c.version.currentGeneration + 1 } :=
    ⟨rfl, hid, hwritten, le_rfl, hlisted, h.watermark⟩
  rw [Prog.wp_bind]
  exact publishPrepared_ids h hnext fun t' h' _ => hok t' h'

/-- **The two steps of an installation.** Without a `CURRENT` the second one fails. -/
theorem installSteps_ids {state : ManifestState} {Q : VersionSet → Store → Prop}
    (h : IdsAhead t.files t.history c) (htables : ∀ d ∈ state.tables, d.tableId < c.table)
    (hok : ∀ next t', next = nextVersion c.version c.manifest state (c.version.currentGeneration + 1) →
      IdsAhead t'.files t'.history { c with version := next, manifest := c.manifest + 1 } →
      t'.files.manifests.find next.manifestId = some (.complete next.written) →
      (∀ d ∈ next.tables, d.tableId ≤ next.tableIdHighWatermark) → next.manifestId ≠ 0 → Q next t') :
    Prog.wp (prepareInstall c.version c.manifest state)
      (fun next t' => Prog.wp (publishPrepared next) (fun _ => Q next) (Fails Ledger) t') (Fails Ledger) t := by
  by_cases hzero : c.version.manifestId = 0
  · have hput : ∀ manifest, t.files.manifests.find c.manifest = none →
        Ledger (putManifest c.manifest manifest t.files) (.created (.manifest c.manifest) false :: t.history) :=
      fun manifest hnone => Ledger.grow (h.ledger.created fun id hid => by cases hid)
        (grows_putManifest hnone) rfl
    have hcurrent := (h.legacy hzero).1
    refine wp_prepareInstall h.ledger (fun hsome => absurd (h.manifests _ hsome) (lt_irrefl _))
      (fun _ => h.ledger.created fun id hid => by cases hid)
      (fun _ _ _ hnone manifest _ => hput manifest hnone) fun next rest _ _ hnone => ?_
    refine wp_writeCurrentSlot (hput _ hnone) (fun file _ _ hfile _ => ?_) fun _ file hfile => ?_
    · rw [putManifest, hcurrent] at hfile
      cases hfile
    · rw [putManifest, hcurrent] at hfile
      cases hfile
  · refine prepareInstall_ids h hzero htables fun next t' hnext h' hfollows => ?_
    refine publishPrepared_ids h' hfollows fun t'' h'' hsame => ?_
    refine hok next t'' hnext h'' ?_ hfollows.listed hfollows.id
    rw [hsame]
    exact hfollows.written

/-- **An installation.** -/
theorem install_ids {state : ManifestState} {Q : VersionSet → Store → Prop}
    (h : IdsAhead t.files t.history c) (htables : ∀ d ∈ state.tables, d.tableId < c.table)
    (hok : ∀ next t', next = nextVersion c.version c.manifest state (c.version.currentGeneration + 1) →
      IdsAhead t'.files t'.history { c with version := next, manifest := c.manifest + 1 } →
      t'.files.manifests.find next.manifestId = some (.complete next.written) →
      (∀ d ∈ next.tables, d.tableId ≤ next.tableIdHighWatermark) → next.manifestId ≠ 0 → Q next t') :
    Prog.wp (install c.version c.manifest state) Q (Fails Ledger) t := by
  rw [install, Prog.wp_bind]
  refine Prog.wp_mono (installSteps_ids h htables hok) (fun next t' h' => ?_) fun _ _ he => he
  rw [Prog.wp_bind]
  exact h'

/-- A table under the next id. -/
theorem createSstable_ids {level durableSequence : ℕ} {entries : VersionMap} {Q : SsTable → Store → Prop}
    (h : IdsAhead t.files t.history c)
    (hok : ∀ table t', table.descriptor.tableId = c.table →
      IdsAhead t'.files t'.history { c with table := c.table + 1 } → Q table t') :
    Prog.wp (createSstable c.table level durableSequence entries) Q (Fails Ledger) t := by
  refine wp_createSstable h.ledger (fun hsome => absurd (h.tables _ hsome) (lt_irrefl _))
    (fun _ => h.ledger.created fun id hid => ?_) (fun _ table => h.putTable.ledger) ?_
  · cases hid
    exact h.unpublished
  · intro table content rest hnone _ hid _ _ _
    exact hok table _ hid h.putTable

/-- A segment of the log under the next id. -/
theorem createNewWal_ids {firstSequence : ℕ} {Q : Wal → Store → Prop} (h : IdsAhead t.files t.history c)
    (hok : ∀ wal t', IdsAhead t'.files t'.history { c with wal := c.wal + 1 } → Q wal t') :
    Prog.wp (createNewWal c.wal firstSequence) Q (Fails Ledger) t := by
  refine wp_createNewWal h.ledger (fun hsome => absurd (h.wals _ hsome) (lt_irrefl _))
    (fun _ => h.ledger.created fun id hid => by cases hid) (fun _ bytes => h.putWal.ledger) ?_
  intro wal rest _ _
  exact hok wal _ h.putWal

/-- The initial manifest, where there is none. -/
theorem createInitial_ids {walId walFirstSequence : ℕ} {Q : VersionSet → Store → Prop}
    (h : IdsAhead t.files t.history c) (hzero : c.version.manifestId = 0)
    (hok : ∀ version t', IdsAhead t'.files t'.history { c with version := version, manifest := 2 } →
      version.manifestId = 1 → Q version t') :
    Prog.wp (createInitial walId walFirstSequence) Q (Fails Ledger) t := by
  obtain ⟨hcurrent, hnone, hpublished⟩ := h.legacy hzero
  have hledger : ∀ name manifest, (∀ id, name ≠ .table id) →
      Ledger (putManifest 1 manifest t.files) (.created name false :: t.history) := by
    intro name manifest hname
    refine Ledger.grow (h.ledger.created fun id hid => absurd hid (hname id)) (grows_putManifest (hnone 1)) rfl
  have hfresh : FreshIds (.created .current false :: .created (.manifest 1) false :: t.history) :=
    (h.ids.created fun id hid => by cases hid).created fun id hid => by cases hid
  -- No id is published before the first manifest is.
  have hnever : ∀ id, ¬ Published (.created .current false :: .created (.manifest 1) false :: t.history) id := by
    intro id hid
    exact hpublished id (published_created.1 (published_created.1 hid))
  -- Both slots name the manifest that was just written, which lists no tables.
  have hrecorded : ∀ version : VersionSet, version.manifestId = 1 → version.tables = [] →
      Recorded (putCurrent (.slots (some ⟨0, 1⟩) (some ⟨0, 1⟩)) (putManifest 1 (.complete version) t.files))
        (.created .current false :: .created (.manifest 1) false :: t.history) version := by
    intro version hid hnil
    refine ⟨version, ?_, rfl, le_rfl, by rw [hnil]; exact fun d hd => absurd hd List.not_mem_nil,
      fun id hid => absurd hid (hnever id)⟩
    rw [putCurrent, putManifest, SortedMap.find_insert, if_pos hid]
  refine wp_createInitial h.ledger (fun hsome => ?_) (fun _ => h.ledger.created fun id hid => by cases hid)
    (fun _ hsome => ?_) (fun _ manifest events hevents => ?_) ?_ ?_
  · rw [hnone] at hsome
    cases hsome
  · rw [hcurrent] at hsome
    cases hsome
  · rcases hevents with rfl | ⟨-, rfl⟩
    · exact hledger _ manifest fun id hid => by cases hid
    · exact (hledger (.manifest 1) manifest fun id hid => by cases hid).created fun id hid => by cases hid
  · intro _ _ current version hcases hid hnil
    refine ⟨hfresh, fun hnone => absurd hnone (by simp [putCurrent]), fun first second hslots => ?_⟩
    rcases hcases with rfl | rfl
    · cases hslots
    · refine ⟨0, version, ?_, hrecorded version hid hnil⟩
      rw [hid]
      exact named_initial
  · intro version rest _ _ hid hnil _ hwatermark hgeneration
    refine hok version _ ?_ hid
    refine { h with
      ids := hfresh
      manifests := fun id hsome => ?_
      bounded := fun id hid => absurd hid (hnever id)
      watermark := ?_
      listed := fun d hd => ?_
      positive := Nat.zero_lt_two
      current := fun _ => ⟨?_, ?_⟩
      legacy := fun hzero => absurd hzero (by rw [hid]; exact Nat.one_ne_zero) }
    · rw [putCurrent, putManifest, SortedMap.find_insert] at hsome
      split_ifs at hsome with heq
      · rw [heq]
        exact Nat.one_lt_two
      · rw [hnone] at hsome
        cases hsome
    · dsimp only
      rw [hwatermark]
      exact (Nat.zero_le _).trans_lt h.watermark
    · dsimp only at hd
      rw [hnil] at hd
      exact absurd hd List.not_mem_nil
    · dsimp only
      rw [hid, hgeneration]
      exact named_initial
    · obtain ⟨written, hfind, hrest⟩ := hrecorded version.written hid hnil
      exact ⟨written, hfind, hrest⟩

end Programs

/-! ### The operations of the engine -/

/-- The invariant of a session whose engine works. -/
def SessionAhead (s : Session) : Prop := IdsAhead s.store.files s.store.history s.engine.ids

/-- What an error leaves for certain. -/
def LedgerSession (files : Files) (history : History) (_ : LsmEngine) : Prop := Ledger files history

variable {s : Session}

theorem ensureManifest_ids (h : SessionAhead s) :
    Prog.wp ensureManifest (fun _ s' => SessionAhead s') (Kept LedgerSession) s := by
  rw [ensureManifest, Prog.wp_bind]
  refine wp_engine ?_
  by_cases hzero : s.engine.version.manifestId = 0
  · rw [if_pos hzero, Prog.wp_bind]
    refine wp_activeWal h.ledger fun wal _ => ?_
    rw [Prog.wp_bind]
    refine wp_onStore (createInitial_ids h hzero fun version t' h' _ => ?_)
    exact wp_modifyEngine h'
  · rw [if_neg hzero]
    exact h

/-- **One round of the flush.** -/
theorem flushOldest_ids {entries : VersionMap} {durableSequence : ℕ} (h : SessionAhead s) :
    Prog.wp (flushOldest entries durableSequence) (fun _ s' => SessionAhead s') (Kept LedgerSession) s := by
  rw [flushOldest, Prog.wp_bind]
  refine Prog.wp_mono (ensureManifest_ids h) (fun _ s₁ h₁ => ?_) fun _ _ he => he
  rw [Prog.wp_bind]
  refine wp_engine ?_
  rw [Prog.wp_bind]
  refine wp_checked h₁.ledger fun nextTableId htable => ?_
  rw [Prog.wp_bind]
  refine wp_checked h₁.ledger fun nextManifestId hmanifest => ?_
  obtain ⟨-, rfl⟩ := checkedSucc_eq_ok.1 htable
  obtain ⟨-, rfl⟩ := checkedSucc_eq_ok.1 hmanifest
  rw [Prog.wp_bind]
  refine wp_onStore (@createSstable_ids _ s₁.engine.ids _ _ _ _ h₁ fun table t hid ht => ?_)
  rw [Prog.wp_bind]
  refine wp_onStore (@install_ids _ { s₁.engine.ids with table := s₁.engine.nextTableId + 1 } _ _ ht
    (fun d hd => ?_) fun next t' _ h' _ _ _ => ?_)
  · rcases List.mem_append.1 hd with hd | hd
    · exact ht.listed d hd
    · rw [List.mem_singleton] at hd
      rw [hd, hid]
      exact Nat.lt_succ_self _
  rw [Prog.wp_bind]
  refine wp_modifyEngine ?_
  rw [Prog.wp_bind]
  refine wp_checked h'.ledger fun memtables _ => ?_
  exact wp_modifyEngine h'

theorem flushLoop_ids {rounds : ℕ} (h : SessionAhead s) :
    Prog.wp (flushLoop rounds) (fun _ s' => SessionAhead s') (Kept LedgerSession) s := by
  induction rounds generalizing s with
  | zero => exact h
  | succ rounds ih =>
    rw [flushLoop, Prog.wp_bind]
    refine wp_engine ?_
    rw [Prog.wp_bind]
    refine wp_checked h.ledger fun snapshot _ => ?_
    cases snapshot with
    | none => exact h
    | some snapshot =>
      rw [Option.elim_some, Prog.wp_bind]
      exact Prog.wp_mono (flushOldest_ids h) (fun _ s' h' => ih h') fun _ _ he => he

/-- The replacement of the compaction takes the next id, if there is one. -/
theorem createReplacement_ids {live : VersionMap} (h : SessionAhead s) :
    Prog.wp (createReplacement s.engine live)
      (fun p s' => s'.engine = s.engine ∧
        IdsAhead s'.store.files s'.store.history { s.engine.ids with table := p.2 } ∧
        ∀ table ∈ p.1, table.descriptor.tableId < p.2)
      (Kept LedgerSession) s := by
  rw [createReplacement]
  by_cases hempty : live.entries = []
  · rw [if_pos hempty]
    refine ⟨rfl, h, ?_⟩
    rintro _ ⟨⟩
  · rw [if_neg hempty, Prog.wp_bind]
    refine wp_checked h.ledger fun nextTableId htable => ?_
    obtain ⟨-, rfl⟩ := checkedSucc_eq_ok.1 htable
    rw [Prog.wp_bind]
    refine wp_onStore (@createSstable_ids _ s.engine.ids _ _ _ _ h fun table t hid ht => ?_)
    refine ⟨rfl, ht, ?_⟩
    rintro _ ⟨⟩
    rw [hid]
    exact Nat.lt_succ_self _

/-- An engine that keeps its ids while files are removed. -/
theorem reclaim_ids {list : Files → List ℕ} {remove : ℕ → Files → Files} {E : DbError → Session → Prop}
    (h : SessionAhead s)
    (hremove : ∀ id ∈ list s.store.files, ∀ files, IdsAhead files s.store.history s.engine.ids →
      IdsAhead (remove id files) s.store.history s.engine.ids) :
    Prog.wp (onStore (reclaim list remove)) (fun _ s' => SessionAhead s' ∧ s'.engine = s.engine) E s := by
  refine Prog.wp_zoom.2 ?_
  have hkeep := @wp_reclaim s.store (fun files history => history = s.store.history ∧
    IdsAhead files history s.engine.ids) list remove (fun e t => E e ⟨t, s.engine⟩) ⟨rfl, h⟩
    (fun id hid files hfiles => ⟨rfl, hremove id hid files hfiles.2⟩)
  exact Prog.wp_mono hkeep (fun _ t ht => ⟨ht.2, rfl⟩) fun _ _ he => he

/-- **The compaction.** -/
theorem compactLevel0AfterTrigger_ids (h : SessionAhead s) :
    Prog.wp compactLevel0AfterTrigger (fun _ s' => SessionAhead s') (Kept LedgerSession) s := by
  rw [compactLevel0AfterTrigger, Prog.wp_bind]
  refine wp_engine ?_
  rw [Prog.wp_bind]
  refine wp_checked h.ledger fun _ _ => ?_
  rw [Prog.wp_bind]
  refine wp_checked h.ledger fun nextManifestId hmanifest => ?_
  obtain ⟨-, rfl⟩ := checkedSucc_eq_ok.1 hmanifest
  rw [Prog.wp_bind]
  refine wp_checked h.ledger fun _ _ => ?_
  rw [Prog.wp_bind]
  refine Prog.wp_mono (createReplacement_ids h) (fun p s₁ h₁ => ?_) fun _ _ he => he
  obtain ⟨table, nextTableId⟩ := p
  obtain ⟨hengine, h₁, htable⟩ := h₁
  dsimp only at h₁ htable ⊢
  have htables : ∀ d ∈ (table.map SsTable.descriptor).toList, d.tableId < nextTableId := by
    intro d hd
    rw [Option.mem_toList, Option.map_eq_some_iff] at hd
    obtain ⟨table', htable', rfl⟩ := hd
    exact htable table' htable'
  rw [Prog.wp_bind]
  refine wp_onStore ?_
  rw [hengine]
  refine Prog.wp_mono (@installSteps_ids _ { s.engine.ids with table := nextTableId } _
    (fun next t' => IdsAhead t'.files t'.history
        ⟨next, nextTableId, s.engine.nextManifestId + 1, s.engine.nextWalId⟩ ∧
      t'.files.manifests.find next.manifestId = some (.complete next.written) ∧
      (∀ d ∈ next.tables, d.tableId ≤ next.tableIdHighWatermark) ∧ next.manifestId ≠ 0) h₁ htables
    fun next t' _ h₂ hwritten hlisted hid => ⟨h₂, hwritten, hlisted, hid⟩) (fun next t' h' => ?_) fun _ _ he => he
  rw [Prog.wp_bind]
  refine wp_onStore (Prog.wp_mono h' (fun _ t'' hnext => ?_) fun _ _ he => he)
  obtain ⟨h₂, hwritten, hlisted, hid⟩ := hnext
  rw [Prog.wp_bind]
  refine wp_onStore (@mirrorCurrent_ids _ ⟨next, nextTableId, s.engine.nextManifestId + 1, s.engine.nextWalId⟩
    _ h₂ hwritten hid hlisted fun t'' h₃ => ?_)
  rw [Prog.wp_bind]
  refine wp_modifyEngine ?_
  rw [Prog.wp_bind]
  refine Prog.wp_mono (reclaim_ids h₃ fun id _ files hfiles => hfiles.removeTable) (fun _ s₂ h₄ => ?_)
    fun _ _ he => he
  obtain ⟨h₄, hengine'⟩ := h₄
  refine Prog.wp_mono (reclaim_ids h₄ fun id hid files hfiles => hfiles.removeManifest ?_)
    (fun _ s₃ h₅ => h₅.1) fun _ _ he => he
  rw [List.mem_filter, decide_eq_true_eq] at hid
  rw [hengine']
  exact hid.2.2

/-- **The rotation of the log.** -/
theorem rotateWal_ids {wal : Wal} {firstSequence : ℕ} (h : SessionAhead s) :
    Prog.wp (rotateWal wal firstSequence) (fun _ s' => SessionAhead s') (Kept LedgerSession) s := by
  rw [rotateWal, Prog.wp_bind]
  refine wp_engine ?_
  rw [Prog.wp_bind]
  refine wp_checked h.ledger fun followingWalId hfollowing => ?_
  rw [Prog.wp_bind]
  refine wp_checked h.ledger fun followingManifestId hmanifest => ?_
  obtain ⟨-, rfl⟩ := checkedSucc_eq_ok.1 hfollowing
  obtain ⟨-, rfl⟩ := checkedSucc_eq_ok.1 hmanifest
  rw [Prog.wp_bind]
  refine wp_onStore (@createNewWal_ids _ s.engine.ids _ _ h fun newWal t h₁ => ?_)
  rw [Prog.wp_bind]
  refine wp_onStore (@install_ids _ { s.engine.ids with wal := s.engine.nextWalId + 1 } _ _ h₁
    (fun d hd => h.listed d hd) fun next t' hnext h₂ hwritten hlisted hid => ?_)
  rw [Prog.wp_bind]
  refine wp_onStore (@mirrorCurrent_ids _
    ⟨next, s.engine.nextTableId, s.engine.nextManifestId + 1, s.engine.nextWalId + 1⟩
    _ h₂ hwritten hid hlisted fun t'' h₃ => ?_)
  rw [Prog.wp_bind]
  refine wp_modifyEngine ?_
  rw [Prog.wp_bind]
  refine Prog.wp_mono (reclaim_ids h₃ fun id _ files hfiles => hfiles.removeWal) (fun _ s₂ h₄ => ?_)
    fun _ _ he => he
  obtain ⟨h₄, hengine'⟩ := h₄
  refine Prog.wp_mono (reclaim_ids h₄ fun id hid files hfiles => hfiles.removeManifest ?_)
    (fun _ s₃ h₅ => h₅.1) fun _ _ he => he
  rw [List.mem_filter, decide_eq_true_eq] at hid
  rw [hengine']
  exact hid.2.2

theorem maybeRotateWal_ids (h : SessionAhead s) :
    Prog.wp maybeRotateWal (fun _ s' => SessionAhead s') (Kept LedgerSession) s := by
  rw [maybeRotateWal, Prog.wp_bind]
  refine wp_engine ?_
  by_cases hlimit : u64Limit ≤ s.engine.version.durableSequence + 1
  · rw [if_pos hlimit]
    exact h
  · rw [if_neg hlimit, Prog.wp_bind]
    refine wp_activeWal h.ledger fun wal _ => ?_
    split_ifs
    · exact h
    · exact rotateWal_ids h

theorem maybeCompactLevel0_ids (h : SessionAhead s) :
    Prog.wp maybeCompactLevel0 (fun _ s' => SessionAhead s') (Kept LedgerSession) s := by
  rw [maybeCompactLevel0, Prog.wp_bind]
  refine wp_engine ?_
  split_ifs
  · exact h
  · exact compactLevel0AfterTrigger_ids h

theorem flushFrozenMemtables_ids (h : SessionAhead s) :
    Prog.wp flushFrozenMemtables (fun _ s' => SessionAhead s') (Kept LedgerSession) s := by
  rw [flushFrozenMemtables, Prog.wp_bind]
  refine wp_engine ?_
  rw [Prog.wp_bind]
  refine Prog.wp_mono (flushLoop_ids h) (fun _ s₁ h₁ => ?_) fun _ _ he => he
  rw [Prog.wp_bind]
  exact Prog.wp_mono (maybeCompactLevel0_ids h₁) (fun _ s₂ h₂ => maybeRotateWal_ids h₂) fun _ _ he => he

theorem appendWal_ids {kind : Record.RecordKind} {key value : Bytes} (h : SessionAhead s) :
    Prog.wp (appendWal kind key value) (fun _ s' => SessionAhead s') (Kept LedgerSession) s := by
  rw [appendWal, Prog.wp_bind]
  refine wp_activeWal h.ledger fun wal _ => ?_
  rw [Prog.wp_bind]
  refine wp_checked h.ledger fun _ _ => ?_
  rw [Prog.wp_bind]
  refine wp_onStore (wp_rewriteWal h.ledger (fun hid bytes _ => (h.rewriteWal hid).ledger) fun io hid => ?_)
  rw [Prog.wp_bind]
  exact wp_modifyEngine (h.rewriteWal hid)

theorem applyMemtables_ids {sequence : ℕ} {key : Bytes} {value : Option Bytes} (h : SessionAhead s) :
    Prog.wp (applyMemtables sequence key value) (fun _ s' => SessionAhead s') (Kept LedgerSession) s := by
  rw [applyMemtables, Prog.wp_bind]
  refine wp_engine ?_
  rw [Prog.wp_bind]
  refine wp_checked h.ledger fun memtables _ => ?_
  exact wp_modifyEngine h

/-- **The invariant of a session**: a poisoned engine serves nothing, and only its directory counts. -/
def Intact (files : Files) (history : History) (e : LsmEngine) : Prop :=
  Ledger files history ∧ (e.poisoned = false → IdsAhead files history e.ids)

/-- **A mutation.** -/
theorem persistAndApply_ids {kind : Record.RecordKind} {key : Bytes} {value : Option Bytes}
    (h : Intact s.store.files s.store.history s.engine) :
    Prog.wp (persistAndApply kind key value) (fun _ s' => SessionAhead s') (Kept Intact) s := by
  have hpoison : ∀ files history e, LedgerSession files history e →
      Intact files history { e with poisoned := true } :=
    fun _ _ _ hledger => ⟨hledger, fun hfalse => by cases hfalse⟩
  rw [persistAndApply, Prog.wp_bind]
  refine wp_ensureUsable h fun hpoisoned _ => ?_
  have hahead : SessionAhead s := h.2 hpoisoned
  rw [Prog.wp_bind]
  refine Prog.wp_mono (wp_poisonOnError hpoison (appendWal_ids hahead)) (fun sequence s₁ h₁ => ?_)
    fun _ _ he => he
  rw [Prog.wp_bind]
  refine Prog.wp_mono (wp_poisonOnError hpoison (applyMemtables_ids h₁)) (fun _ s₂ h₂ => ?_) fun _ _ he => he
  exact wp_poisonOnError hpoison (flushFrozenMemtables_ids h₂)

/-! ### Opening -/

section Opening

variable {t : Store} {files files' : Files} {history : History}

theorem le_maxId {ids : List ℕ} {id : ℕ} (h : id ∈ ids) : id ≤ maxId ids :=
  (foldl_max (fun i => i) ids 0).2.1 id h

/-- What the layout of a directory says. -/
structure LayoutOf (files : Files) (layout : Layout) : Prop where
  tables : layout.maxTableId = maxId files.tables.keys
  manifests : layout.maxManifestId = maxId files.manifests.keys
  wals : layout.maxWalId = maxId files.wals.keys
  legacy : layout.hasVersionSet = false → files.current = none ∧ ∀ id, files.manifests.find id = none
  current : layout.hasVersionSet = true → files.current.isSome

theorem validateLayout_eq_ok {layout : Layout} (h : validateLayout files = .ok layout) :
    LayoutOf files layout := by
  have hcanonical : unknownNames files = [] → maxId files.manifests.keys = 0 →
      ∀ id, files.manifests.find id = none := by
    intro hunknown hzero id
    by_contra hsome
    have hmem : id ∈ files.manifests.keys := SortedMap.mem_keys.2 (Option.isSome_iff_ne_none.2 hsome)
    have hle := le_maxId hmem
    have hnot : ¬ CanonicalId id := fun hid => by
      have hpos := hid.1
      omega
    have hunknownMem : manifestFileName id ∈ unknownNames files := by
      rw [unknownNames]
      refine List.mem_append_left _ (List.mem_append_right _ (List.mem_map.2 ⟨id, ?_, rfl⟩))
      rw [List.mem_filter, decide_eq_true_eq]
      exact ⟨hmem, hnot⟩
    rw [hunknown] at hunknownMem
    exact List.not_mem_nil hunknownMem
  unfold validateLayout at h
  simp only [Checked.bind_eq_ok, failWhen_eq_ok, not_not] at h
  obtain ⟨-, hunknown, -, -, h⟩ := h
  cases hcurrent : files.current with
  | none =>
    rw [hcurrent] at h
    by_cases hzero : maxId files.manifests.keys = 0
    · rw [decide_eq_false (by simpa using hzero)] at h
      dsimp only [Option.isSome_none] at h
      split_ifs at h
      cases h
      exact ⟨rfl, rfl, rfl, fun _ => ⟨hcurrent, hcanonical hunknown hzero⟩, fun hfalse => by cases hfalse⟩
    · rw [decide_eq_true hzero] at h
      cases h
  | some file =>
    rw [hcurrent] at h
    by_cases hzero : maxId files.manifests.keys = 0
    · rw [decide_eq_false (by simpa using hzero)] at h
      cases h
    · rw [decide_eq_true hzero] at h
      cases h
      exact ⟨rfl, rfl, rfl, (fun hfalse => by cases hfalse), fun _ => by rw [hcurrent]; rfl⟩

/-- The ids of the tables are at most the last one. -/
theorem Rising.le_lastTableId {tables : List SstableDescriptor} (h : Rising tables) {d : SstableDescriptor}
    (hd : d ∈ tables) : d.tableId ≤ lastTableId tables := by
  have hpairs := (List.isChain_iff_pairwise.1 h.ids).of_cons
  rcases List.eq_nil_or_concat tables with rfl | ⟨init, last, rfl⟩
  · exact absurd hd List.not_mem_nil
  · have hlast : lastTableId (init.concat last) = last.tableId := by
      rw [lastTableId, List.concat_eq_append, List.getLast?_concat]
      rfl
    rw [List.concat_eq_append, List.map_append, List.pairwise_append] at hpairs
    rw [List.concat_eq_append, List.mem_append, List.mem_singleton] at hd
    rw [hlast]
    rcases hd with hd | rfl
    · exact (hpairs.2.2 _ (List.mem_map.2 ⟨d, hd, rfl⟩) _ (List.mem_singleton.2 rfl)).le
    · exact le_rfl

/-- What opening reads of `CURRENT` and its manifest. -/
theorem wp_loadVersion_ids {layout : Layout} {Q : VersionSet → Store → Prop} (h : Ledger t.files t.history)
    (hlayout : LayoutOf t.files layout)
    (hok : ∀ version io, (version.manifestId ≠ 0 →
        Named t.files version.currentGeneration version.manifestId ∧ Recorded t.files t.history version) →
      (version.manifestId = 0 → layout.hasVersionSet = false) →
      (∀ d ∈ version.tables, d.tableId ≤ version.tableIdHighWatermark) →
      Bounded t.history version.tableIdHighWatermark → Q version ⟨t.files, io, t.history⟩) :
    Prog.wp (loadVersion layout) Q (Fails Ledger) t := by
  rw [loadVersion]
  cases hversion : layout.hasVersionSet with
  | false =>
    rw [hversion] at hok
    obtain ⟨hcurrent, -⟩ := hlayout.legacy hversion
    refine hok legacyVersion t.io (fun hne => absurd rfl hne) (fun _ => rfl)
      (fun d hd => absurd hd List.not_mem_nil) fun id hid => absurd hid (h.unpublished hcurrent id)
  | true =>
    rw [if_pos rfl, load, Prog.wp_bind]
    refine wp_reading h fun slot io hslot => ?_
    rw [Prog.wp_bind]
    refine wp_reading h fun version io' hread => ?_
    dsimp only at hread
    have hcurrent := hlayout.current hversion
    cases hfile : t.files.current with
    | none =>
      rw [hfile] at hcurrent
      cases hcurrent
    | some file =>
      cases file with
      | short =>
        rw [readCurrent, hfile] at hslot
        cases hslot
      | slots first second =>
        -- The slots name one written manifest, and the load returns it.
        obtain ⟨generation, named, hnamed, written, hwritten, htables, hwatermark, hlisted, hbounded⟩ :=
          h.named first second hfile
        rw [hnamed.readCurrent_eq] at hslot
        cases hslot
        obtain ⟨_, _, _, hne, -⟩ := id hnamed
        rw [readManifest, hwritten] at hread
        simp only [Checked.bind_eq_ok, failWhen_eq_ok, not_not] at hread
        obtain ⟨-, hid, -, -, _, hvalid, hread⟩ := hread
        cases hread
        dsimp only at hid ⊢
        refine hok _ io' (fun _ => ⟨?_, ?_⟩) (fun hzero => ?_) hlisted hbounded
        · dsimp only
          rw [hid]
          exact hnamed
        · refine ⟨version, ?_, rfl, le_rfl, hlisted, hbounded⟩
          dsimp only
          rw [hid]
          exact hwritten
        · dsimp only at hzero
          exact absurd (hid.symm.trans hzero) hne

theorem wp_openTables_ids {descriptors : List SstableDescriptor} {Q : List SsTable → Store → Prop}
    {I : Files → History → Prop} (hI : I t.files t.history)
    (hok : ∀ tables io, Q tables ⟨t.files, io, t.history⟩) :
    Prog.wp (openTables descriptors) Q (Fails I) t := by
  induction descriptors generalizing t Q with
  | nil => exact hok [] t.io
  | cons descriptor rest ih =>
    rw [openTables, Prog.wp_bind, openTable]
    refine wp_reading hI fun table io _ => ?_
    rw [Prog.wp_bind]
    exact ih hI fun tables io' => hok _ io'

theorem wp_openWal_ids {walId firstSequence durable : ℕ} {memtables : MemTableSet}
    {Q : Wal × MemTableSet → Store → Prop} {I : Files → History → Prop} (hI : I t.files t.history)
    (hput : ∀ bytes, (t.files.wals.find walId).isSome → I (putWal walId bytes t.files) t.history)
    (hok : ∀ p io, Q p ⟨t.files, io, t.history⟩)
    (hcut : ∀ p bytes io, (t.files.wals.find walId).isSome → Q p ⟨putWal walId bytes t.files, io, t.history⟩) :
    Prog.wp (openWal walId firstSequence durable memtables) Q (Fails I) t := by
  rw [openWal, Prog.wp_bind]
  refine wp_reading hI fun file io _ => ?_
  rw [Prog.wp_bind]
  refine wp_check hI fun scan _ => ?_
  rw [Prog.wp_bind, truncateTail]
  split_ifs
  · refine wp_rewriteWal hI (fun hsome bytes _ => hput bytes hsome) fun io' hsome => ?_
    exact hcut _ _ _ hsome
  · exact hok _ _

/-- **Opening a directory** finds ids above all that it has. -/
theorem openExisting_ids (h : Ledger t.files t.history) :
    Prog.wp openExisting (fun e t' => IdsAhead t'.files t'.history e.ids) (Fails Ledger) t := by
  rw [openExisting, Prog.wp_bind]
  refine wp_reading h fun layout io hlayout => ?_
  have hlayout := validateLayout_eq_ok hlayout
  rw [Prog.wp_bind]
  refine wp_loadVersion_ids h hlayout fun version io' hcurrent hlegacy hlisted hbounded => ?_
  rw [Prog.wp_bind]
  refine wp_openTables_ids h fun tables io'' => ?_
  rw [Prog.wp_bind]
  refine wp_check h fun _ _ => ?_
  rw [Prog.wp_bind]
  refine wp_check h fun memtables _ => ?_
  -- The next ids are above the ids of all files that the layout has found.
  have hahead : IdsAhead t.files t.history
      ⟨{ version with tableIdHighWatermark := max version.tableIdHighWatermark layout.maxTableId },
        max version.tableIdHighWatermark layout.maxTableId + 1, layout.maxManifestId + 1,
        layout.maxWalId + 1⟩ := by
    constructor
    · exact h.ids
    · intro id hid
      have hle := le_maxId (SortedMap.mem_keys.2 hid)
      rw [← hlayout.tables] at hle
      exact Nat.lt_succ_of_le (hle.trans (le_max_right _ _))
    · intro id hid
      have hle := le_maxId (SortedMap.mem_keys.2 hid)
      rw [← hlayout.manifests] at hle
      exact Nat.lt_succ_of_le hle
    · intro id hid
      have hle := le_maxId (SortedMap.mem_keys.2 hid)
      rw [← hlayout.wals] at hle
      exact Nat.lt_succ_of_le hle
    · exact hbounded.mono (le_max_left _ _)
    · exact Nat.lt_succ_self _
    · exact fun d hd => Nat.lt_succ_of_le ((hlisted d hd).trans (le_max_left _ _))
    · exact Nat.succ_pos _
    · intro hne
      obtain ⟨hnamed, written, hfind, htables, hle, hrest⟩ := hcurrent hne
      exact ⟨hnamed, written, hfind, htables, hle.trans (le_max_left _ _), hrest⟩
    · intro hzero
      obtain ⟨hnone, hmanifests⟩ := hlayout.legacy (hlegacy hzero)
      exact ⟨hnone, hmanifests, h.unpublished hnone⟩
  -- The checks behind the replay hand the ids on, whatever the log has in it.
  have hnext : ∀ (wal : Wal) (memtables : MemTableSet) (t' : Store), IdsAhead t'.files t'.history
      ⟨{ version with tableIdHighWatermark := max version.tableIdHighWatermark layout.maxTableId },
        max version.tableIdHighWatermark layout.maxTableId + 1, layout.maxManifestId + 1,
        layout.maxWalId + 1⟩ → Prog.wp (do
          Prog.ofExcept (failWhen (wal.log.nextSequence ≤ version.durableSequence)
            (corruption s!"manifest durable sequence {version.durableSequence} is not below WAL next sequence {wal.log.nextSequence}"))
          let nextTableId ← Prog.ofExcept
            (checkedNextId (max version.tableIdHighWatermark layout.maxTableId) "SSTable")
          let nextManifestId ← Prog.ofExcept (checkedNextId layout.maxManifestId "manifest")
          let nextWalId ← Prog.ofExcept (checkedNextId layout.maxWalId "WAL")
          pure
            { wal := some wal
              memtables := memtables
              tables := tables
              version := { version with
                tableIdHighWatermark := max version.tableIdHighWatermark layout.maxTableId }
              nextTableId := nextTableId
              nextManifestId := nextManifestId
              nextWalId := nextWalId
              poisoned := false : LsmEngine }) (fun e t' => IdsAhead t'.files t'.history e.ids) (Fails Ledger) t' := by
    intro wal memtables t' h'
    rw [Prog.wp_bind]
    refine wp_check h'.ledger fun _ _ => ?_
    rw [Prog.wp_bind]
    refine wp_check h'.ledger fun nextTableId htable => ?_
    rw [Prog.wp_bind]
    refine wp_check h'.ledger fun nextManifestId hmanifest => ?_
    rw [Prog.wp_bind]
    refine wp_check h'.ledger fun nextWalId hwal => ?_
    obtain ⟨-, rfl⟩ := checkedSucc_eq_ok.1 htable
    obtain ⟨-, rfl⟩ := checkedSucc_eq_ok.1 hmanifest
    obtain ⟨-, rfl⟩ := checkedSucc_eq_ok.1 hwal
    exact h'
  rw [Prog.wp_bind]
  refine wp_openWal_ids h (fun bytes hsome => (hahead.rewriteWal hsome).ledger) (fun p io₃ => ?_)
    fun p bytes io₃ hsome => ?_
  · exact hnext p.1 p.2 _ hahead
  · exact hnext p.1 p.2 _ (hahead.rewriteWal hsome)

theorem ledger_empty : Ledger Files.empty [] :=
  ⟨freshIds_nil, fun _ id hid => by simp [Published] at hid, fun _ _ hcurrent => by cases hcurrent⟩

/-- **A new directory.** -/
theorem initializeNew_ids {io : List Io} :
    Prog.wp initializeNew (fun e t' => IdsAhead t'.files t'.history e.ids) (Fails Ledger)
      ⟨Files.empty, io, []⟩ := by
  have hstart : IdsAhead Files.empty [] ⟨legacyVersion, 1, 1, 1⟩ := by
    have hnever : ∀ id, ¬ Published [] id := fun id hid => by simp [Published] at hid
    constructor
    · exact freshIds_nil
    · exact fun _ hid => by cases hid
    · exact fun _ hid => by cases hid
    · exact fun _ hid => by cases hid
    · exact fun id hid => absurd hid (hnever id)
    · exact Nat.zero_lt_one
    · exact fun d hd => absurd hd List.not_mem_nil
    · exact Nat.zero_lt_one
    · exact fun hne => absurd rfl hne
    · exact fun _ => ⟨rfl, fun _ => rfl, hnever⟩
  rw [initializeNew, Prog.wp_bind]
  refine @createNewWal_ids _ ⟨legacyVersion, 1, 1, 1⟩ _ _ hstart fun wal t h₁ => ?_
  rw [Prog.wp_bind]
  refine createInitial_ids h₁ rfl fun version t' h₂ _ => ?_
  rw [Prog.wp_bind]
  exact wp_check h₂.ledger fun memtables _ => h₂

end Opening

/-! ### Runs -/

theorem reopen_ids (h : Ledger s.store.files s.store.history) :
    Prog.wp reopen (fun _ s' => SessionAhead s') (Kept Intact) s :=
  wp_reopen (openExisting_ids h) (fun _ _ hopen => hopen) fun _ _ hledger =>
    ⟨hledger, fun hfalse => by cases hfalse⟩

/-- Every call keeps the invariant. -/
theorem Call.intact (call : Call) (h : Intact s.store.files s.store.history s.engine) :
    Prog.wp call.run (fun _ s' => Intact s'.store.files s'.store.history s'.engine) (Kept Intact) s := by
  have hintact : ∀ s' : Session, SessionAhead s' → Intact s'.store.files s'.store.history s'.engine :=
    fun s' h' => ⟨h'.ledger, fun _ => h'⟩
  refine call.wp_run h (fun _ => h) (fun _ _ => ?_) (fun _ => ?_) fun _ => ?_
  · exact Prog.wp_mono (persistAndApply_ids h) (fun _ s' h' => hintact s' h') fun _ _ he => he
  · exact Prog.wp_mono (persistAndApply_ids h) (fun _ s' h' => hintact s' h') fun _ _ he => he
  · exact Prog.wp_mono (reopen_ids h.1) (fun _ s' h' => hintact s' h') fun _ _ he => he

/-- The runs over one directory: it is created, or has the layout without manifests; handles are opened,
called and dropped, and any access can fail. A crash is a call whose accesses fail from some point on, and
then a drop. -/
inductive Run : Files → History → Option LsmEngine → Prop
  | created {io : List Io} {result : Except DbError LsmEngine} {store : Store} :
      initializeNew ⟨Files.empty, io, []⟩ = (result, store) →
      Run store.files store.history result.toOption
  | legacy {files : Files} : files.tables = .empty → files.manifests = .empty → files.current = none →
      Run files [] none
  | opened {files : Files} {history : History} {io : List Io} {result : Except DbError LsmEngine}
      {store : Store} : Run files history none → openExisting ⟨files, io, history⟩ = (result, store) →
      Run store.files store.history result.toOption
  | call {files : Files} {history : History} {e : LsmEngine} {s : Session} (io : List Io) (call : Call) :
      Run files history (some e) → Session.call ⟨⟨files, [], history⟩, e⟩ io call = s →
      Run s.store.files s.store.history (some s.engine)
  | dropped {files : Files} {history : History} {e : LsmEngine} : Run files history (some e) →
      Run files history none

theorem intact_of_wp {x : StoreProg LsmEngine} {t store : Store} {result : Except DbError LsmEngine}
    (h : Prog.wp x (fun e t' => IdsAhead t'.files t'.history e.ids) (Fails Ledger) t)
    (hrun : x t = (result, store)) :
    Ledger store.files store.history ∧ ∀ e ∈ result.toOption, Intact store.files store.history e := by
  cases result with
  | error err => exact ⟨Prog.wp_error h hrun, by rintro _ ⟨⟩⟩
  | ok e =>
    have hahead := Prog.wp_ok h hrun
    refine ⟨hahead.ledger, ?_⟩
    rintro _ ⟨⟩
    exact ⟨hahead.ledger, fun _ => hahead⟩

theorem Run.intact {files : Files} {history : History} {handle : Option LsmEngine}
    (h : Run files history handle) :
    Ledger files history ∧ ∀ e ∈ handle, Intact files history e := by
  induction h with
  | created hrun => exact intact_of_wp initializeNew_ids hrun
  | legacy htables hmanifests hcurrent =>
    refine ⟨⟨freshIds_nil, fun _ id hid => by simp [Published] at hid, fun _ _ hslots => ?_⟩, by rintro _ ⟨⟩⟩
    rw [hcurrent] at hslots
    cases hslots
  | opened _ hrun ih => exact intact_of_wp (openExisting_ids ih.1) hrun
  | @call files history e s io call _ hcall ih =>
    have hstep := @Call.intact ⟨⟨files, io, history⟩, e⟩ call (ih.2 e rfl)
    have hintact : Intact s.store.files s.store.history s.engine := by
      rw [← hcall]
      exact kept_of_wp hstep
    refine ⟨hintact.1, ?_⟩
    rintro _ ⟨⟩
    exact hintact
  | dropped _ ih => exact ⟨ih.1, by rintro _ ⟨⟩⟩

end DbLab.Lsm
