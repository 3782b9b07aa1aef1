import DbLab.Lsm.Reopen

/-!
# The log behind the memtables

The memtables hold what a replay of the active segment would give: for every key the newest mutation above
the durable sequence. `Logged` says so of an engine and its directory, and that the manifest on disk is
the version set in memory; every call that succeeds keeps it, and opening establishes it.
-/

namespace DbLab.Lsm

open Store LsmEngine Record RecordFormat

variable {ms : List Mutation} {m : Mutation} {low high last sequence : ℕ} {key : Bytes}
  {set set' : MemTableSet}

/-! ### The newest mutations -/

/-- The version that a mutation leaves. -/
def versionOf (m : Mutation) : VersionedEntry := ⟨m.sequence, m.value⟩

/-- The newest version of a key in mutations, among those above `low`. -/
def newestAbove (low : ℕ) (ms : List Mutation) (key : Bytes) : Option VersionedEntry :=
  (ms.reverse.find? fun m => low < m.sequence ∧ m.key = key).map versionOf

theorem newestAbove_concat : newestAbove low (ms ++ [m]) key =
    if low < m.sequence ∧ m.key = key then some (versionOf m) else newestAbove low ms key := by
  rw [newestAbove, List.reverse_append, List.reverse_singleton, List.singleton_append, List.find?_cons]
  by_cases hm : low < m.sequence ∧ m.key = key
  · simp [hm]
  · simp only [hm, decide_false, if_false]
    rfl

theorem newestAbove_eq_none (h : ∀ m ∈ ms, m.sequence ≤ low) : newestAbove low ms key = none := by
  rw [newestAbove, Option.map_eq_none_iff, List.find?_eq_none]
  intro m hm
  have hle := h m (List.mem_reverse.1 hm)
  simp [hle]

theorem Consecutive.bounds {first : ℕ} (h : Consecutive first ms) (hm : m ∈ ms) :
    first ≤ m.sequence ∧ m.sequence < first + ms.length := by
  obtain ⟨k, hk, hget⟩ := List.mem_iff_getElem.1 hm
  have hseq := h.getElem? (List.getElem?_eq_some_iff.2 ⟨hk, hget⟩)
  omega

/-- A higher bound leaves the newest version if it is above it, and nothing older. -/
theorem newestAbove_raise {first : ℕ} (h : Consecutive first ms) (hle : low ≤ high) :
    newestAbove high ms key = (newestAbove low ms key).filter fun v => high < v.sequence := by
  induction ms using List.reverseRecOn with
  | nil => rfl
  | append_singleton ms m ih =>
    obtain ⟨hms, hseq, -⟩ := consecutive_append.1 h
    rw [newestAbove_concat, newestAbove_concat]
    by_cases hhigh : high < m.sequence ∧ m.key = key
    · rw [if_pos hhigh, if_pos ⟨hle.trans_lt hhigh.1, hhigh.2⟩, Option.filter_some,
        if_pos (show decide (high < (versionOf m).sequence) = true from decide_eq_true hhigh.1)]
    · rw [if_neg hhigh]
      by_cases hlow : low < m.sequence ∧ m.key = key
      · have hbelow : m.sequence ≤ high := not_lt.1 fun hlt => hhigh ⟨hlt, hlow.2⟩
        have hdrop : ¬ decide (high < (versionOf m).sequence) = true := by
          rw [decide_eq_true_eq]
          exact hbelow.not_gt
        rw [if_pos hlow, Option.filter_some, if_neg hdrop]
        -- The mutations before the last one are below it.
        refine newestAbove_eq_none fun a ha => ?_
        have hlt := (Consecutive.bounds hms ha).2
        omega
      · rw [if_neg hlow]
        exact ih hms

/-! ### The memtables -/

theorem firstHit_cons {layer : VersionMap} {layers : List VersionMap} :
    firstHit (layer :: layers) key = (firstHit layers key).or (layer.find key) := by
  rw [← List.singleton_append, firstHit_append]
  show (firstHit layers key).or (firstHit ([] ++ [layer]) key) = _
  rw [firstHit_concat]
  cases layer.find key with
  | none => rfl
  | some v => rfl

theorem firstHit_new {limit : ℕ} : firstHit (⟨.empty, [], limit⟩ : MemTableSet).layers key = none := rfl

namespace MemTableSet

theorem firstHit_apply {k : Bytes} {value : Option Bytes} (h : set.apply sequence k value = .ok set') :
    firstHit set'.layers key =
      if k = key then some ⟨sequence, value⟩ else firstHit set.layers key := by
  obtain ⟨table, htable, -, hcases⟩ := apply_eq_ok h
  obtain ⟨hentries, -, -⟩ := MemTable.apply_eq_ok htable
  have hlayers : firstHit set'.layers key =
      firstHit (set.immutable.map MemTable.entries ++ [table.entries]) key := by
    rcases hcases with ⟨himm, hmut⟩ | ⟨himm, hmut⟩
    · rw [layers, tables, himm, hmut, List.map_append, List.map_append, List.map_singleton,
        List.map_singleton, firstHit_concat]
      rfl
    · rw [layers, tables, himm, hmut, List.map_append, List.map_singleton]
  rw [hlayers, layers, tables, List.map_append, List.map_singleton, firstHit_concat, firstHit_concat,
    hentries, SortedMap.find_insert]
  by_cases hk : k = key
  · rw [if_pos hk, if_pos hk.symm]
    rfl
  · rw [if_neg hk, if_neg (Ne.symm hk)]

/-- Retiring the oldest frozen table drops the versions up to its durable sequence. -/
theorem Ordered.firstHit_retire (h : set.Ordered low last) {entries : VersionMap} {durable : ℕ}
    (hold : set.oldestImmutableSnapshot = .ok (some (entries, durable)))
    (hretire : set.retireOldestImmutable = .ok set') :
    firstHit set'.layers key = (firstHit set.layers key).filter fun v => durable < v.sequence := by
  obtain ⟨rest, hrest, hwithin, -, hordered, -⟩ := h.retire hold
  rw [hretire, Except.ok.injEq] at hrest
  subst hrest
  have hlayers : set.layers = entries :: set'.layers := by
    unfold oldestImmutableSnapshot at hold
    unfold retireOldestImmutable at hretire
    cases himm : set.immutable with
    | nil =>
      rw [himm] at hold
      cases hold
    | cons table frozen =>
      rw [himm] at hold hretire
      dsimp only at hold hretire
      cases hsequence : table.lastSequence with
      | none =>
        rw [hsequence] at hold
        cases hold
      | some s =>
        rw [hsequence] at hold
        cases hold
        cases hretire
        rw [layers, tables, himm]
        rfl
  rw [hlayers, firstHit_cons]
  -- A hit in the retired table is durable, and one in a later table is not.
  cases hhit : firstHit set'.layers key with
  | none =>
    rw [Option.none_or]
    cases hfind : entries.find key with
    | none => rfl
    | some v =>
      have hle := (hwithin key v hfind).2
      rw [Option.filter_some, if_neg (by simpa using hle)]
  | some v =>
    obtain ⟨layer, hlayer, hfind⟩ := firstHit_mem hhit
    rw [← MemTableSet.stack_layers last] at hlayer
    obtain ⟨top, htop, rfl⟩ := List.mem_map.1 hlayer
    have hlt := (hordered.stacked.within htop key v hfind).1
    rw [Option.some_or, Option.filter_some, if_pos (by simpa using hlt)]

/-- Memtables without room between their bounds are empty. -/
theorem Ordered.firstHit_eq_none (h : set.Ordered low last) (hle : last ≤ low) :
    firstHit set.layers key = none := by
  cases hhit : firstHit set.layers key with
  | none => rfl
  | some v =>
    obtain ⟨layer, hlayer, hfind⟩ := firstHit_mem hhit
    rw [← MemTableSet.stack_layers last] at hlayer
    obtain ⟨top, htop, rfl⟩ := List.mem_map.1 hlayer
    obtain ⟨hlow, hhigh⟩ := h.stacked.within htop key v hfind
    rw [stackTop_stack] at hhigh
    omega

end MemTableSet

/-- **A replay brings the newest versions above the durable sequence.** -/
theorem firstHit_replay (h : ms.foldlM (replayMutation low) set = .ok set') :
    firstHit set'.layers key = (newestAbove low ms key).or (firstHit set.layers key) := by
  induction ms using List.reverseRecOn generalizing set' with
  | nil =>
    cases h
    rfl
  | append_singleton ms m ih =>
    rw [List.foldlM_append, Checked.bind_eq_ok] at h
    obtain ⟨middle, hmiddle, h⟩ := h
    rw [List.foldlM_cons, Checked.bind_eq_ok] at h
    obtain ⟨_, hlast, h⟩ := h
    cases h
    have hih := ih hmiddle
    rw [newestAbove_concat]
    rw [replayMutation] at hlast
    by_cases hlow : low < m.sequence
    · rw [if_pos hlow] at hlast
      rw [MemTableSet.firstHit_apply hlast, hih]
      by_cases hk : m.key = key
      · rw [if_pos hk, if_pos ⟨hlow, hk⟩]
        rfl
      · rw [if_neg hk, if_neg fun hboth => hk hboth.2]
    · rw [if_neg hlow, Except.ok.injEq] at hlast
      subst hlast
      rw [hih, if_neg fun hboth => hlow hboth.1]

/-! ### The segment -/

variable {wal next : Wal} {walId firstSequence : ℕ}

theorem Wal.Holds.append (h : Wal.Holds wal walId firstSequence ms) {op : Op}
    (happend : wal.append op.kind op.key op.value = .ok (sequence, next)) :
    Wal.Holds next walId firstSequence (ms ++ [op.mutation sequence]) ∧ next.walId = wal.walId ∧
      next.firstSequence = wal.firstSequence ∧ sequence = firstSequence + ms.length := by
  unfold Wal.append at happend
  simp only [Checked.bind_eq_ok] at happend
  obtain ⟨log, hlog, _, -, hresult⟩ := happend
  cases hresult
  exact ⟨Appender.Appended.prepare h hlog, rfl, rfl, h.nextSequence⟩

/-- The scan of a whole segment replays its mutations. -/
theorem Wal.Holds.scanWal_whole {σ : Type} (h : Wal.Holds wal walId firstSequence ms)
    (hok : WalHeaderOk walId firstSequence) (apply : σ → Mutation → Except DbError σ) (values : σ)
    {r : ScanResult σ} (hscan : scanWal apply values wal.log.file walId firstSequence = .ok r) :
    ms.foldlM apply values = .ok r.values ∧ r.recoverableTail = none ∧
      r.nextSequence = firstSequence + ms.length := by
  have hcut : walRecordFormat.Cut ms (walRecordFormat.recordsBytes ms).length ms.length [] :=
    ⟨le_rfl, by rw [List.take_length, List.take_length, List.append_nil], .inl rfl⟩
  have hwhole := h.scanWal_cut hok hcut apply values
  have hfile : wal.log.file.take (walHeaderLen + (walRecordFormat.recordsBytes ms).length) =
      wal.log.file := by
    refine List.take_of_length_le ?_
    rw [h.file_eq, List.length_append, encodeWalHeader_length]
  rw [hfile, hscan, List.take_length, eq_comm, Checked.bind_eq_ok] at hwhole
  obtain ⟨v, hv, hr⟩ := hwhole
  cases hr
  exact ⟨hv, rfl, rfl⟩

/-- The handle that opening makes of a segment. -/
def walOf {σ : Type} (walId firstSequence : ℕ) (file : Bytes) (scan : ScanResult σ) : Wal where
  log :=
    { file := file.take scan.validBytes
      nextSequence := scan.nextSequence
      recordCount := scan.recordCount
      acknowledgedValidBytes := scan.validBytes
      acknowledgedPrefix := file.take scan.validBytes }
  walId := walId
  firstSequence := firstSequence

/-- **A segment that a scan accepts holds the mutations that it replays.** -/
theorem holds_of_scanWal {σ : Type} {apply : σ → Mutation → Except DbError σ} {values : σ} {file : Bytes}
    {r : ScanResult σ} (h : scanWal apply values file walId firstSequence = .ok r) :
    WalHeaderOk walId firstSequence ∧ (r.recoverableTail = none → file.take r.validBytes = file) ∧
      ∃ ms, Wal.Holds (walOf walId firstSequence file r) walId firstSequence ms ∧
        ms.foldlM apply values = .ok r.values := by
  unfold scanWal at h
  by_cases hshort : file.length < walHeaderLen
  · rw [if_pos hshort] at h
    cases h
  rw [if_neg hshort, Checked.bind_eq_ok] at h
  obtain ⟨_, hvalid, hscan⟩ := h
  rw [not_lt] at hshort
  rw [validateWalHeader_eq_ok (by rw [List.length_take, min_eq_left hshort])] at hvalid
  obtain ⟨hok, hhead⟩ := hvalid
  obtain ⟨ms, tail, hread⟩ := RecordFormat.scanRecords_eq_ok (by rw [List.length_drop]; omega)
    (by rw [List.length_drop]; simp only; omega) hscan
  -- The file is the header, the records that the scan has read, and the tail.
  have hfile : file = encodeWalHeader walId firstSequence ++ walRecordFormat.recordsBytes ms ++ tail := by
    rw [List.append_assoc, ← hread.rest_eq, ← hhead, List.take_append_drop]
  have hbytes : r.validBytes =
      (encodeWalHeader walId firstSequence ++ walRecordFormat.recordsBytes ms).length := by
    rw [hread.validBytes, List.length_append, encodeWalHeader_length]
  have htake : file.take r.validBytes =
      encodeWalHeader walId firstSequence ++ walRecordFormat.recordsBytes ms := by
    rw [hfile, hbytes, List.take_left]
  have hsequence : firstSequence + ms.length < u64Limit := by
    by_cases hms : ms = []
    · rw [hms]
      exact hok.2.2.2
    · exact hread.sequence_lt hms
  refine ⟨hok, fun hnone => ?_, ms, ?_, hread.values⟩
  · rcases hread.tail_ok with ⟨-, rfl⟩ | ⟨required, -, hsome⟩
    · rw [htake, hfile, List.append_nil]
    · rw [hnone] at hsome
      cases hsome
  · constructor
    · exact htake
    · exact hread.writable
    · exact hread.consecutive
    · exact hread.nextSequence
    · show r.recordCount = ms.length
      have hcount := hread.recordCount
      simpa using hcount
    · show r.validBytes = (file.take r.validBytes).length
      rw [htake, hbytes]
    · rfl
    · exact hsequence
    · exact (Nat.le_add_left ..).trans_lt hsequence
    · show (file.take r.validBytes).length < u64Limit
      rw [htake, List.length_append, encodeWalHeader_length]
      by_cases hms : ms = []
      · rw [hms, u64Limit_eq]
        decide
      · exact hread.length_lt hms

/-! ### The engine and its directory -/

/-- A version set is the one of a manifest, the generation and the watermarks apart. -/
structure Agrees (written version : VersionSet) : Prop where
  tables : written.tables = version.tables
  durableSequence : written.durableSequence = version.durableSequence
  walId : written.walId = version.walId
  walFirstSequence : written.walFirstSequence = version.walFirstSequence

/-- The active segment holds the mutations `ms`, and the manifest has the version set. -/
structure Logged (files : Files) (e : LsmEngine) (ms : List Mutation) : Prop where
  wal : ∃ wal, e.wal = some wal ∧ wal.walId = e.version.walId ∧
    wal.firstSequence = e.version.walFirstSequence ∧
    files.wals.find e.version.walId = some wal.log.file ∧
    wal.Holds e.version.walId e.version.walFirstSequence ms
  header : WalHeaderOk e.version.walId e.version.walFirstSequence
  manifest : e.version.manifestId ≠ 0 →
    ∃ written, files.manifests.find e.version.manifestId = some (.complete written) ∧ Agrees written e.version
  legacy : e.version.manifestId = 0 → Agrees legacyVersion e.version

/-- The memtables are what a replay of the mutations would give. -/
def Covered (e : LsmEngine) (ms : List Mutation) : Prop :=
  ∀ key, firstHit e.memtables.layers key = newestAbove e.version.durableSequence ms key

/-- Nothing is said of a session behind an error. -/
abbrev Anyhow : Files → History → LsmEngine → Prop := fun _ _ _ => True

variable {s : Session} {files files' : Files} {e : LsmEngine}

theorem Logged.consecutive (h : Logged files e ms) : Consecutive e.version.walFirstSequence ms := by
  obtain ⟨wal, -, -, -, -, hholds⟩ := h.wal
  exact hholds.consecutive

/-- Logged depends on the segments and the manifests only. -/
theorem Logged.congr (h : Logged files e ms)
    (hwal : files'.wals.find e.version.walId = files.wals.find e.version.walId)
    (hmanifest : files'.manifests.find e.version.manifestId = files.manifests.find e.version.manifestId) :
    Logged files' e ms where
  wal := by
    rw [hwal]
    exact h.wal
  header := h.header
  manifest := by
    rw [hmanifest]
    exact h.manifest
  legacy := h.legacy

/-! ### Appends -/

/-- The value that an operation leaves, none for a deletion. -/
def written : Op → Option Bytes
  | .put _ value => some value
  | .delete _ => none

theorem mutation_eq (op : Op) : op.mutation sequence = ⟨sequence, op.key, written op⟩ := by
  cases op <;> rfl

theorem written_getD (op : Op) : (written op).getD [] = op.value := by
  cases op <;> rfl

theorem appendWal_logged (op : Op) (h : Logged s.store.files s.engine ms) :
    Prog.wp (appendWal op.kind op.key op.value)
      (fun sequence s' => Logged s'.store.files s'.engine (ms ++ [op.mutation sequence]) ∧
        s'.engine.memtables = s.engine.memtables ∧ s'.engine.version = s.engine.version ∧
        s'.engine.poisoned = s.engine.poisoned)
      (Kept Anyhow) s := by
  obtain ⟨wal, hwal, hid, hfirst, -, hholds⟩ := h.wal
  rw [appendWal, Prog.wp_bind]
  refine wp_activeWal trivial fun wal' hwal' => ?_
  rw [hwal, Option.some.injEq] at hwal'
  subst hwal'
  rw [Prog.wp_bind]
  refine wp_checked trivial fun appended happend => ?_
  obtain ⟨sequence, next⟩ := appended
  obtain ⟨hholds', hnextId, hnextFirst, -⟩ := hholds.append happend
  dsimp only
  rw [Prog.wp_bind]
  refine wp_onStore (wp_rewriteWal trivial (fun _ _ _ => trivial) fun io _ => ?_)
  rw [Prog.wp_bind]
  refine wp_modifyEngine ⟨?_, rfl, rfl, rfl⟩
  constructor
  · refine ⟨next, rfl, hnextId.trans hid, hnextFirst.trans hfirst, ?_, hholds'⟩
    show (putWal wal.walId next.log.file s.store.files).wals.find s.engine.version.walId = _
    rw [putWal, SortedMap.find_insert, if_pos hid.symm]
  · exact h.header
  · exact h.manifest
  · exact h.legacy

theorem applyMemtables_logged {value : Option Bytes} (h : Logged s.store.files s.engine (ms ++ [⟨sequence, key, value⟩]))
    (hcovered : Covered s.engine ms) (hlow : s.engine.version.durableSequence < sequence) :
    Prog.wp (applyMemtables sequence key value)
      (fun _ s' => Logged s'.store.files s'.engine (ms ++ [⟨sequence, key, value⟩]) ∧
        Covered s'.engine (ms ++ [⟨sequence, key, value⟩]) ∧ s'.engine.poisoned = s.engine.poisoned)
      (Kept Anyhow) s := by
  rw [applyMemtables, Prog.wp_bind]
  refine wp_engine ?_
  rw [Prog.wp_bind]
  refine wp_checked trivial fun memtables happly => ?_
  refine wp_modifyEngine ⟨⟨h.wal, h.header, h.manifest, h.legacy⟩, fun k => ?_, rfl⟩
  rw [newestAbove_concat]
  show firstHit memtables.layers k = _
  rw [MemTableSet.firstHit_apply happly, hcovered k]
  by_cases hk : key = k
  · rw [if_pos hk, if_pos ⟨hlow, hk⟩]
    rfl
  · rw [if_neg hk, if_neg fun hboth => hk hboth.2]

/-! ### Flushes -/

theorem createInitial_wal {t : Store} {walId walFirstSequence : ℕ} :
    Prog.wp (createInitial walId walFirstSequence)
      (fun version _ => version.walId = walId ∧ version.walFirstSequence = walFirstSequence)
      (Fails fun _ _ => True) t := by
  rw [Prog.wp_iff_forall]
  refine ⟨fun version t' hrun => ?_, fun _ _ _ => trivial⟩
  rw [createInitial, Prog.bind_eq_ok] at hrun
  obtain ⟨_, _, -, hrun⟩ := hrun
  rw [Prog.bind_eq_ok] at hrun
  obtain ⟨_, _, -, hrun⟩ := hrun
  cases hrun
  exact ⟨rfl, rfl⟩

theorem ensureManifest_logged (h : Logged s.store.files s.engine ms) :
    Prog.wp ensureManifest
      (fun _ s' => Logged s'.store.files s'.engine ms ∧ s'.engine.memtables = s.engine.memtables ∧
        s'.engine.version.durableSequence = s.engine.version.durableSequence ∧
        s'.engine.poisoned = s.engine.poisoned)
      (Kept Anyhow) s := by
  rw [ensureManifest, Prog.wp_bind]
  refine wp_engine ?_
  by_cases hid : s.engine.version.manifestId = 0
  · have hlegacy := h.legacy hid
    obtain ⟨wal, hwal, hwalId, hfirst, hfile, hholds⟩ := h.wal
    rw [if_pos hid, Prog.wp_bind]
    refine wp_activeWal trivial fun wal' hwal' => ?_
    rw [hwal, Option.some.injEq] at hwal'
    subst hwal'
    rw [Prog.wp_bind]
    refine wp_onStore (Prog.wp_mono (Prog.wp_and createInitial_wal
      (@wp_createInitial _ (fun _ _ => True) wal.walId wal.firstSequence
        (fun version t => version.manifestId = 1 ∧ version.tables = [] ∧ version.durableSequence = 0 ∧
          t.files.wals = s.store.files.wals ∧
          t.files.manifests.find 1 = some (.complete version.written)) trivial
        (fun _ => trivial) (fun _ => trivial) (fun _ _ _ => trivial) (fun _ _ _ _ => trivial)
        (fun _ _ _ _ _ _ _ => trivial)
        fun version rest _ _ hversion hnil hzero _ _ => ⟨hversion, hnil, hzero, rfl, ?_⟩))
      (fun version t ht => ?_) fun _ _ _ => trivial)
    · show (putManifest 1 (.complete version.written) s.store.files).manifests.find 1 = _
      rw [putManifest, SortedMap.find_insert, if_pos rfl]
    · obtain ⟨⟨hversionWal, hversionFirst⟩, hversion, hnil, hzero, hwals, hmanifest⟩ := ht
      rw [hwalId] at hversionWal
      rw [hfirst] at hversionFirst
      refine wp_modifyEngine ⟨⟨⟨wal, hwal, ?_⟩, ?_, fun _ => ?_, fun hzero' => ?_⟩, rfl, ?_, rfl⟩
      · dsimp only
        rw [hversionWal, hversionFirst, hwals]
        exact ⟨hwalId, hfirst, hfile, hholds⟩
      · dsimp only
        rw [hversionWal, hversionFirst]
        exact h.header
      · dsimp only
        rw [hversion]
        exact ⟨version.written, hmanifest, rfl, rfl, rfl, rfl⟩
      · dsimp only at hzero'
        rw [hversion] at hzero'
        cases hzero'
      · exact hzero.trans hlegacy.durableSequence
  · rw [if_neg hid]
    exact ⟨h, rfl, rfl, rfl⟩

/-- **One round of the flush**: the frozen table is on disk, and the replay would leave it out. -/
theorem flushOldest_logged {entries : VersionMap} {durableSequence : ℕ}
    (hlayered : Layered s.store.files s.engine) (h : Logged s.store.files s.engine ms)
    (hcovered : Covered s.engine ms)
    (hold : s.engine.memtables.oldestImmutableSnapshot = .ok (some (entries, durableSequence))) :
    Prog.wp (flushOldest entries durableSequence)
      (fun _ s' => Logged s'.store.files s'.engine ms ∧ Covered s'.engine ms ∧
        s'.engine.poisoned = s.engine.poisoned)
      (Kept Anyhow) s := by
  rw [flushOldest, Prog.wp_bind]
  refine Prog.wp_mono (Prog.wp_and (ensureManifest_layered hlayered) (ensureManifest_logged h))
    (fun _ s₁ h₁ => ?_) fun _ _ _ => trivial
  obtain ⟨⟨hlayered₁, hmemtables⟩, h₁, -, hdurable, hpoisoned⟩ := h₁
  rw [← hmemtables] at hold
  have hcovered₁ : Covered s₁.engine ms := fun key => by
    rw [hmemtables, hdurable]
    exact hcovered key
  obtain ⟨last, hmemory, -⟩ := hlayered₁.memory
  obtain ⟨rest, hretire, -, hle, -, -⟩ := hmemory.retire hold
  obtain ⟨wal, hwal, hwalId, hfirst, hfile, hholds⟩ := h₁.wal
  rw [Prog.wp_bind]
  refine wp_engine ?_
  rw [Prog.wp_bind]
  refine wp_checked trivial fun nextTableId _ => ?_
  rw [Prog.wp_bind]
  refine wp_checked trivial fun nextManifestId _ => ?_
  rw [Prog.wp_bind]
  refine wp_onStore (wp_createSstable trivial (fun _ => trivial) (fun _ => trivial) (fun _ _ => trivial) ?_)
  intro table content io _ _ _ _ _ _
  rw [Prog.wp_bind]
  refine wp_onStore (wp_install trivial (fun _ => trivial) (fun _ => trivial) (fun _ _ _ _ _ _ => trivial)
    (fun _ _ _ _ _ _ _ _ _ => trivial) ?_)
  rintro next io' rfl _ _ file _
  rw [Prog.wp_bind]
  refine wp_modifyEngine ?_
  rw [Prog.wp_bind, hretire, Prog.wp_ofExcept]
  refine ⟨fun _ heq => ?_, fun _ heq => absurd heq (by simp)⟩
  cases heq
  refine wp_modifyEngine ⟨⟨⟨wal, hwal, hwalId, hfirst, hfile, hholds⟩, h₁.header, fun _ => ?_, fun hzero => ?_⟩,
    fun key => ?_, hpoisoned⟩
  · refine ⟨_, (SortedMap.find_insert ..).trans (if_pos rfl), rfl, rfl, rfl, rfl⟩
  · exact absurd hzero hlayered₁.next.ne'
  · show firstHit rest.layers key = newestAbove durableSequence ms key
    rw [hmemory.firstHit_retire hold hretire, hcovered₁ key, newestAbove_raise h₁.consecutive hle]

theorem flushLoop_logged {rounds : ℕ} (hlayered : Layered s.store.files s.engine)
    (h : Logged s.store.files s.engine ms) (hcovered : Covered s.engine ms) :
    Prog.wp (flushLoop rounds)
      (fun _ s' => Logged s'.store.files s'.engine ms ∧ Covered s'.engine ms ∧
        s'.engine.poisoned = s.engine.poisoned)
      (Kept Anyhow) s := by
  induction rounds generalizing s with
  | zero => exact ⟨h, hcovered, rfl⟩
  | succ rounds ih =>
    rw [flushLoop, Prog.wp_bind]
    refine wp_engine ?_
    rw [Prog.wp_bind]
    refine wp_checked trivial fun snapshot hsnapshot => ?_
    cases snapshot with
    | none => exact ⟨h, hcovered, rfl⟩
    | some snapshot =>
      rw [Option.elim_some, Prog.wp_bind]
      refine Prog.wp_mono (Prog.wp_and (flushOldest_layered hlayered hsnapshot)
        (flushOldest_logged hlayered h hcovered hsnapshot)) (fun _ s' h' => ?_) fun _ _ _ => trivial
      obtain ⟨hlayered', h', hcovered', hpoisoned⟩ := h'
      rw [← hpoisoned]
      exact ih hlayered' h' hcovered'

/-! ### The rotation -/

/-- A segment and a manifest that reclamations leave. -/
structure Keeps (files : Files) (walId : ℕ) (segment : Bytes) (manifestId : ℕ) (version : VersionSet) : Prop where
  segment : files.wals.find walId = some segment
  manifest : files.manifests.find manifestId = some (.complete version)

section Keeps

variable {segment : Bytes} {id manifestId : ℕ} {version : VersionSet}

theorem Keeps.removeWal (h : Keeps files walId segment manifestId version) (hne : id ≠ walId) :
    Keeps (LsmEngine.removeWal id files) walId segment manifestId version where
  segment := by
    rw [LsmEngine.removeWal, SortedMap.find_erase, if_neg hne.symm]
    exact h.segment
  manifest := h.manifest

theorem Keeps.removeManifest (h : Keeps files walId segment manifestId version) (hne : id ≠ manifestId) :
    Keeps (LsmEngine.removeManifest id files) walId segment manifestId version where
  segment := h.segment
  manifest := by
    rw [LsmEngine.removeManifest, SortedMap.find_erase, if_neg hne.symm]
    exact h.manifest

end Keeps

/-- **The rotation of the log.** Nothing in memory is above the durable sequence, so that the new segment
starts with no mutations. -/
theorem rotateWal_logged {wal : Wal} (hlayered : Layered s.store.files s.engine) (hwal : s.engine.wal = some wal)
    (hnext : wal.log.nextSequence = s.engine.version.durableSequence + 1)
    (hlimit : s.engine.version.durableSequence + 1 < u64Limit) :
    Prog.wp (rotateWal wal (s.engine.version.durableSequence + 1))
      (fun _ s' => Logged s'.store.files s'.engine [] ∧ Covered s'.engine [] ∧
        s'.engine.poisoned = s.engine.poisoned)
      (Kept Anyhow) s := by
  rw [rotateWal, Prog.wp_bind]
  refine wp_engine ?_
  rw [Prog.wp_bind]
  refine wp_checked trivial fun followingWalId hfollowing => ?_
  obtain ⟨hwalId, rfl⟩ := checkedSucc_eq_ok.1 hfollowing
  rw [Prog.wp_bind]
  refine wp_checked trivial fun followingManifestId _ => ?_
  rw [Prog.wp_bind]
  refine wp_onStore (wp_createNewWal trivial (fun _ => trivial) (fun _ => trivial) (fun _ _ => trivial) ?_)
  intro newWal io hnew _
  obtain ⟨hok, hholds⟩ := Wal.createNew_holds ((Nat.lt_succ_self _).trans hwalId) hlimit hnew
  obtain ⟨hnewId, hnewFirst, -⟩ := Wal.createNew_eq_ok hnew
  rw [Prog.wp_bind]
  refine wp_onStore (wp_install trivial (fun _ => trivial) (fun _ => trivial) (fun _ _ _ _ _ _ => trivial)
    (fun _ _ _ _ _ _ _ _ _ => trivial) ?_)
  intro next io' hnext' _ _ file _
  have hid : next.manifestId = s.engine.nextManifestId := by rw [hnext']; rfl
  have hnextWal : next.walId = s.engine.nextWalId := by rw [hnext']; rfl
  have hnextFirst : next.walFirstSequence = s.engine.version.durableSequence + 1 := by rw [hnext']; rfl
  rw [Prog.wp_bind]
  refine wp_onStore (wp_mirrorCurrent trivial (fun _ _ _ _ _ => trivial) fun io'' file' _ => ?_)
  -- The last sequence of the log is durable, so no memtable has an entry.
  have hempty : ∀ key, firstHit s.engine.memtables.layers key = none := fun key => by
    obtain ⟨last, hmemory, hlt⟩ := hlayered.memory
    have hlast := hlt wal hwal
    exact hmemory.firstHit_eq_none (by omega)
  rw [Prog.wp_bind]
  refine wp_modifyEngine ?_
  refine wp_reclaimWals
    (I := fun files => Keeps files s.engine.nextWalId newWal.log.file s.engine.nextManifestId next.written)
    ⟨(SortedMap.find_insert ..).trans (if_pos rfl), (SortedMap.find_insert ..).trans (if_pos rfl)⟩
    (fun i hi files hfiles => hfiles.removeWal hi)
    (fun i hi files hfiles => hfiles.removeManifest fun heq => hi (heq.trans hid.symm))
    fun t ht => ⟨⟨⟨newWal, rfl, ?_⟩, ?_, fun _ => ?_, fun hzero => ?_⟩, fun key => ?_, rfl⟩
  · dsimp only
    rw [hnextWal, hnextFirst]
    exact ⟨hnewId, hnewFirst, ht.segment, hholds⟩
  · dsimp only
    rw [hnextWal, hnextFirst]
    exact hok
  · dsimp only
    rw [hid]
    exact ⟨next.written, ht.manifest, rfl, rfl, rfl, rfl⟩
  · dsimp only at hzero
    rw [hid] at hzero
    exact absurd hzero hlayered.next.ne'
  · exact hempty key

theorem maybeRotateWal_logged (hlayered : Layered s.store.files s.engine)
    (h : Logged s.store.files s.engine ms) (hcovered : Covered s.engine ms) :
    Prog.wp maybeRotateWal
      (fun _ s' => (∃ ms', Logged s'.store.files s'.engine ms' ∧ Covered s'.engine ms') ∧
        s'.engine.poisoned = s.engine.poisoned)
      (Kept Anyhow) s := by
  rw [maybeRotateWal, Prog.wp_bind]
  refine wp_engine ?_
  by_cases hlimit : u64Limit ≤ s.engine.version.durableSequence + 1
  · rw [if_pos hlimit]
    exact ⟨⟨ms, h, hcovered⟩, rfl⟩
  · rw [if_neg hlimit, Prog.wp_bind]
    refine wp_activeWal trivial fun wal hwal => ?_
    by_cases hskip : wal.log.recordCount = 0 ∨
        wal.log.nextSequence ≠ s.engine.version.durableSequence + 1 ∨
        wal.firstSequence = s.engine.version.durableSequence + 1
    · rw [if_pos hskip]
      exact ⟨⟨ms, h, hcovered⟩, rfl⟩
    · rw [if_neg hskip]
      rw [not_or, not_or, not_not] at hskip
      refine Prog.wp_mono (rotateWal_logged hlayered hwal hskip.2.1 (not_le.1 hlimit))
        (fun _ s' h' => ?_) fun _ _ he => he
      exact ⟨⟨[], h'.1, h'.2.1⟩, h'.2.2⟩

end DbLab.Lsm
