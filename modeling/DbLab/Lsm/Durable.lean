import DbLab.Lsm.Views
import DbLab.Memory.Engine

/-!
# What survives an error

An engine has the values of a map, and a directory shows them if every engine that is opened on it has them.
A mutation that fails leaves a directory that shows the values before it or behind it; whatever else fails
on the way, the flush of a memtable, a compaction, a rotation, the truncation of a torn record, leaves the
values as they are.
-/

namespace DbLab.Record.RecordFormat

variable {fmt : RecordFormat} {ms ms' : List Mutation} {n k : ℕ} {tail : Bytes}

/-- A cut behind whole records. -/
theorem Cut.append (h : fmt.Cut ms' n k tail) :
    fmt.Cut (ms ++ ms') ((fmt.recordsBytes ms).length + n) (ms.length + k) tail where
  le_length := by
    rw [List.length_append]
    exact Nat.add_le_add_left h.le_length _
  take_eq := by
    rw [recordsBytes_append, List.take_length_add_append, List.take_length_add_append, recordsBytes_append,
      h.take_eq, List.append_assoc]
  tail_ok := by
    rw [List.getElem?_append_right (Nat.le_add_right _ _), Nat.add_sub_cancel_left]
    exact h.tail_ok

end DbLab.Record.RecordFormat

namespace DbLab.Lsm

open Store LsmEngine Record RecordFormat

variable {s : Session} {t : Store} {files files' : Files} {history : History} {e : LsmEngine}
  {ms full : List Mutation} {version : VersionSet} {tables : List SsTable} {low sequence : ℕ} {key : Bytes}
  {values : SortedMap Bytes Bytes} {op : Op}

/-! ### Values -/

/-- The engine has the values of a map. -/
def LsmEngine.Has (e : LsmEngine) (values : SortedMap Bytes Bytes) : Prop :=
  ∀ key, e.currentValue key = values.find key

/-- Every engine that is opened on the directory has the values. -/
def Shows (files : Files) (values : SortedMap Bytes Bytes) : Prop :=
  ∀ files' e, Reopened files files' e → e.Has values

/-- The value of a key in mutations above a durable sequence, over tables. -/
def shown (low : ℕ) (tables : List SsTable) (ms : List Mutation) (key : Bytes) : Option Bytes :=
  match newestAbove low ms key with
  | some entry => entry.value
  | none => tableValue tables key

theorem Covered.shown_eq (h : Covered e ms) :
    shown e.version.durableSequence e.tables ms key = e.currentValue key := by
  rw [currentValue_eq, h key]
  rfl

theorem shown_congr {tables' : List SsTable} (h : ∀ key, tableValue tables' key = tableValue tables key) :
    shown low tables' ms key = shown low tables ms key := by
  rw [shown, shown, h key]

theorem shown_concat {m : Mutation} (hlow : low < m.sequence) :
    shown low tables (ms ++ [m]) key = if m.key = key then m.value else shown low tables ms key := by
  rw [shown, newestAbove_concat]
  by_cases hk : m.key = key
  · rw [if_pos ⟨hlow, hk⟩, if_pos hk]
    rfl
  · rw [if_neg fun h => hk h.2, if_neg hk]
    rfl

/-- The values behind an operation whose record is the last one. -/
theorem shown_mutate (hlow : low < sequence) (h : ∀ key, shown low tables ms key = values.find key) :
    shown low tables (ms ++ [op.mutation sequence]) key = (op.mutate values).find key := by
  rw [shown_concat (by rw [Op.mutation_sequence]; exact hlow), Op.find_mutate sequence, Op.mutation_key, h key]

theorem Backed.shows (h : Backed files version tables ms)
    (hvalues : ∀ key, shown version.durableSequence tables ms key = values.find key) : Shows files values := by
  intro files' e hopen key
  obtain ⟨htables, hmemtables⟩ := hopen.eq_of_backed h
  rw [← hvalues key, currentValue_eq, hmemtables key, htables]
  rfl

/-- **A segment that is cut** behind its header gives back the records in front of the cut. -/
theorem Backed.shows_cut {wal : Wal} {n k : ℕ} {tail : Bytes} (h : Backed files version tables ms)
    (hholds : wal.Holds version.walId version.walFirstSequence full) (hcut : walRecordFormat.Cut full n k tail)
    (hvalues : ∀ key, shown version.durableSequence tables (full.take k) key = values.find key) :
    Shows (putWal version.walId (wal.log.file.take (walHeaderLen + n)) files) values := by
  rintro files' e ⟨loaded, file, scan, hloads, hopened, hfile, hscan, -, -, hmemtables, -⟩ key
  have hloads' : Loads files loaded := hloads
  have hagrees := hloads'.agrees h
  rw [hagrees.walId] at hfile hscan
  rw [hagrees.walFirstSequence, hagrees.durableSequence] at hscan
  rw [putWal, SortedMap.find_insert, if_pos rfl, Option.some.injEq] at hfile
  subst hfile
  rw [hholds.scanWal_cut h.header hcut, Checked.bind_eq_ok] at hscan
  obtain ⟨replayed, hreplay, hresult⟩ := hscan
  rw [Except.ok.injEq] at hresult
  have htables : e.tables = tables :=
    hopened.unique (h.opened.congr fun _ _ _ hcontent => hcontent) hagrees.tables
  rw [← hvalues key, currentValue_eq, hmemtables, ← hresult, firstHit_replay hreplay, firstHit_new,
    Option.or_none, htables]
  rfl

/-- A usable engine and the values that it has. -/
def Serving (values : SortedMap Bytes Bytes) (files : Files) (history : History) (e : LsmEngine) : Prop :=
  Steady files history e ∧ e.Has values

/-- The directory shows the values, whatever the engine is. -/
def Leaves (values : SortedMap Bytes Bytes) (files : Files) (_ : History) (_ : LsmEngine) : Prop :=
  Shows files values

theorem LsmEngine.Has.shown_eq (h : e.Has values) (hcovered : Covered e ms) :
    shown e.version.durableSequence e.tables ms key = values.find key := by
  rw [hcovered.shown_eq, h key]

/-- The directory of a usable engine shows what the engine has. -/
theorem Serving.shows (h : Serving values files history e) : Shows files values := by
  obtain ⟨⟨hlayered, hids, ⟨ms, hlogged, hcovered⟩, -⟩, hhas⟩ := h
  exact (hlogged.backed hlayered hids).shows fun key => hhas.shown_eq hcovered

/-! ### Mutations -/

/-- **A record that is written, in part or whole**, leaves the values before the operation or those behind
it. -/
theorem appendWal_serving (op : Op) (h : At (Serving values) s) :
    Prog.wp (appendWal op.kind op.key op.value)
      (fun sequence s' => At (Pending op sequence) s' ∧ s'.engine.Has values)
      (Kept fun files _ _ => Shows files values ∨ Shows files (op.mutate values)) s := by
  have hself : Shows s.store.files values := h.shows
  obtain ⟨⟨hlayered, hids, ⟨ms, hlogged, hcovered⟩, husable⟩, hhas⟩ := id h
  have hbacked := hlogged.backed hlayered hids
  obtain ⟨wal, hwal, hid, -, -, hholds⟩ := hlogged.wal
  obtain ⟨last, hordered, hlast⟩ := hlayered.memory
  have hlow := hordered.low_le.trans_lt (hlast wal hwal)
  have hwp : Prog.wp (appendWal op.kind op.key op.value) (fun _ s' => s'.engine.Has values)
      (Kept fun files _ _ => Shows files values ∨ Shows files (op.mutate values)) s := by
    rw [appendWal, Prog.wp_bind]
    refine wp_activeWal (.inl hself) fun wal' hwal' => ?_
    rw [hwal, Option.some.injEq] at hwal'
    subst hwal'
    rw [Prog.wp_bind]
    refine wp_checked (.inl hself) fun appended happend => ?_
    obtain ⟨sequence, next⟩ := appended
    obtain ⟨hsequence, -, -⟩ := Wal.append_eq_ok happend
    obtain ⟨hholds', -, -, -⟩ := hholds.append happend
    rw [← hsequence] at hlow
    dsimp only
    rw [Prog.wp_bind]
    refine wp_onStore (wp_rewriteWal (.inl hself) (fun _ bytes hbytes => ?_) fun io _ => ?_)
    · have hpart : ∃ written, bytes = next.log.file.take (wal.log.file.length + written) := by
        rcases hbytes with rfl | hpart
        · exact ⟨next.log.file.length, (List.take_of_length_le (Nat.le_add_left _ _)).symm⟩
        · exact hpart
      obtain ⟨written, rfl⟩ := hpart
      have hlength : wal.log.file.length + written =
          walHeaderLen + ((walRecordFormat.recordsBytes ms).length + written) := by
        rw [hholds.file_eq, List.length_append, encodeWalHeader_length, Nat.add_assoc]
      obtain ⟨k, tail, hcut⟩ := exists_cut walRecordFormat [op.mutation sequence] written
      have hk : k = 0 ∨ k = 1 := by
        have hle := hcut.le_length
        rw [List.length_singleton] at hle
        omega
      rw [hlength, hid]
      -- The cut is in the new record or behind it.
      rcases hk with rfl | rfl
      · refine .inl (hbacked.shows_cut hholds' hcut.append fun key => ?_)
        rw [List.take_length_add_append, List.take_zero, List.append_nil]
        exact hhas.shown_eq hcovered
      · refine .inr (hbacked.shows_cut hholds' hcut.append fun key => ?_)
        rw [List.take_length_add_append, List.take_one, List.head?_cons, Option.toList_some]
        exact shown_mutate hlow fun key => hhas.shown_eq hcovered
    · rw [Prog.wp_bind]
      exact wp_modifyEngine hhas
  exact Prog.wp_mono (Prog.wp_and (appendWal_pending op h.1) hwp) (fun _ _ h' => h') fun _ _ he => he.2

theorem applyMemtables_serving (h : At (Pending op sequence) s) (hhas : s.engine.Has values) :
    Prog.wp (applyMemtables sequence op.key (written op)) (fun _ s' => At (Serving (op.mutate values)) s')
      (Kept (Leaves (op.mutate values))) s := by
  obtain ⟨hlayered, hahead, hids, ⟨ms, hlogged, hcovered⟩, husable⟩ := id h
  obtain ⟨last, hordered, hlast⟩ := hahead.1
  have hlow := hordered.low_le.trans_lt hlast
  have hshown : ∀ key, shown s.engine.version.durableSequence s.engine.tables (ms ++ [op.mutation sequence]) key =
      (op.mutate values).find key := fun key => shown_mutate hlow fun key => hhas.shown_eq hcovered
  have hwp : Prog.wp (applyMemtables sequence op.key (written op))
      (fun _ s' => s'.engine.Has (op.mutate values)) (Kept (Leaves (op.mutate values))) s := by
    rw [applyMemtables, Prog.wp_bind]
    refine wp_engine ?_
    rw [Prog.wp_bind]
    refine wp_checked ((hlogged.backed hlayered hids).shows hshown) fun memtables happly => ?_
    refine wp_modifyEngine fun key => ?_
    rw [currentValue_eq, MemTableSet.firstHit_apply happly, Op.find_mutate sequence, mutation_eq]
    by_cases hk : op.key = key
    · rw [if_pos hk, if_pos hk]
    · rw [if_neg hk, if_neg hk, ← hhas key, currentValue_eq]
  exact Prog.wp_mono (Prog.wp_and (applyMemtables_steady h) hwp) (fun _ _ h' => h') fun _ _ he => he.2

/-! ### Flushes -/

/-- **The first manifest** of a directory without one changes no value, whether it is written or not. -/
theorem createInitial_leaves (h : Backed t.files legacyVersion [] ms)
    (hvalues : ∀ key, shown 0 [] ms key = values.find key) :
    Prog.wp (createInitial initialWalId initialFirstSequence) (fun _ _ => True)
      (Fails fun files _ => Shows files values) t := by
  have hself : Shows t.files values := h.shows hvalues
  rw [createInitial, Prog.wp_bind]
  refine wp_writeManifestNew hself (fun _ => hself) (fun _ => hself)
    (fun _ hfree manifest _ => (h.grow (grows_putManifest hfree) rfl rfl).shows hvalues) fun rest _ hfree => ?_
  have h₁ := h.grow (@grows_putManifest _ _ (.complete (VersionSet.written ⟨0, 1, 0, 0, 0, initialWalId,
    initialFirstSequence, []⟩)) hfree) rfl rfl
  rw [Prog.wp_bind]
  refine wp_creating (fun _ => h₁.shows hvalues) (fun _ => h₁.shows hvalues) (fun _ current hcases => ?_)
    fun _ _ => trivial
  rcases hcases with rfl | ⟨-, rfl⟩
  · have h₂ : Backed (putCurrent (.slots (some ⟨0, 1⟩) (some ⟨0, 1⟩)) (putManifest 1
        (.complete (VersionSet.written ⟨0, 1, 0, 0, 0, initialWalId, initialFirstSequence, []⟩)) t.files))
        ⟨0, 1, 0, 0, 0, initialWalId, initialFirstSequence, []⟩ [] ms :=
      { manifest := .inr ⟨named_initial, _, (SortedMap.find_insert ..).trans (if_pos rfl), rfl, rfl, rfl, rfl⟩
        opened := .nil
        segment := h.segment
        header := h.header }
    exact h₂.shows hvalues
  · -- A file that is too short names no version set, so that nothing opens.
    rintro files' e ⟨loaded, file, scan, hloads, -⟩
    rcases hloads with ⟨hcurrent, -⟩ | ⟨slot, stored, hread, -⟩
    · cases hcurrent
    · cases hread

theorem ensureManifest_serving (h : At (Serving values) s) :
    Prog.wp ensureManifest
      (fun _ s' => s'.engine.memtables = s.engine.memtables ∧ s'.engine.tables = s.engine.tables)
      (Kept (Leaves values)) s := by
  have hself : Shows s.store.files values := h.shows
  obtain ⟨⟨hlayered, hids, ⟨ms, hlogged, hcovered⟩, -⟩, hhas⟩ := h
  rw [ensureManifest, Prog.wp_bind]
  refine wp_engine ?_
  by_cases hid : s.engine.version.manifestId = 0
  · have hlegacy := hlogged.legacy hid
    have hbacked := hlogged.backed hlayered hids
    obtain ⟨wal, hwal, hwalId, hfirst, -⟩ := hlogged.wal
    have htables : s.engine.tables = [] := by
      have hnil := hlayered.opened.descriptors_eq
      rw [← hlegacy.tables] at hnil
      exact List.map_eq_nil_iff.1 hnil
    have hbacked' : Backed s.store.files legacyVersion [] ms :=
      { manifest := .inl ⟨(hids.legacy hid).1, rfl, rfl, rfl, rfl⟩
        opened := .nil
        segment := by
          rw [hlegacy.walId, hlegacy.walFirstSequence]
          exact hbacked.segment
        header := by
          rw [hlegacy.walId, hlegacy.walFirstSequence]
          exact hbacked.header }
    have hshown : ∀ key, shown 0 [] ms key = values.find key := fun key => by
      have hkey : shown s.engine.version.durableSequence s.engine.tables ms key = values.find key :=
        hhas.shown_eq hcovered
      rw [← hlegacy.durableSequence, htables] at hkey
      exact hkey
    rw [if_pos hid, Prog.wp_bind]
    refine wp_activeWal hself fun wal' hwal' => ?_
    rw [hwal, Option.some.injEq] at hwal'
    subst hwal'
    have hinitial := createInitial_leaves hbacked' hshown
    rw [Prog.wp_bind, hwalId, hfirst, ← hlegacy.walId, ← hlegacy.walFirstSequence]
    exact wp_onStore (Prog.wp_mono hinitial (fun _ _ _ => wp_modifyEngine ⟨rfl, rfl⟩) fun _ _ he => he)
  · rw [if_neg hid]
    exact ⟨rfl, rfl⟩

/-- Retiring takes the oldest layer away. -/
theorem MemTableSet.layers_retire {set set' : MemTableSet} {entries : VersionMap} {durable : ℕ}
    (hold : set.oldestImmutableSnapshot = .ok (some (entries, durable)))
    (hretire : set.retireOldestImmutable = .ok set') : set.layers = entries :: set'.layers := by
  unfold oldestImmutableSnapshot at hold
  unfold retireOldestImmutable at hretire
  cases himm : set.immutable with
  | nil =>
    rw [himm] at hold
    cases hold
  | cons table frozen =>
    rw [himm] at hold hretire
    dsimp only at hold hretire
    cases hsequence : table.lastSequence with
    | none =>
      rw [hsequence] at hold
      cases hold
    | some last =>
      rw [hsequence] at hold
      cases hold
      cases hretire
      rw [layers, tables, himm]
      rfl

theorem currentValue_layers {e' : LsmEngine} (h : e'.layers = e.layers) : e'.currentValue key = e.currentValue key := by
  rw [currentValue, currentValue, currentEntry_eq, currentEntry_eq, h]

/-- **A round of the flush** changes no value, and neither does one that fails. -/
theorem flushOldest_serving {entries : VersionMap} {durableSequence : ℕ} (h : At (Serving values) s)
    (hold : s.engine.memtables.oldestImmutableSnapshot = .ok (some (entries, durableSequence))) :
    Prog.wp (flushOldest entries durableSequence) (fun _ s' => s'.engine.Has values) (Kept (Leaves values)) s := by
  have hlayers := h.1.layered
  obtain ⟨ms, hlogged, hcovered⟩ := h.1.log
  rw [flushOldest, Prog.wp_bind]
  refine Prog.wp_mono (Prog.wp_and (ensureManifest_layered hlayers) (Prog.wp_and (ensureManifest_ids h.1.ids)
    (Prog.wp_and (ensureManifest_logged hlogged) (ensureManifest_serving h)))) (fun _ s₁ h₁ => ?_)
    fun _ _ he => he.2.2.2
  obtain ⟨⟨hlayered₁, -⟩, hids₁, ⟨hlogged₁, -, hdurable, -⟩, hmemtables, htables⟩ := h₁
  have hids₁' : IdsAhead s₁.store.files s₁.store.history s₁.engine.ids := hids₁
  have hbacked := hlogged₁.backed hlayered₁ hids₁'
  have hcovered₁ : Covered s₁.engine ms := fun key => by
    rw [hmemtables, hdurable]
    exact hcovered key
  have hhas₁ : s₁.engine.Has values := fun key => by
    rw [← h.2 key]
    exact currentValue_layers (by rw [layers, layers, hmemtables, htables])
  have hself : Shows s₁.store.files values := hbacked.shows fun key => hhas₁.shown_eq hcovered₁
  rw [← hmemtables] at hold
  obtain ⟨last, hmemory, -⟩ := hlayered₁.memory
  obtain ⟨rest, hretire, hwithin, hle, -, -⟩ := hmemory.retire hold
  rw [Prog.wp_bind]
  refine wp_engine ?_
  rw [Prog.wp_bind]
  refine wp_checked hself fun nextTableId _ => ?_
  rw [Prog.wp_bind]
  refine wp_checked hself fun nextManifestId _ => ?_
  rw [Prog.wp_bind]
  refine wp_onStore (wp_createSstable hself (fun _ => hself) (fun _ => hself) (fun hnone table =>
    (hbacked.grow (grows_putTable hnone) rfl rfl).shows fun key => hhas₁.shown_eq hcovered₁) ?_)
  intro table content io hnone hopen hid _ hdur hindex
  have hbacked₂ := hbacked.grow (@grows_putTable _ _ (.complete content) hnone) rfl rfl
  have hself₂ := hbacked₂.shows fun key => hhas₁.shown_eq hcovered₁
  have hopened : Opened (putTable s₁.engine.nextTableId (.complete content) s₁.store.files) 0
      (s₁.engine.version.tables ++ [table.descriptor]) (s₁.engine.tables ++ [table]) := by
    have htop := hbacked₂.opened.top_eq
    refine hbacked₂.opened.append ?_ hopen ?_ ?_
    · rw [putTable, SortedMap.find_insert, if_pos hid]
    · rw [htop, hdur]
      exact hlayered₁.durable.trans hle
    · rw [htop, hdur, hindex]
      exact hwithin.mono hlayered₁.durable le_rfl
  -- The layers are the same, and the frozen memtable is now the last table.
  have hlayers₂ : (s₁.engine.tables ++ [table]).map SsTable.index ++ rest.layers = s₁.engine.layers := by
    rw [layers, MemTableSet.layers_retire hold hretire, List.map_append, List.map_singleton, hindex, List.append_assoc,
      List.singleton_append]
  have hhas₂ : ∀ e' : LsmEngine, e'.tables = s₁.engine.tables ++ [table] → e'.memtables = rest → e'.Has values :=
    fun e' htables' hmemtables' key => by
      rw [← hhas₁ key]
      exact currentValue_layers (by rw [layers, htables', hmemtables', hlayers₂])
  have hshown : ∀ key, shown durableSequence (s₁.engine.tables ++ [table]) ms key = values.find key := fun key => by
    have hcovered₂ : firstHit rest.layers key = newestAbove durableSequence ms key := by
      rw [hmemory.firstHit_retire hold hretire, hcovered₁ key, newestAbove_raise hlogged₁.consecutive hle]
    rw [← hhas₂ { s₁.engine with tables := s₁.engine.tables ++ [table], memtables := rest } rfl rfl key,
      currentValue_eq, hcovered₂]
    rfl
  rw [Prog.wp_bind]
  refine wp_onStore (wp_install hself₂ (fun _ => hself₂) (fun _ => hself₂) (fun next _ _ hnone' manifest _ =>
    (hbacked₂.grow (grows_putManifest hnone') rfl rfl).shows fun key => hhas₁.shown_eq hcovered₁) ?_ ?_)
  · intro next hnext' _ hnone' file slot _ hfile hslot
    have hid' : next.manifestId = s₁.engine.nextManifestId := by rw [hnext']; rfl
    have hgeneration : next.currentGeneration = s₁.engine.version.currentGeneration + 1 := by rw [hnext']; rfl
    have hbacked₃ := hbacked₂.grow (@grows_putManifest _ _ (.complete next.written) hnone') rfl rfl
    rcases hslot.slot_eq with rfl | rfl
    · rw [hgeneration]
      exact (hbacked₃.torn hfile).shows fun key => hhas₁.shown_eq hcovered₁
    · have hpublished := @Backed.publish _ _ _ next _ _ (s₁.engine.tables ++ [table]) next.written hbacked₃ hfile
        hgeneration (by rw [hid']; exact hlayered₁.next.ne')
        (by rw [hid', putManifest, SortedMap.find_insert, if_pos rfl]) ⟨rfl, rfl, rfl, rfl⟩
        (by rw [hnext']; exact hopened.congr fun _ _ _ hcontent => hcontent) (by rw [hnext']; rfl) (by rw [hnext']; rfl)
      rw [hid'] at hpublished
      exact hpublished.shows (by rw [hnext']; exact hshown)
  · intro next io' hnext' hinstall hnone' file hfile
    rw [Prog.wp_bind]
    refine wp_modifyEngine ?_
    rw [Prog.wp_bind, hretire, Prog.wp_ofExcept]
    refine ⟨fun _ heq => ?_, fun _ heq => absurd heq (by simp)⟩
    cases heq
    exact wp_modifyEngine (hhas₂ _ rfl rfl)

theorem flushLoop_serving {rounds : ℕ} (h : At (Serving values) s) :
    Prog.wp (flushLoop rounds) (fun _ s' => At (Serving values) s') (Kept (Leaves values)) s := by
  induction rounds generalizing s with
  | zero => exact h
  | succ rounds ih =>
    rw [flushLoop, Prog.wp_bind]
    refine wp_engine ?_
    rw [Prog.wp_bind]
    refine wp_checked h.shows fun snapshot hsnapshot => ?_
    cases snapshot with
    | none => exact h
    | some snapshot =>
      obtain ⟨hlayered, hids, ⟨ms, hlogged, hcovered⟩, husable⟩ := h.1
      rw [Option.elim_some, Prog.wp_bind]
      refine Prog.wp_mono (Prog.wp_and (flushOldest_layered hlayered hsnapshot) (Prog.wp_and (flushOldest_ids hids)
        (Prog.wp_and (flushOldest_logged hlayered hlogged hcovered hsnapshot) (flushOldest_serving h hsnapshot))))
        (fun _ s' h' => ?_) fun _ _ he => he.2.2.2
      obtain ⟨hlayered', hids', ⟨hlogged', hcovered', hpoisoned⟩, hhas'⟩ := h'
      exact ih ⟨⟨hlayered', hids', ⟨ms, hlogged', hcovered'⟩, hpoisoned.trans husable⟩, hhas'⟩

/-! ### Compactions and rotations -/

theorem Replaces.shown_eq (h : Replaces e version tables) :
    shown version.durableSequence tables ms key = shown e.version.durableSequence e.tables ms key := by
  rw [h.durableSequence, shown_congr h.value]

theorem maybeCompactLevel0_serving (h : At (Serving values) s) :
    Prog.wp maybeCompactLevel0 (fun _ s' => At (Serving values) s') (Kept (Leaves values)) s := by
  obtain ⟨ms, hlogged, hcovered⟩ := h.1.log
  have hwp : Prog.wp maybeCompactLevel0 (fun _ s' => s'.engine.Has values) (Kept (Leaves values)) s := by
    rw [maybeCompactLevel0, Prog.wp_bind]
    refine wp_engine ?_
    by_cases hfew : (s.engine.version.tables.filter fun table => table.level = 0).length < level0CompactionTrigger
    · rw [if_pos hfew]
      exact h.2
    · rw [if_neg hfew]
      refine Prog.wp_mono (compactLevel0AfterTrigger_backed h.1.layered (hlogged.backed h.1.layered h.1.ids))
        (fun _ s' h' => ?_) fun _ s' he => ?_
      · obtain ⟨hreplaces, -, -, hmemtables, -, -⟩ := h'
        exact fun key => (currentValue_congr (fun key => by rw [hmemtables]) hreplaces.value).trans (h.2 key)
      · obtain ⟨-, version, tables, hreplaces, hbacked⟩ := he
        exact hbacked.shows fun key => by rw [hreplaces.shown_eq, h.2.shown_eq hcovered]
  exact Prog.wp_mono (Prog.wp_and (maybeCompactLevel0_steady h.1) hwp) (fun _ _ h' => h') fun _ _ he => he.2

/-- **The rotation of the log** changes no value: the tables have everything, and the new segment nothing. -/
theorem rotateWal_serving {wal : Wal} (h : At (Serving values) s) (hwal : s.engine.wal = some wal)
    (hnext : wal.log.nextSequence = s.engine.version.durableSequence + 1)
    (hlimit : s.engine.version.durableSequence + 1 < u64Limit) :
    Prog.wp (rotateWal wal (s.engine.version.durableSequence + 1)) (fun _ s' => s'.engine.Has values)
      (Kept (Leaves values)) s := by
  have hself : Shows s.store.files values := h.shows
  obtain ⟨⟨hlayered, hids, ⟨ms, hlogged, hcovered⟩, -⟩, hhas⟩ := id h
  have hbacked := hlogged.backed hlayered hids
  rw [rotateWal, Prog.wp_bind]
  refine wp_engine ?_
  rw [Prog.wp_bind]
  refine wp_checked hself fun followingWalId hfollowing => ?_
  obtain ⟨hwalId, rfl⟩ := checkedSucc_eq_ok.1 hfollowing
  rw [Prog.wp_bind]
  refine wp_checked hself fun followingManifestId _ => ?_
  -- A file under a new id leaves the active segment.
  have hput : s.store.files.wals.find s.engine.nextWalId = none → ∀ bytes,
      Backed (putWal s.engine.nextWalId bytes s.store.files) s.engine.version s.engine.tables ms :=
    fun hnone bytes =>
      { manifest := hbacked.manifest
        opened := hbacked.opened.congr fun _ _ _ hcontent => hcontent
        segment := by
          obtain ⟨active, hfile, hholds⟩ := hbacked.segment
          refine ⟨active, ?_, hholds⟩
          rw [putWal, SortedMap.find_insert, if_neg]
          · exact hfile
          · rintro heq
            rw [heq, hnone] at hfile
            cases hfile
        header := hbacked.header }
  rw [Prog.wp_bind]
  refine wp_onStore (wp_createNewWal hself (fun _ => hself) (fun _ => hself) (fun hnone bytes =>
    (hput hnone bytes).shows fun key => hhas.shown_eq hcovered) ?_)
  intro newWal io hnew hnone
  obtain ⟨hok, hholds⟩ := Wal.createNew_holds ((Nat.lt_succ_self _).trans hwalId) hlimit hnew
  have hbacked₁ := hput hnone newWal.log.file
  have hself₁ := hbacked₁.shows fun key => hhas.shown_eq hcovered
  have hsegment : (putWal s.engine.nextWalId newWal.log.file s.store.files).wals.find s.engine.nextWalId =
      some newWal.log.file := by
    rw [putWal, SortedMap.find_insert, if_pos rfl]
  have hshown : ∀ key, shown s.engine.version.durableSequence s.engine.tables [] key = values.find key := fun key => by
    obtain ⟨last, hmemory, hlt⟩ := hlayered.memory
    have hlast := hlt wal hwal
    have hempty : firstHit s.engine.memtables.layers key = none := hmemory.firstHit_eq_none (by omega)
    rw [← hhas key, currentValue_eq, hempty]
    rfl
  have hpublish : ∀ next, next = nextVersion s.engine.version s.engine.nextManifestId
      { durableSequence := s.engine.version.durableSequence
        tombstoneGcSequence := s.engine.version.tombstoneGcSequence
        walId := s.engine.nextWalId
        walFirstSequence := s.engine.version.durableSequence + 1
        tables := s.engine.version.tables } (s.engine.version.currentGeneration + 1) →
      (putWal s.engine.nextWalId newWal.log.file s.store.files).manifests.find s.engine.nextManifestId = none →
      ∀ file, (putWal s.engine.nextWalId newWal.log.file s.store.files).current = some file →
        Backed (putCurrent (setSlot next.currentGeneration (some ⟨next.currentGeneration, next.manifestId⟩) file)
          (putManifest s.engine.nextManifestId (.complete next.written)
            (putWal s.engine.nextWalId newWal.log.file s.store.files))) next s.engine.tables [] := by
    intro next hnext' hfree file hfile
    have hid : next.manifestId = s.engine.nextManifestId := by rw [hnext']; rfl
    have hgeneration : next.currentGeneration = s.engine.version.currentGeneration + 1 := by rw [hnext']; rfl
    have hbacked₂ := hbacked₁.grow (@grows_putManifest _ _ (.complete next.written) hfree) rfl rfl
    constructor
    · refine .inr ⟨?_, next.written, ?_, rfl, rfl, rfl, rfl⟩
      · rw [hgeneration]
        exact (hbacked₂.named hfile).1.next hfile (by rw [hid]; exact hlayered.next.ne')
      · rw [hid]
        exact (SortedMap.find_insert ..).trans (if_pos rfl)
    · rw [hnext']
      exact hbacked₂.opened.congr fun _ _ _ hcontent => hcontent
    · rw [hnext']
      exact ⟨newWal, hsegment, hholds⟩
    · rw [hnext']
      exact hok
  rw [Prog.wp_bind]
  refine wp_onStore (wp_install hself₁ (fun _ => hself₁) (fun _ => hself₁) (fun next _ _ hfree manifest _ =>
    (hbacked₁.grow (grows_putManifest hfree) rfl rfl).shows fun key => hhas.shown_eq hcovered) ?_ ?_)
  · intro next hnext' _ hfree file slot _ hfile hslot
    have hid : next.manifestId = s.engine.nextManifestId := by rw [hnext']; rfl
    have hgeneration : next.currentGeneration = s.engine.version.currentGeneration + 1 := by rw [hnext']; rfl
    rcases hslot.slot_eq with rfl | rfl
    · rw [hgeneration]
      exact ((hbacked₁.grow (grows_putManifest hfree) rfl rfl).torn hfile).shows fun key => hhas.shown_eq hcovered
    · have hrotated := hpublish next hnext' hfree file hfile
      rw [hid] at hrotated
      exact hrotated.shows (by rw [hnext']; exact hshown)
  · intro next io' hnext' _ hfree file hfile
    have hid : next.manifestId = s.engine.nextManifestId := by rw [hnext']; rfl
    have hrotated := hpublish next hnext' hfree file hfile
    rw [hid] at hrotated
    have hvalues : ∀ key, shown next.durableSequence s.engine.tables [] key = values.find key := by
      rw [hnext']
      exact hshown
    rw [Prog.wp_bind]
    refine wp_onStore (wp_mirrorCurrent (hrotated.shows hvalues) (fun file' slot _ hfile' hslot => ?_)
      fun io'' file' hfile' => ?_)
    · rcases hslot.slot_eq with rfl | rfl
      · exact (hrotated.torn hfile').shows hvalues
      · have hmirrored := @Backed.publish _ _ _ { next with currentGeneration := next.currentGeneration + 1 } _ _ _
          next.written hrotated hfile' rfl (by rw [hid]; exact hlayered.next.ne')
          (by rw [hid]; exact (SortedMap.find_insert ..).trans (if_pos rfl)) ⟨rfl, rfl, rfl, rfl⟩ hrotated.opened
          rfl rfl
        exact hmirrored.shows hvalues
    · rw [Prog.wp_bind]
      refine wp_modifyEngine ?_
      exact wp_reclaimWals (I := fun _ => True) trivial (fun _ _ _ _ => trivial) (fun _ _ _ _ => trivial)
        fun _ _ => hhas

theorem maybeRotateWal_serving (h : At (Serving values) s) :
    Prog.wp maybeRotateWal (fun _ s' => At (Serving values) s') (Kept (Leaves values)) s := by
  have hwp : Prog.wp maybeRotateWal (fun _ s' => s'.engine.Has values) (Kept (Leaves values)) s := by
    rw [maybeRotateWal, Prog.wp_bind]
    refine wp_engine ?_
    by_cases hlimit : u64Limit ≤ s.engine.version.durableSequence + 1
    · rw [if_pos hlimit]
      exact h.2
    · rw [if_neg hlimit, Prog.wp_bind]
      refine wp_activeWal h.shows fun wal hwal => ?_
      by_cases hskip : wal.log.recordCount = 0 ∨
          wal.log.nextSequence ≠ s.engine.version.durableSequence + 1 ∨
          wal.firstSequence = s.engine.version.durableSequence + 1
      · rw [if_pos hskip]
        exact h.2
      · rw [if_neg hskip]
        rw [not_or, not_or, not_not] at hskip
        exact rotateWal_serving h hwal hskip.2.1 (not_le.1 hlimit)
  exact Prog.wp_mono (Prog.wp_and (maybeRotateWal_steady h.1) hwp) (fun _ _ h' => h') fun _ _ he => he.2

/-- **The work behind a mutation** changes no value, whether it succeeds or not. -/
theorem flushFrozenMemtables_serving (h : At (Serving values) s) :
    Prog.wp flushFrozenMemtables (fun _ s' => At (Serving values) s') (Kept (Leaves values)) s := by
  rw [flushFrozenMemtables, Prog.wp_bind]
  refine wp_engine ?_
  rw [Prog.wp_bind]
  refine Prog.wp_mono (flushLoop_serving h) (fun _ s₁ h₁ => ?_) fun _ _ he => he
  rw [Prog.wp_bind]
  exact Prog.wp_mono (maybeCompactLevel0_serving h₁) (fun _ s₂ h₂ => maybeRotateWal_serving h₂) fun _ _ he => he

/-- What a mutation that fails leaves: a handle that serves nothing more, and a directory that shows the values
before the mutation or behind it. -/
def Interrupted (op : Op) (values : SortedMap Bytes Bytes) (files : Files) (_ : History) (e : LsmEngine) : Prop :=
  e.poisoned = true ∧ (Shows files values ∨ Shows files (op.mutate values))

/-- **A mutation** of a usable engine. -/
theorem persistAndApply_serving (op : Op) (h : At (Serving values) s) :
    Prog.wp (persistAndApply op.kind op.key (written op)) (fun _ s' => At (Serving (op.mutate values)) s')
      (Kept (Interrupted op values)) s := by
  have hpoison : ∀ files history e, Leaves (op.mutate values) files history e →
      Interrupted op values files history { e with poisoned := true } := fun _ _ _ hshows => ⟨rfl, .inr hshows⟩
  obtain ⟨wal, hwal, -⟩ := h.1.log.choose_spec.1.wal
  have husable : ensureUsable s = (.ok (), s) := by
    rw [ensureUsable_run, if_neg]
    rintro (hpoisoned | hnone)
    · rw [h.1.usable] at hpoisoned
      cases hpoisoned
    · rw [hwal] at hnone
      cases hnone
  have hrun : persistAndApply op.kind op.key (written op) s = (do
      let sequence ← poisonOnError (appendWal op.kind op.key ((written op).getD []))
      poisonOnError (applyMemtables sequence op.key (written op))
      poisonOnError flushFrozenMemtables) s := Prog.bind_ok husable
  rw [Prog.wp, hrun, ← Prog.wp, written_getD, Prog.wp_bind]
  refine Prog.wp_mono (wp_poisonOnError (fun _ _ _ hshows => ⟨rfl, hshows⟩) (appendWal_serving op h))
    (fun sequence s₁ h₁ => ?_) fun _ _ he => he
  rw [Prog.wp_bind]
  refine Prog.wp_mono (wp_poisonOnError hpoison (applyMemtables_serving h₁.1 h₁.2)) (fun _ s₂ h₂ => ?_)
    fun _ _ he => he
  exact wp_poisonOnError hpoison (flushFrozenMemtables_serving h₂)

end DbLab.Lsm
