import DbLab.Lsm.Durable

/-!
# Acknowledged mutations

A run over one directory keeps the outcomes of its mutations: acknowledged, or failed in a usable engine. At
every point of a run one map explains them. It has every acknowledged mutation, in the order of the calls, and
each of the failed ones or not; a usable handle has the values of this map, and so has whatever is opened on
the directory, under any outcomes of the accesses before and behind a crash.
-/

namespace DbLab.Lsm

open Store LsmEngine Record RecordFormat

variable {s : Session} {t : Store} {files files' : Files} {history : History} {e : LsmEngine}
  {ms : List Mutation} {version loaded : VersionSet} {key : Bytes} {values base : SortedMap Bytes Bytes} {op : Op}

/-! ### Opening -/

theorem Loads.unique (h : Loads files version) (h' : Loads files loaded) : version = loaded := by
  rcases h with ⟨hnone, rfl⟩ | ⟨slot, stored, hread, -, hfind, rfl⟩
  · rcases h' with ⟨-, rfl⟩ | ⟨slot', stored', hread', -⟩
    · rfl
    · rw [readCurrent, hnone] at hread'
      cases hread'
  · rcases h' with ⟨hnone, -⟩ | ⟨slot', stored', hread', -, hfind', rfl⟩
    · rw [readCurrent, hnone] at hread
      cases hread
    · rw [hread, Except.ok.injEq] at hread'
      subst hread'
      rw [hfind, Option.some.injEq, ManifestFile.complete.injEq] at hfind'
      rw [hfind']

/-- **A torn record that is cut off** has shown no value. -/
theorem Shows.truncate {file : Bytes} {scan : ScanResult MemTableSet} (h : Shows files values)
    (hloads : Loads files loaded) (hfile : files.wals.find loaded.walId = some file)
    (hscan : scanWal (replayMutation loaded.durableSequence) ⟨.empty, [], mutableMemtableBytesLimit⟩ file loaded.walId
      loaded.walFirstSequence = .ok scan) :
    Shows (putWal loaded.walId (file.take scan.validBytes) files) values := by
  rintro files' e ⟨loaded', file', scan', hloads', hopened, hfile', hscan', -, -, hmemtables, hversion, -⟩
  have hsame : Loads files loaded' := hloads'
  obtain rfl := hsame.unique hloads
  rw [putWal, SortedMap.find_insert, if_pos rfl, Option.some.injEq] at hfile'
  subst hfile'
  -- The scan of what is left replays the same mutations.
  obtain ⟨hok, -, ms, hholds, hreplay⟩ := holds_of_scanWal hscan
  obtain ⟨hreplay', -, -⟩ := hholds.scanWal_whole hok _ _ hscan'
  rw [hreplay, Except.ok.injEq] at hreplay'
  have hreopened : Reopened files (putWal loaded'.walId (file.take scan.validBytes) files)
      { e with wal := some (walOf loaded'.walId loaded'.walFirstSequence file scan), poisoned := false } :=
    ⟨loaded', file, scan, hsame, hopened.congr fun _ _ _ hcontent => hcontent, hfile, hscan, .inr rfl, rfl,
      hmemtables.trans hreplay'.symm, hversion, rfl⟩
  exact fun key => h _ _ hreopened key

theorem putWal_same {id : ℕ} {file : Bytes} (h : files.wals.find id = some file) : putWal id file files = files := by
  have hwals : files.wals.insert id file = files.wals := by
    refine SortedMap.ext_find fun k => ?_
    rw [SortedMap.find_insert]
    by_cases hk : k = id
    · rw [if_pos hk, hk, h]
    · rw [if_neg hk]
  rw [putWal, hwals]

/-- **Opening** has the values that the directory shows, and the directory shows them still if it fails. -/
theorem openExisting_leaves (hvalid : ValidDirectory t.files) (h : Shows t.files values) :
    Prog.wp openExisting (fun e _ => e.Has values) (Fails fun files _ => Shows files values) t := by
  have herror : Prog.wp openExisting (fun _ _ => True) (Fails fun files _ => Shows files values) t := by
    rw [openExisting, Prog.wp_bind]
    refine wp_reading h fun layout io hlayout => ?_
    rw [Prog.wp_bind]
    refine Prog.wp_mono (Prog.wp_and (wp_loadVersion_loads (validateLayout_eq_ok hlayout))
      (@wp_loadVersion _ (fun files _ => Shows files values) _
        (fun version t' => ∃ tables, Loaded t.files version tables) hvalid h
        fun version tables io' hloaded => ⟨tables, hloaded⟩)) (fun loaded t₁ h₁ => ?_) fun _ _ he => he.2
    obtain ⟨⟨hloads, hfiles⟩, tables, hloaded⟩ := h₁
    dsimp only at hloads hfiles
    have h₂ : Shows t₁.files values := by
      rw [hfiles]
      exact h
    rw [Prog.wp_bind]
    refine wp_openTables hloaded.opened hfiles h₂ fun io'' => ?_
    rw [Prog.wp_bind]
    refine wp_check h₂ fun _ _ => ?_
    rw [Prog.wp_bind]
    refine wp_check h₂ fun memtables hmemtables => ?_
    rw [MemTableSet.new_eq_ok hmemtables, openWal, Prog.wp_bind, Prog.wp_bind]
    refine wp_reading h₂ fun file io hread => ?_
    have hfile : t.files.wals.find loaded.walId = some file := by
      dsimp only at hread
      rw [readWal, hfiles] at hread
      cases hfind : t.files.wals.find loaded.walId with
      | none =>
        rw [hfind] at hread
        cases hread
      | some bytes =>
        rw [hfind, Except.ok.injEq] at hread
        rw [hread]
    rw [Prog.wp_bind]
    refine wp_check h₂ fun scan hscan => ?_
    have hcut : Shows (putWal loaded.walId (file.take scan.validBytes) t.files) values :=
      h.truncate hloads hfile hscan
    -- The checks behind the replay.
    have hrest : ∀ (wal : Wal) (memtables : MemTableSet) (t' : Store), Shows t'.files values → Prog.wp (do
        Prog.ofExcept (failWhen (wal.log.nextSequence ≤ loaded.durableSequence)
          (corruption s!"manifest durable sequence {loaded.durableSequence} is not below WAL next sequence {wal.log.nextSequence}"))
        let nextTableId ← Prog.ofExcept (checkedNextId (max loaded.tableIdHighWatermark layout.maxTableId) "SSTable")
        let nextManifestId ← Prog.ofExcept (checkedNextId layout.maxManifestId "manifest")
        let nextWalId ← Prog.ofExcept (checkedNextId layout.maxWalId "WAL")
        pure
          { wal := some wal
            memtables := memtables
            tables := tables
            version := { loaded with tableIdHighWatermark := max loaded.tableIdHighWatermark layout.maxTableId }
            nextTableId := nextTableId
            nextManifestId := nextManifestId
            nextWalId := nextWalId
            poisoned := false : LsmEngine }) (fun _ _ => True) (Fails fun files _ => Shows files values) t' := by
      intro wal memtables t' h'
      rw [Prog.wp_bind]
      refine wp_check h' fun _ _ => ?_
      rw [Prog.wp_bind]
      refine wp_check h' fun _ _ => ?_
      rw [Prog.wp_bind]
      refine wp_check h' fun _ _ => ?_
      rw [Prog.wp_bind]
      exact wp_check h' fun _ _ => trivial
    rw [Prog.wp_bind, truncateTail]
    by_cases htail : scan.recoverableTail.isSome
    · rw [if_pos htail]
      refine wp_rewriteWal h₂ (fun _ bytes hbytes => ?_) fun io' _ => ?_
      · dsimp only
        rw [hfiles]
        rcases hbytes with rfl | ⟨-, rfl⟩
        · exact hcut
        · rw [putWal_same hfile]
          exact h
      · refine hrest _ _ _ ?_
        dsimp only
        rw [hfiles]
        exact hcut
    · rw [if_neg htail]
      exact hrest _ _ _ h₂
  exact Prog.wp_mono (Prog.wp_and (openExisting_reopened hvalid) herror) (fun e t' h' => h _ _ h'.1) fun _ _ he => he.2

/-- What is opened keeps the directory's values. -/
theorem openExisting_keeps (hvalid : ValidDirectory t.files) (h : Shows t.files values) :
    Prog.wp openExisting (fun _ t' => Shows t'.files values) (Fails fun _ _ => True) t := by
  refine Prog.wp_mono (openExisting_reopened hvalid) (fun e t' hreopened => ?_) fun _ _ _ => trivial
  obtain ⟨loaded, file, scan, hloads, -, hfile, hscan, hcases, -⟩ := hreopened
  rcases hcases with ⟨hfiles, -⟩ | hfiles
  · rw [hfiles]
    exact h
  · rw [hfiles]
    exact h.truncate hloads hfile hscan

/-- A segment that is shorter than its header does not open. -/
theorem shows_short {file : Bytes} (hcurrent : files.current = none)
    (hfile : files.wals.find initialWalId = some file) (hshort : file.length < walHeaderLen) : Shows files values := by
  rintro files' e ⟨loaded, file', scan, hloads, -, hfile', hscan, -⟩
  rcases hloads with ⟨-, rfl⟩ | ⟨slot, stored, hread, -⟩
  · have hsame : files.wals.find initialWalId = some file' := hfile'
    rw [hfile, Option.some.injEq] at hsame
    subst hsame
    rw [scanWal, if_pos hshort] at hscan
    cases hscan
  · rw [readCurrent, hcurrent] at hread
    cases hread

/-- **A new directory** has no values, whether it is finished or not. -/
theorem initializeNew_leaves {io : List Io} :
    Prog.wp initializeNew (fun e _ => e.Has .empty) (Fails fun files _ => Shows files .empty)
      ⟨Files.empty, io, []⟩ := by
  have hempty : Shows Files.empty .empty := by
    rintro files' e ⟨loaded, file, scan, -, -, hfile, -⟩
    cases hfile
  have hlimit : initialWalId < u64Limit := by
    rw [u64Limit_eq]
    decide
  have hbacked : ∀ wal : Wal, Wal.createNew initialWalId initialFirstSequence = .ok wal →
      Backed (putWal initialWalId wal.log.file Files.empty) legacyVersion [] [] := fun wal hcreate => by
    obtain ⟨hok, hholds⟩ := Wal.createNew_holds hlimit hlimit hcreate
    exact
      { manifest := .inl ⟨rfl, rfl, rfl, rfl, rfl⟩
        opened := .nil
        segment := ⟨wal, (SortedMap.find_insert ..).trans (if_pos rfl), hholds⟩
        header := hok }
  rw [initializeNew, createNewWal, Prog.wp_bind, Prog.wp_bind]
  refine wp_check hempty fun wal hcreate => ?_
  have h := hbacked wal hcreate
  rw [Prog.wp_bind]
  refine wp_creating (fun _ => hempty) (fun _ => hempty) (fun _ bytes hbytes => ?_) fun io' _ => ?_
  · rcases hbytes with rfl | ⟨written, rfl⟩
    · exact h.shows fun _ => rfl
    · by_cases hshort : (wal.log.file.take written).length < walHeaderLen
      · exact shows_short rfl ((SortedMap.find_insert ..).trans (if_pos rfl)) hshort
      · -- The segment is its header, so that nothing of it is missing.
        have hlength : wal.log.file.length = walHeaderLen := by
          obtain ⟨-, hholds⟩ := Wal.createNew_holds hlimit hlimit hcreate
          rw [hholds.file_eq, List.length_append, encodeWalHeader_length]
          rfl
        rw [List.length_take] at hshort
        rw [List.take_of_length_le (by omega)]
        exact h.shows fun _ => rfl
  · rw [Prog.wp_pure, Prog.wp_bind]
    refine Prog.wp_mono (Prog.wp_and (createInitial_leaves h fun _ => rfl) createInitial_wal)
      (fun version t' _ => ?_) fun _ _ he => he.1
    have hnew : MemTableSet.new mutableMemtableBytesLimit = .ok ⟨.empty, [], mutableMemtableBytesLimit⟩ := rfl
    rw [hnew, Prog.wp_bind, Prog.wp_ofExcept]
    refine ⟨fun memtables heq => ?_, fun _ heq => absurd heq (by simp)⟩
    cases heq
    intro key
    rfl

/-! ### Outcomes -/

/-- How a mutation has ended. -/
inductive Outcome
  | acknowledged (op : Op)
  | failed (op : Op)
  deriving DecidableEq

/-- **A map that explains outcomes**: every acknowledged mutation is applied, and every failed one is applied
or lost. -/
inductive Explains (base : SortedMap Bytes Bytes) : List Outcome → SortedMap Bytes Bytes → Prop
  | start : Explains base [] base
  | acknowledged {outcomes : List Outcome} {values : SortedMap Bytes Bytes} {op : Op} :
      Explains base outcomes values → Explains base (outcomes ++ [.acknowledged op]) (op.mutate values)
  | applied {outcomes : List Outcome} {values : SortedMap Bytes Bytes} {op : Op} :
      Explains base outcomes values → Explains base (outcomes ++ [.failed op]) (op.mutate values)
  | lost {outcomes : List Outcome} {values : SortedMap Bytes Bytes} {op : Op} :
      Explains base outcomes values → Explains base (outcomes ++ [.failed op]) values

/-- The mutation that a call asks for. -/
def Call.mutation : Call → Option Op
  | put key value => some (.put key value)
  | get _ => none
  | delete key => some (.delete key)
  | rangeScan _ _ _ => none
  | reopen => none

/-- A key and a value that the engine takes. -/
def Fits (op : Op) : Prop := op.key.length ≤ maxKeyBytes ∧ op.value.length ≤ maxValueBytes

instance : Decidable (Fits op) := inferInstanceAs (Decidable (_ ∧ _))

/-- The session in front of a call whose accesses have the outcomes `io`. -/
def Session.prepared (s : Session) (io : List Io) : Session := { s with store := { s.store with io := io } }

/-- The outcome of a mutation: it succeeds, or it fails in a usable engine that takes it. -/
def outcomesOf (s : Session) (io : List Io) (c : Call) : List Outcome :=
  match c.mutation, (c.run (s.prepared io)).1 with
  | none, _ => []
  | some op, .ok _ => [.acknowledged op]
  | some op, .error _ => if s.engine.poisoned = false ∧ Fits op then [.failed op] else []

/-- **The runs with their outcomes.** A directory without manifests starts with what its log gives back. -/
inductive Served : SortedMap Bytes Bytes → Files → History → Option LsmEngine → List Outcome → Prop
  | created {io : List Io} {result : Except DbError LsmEngine} {store : Store} :
      initializeNew ⟨Files.empty, io, []⟩ = (result, store) →
      Served .empty store.files store.history result.toOption []
  | legacy {base : SortedMap Bytes Bytes} {files : Files} : files.tables = .empty → files.manifests = .empty →
      files.current = none → Shows files base → Served base files [] none []
  | opened {base : SortedMap Bytes Bytes} {files : Files} {history : History} {outcomes : List Outcome} {io : List Io}
      {result : Except DbError LsmEngine} {store : Store} :
      Served base files history none outcomes → openExisting ⟨files, io, history⟩ = (result, store) →
      Served base store.files store.history result.toOption outcomes
  | call {base : SortedMap Bytes Bytes} {files : Files} {history : History} {outcomes : List Outcome} {e : LsmEngine}
      {s : Session} (io : List Io) (call : Call) : Served base files history (some e) outcomes →
      Session.call ⟨⟨files, [], history⟩, e⟩ io call = s →
      Served base s.store.files s.store.history (some s.engine)
        (outcomes ++ outcomesOf ⟨⟨files, [], history⟩, e⟩ io call)
  | dropped {base : SortedMap Bytes Bytes} {files : Files} {history : History} {outcomes : List Outcome}
      {e : LsmEngine} : Served base files history (some e) outcomes → Served base files history none outcomes

theorem Served.run {handle : Option LsmEngine} {outcomes : List Outcome}
    (h : Served base files history handle outcomes) : Run files history handle := by
  induction h with
  | created hrun => exact .created hrun
  | legacy htables hmanifests hcurrent => exact .legacy htables hmanifests hcurrent
  | opened _ hrun ih => exact .opened ih hrun
  | call io call _ hcall ih => exact .call io call ih hcall
  | dropped _ ih => exact .dropped ih

/-! ### Calls -/

theorem wp_usable {Q : Unit → Session → Prop} {E : DbError → Session → Prop}
    (hrefused : ∀ err, (s.engine.poisoned = false → s.engine.wal.isSome → False) → E err s)
    (hok : s.engine.poisoned = false → Q () s) : Prog.wp ensureUsable Q E s := by
  rw [ensureUsable, Prog.wp_reads]
  by_cases hunusable : s.engine.poisoned ∨ s.engine.wal.isNone
  · rw [if_pos hunusable]
    refine ⟨fun _ heq => absurd heq (by simp), fun err _ => hrefused err fun hpoisoned hwal => ?_⟩
    rcases hunusable with h | h
    · rw [hpoisoned] at h
      cases h
    · rw [Option.isNone_iff_eq_none] at h
      rw [h] at hwal
      cases hwal
  · rw [if_neg hunusable]
    rw [not_or, Bool.not_eq_true] at hunusable
    exact ⟨fun _ _ => hok hunusable.1, fun _ heq => absurd heq (by simp)⟩

/-- **One rule for the mutations**: they are refused and change nothing, or they are `persist_and_apply`. -/
theorem Call.wp_mutation {c : Call} {Q : Unit → Session → Prop} {E : DbError → Session → Prop}
    (hop : c.mutation = some op)
    (hrefused : ∀ err, (s.engine.poisoned = false → s.engine.wal.isSome → ¬ Fits op) → E err s)
    (hrun : s.engine.poisoned = false → Fits op →
      Prog.wp (persistAndApply op.kind op.key (written op)) (fun _ s' => Q () s') E s) : Prog.wp c.run Q E s := by
  cases c with
  | put key value =>
    cases hop
    rw [Call.run, Prog.wp_map, LsmEngine.put, Prog.wp_bind, Prog.wp_ofExcept]
    refine ⟨fun _ hvalid => ?_, fun err herr => hrefused err fun _ _ hfits => ?_⟩
    · rw [Prog.wp_bind]
      refine wp_usable (fun err hunusable => hrefused err fun hpoisoned hwal _ => hunusable hpoisoned hwal)
        fun hpoisoned => ?_
      rw [Prog.wp_bind]
      refine wp_engine ?_
      rw [Prog.wp_bind]
      exact hrun hpoisoned (validateKeyValue_eq_ok.1 hvalid)
    · have hvalid : validateKeyValue key value = .ok () := validateKeyValue_eq_ok.2 hfits
      rw [hvalid] at herr
      cases herr
  | get key => cases hop
  | delete key =>
    cases hop
    rw [Call.run, Prog.wp_map, LsmEngine.delete, Prog.wp_bind, Prog.wp_ofExcept]
    refine ⟨fun _ hvalid => ?_, fun err herr => hrefused err fun _ _ hfits => ?_⟩
    · rw [Prog.wp_bind]
      refine wp_usable (fun err hunusable => hrefused err fun hpoisoned hwal _ => hunusable hpoisoned hwal)
        fun hpoisoned => ?_
      rw [Prog.wp_bind]
      refine wp_engine ?_
      rw [Prog.wp_bind]
      exact hrun hpoisoned ⟨validateKey_eq_ok.1 hvalid, Nat.zero_le _⟩
    · have hvalid : validateKey key = .ok () := validateKey_eq_ok.2 hfits.1
      rw [hvalid] at herr
      cases herr
  | rangeScan start stop limit => cases hop
  | reopen => cases hop

/-- The directory shows the values, and so does a handle that is usable. -/
def AccountsFor (values : SortedMap Bytes Bytes) (files : Files) (handle : Option LsmEngine) : Prop :=
  Shows files values ∧ ∀ e ∈ handle, e.poisoned = false → e.Has values

/-- What outcomes make of the values. -/
def Leads (values : SortedMap Bytes Bytes) (outcomes : List Outcome) (values' : SortedMap Bytes Bytes) : Prop :=
  ∀ base earlier, Explains base earlier values → Explains base (earlier ++ outcomes) values'

theorem leads_nil : Leads values [] values := fun base earlier h => by
  rw [List.append_nil]
  exact h

theorem AccountsFor.poisoned (h : Shows files values) (hpoisoned : e.poisoned = true) :
    AccountsFor values files (some e) := by
  refine ⟨h, ?_⟩
  rintro _ ⟨⟩ hfalse
  rw [hpoisoned] at hfalse
  cases hfalse

/-- A call that is no mutation changes no value. -/
theorem read_accounts {c : Call} (hlayered : Layered s.store.files s.engine) (hmutation : c.mutation = none)
    (h : AccountsFor values s.store.files (some s.engine)) :
    Prog.wp c.run (fun _ s' => AccountsFor values s'.store.files (some s'.engine))
      (Kept fun files _ e => AccountsFor values files (some e)) s := by
  cases c with
  | put key value => cases hmutation
  | get key =>
    rw [Call.run, Prog.wp_map, LsmEngine.get, Prog.wp_bind]
    refine wp_checked h fun _ _ => ?_
    rw [Prog.wp_bind]
    exact wp_ensureUsable h fun _ _ => h
  | delete key => cases hmutation
  | rangeScan start stop limit =>
    rw [Call.run, Prog.wp_map, LsmEngine.rangeScan, Prog.wp_bind]
    refine wp_checked h fun _ _ => ?_
    rw [Prog.wp_bind]
    refine wp_ensureUsable h fun _ _ => ?_
    rw [Prog.wp_bind]
    refine wp_engine ?_
    by_cases hempty : limit = 0 ∨ stop = some start
    · rw [if_pos hempty]
      exact h
    · rw [if_neg hempty]
      exact h
  | reopen =>
    refine wp_reopen (Prog.wp_and (openExisting_leaves hlayered.directory h.1)
      (openExisting_keeps hlayered.directory h.1)) (fun engine store hopen => ?_)
      fun _ _ hshows => .poisoned hshows.1 rfl
    refine ⟨hopen.2, ?_⟩
    rintro _ ⟨⟩ -
    exact hopen.1

/-- **Every call accounts for its outcome.** -/
theorem call_accounts {io : List Io} {c : Call} (hlayered : Layered s.store.files s.engine) (hresting : At Resting s)
    (h : AccountsFor values s.store.files (some s.engine)) :
    ∃ values', Leads values (outcomesOf s io c) values' ∧
      AccountsFor values' (s.call io c).store.files (some (s.call io c).engine) := by
  cases hmutation : c.mutation with
  | none =>
    refine ⟨values, ?_, @kept_of_wp _ (fun files _ e => AccountsFor values files (some e)) _
      (@read_accounts (s.prepared io) _ _ hlayered hmutation h)⟩
    rw [outcomesOf, hmutation]
    exact leads_nil
  | some op =>
    rw [outcomesOf, hmutation, Session.call]
    show ∃ values', _ ∧ AccountsFor values' (c.run (s.prepared io)).2.store.files
      (some (c.run (s.prepared io)).2.engine)
    cases hpoisoned : s.engine.poisoned with
    | true =>
      have hwp : Prog.wp c.run (fun _ _ => False) (fun _ s' => s' = s.prepared io) (s.prepared io) := by
        refine Call.wp_mutation hmutation (fun _ _ => rfl) fun husable => ?_
        have hfalse : s.engine.poisoned = false := husable
        rw [hpoisoned] at hfalse
        cases hfalse
      rcases hrun : c.run (s.prepared io) with ⟨err | _, s'⟩
      · obtain rfl := Prog.wp_error hwp hrun
        refine ⟨values, ?_, h⟩
        dsimp only
        rw [if_neg fun hboth => by cases hboth.1]
        exact leads_nil
      · exact absurd (Prog.wp_ok hwp hrun) id
    | false =>
      have hserving : At (Serving values) (s.prepared io) := ⟨hresting hpoisoned, h.2 _ rfl hpoisoned⟩
      have hwp : Prog.wp c.run (fun _ s' => At (Serving (op.mutate values)) s')
          (fun err s' => ¬ Fits op ∧ s' = s.prepared io ∨ Fits op ∧ Kept (Interrupted op values) err s')
          (s.prepared io) := by
        refine Call.wp_mutation hmutation (fun err hunfit => .inl ⟨hunfit hpoisoned ?_, rfl⟩) fun _ hfits => ?_
        · obtain ⟨ms, hlogged, -⟩ := hserving.1.log
          obtain ⟨wal, hwal, -⟩ := hlogged.wal
          rw [hwal]
          rfl
        · exact Prog.wp_mono (persistAndApply_serving op hserving) (fun _ _ h' => h') fun _ _ he => .inr ⟨hfits, he⟩
      rcases hrun : c.run (s.prepared io) with ⟨err | _, s'⟩
      · dsimp only
        rcases Prog.wp_error hwp hrun with ⟨hunfit, rfl⟩ | ⟨hfits, hinterrupted, hshows⟩
        · rw [if_neg fun hboth => hunfit hboth.2]
          exact ⟨values, leads_nil, h⟩
        · rw [if_pos ⟨rfl, hfits⟩]
          rcases hshows with hshows | hshows
          · exact ⟨values, fun _ _ hexplains => .lost hexplains, .poisoned hshows hinterrupted⟩
          · exact ⟨op.mutate values, fun _ _ hexplains => .applied hexplains, .poisoned hshows hinterrupted⟩
      · have hserving' : At (Serving (op.mutate values)) s' := Prog.wp_ok hwp hrun
        refine ⟨op.mutate values, fun _ _ hexplains => .acknowledged hexplains, hserving'.shows, ?_⟩
        rintro _ ⟨⟩ -
        exact hserving'.2

theorem opened_accounts {x : StoreProg LsmEngine} {store : Store} {result : Except DbError LsmEngine}
    (h : Prog.wp x (fun e t' => e.Has values ∧ Shows t'.files values) (Fails fun files _ => Shows files values) t)
    (hrun : x t = (result, store)) : AccountsFor values store.files result.toOption := by
  cases result with
  | error err => exact ⟨Prog.wp_error h hrun, by rintro _ ⟨⟩⟩
  | ok e =>
    obtain ⟨hhas, hshows⟩ := Prog.wp_ok h hrun
    refine ⟨hshows, ?_⟩
    rintro _ ⟨⟩ -
    exact hhas

theorem openExisting_accounts (hvalid : ValidDirectory t.files) (h : Shows t.files values) :
    Prog.wp openExisting (fun e t' => e.Has values ∧ Shows t'.files values)
      (Fails fun files _ => Shows files values) t :=
  Prog.wp_mono (Prog.wp_and (openExisting_leaves hvalid h) (openExisting_keeps hvalid h)) (fun _ _ h' => h')
    fun _ _ he => he.1

/-- **One map accounts for a run**, its handle and its directory. -/
theorem Served.accounts {handle : Option LsmEngine} {outcomes : List Outcome}
    (h : Served base files history handle outcomes) :
    ∃ values, Explains base outcomes values ∧ AccountsFor values files handle := by
  induction h with
  | created hrun =>
    refine ⟨.empty, .start, opened_accounts (Prog.wp_mono (Prog.wp_and initializeNew_leaves initializeNew_steady)
      (fun e t' h' => ?_) fun _ _ he => he.1) hrun⟩
    obtain ⟨hhas, hsteady⟩ := h'
    exact ⟨hhas, Serving.shows ⟨hsteady, hhas⟩⟩
  | legacy _ _ _ hshows => exact ⟨_, .start, hshows, by rintro _ ⟨⟩⟩
  | opened hbefore hrun ih =>
    obtain ⟨values, hexplains, hshows, -⟩ := ih
    exact ⟨values, hexplains, opened_accounts (openExisting_accounts hbefore.run.resting.1 hshows) hrun⟩
  | @call base files history outcomes e s io call hbefore hcall ih =>
    obtain ⟨values, hexplains, haccounts⟩ := ih
    obtain ⟨-, hresting⟩ := hbefore.run.resting
    obtain ⟨hlayered, hsteady⟩ := hresting e rfl
    obtain ⟨values', hleads, haccounts'⟩ :=
      @call_accounts ⟨⟨files, [], history⟩, e⟩ values io call hlayered hsteady haccounts
    rw [hcall] at haccounts'
    exact ⟨values', hleads _ _ hexplains, haccounts'⟩
  | dropped _ ih =>
    obtain ⟨values, hexplains, hshows, -⟩ := ih
    exact ⟨values, hexplains, hshows, by rintro _ ⟨⟩⟩

/-! ### Answers -/

/-- A session answers every get and every range scan as the reference engine does with the values. -/
def Answers (s : Session) (values : SortedMap Bytes Bytes) : Prop :=
  (∀ key, (LsmEngine.get key s).1 = (Memory.MemoryEngine.get key ⟨values⟩).1) ∧
    ∀ start stop limit, (rangeScan start stop limit s).1 = (Memory.MemoryEngine.rangeScan start stop limit ⟨values⟩).1

theorem validateRangeScan_eq {start : Bytes} {stop : Option Bytes} :
    validateRangeScan start stop = Experiment.validateRangeScan start stop := by
  unfold LsmEngine.validateRangeScan Experiment.validateRangeScan
  cases stop with
  | none => rfl
  | some stop =>
    refine bind_congr fun _ => ?_
    exact bind_pure_unit

/-- The rows of a range are those of the map. -/
theorem rows_eq {start : Bytes} {stop : Option Bytes} (h : Layered files e) (hhas : e.Has values) :
    liveRows (e.visibleRange start stop) = (⟨values⟩ : Memory.MemoryEngine).range start stop := by
  refine (sorted_liveRows _).ext Memory.MemoryEngine.sorted_range fun row => ?_
  obtain ⟨key, value⟩ := row
  rw [h.mem_rows, Memory.MemoryEngine.mem_range, hhas key]
  exact Iff.rfl

theorem Serving.usable (h : At (Serving values) s) : ¬ (s.engine.poisoned ∨ s.engine.wal.isNone) := by
  obtain ⟨ms, hlogged, -⟩ := h.1.log
  obtain ⟨wal, hwal, -⟩ := hlogged.wal
  rw [h.1.usable, hwal]
  simp

theorem Serving.answers (h : At (Serving values) s) : Answers s values := by
  refine ⟨fun key => ?_, fun start stop limit => ?_⟩
  · rw [get_fst, if_neg h.usable, h.2 key, Memory.MemoryEngine.get]
    cases validateKey key with
    | error err => rfl
    | ok _ => rfl
  · rw [rangeScan_fst, if_neg h.usable, rows_eq h.1.layered h.2, validateRangeScan_eq, Memory.MemoryEngine.rangeScan]
    cases Experiment.validateRangeScan start stop with
    | error err => rfl
    | ok _ =>
      rw [Prog.ofExcept_ok_bind, Checked.ok_bind, Prog.get_bind]
      by_cases hempty : limit = 0 ∨ stop = some start
      · rw [if_pos hempty, if_pos hempty]
        rfl
      · rw [if_neg hempty, if_neg hempty]
        rfl

theorem Served.handle_serving {handle : Option LsmEngine} {outcomes : List Outcome} {io : List Io}
    (h : Served base files history handle outcomes) (haccounts : AccountsFor values files handle) (he : e ∈ handle)
    (husable : e.poisoned = false) : At (Serving values) ⟨⟨files, io, history⟩, e⟩ :=
  ⟨(h.run.resting.2 e he).2 husable, haccounts.2 e he husable⟩

theorem Served.opened_serving {handle : Option LsmEngine} {outcomes : List Outcome} {io : List Io} {store : Store}
    (h : Served base files history handle outcomes) (hshows : Shows files values)
    (hopen : openExisting ⟨files, io, history⟩ = (.ok e, store)) : At (Serving values) ⟨store, e⟩ :=
  ⟨Prog.wp_ok (openExisting_steady (t := ⟨files, io, history⟩) h.run.resting.1 h.run.intact.1) hopen,
    Prog.wp_ok (openExisting_leaves (t := ⟨files, io, history⟩) h.run.resting.1 hshows) hopen⟩

/-- **Acknowledged mutations survive.** At every point of a run, one map explains the outcomes so far; a handle
that is not poisoned answers as the reference engine with this map, and so does whatever is opened on the
directory, under any outcomes of its accesses. -/
theorem acknowledged_mutations_survive {handle : Option LsmEngine} {outcomes : List Outcome}
    (h : Served base files history handle outcomes) :
    ∃ values, Explains base outcomes values ∧
      (∀ e ∈ handle, e.poisoned = false → ∀ io, Answers ⟨⟨files, io, history⟩, e⟩ values) ∧
      ∀ io e store, openExisting ⟨files, io, history⟩ = (.ok e, store) → Answers ⟨store, e⟩ values := by
  obtain ⟨values, hexplains, haccounts⟩ := h.accounts
  refine ⟨values, hexplains, fun e he husable io => ?_, fun io e store hopen => ?_⟩
  · exact Serving.answers (h.handle_serving haccounts he husable)
  · exact Serving.answers (h.opened_serving haccounts.1 hopen)

/-- **A crash** in the second put of a key: the record is torn, and the handle is dropped. -/
theorem exists_torn_put : ∃ files history, (openExisting ⟨files, [], history⟩).1.isOk = true ∧
    Served .empty files history none [.acknowledged (.put [97] [49]), .failed (.put [97] [50])] := by
  have hrun : (firstSession.map fun s => (outcomesOf s [] (.put [97] [49]),
      outcomesOf (s.call [] (.put [97] [49])) [.torn 5] (.put [97] [50]),
      (openExisting (((s.call [] (.put [97] [49])).call [.torn 5] (.put [97] [50])).prepared []).store).1.isOk)) =
      some ([.acknowledged (.put [97] [49])], [.failed (.put [97] [50])], true) := by decide +kernel
  obtain ⟨engine, store, hstart⟩ := exists_initializeNew
  rw [firstSession, hstart, Option.map_some, Option.some.injEq] at hrun
  simp only [Prod.mk.injEq] at hrun
  obtain ⟨hfirst, hsecond, hopen⟩ := hrun
  have hserved := ((Served.created hstart).call [] (.put [97] [49]) rfl).call [.torn 5] (.put [97] [50]) rfl
  have houtcomes : [] ++ outcomesOf ⟨⟨store.files, [], store.history⟩, engine⟩ [] (.put [97] [49]) ++
      outcomesOf ((Session.call ⟨⟨store.files, [], store.history⟩, engine⟩ [] (.put [97] [49])).prepared []) [.torn 5]
        (.put [97] [50]) = [.acknowledged (.put [97] [49]), .failed (.put [97] [50])] := by
    rw [List.nil_append]
    exact congrArg₂ _ hfirst hsecond
  exact ⟨_, _, hopen, houtcomes ▸ hserved.dropped⟩

theorem acknowledged_mutations_survive_torn : ∃ files history,
    (openExisting ⟨files, [], history⟩).1.isOk = true ∧
    ∃ values, Explains .empty [.acknowledged (.put [97] [49]), .failed (.put [97] [50])] values ∧
      ∀ io e store, openExisting ⟨files, io, history⟩ = (.ok e, store) → Answers ⟨store, e⟩ values := by
  obtain ⟨files, history, hopen, hserved⟩ := exists_torn_put
  obtain ⟨values, hexplains, -, hanswers⟩ := acknowledged_mutations_survive hserved
  exact ⟨files, history, hopen, values, hexplains, hanswers⟩

/-! ### The values of a key -/

/-- What a key can have behind one more outcome. -/
def Outcome.known (key : Bytes) (known : List (Option Bytes)) : Outcome → List (Option Bytes)
  | acknowledged op => if op.key = key then [(op.mutation 0).value] else known
  | failed op => if op.key = key then (op.mutation 0).value :: known else known

/-- What a key can have behind outcomes: the value of its last acknowledged mutation, or of a failed one behind
it. -/
def possible (key : Bytes) (initial : Option Bytes) (outcomes : List Outcome) : List (Option Bytes) :=
  outcomes.foldl (Outcome.known key) [initial]

theorem possible_concat {initial : Option Bytes} {outcomes : List Outcome} {outcome : Outcome} :
    possible key initial (outcomes ++ [outcome]) = outcome.known key (possible key initial outcomes) := by
  rw [possible, List.foldl_append]
  rfl

theorem Explains.mem_possible {outcomes : List Outcome} (h : Explains base outcomes values) :
    values.find key ∈ possible key (base.find key) outcomes := by
  induction h with
  | start => exact List.mem_singleton_self _
  | @acknowledged outcomes values op h ih =>
    rw [possible_concat, Outcome.known, Op.find_mutate 0]
    by_cases hk : op.key = key
    · rw [if_pos hk, if_pos hk]
      exact List.mem_singleton_self _
    · rw [if_neg hk, if_neg hk]
      exact ih
  | @applied outcomes values op h ih =>
    rw [possible_concat, Outcome.known, Op.find_mutate 0]
    by_cases hk : op.key = key
    · rw [if_pos hk, if_pos hk]
      exact List.mem_cons_self
    · rw [if_neg hk, if_neg hk]
      exact ih
  | @lost outcomes values op h ih =>
    rw [possible_concat, Outcome.known]
    by_cases hk : op.key = key
    · rw [if_pos hk]
      exact List.mem_cons_of_mem _ ih
    · rw [if_neg hk]
      exact ih

theorem Serving.get_possible {outcomes : List Outcome} (h : At (Serving values) s)
    (hexplains : Explains base outcomes values) (hkey : key.length ≤ maxKeyBytes) :
    ∃ value ∈ possible key (base.find key) outcomes, LsmEngine.get key s = (.ok value, s) := by
  have husable := h.usable
  rw [not_or, Bool.not_eq_true, Bool.not_eq_true, Option.isNone_eq_false_iff] at husable
  refine ⟨values.find key, hexplains.mem_possible, ?_⟩
  rw [get_run hkey husable.1 husable.2, h.2 key]

/-- **No acknowledged mutation is lost, and none appears**: in a usable handle and in whatever is opened, a get of a
key returns the value of its last acknowledged mutation, or of one that has failed since. -/
theorem get_last_acknowledged {handle : Option LsmEngine} {outcomes : List Outcome} {key : Bytes}
    (h : Served base files history handle outcomes) (hkey : key.length ≤ maxKeyBytes) :
    (∀ e ∈ handle, e.poisoned = false → ∀ io, ∃ value ∈ possible key (base.find key) outcomes,
      LsmEngine.get key ⟨⟨files, io, history⟩, e⟩ = (.ok value, ⟨⟨files, io, history⟩, e⟩)) ∧
    ∀ io e store, openExisting ⟨files, io, history⟩ = (.ok e, store) →
      ∃ value ∈ possible key (base.find key) outcomes, LsmEngine.get key ⟨store, e⟩ = (.ok value, ⟨store, e⟩) := by
  obtain ⟨values, hexplains, haccounts⟩ := h.accounts
  refine ⟨fun e he husable io => ?_, fun io e store hopen => ?_⟩
  · exact Serving.get_possible (h.handle_serving haccounts he husable) hexplains hkey
  · exact Serving.get_possible (h.opened_serving haccounts.1 hopen) hexplains hkey

theorem get_last_acknowledged_torn : ∃ files history, (openExisting ⟨files, [], history⟩).1.isOk = true ∧
    ∀ io e store, openExisting ⟨files, io, history⟩ = (.ok e, store) →
      ∃ value ∈ [some [50], some [49]], LsmEngine.get [97] ⟨store, e⟩ = (.ok value, ⟨store, e⟩) := by
  obtain ⟨files, history, hopen, hserved⟩ := exists_torn_put
  have hpossible : possible [97] ((SortedMap.empty : SortedMap Bytes Bytes).find [97])
      [.acknowledged (.put [97] [49]), .failed (.put [97] [50])] = [some [50], some [49]] := by decide
  have hget := (get_last_acknowledged hserved (show ([97] : Bytes).length ≤ maxKeyBytes by decide)).2
  rw [hpossible] at hget
  exact ⟨files, history, hopen, hget⟩

end DbLab.Lsm
