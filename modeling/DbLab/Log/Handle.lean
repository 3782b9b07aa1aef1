import DbLab.Log.Engine

/-!
# The durability floor of an append log

`Handle` is the engine with the file system around it: every call can fail, a failed write leaves a
part of the record, the path can lead to another file, and between two calls anyone can replace the
bytes of the file. What the handle has acknowledged is its floor: the length, the record count and the
fingerprint of the prefix. A reopen that succeeds brings back every record of the floor; an operation
that fails behind its first access to the file leaves a poisoned handle.
-/

namespace DbLab.Log

open Record

/-- The calls of the file system, in the words of the functions that make them. -/
inductive Call
  | ownershipCheck | rejectSymbolicLink | openPath | sameFileIdentity | scanFile | hashFilePrefix
  | rescanFile | setLen | syncAll | rehashFilePrefix | seekEnd | seekEndAfterHash | writeAll | syncData
  deriving DecidableEq

/-- What an operation meets at the file system. -/
structure Surroundings where
  fault : Call → Option DbError
  /-- The bytes of the record in the file behind a write that fails. -/
  written : ℕ
  /-- The other file that the path leads to. -/
  elsewhere : Option Bytes

def Surroundings.call (around : Surroundings) (c : Call) : Except DbError Unit :=
  match around.fault c with
  | none => .ok ()
  | some e => .error e

structure Handle where
  path : String
  /-- Source `file`: whether the handle has its file open. -/
  held : Bool
  engine : LogEngine
  deriving DecidableEq

namespace Handle

def poison (h : Handle) : Handle := { h with engine := { h.engine with poisoned := true } }

/-- The handle behind a change of the bytes of its file. -/
def replace (file : Bytes) (h : Handle) : Handle :=
  { h with engine := { h.engine with log := { h.engine.log with file := file } } }

/-- A step whose error poisons the handle. -/
def orPoison {α : Type} (x : Except DbError α) : Prog Handle DbError α := fun h =>
  match x with
  | .ok a => (.ok a, h)
  | .error e => (.error e, h.poison)

/-- A step whose error poisons the handle and takes its file. -/
def orRelease {α : Type} (x : Except DbError α) : Prog Handle DbError α := fun h =>
  match x with
  | .ok a => (.ok a, h)
  | .error e => (.error e, { h.poison with held := false })

def ensureUsable : Prog Handle DbError Unit :=
  Prog.reads fun h => if h.engine.poisoned = true ∨ h.held = false then .error .poisoned else .ok ()

/-- The checks of `append` in front of the write. -/
def checkUnchanged (around : Surroundings) (log : Appender) : Except DbError Unit := do
  around.call .seekEnd
  failWhen (log.file.length ≠ log.acknowledgedValidBytes)
    (.corruption log.file.length (appendTexts.eofChanged log.file.length log.acknowledgedValidBytes))
  around.call .hashFilePrefix
  failWhen (crc32 (log.file.take log.acknowledgedValidBytes) ≠ crc32 log.acknowledgedPrefix)
    (.corruption 0 appendTexts.prefixChanged)
  around.call .seekEndAfterHash
  failWhen (log.file.length ≠ log.acknowledgedValidBytes)
    (.corruption log.file.length
      s!"append-log physical EOF changed while validating mutation: observed {log.file.length}, previously acknowledged {log.acknowledgedValidBytes}")

/-- The accesses of `append` to the file, and the bytes that they leave. -/
def writeRecord (around : Surroundings) (log next : Appender) : Except DbError Unit × Bytes :=
  match checkUnchanged around log with
  | .error e => (.error e, log.file)
  | .ok () =>
    match around.call .writeAll with
    | .error e => (.error e, next.file.take (log.file.length + around.written))
    | .ok () => (around.call .syncData, next.file)

/-- Source `append`. -/
def append (around : Surroundings) (kind : RecordKind) (key value : Bytes) :
    Prog Handle DbError Unit := do
  ensureUsable
  let h ← Prog.get
  let next ← Prog.ofExcept (h.engine.log.prepare recordFormat appendTexts kind key value)
  match writeRecord around h.engine.log next with
  | (.error e, file) => do
    Prog.set (h.replace file).poison
    Prog.throw e
  | (.ok (), _) => Prog.set { h with engine := { h.engine with log := next } }

/-- Source `put`. -/
def put (around : Surroundings) (key value : Bytes) : Prog Handle DbError (Option Bytes) := do
  Prog.ofExcept (validateKeyValue key value)
  let h ← Prog.get
  let previous := (lookupBy Prod.fst key h.engine.values).map Prod.snd
  append around .put key value
  Prog.modify fun h =>
    { h with engine := { h.engine with values := upsertBy Prod.fst (key, value) h.engine.values } }
  pure previous

/-- Source `get`. -/
def get (key : Bytes) : Prog Handle DbError (Option Bytes) := do
  Prog.ofExcept (validateKey key)
  ensureUsable
  let h ← Prog.get
  pure ((lookupBy Prod.fst key h.engine.values).map Prod.snd)

/-- Source `delete`. -/
def delete (around : Surroundings) (key : Bytes) : Prog Handle DbError (Option Bytes) := do
  Prog.ofExcept (validateKey key)
  let h ← Prog.get
  let previous := (lookupBy Prod.fst key h.engine.values).map Prod.snd
  append around .delete key []
  Prog.modify fun h =>
    { h with engine := { h.engine with values := removeBy Prod.fst key h.engine.values } }
  pure previous

def perform (around : Surroundings) : Op → Prog Handle DbError (Option Bytes)
  | .put key value => put around key value
  | .delete key => delete around key

/-- Source `from_file` of a candidate, and the bytes that it leaves. -/
def fromCandidate (around : Surroundings) (file : Bytes) : Except DbError LogEngine × Bytes :=
  match around.call .rescanFile >>= fun _ => Log.scanFile file with
  | .error e => (.error e, file)
  | .ok scan =>
    match if scan.recoverableTail.isSome then around.call .setLen else .ok () with
    | .error e => (.error e, file)
    | .ok () =>
      let repaired := if scan.recoverableTail.isSome then file.take scan.validBytes else file
      match (if scan.recoverableTail.isSome then around.call .syncAll else .ok ()) >>= fun _ =>
          around.call .rehashFilePrefix >>= fun _ => around.call .seekEnd with
      | .error e => (.error e, repaired)
      | .ok () =>
        (.ok { log :=
                { file := repaired
                  nextSequence := scan.nextSequence
                  recordCount := scan.recordCount
                  acknowledgedValidBytes := scan.validBytes
                  acknowledgedPrefix := repaired.take scan.validBytes }
               values := scan.values
               recoveredTail := scan.recoverableTail
               poisoned := false }, repaired)

/-- The check of `reopen` that the path still leads to the file that the handle has open. -/
def checkIdentity (around : Surroundings) : Prog Handle DbError Unit := do
  let h ← Prog.get
  if h.held then do
    orRelease (around.call .sameFileIdentity)
    orPoison (failWhen (around.elsewhere.isSome = true) (.invalidInput
      s!"append-log backing file identity changed before reopen: {h.path}"))
  else pure ()

/-- The comparison of `reopen` with what the handle has acknowledged. -/
def checkFloor (around : Surroundings) (log : Appender) (file : Bytes) : Except DbError Unit := do
  around.call .scanFile
  let observed ← Log.scanFile file
  failWhen (observed.recordCount < log.recordCount) (.corruption 0
    s!"append-log record count regressed across reopen: observed {observed.recordCount}, previously acknowledged {log.recordCount}")
  failWhen (observed.validBytes < log.acknowledgedValidBytes) (.corruption observed.validBytes
    "acknowledged record changed before reopen: valid prefix became shorter")
  around.call .hashFilePrefix
  failWhen (crc32 (file.take log.acknowledgedValidBytes) ≠ crc32 log.acknowledgedPrefix)
    (.corruption 0
      "acknowledged record changed before reopen: durable prefix fingerprint mismatch")

/-- Source `reopen`. -/
def reopen (around : Surroundings) : Prog Handle DbError Unit := do
  orRelease (around.call .ownershipCheck)
  orPoison (around.call .rejectSymbolicLink)
  orPoison (around.call .openPath)
  checkIdentity around
  let h ← Prog.get
  orPoison (checkFloor around h.engine.log (around.elsewhere.getD h.engine.log.file))
  match fromCandidate around (around.elsewhere.getD h.engine.log.file) with
  | (.ok engine, _) => Prog.set { h with held := true, engine := engine }
  | (.error e, file) => do
    -- The change of another file is none of the file behind the handle.
    Prog.set (if around.elsewhere.isSome then h else h.replace file).poison
    Prog.throw e

variable {h h' : Handle} {around : Surroundings} {ms : List Mutation} {engine : LogEngine}
  {log next : Appender} {file key : Bytes} {op : Op} {e : DbError} {u : Unit}

/-! ### The floor -/

/-- The fingerprint tells the acknowledged prefix from the bytes at its place. -/
def Detects (log : Appender) (file : Bytes) : Prop :=
  crc32 (file.take log.acknowledgedValidBytes) = crc32 log.acknowledgedPrefix →
    file.take log.acknowledgedValidBytes = log.acknowledgedPrefix

/-- The records that the handle has acknowledged, whatever the file holds by now. -/
structure Acknowledged (engine : LogEngine) (ms : List Mutation) : Prop where
  appended : { engine.log with file := engine.log.acknowledgedPrefix }.Appended recordFormat
    encodeFileHeader 1 ms
  values : engine.values = replayAll ms

structure Floor (h : Handle) (ms : List Mutation) : Prop where
  acknowledged : Acknowledged h.engine ms
  detects : Detects h.engine.log h.engine.log.file
  held : h.engine.poisoned = false → h.held = true

theorem Acknowledged.length_eq (h : Acknowledged engine ms) :
    engine.log.acknowledgedValidBytes = engine.log.acknowledgedPrefix.length :=
  h.appended.acknowledged

theorem Acknowledged.prefix_eq (h : Acknowledged engine ms) :
    engine.log.acknowledgedPrefix = encodeFileHeader ++ recordFormat.recordsBytes ms :=
  h.appended.file_eq

theorem Acknowledged.of_holds (h : engine.Holds ms) : Acknowledged engine ms where
  appended := by
    rw [h.appended.acknowledgedPrefix]
    exact h.appended
  values := h.values

theorem Detects.of_take (h : file.take log.acknowledgedValidBytes = log.acknowledgedPrefix) :
    Detects log file := fun _ => h

theorem Floor.of_holds (hholds : h.engine.Holds ms) (hheld : h.held = true) : Floor h ms where
  acknowledged := .of_holds hholds
  detects := .of_take <| by
    rw [hholds.appended.acknowledged, List.take_length, hholds.appended.acknowledgedPrefix]
  held := fun _ => hheld

theorem Floor.replace (hfloor : Floor h ms) (hdetects : Detects h.engine.log file) :
    Floor (h.replace file) ms :=
  ⟨⟨hfloor.acknowledged.appended, hfloor.acknowledged.values⟩, hdetects, hfloor.held⟩

theorem Floor.poison (hfloor : Floor h ms) : Floor h.poison ms :=
  ⟨⟨hfloor.acknowledged.appended, hfloor.acknowledged.values⟩, hfloor.detects, fun hp => by cases hp⟩

theorem Floor.release (hfloor : Floor h ms) : Floor { h.poison with held := false } ms :=
  ⟨hfloor.poison.acknowledged, hfloor.detects, fun hp => by cases hp⟩

/-! ### Appends -/

theorem checkUnchanged_file (hdetects : Detects engine.log engine.log.file)
    (hcheck : checkUnchanged around engine.log = .ok u) :
    engine.log.file = engine.log.acknowledgedPrefix := by
  unfold checkUnchanged at hcheck
  simp only [Checked.bind_eq_ok, failWhen_eq_ok, not_not] at hcheck
  obtain ⟨-, -, -, hlen, -, -, -, hcrc, -⟩ := hcheck
  have htake := hdetects hcrc
  rwa [List.take_of_length_le hlen.le] at htake

/-- The accesses to the file write the record, or leave a part of it behind the acknowledged bytes. -/
theorem writeRecord_cases (hack : Acknowledged engine ms) (hdetects : Detects engine.log engine.log.file)
    {record : Bytes} (hnext : next.file = engine.log.file ++ record) :
    (∃ e file, writeRecord around engine.log next = (.error e, file) ∧ Detects engine.log file) ∨
    (writeRecord around engine.log next = (.ok (), next.file) ∧
      engine.log.file = engine.log.acknowledgedPrefix) := by
  unfold writeRecord
  cases hcheck : checkUnchanged around engine.log with
  | error e => exact .inl ⟨e, _, rfl, hdetects⟩
  | ok _ =>
    have hfile := checkUnchanged_file hdetects hcheck
    have hlen : engine.log.acknowledgedValidBytes = engine.log.file.length := by
      rw [hfile, hack.length_eq]
    cases around.call .writeAll with
    | error e =>
      refine .inl ⟨e, _, rfl, .of_take ?_⟩
      rw [List.take_take, hlen, min_eq_left (Nat.le_add_right ..), hnext, List.take_left, hfile]
    | ok _ =>
      cases around.call .syncData with
      | error e =>
        refine .inl ⟨e, _, rfl, .of_take ?_⟩
        rw [hlen, hnext, List.take_left, hfile]
      | ok _ => exact .inr ⟨rfl, hfile⟩

/-- The checks in front of the file do not see it. -/
theorem prepare_error (hp : log.prepare recordFormat appendTexts op.kind op.key op.value = .error e) :
    ({ log with file := file } : Appender).prepare recordFormat appendTexts op.kind op.key op.value =
      .error e := by
  unfold Appender.prepare at hp ⊢
  dsimp only at hp ⊢
  cases hsequence : checkedSucc log.nextSequence (.corruption 0 appendTexts.sequenceExhausted) with
  | error e' => rw [hsequence] at hp; exact hp
  | ok next =>
    rw [hsequence, Checked.ok_bind] at hp
    rw [Checked.ok_bind]
    cases hcount : checkedSucc log.recordCount (.corruption 0 appendTexts.countExhausted) with
    | error e' => rw [hcount] at hp; exact hp
    | ok count =>
      rw [hcount, Checked.ok_bind] at hp
      rw [Checked.ok_bind]
      cases hrecord : recordFormat.encodeRecord op.kind log.nextSequence op.key op.value with
      | error e' => rw [hrecord] at hp; exact hp
      | ok record =>
        rw [hrecord, Checked.ok_bind] at hp
        rw [Checked.ok_bind]
        cases hlength : checkedAdd log.acknowledgedValidBytes record.length
            (.corruption 0 appendTexts.lengthOverflow) with
        | error e' => rw [hlength] at hp; exact hp
        | ok length => rw [hlength] at hp; cases hp

theorem prepare_file (hp : log.prepare recordFormat appendTexts op.kind op.key op.value = .ok next) :
    ∃ record, next.file = log.file ++ record := by
  unfold Appender.prepare at hp
  simp only [Checked.bind_eq_ok, Except.ok.injEq] at hp
  obtain ⟨sequence, -, count, -, record, -, length, -, rfl⟩ := hp
  exact ⟨record, rfl⟩

/-- The append of a usable handle whose record passes its checks. -/
theorem append_run (husable : ensureUsable h = (.ok (), h))
    (hp : h.engine.log.prepare recordFormat appendTexts op.kind op.key op.value = .ok next) :
    append around op.kind op.key op.value h =
      match writeRecord around h.engine.log next with
      | (.error e, file) => (.error e, (h.replace file).poison)
      | (.ok (), _) => (.ok (), { h with engine := { h.engine with log := next } }) := by
  rw [append, Prog.bind_ok husable, Prog.get_bind, hp, Prog.ofExcept_ok_bind]
  rcases writeRecord around h.engine.log next with ⟨(e | ⟨⟩), file⟩ <;> rfl

/-- An error in front of the first access to the file is the same whatever the file holds. -/
def Refused (around : Surroundings) (op : Op) (e : DbError) (h : Handle) : Prop :=
  ∀ file, perform around op (h.replace file) = (.error e, h.replace file)

/-- **What an append does** to a handle that keeps its floor. -/
theorem Floor.append (hfloor : Floor h ms) (around : Surroundings) (op : Op) :
    (∃ log, log.Appended recordFormat encodeFileHeader 1 (ms ++ [op.mutation h.engine.log.nextSequence]) ∧
      h.engine.poisoned = false ∧
      append around op.kind op.key op.value h =
        (.ok (), { h with engine := { h.engine with log := log } })) ∨
    (∃ e h', append around op.kind op.key op.value h = (.error e, h') ∧ h'.engine.poisoned = true ∧
      Floor h' ms) ∨
    ∃ e, ∀ around file, append around op.kind op.key op.value (h.replace file) =
      (.error e, h.replace file) := by
  by_cases hpoisoned : h.engine.poisoned = true
  · refine .inr (.inl ⟨.poisoned, h, ?_, hpoisoned, hfloor⟩)
    rw [Handle.append, Prog.bind_error (e := .poisoned) (t := h)]
    rw [ensureUsable, Prog.reads, if_pos (.inl hpoisoned)]
  · rw [Bool.not_eq_true] at hpoisoned
    have husable : ∀ file, ensureUsable (h.replace file) = (.ok (), h.replace file) := by
      intro file
      rw [ensureUsable, Prog.reads, if_neg]
      show ¬ (h.engine.poisoned = true ∨ h.held = false)
      rw [hpoisoned, hfloor.held hpoisoned]
      decide
    cases hp : h.engine.log.prepare recordFormat appendTexts op.kind op.key op.value with
    | error e =>
      refine .inr (.inr ⟨e, fun around file => ?_⟩)
      rw [Handle.append, Prog.bind_ok (husable file), Prog.get_bind,
        show (h.replace file).engine.log = { h.engine.log with file := file } from rfl, prepare_error hp]
      rfl
    | ok next =>
      obtain ⟨record, hrecord⟩ := prepare_file hp
      have hrun' : Handle.append around op.kind op.key op.value h = _ := append_run (husable h.engine.log.file) hp
      rcases @writeRecord_cases around ms h.engine next hfloor.acknowledged hfloor.detects record hrecord with
        ⟨e, file, hrun, hdetects⟩ | ⟨hrun, hfile⟩
      · rw [hrun] at hrun'
        exact .inr (.inl ⟨e, _, hrun', rfl, (hfloor.replace hdetects).poison⟩)
      · rw [hrun] at hrun'
        refine .inl ⟨next, ?_, hpoisoned, hrun'⟩
        have happended := hfloor.acknowledged.appended
        rw [← hfile] at happended
        exact happended.prepare hp

/-- The limits refuse an operation, or it is its append and then the change of the map. -/
theorem perform_run (op : Op) :
    (∃ e, ∀ around h, perform around op h = (.error e, h)) ∨
    ∀ around h, perform around op h =
      match append around op.kind op.key op.value h with
      | (.error e, h') => (.error e, h')
      | (.ok (), h') =>
        (.ok ((lookupBy Prod.fst op.key h.engine.values).map Prod.snd),
          { h' with engine := { h'.engine with
              values := replay h'.engine.values (op.mutation h.engine.log.nextSequence) } }) := by
  cases op with
  | put key value =>
    cases hvalid : validateKeyValue key value with
    | error e =>
      refine .inl ⟨e, fun around h => ?_⟩
      rw [perform, put, hvalid]
      rfl
    | ok u =>
      refine .inr fun around h => ?_
      rw [perform, put, hvalid, Prog.ofExcept_ok_bind, Prog.get_bind]
      dsimp only [Op.kind, Op.key, Op.value]
      rcases hrun : append around .put key value h with ⟨(e | ⟨⟩), h'⟩
      · exact Prog.bind_error hrun
      · exact Prog.bind_ok hrun
  | delete key =>
    cases hvalid : validateKey key with
    | error e =>
      refine .inl ⟨e, fun around h => ?_⟩
      rw [perform, delete, hvalid]
      rfl
    | ok u =>
      refine .inr fun around h => ?_
      rw [perform, delete, hvalid, Prog.ofExcept_ok_bind, Prog.get_bind]
      dsimp only [Op.kind, Op.key, Op.value]
      rcases hrun : append around .delete key [] h with ⟨(e | ⟨⟩), h'⟩
      · exact Prog.bind_error hrun
      · exact Prog.bind_ok hrun

/-- **What an operation does** to a handle that keeps its floor: it adds its record to the floor, or
it poisons the handle, or it is refused in front of the file. -/
theorem Floor.perform (hfloor : Floor h ms) (around : Surroundings) (op : Op) :
    (∃ previous h', perform around op h = (.ok previous, h') ∧ h'.engine.poisoned = false ∧
      Floor h' (ms ++ [op.mutation h.engine.log.nextSequence])) ∨
    (∃ e h', perform around op h = (.error e, h') ∧ h'.engine.poisoned = true ∧ Floor h' ms) ∨
    ∃ e, ∀ around, Refused around op e h := by
  rcases perform_run op with ⟨e, hrefused⟩ | hrun
  · exact .inr (.inr ⟨e, fun around file => hrefused around _⟩)
  · rcases hfloor.append around op with ⟨log, happended, hlive, happend⟩ | ⟨e, h', happend, hpoisoned, hfloor'⟩ |
      ⟨e, hrefused⟩
    · have hperform := hrun around h
      rw [happend] at hperform
      refine .inl ⟨_, _, hperform, hlive, .of_holds ⟨happended, ?_, hlive⟩ (hfloor.held hlive)⟩
      rw [LogEngine.replayAll_append, ← hfloor.acknowledged.values]
    · refine .inr (.inl ⟨e, h', ?_, hpoisoned, hfloor'⟩)
      rw [hrun, happend]
    · refine .inr (.inr ⟨e, fun around file => ?_⟩)
      rw [hrun, hrefused]

/-! ### Reopen -/

theorem wp_orPoison {α : Type} {Q : α → Handle → Prop} {E : DbError → Handle → Prop} {x : Except DbError α}
    (hok : ∀ a, x = .ok a → Q a h) (herror : ∀ e, E e h.poison) : Prog.wp (orPoison x) Q E h := by
  cases x with
  | error e => exact herror e
  | ok a => exact hok a rfl

theorem wp_orRelease {α : Type} {Q : α → Handle → Prop} {E : DbError → Handle → Prop} {x : Except DbError α}
    (hok : ∀ a, x = .ok a → Q a h) (herror : ∀ e, E e { h.poison with held := false }) :
    Prog.wp (orRelease x) Q E h := by
  cases x with
  | error e => exact herror e
  | ok a => exact hok a rfl

/-- What the candidate of a reopen becomes, and what an error leaves of it. -/
theorem fromCandidate_cases (around : Surroundings) (file : Bytes) :
    (∃ engine left, fromCandidate around file = (.ok engine, left) ∧
      LogEngine.fromFile file false = .ok engine) ∨
    ∃ e left, fromCandidate around file = (.error e, left) ∧
      (left = file ∨ ∃ scan, Log.scanFile file = .ok scan ∧ left = file.take scan.validBytes) := by
  unfold fromCandidate
  cases around.call .rescanFile with
  | error e => exact .inr ⟨e, file, rfl, .inl rfl⟩
  | ok _ =>
    rw [Checked.ok_bind]
    cases hscan : Log.scanFile file with
    | error e => exact .inr ⟨e, file, rfl, .inl rfl⟩
    | ok scan =>
      dsimp only
      cases if scan.recoverableTail.isSome then around.call .setLen else .ok () with
      | error e => exact .inr ⟨e, file, rfl, .inl rfl⟩
      | ok _ =>
        dsimp only
        cases (if scan.recoverableTail.isSome then around.call .syncAll else .ok ()) >>= fun _ =>
            around.call .rehashFilePrefix >>= fun _ => around.call .seekEnd with
        | error e =>
          refine .inr ⟨e, _, rfl, ?_⟩
          split_ifs
          · exact .inr ⟨scan, rfl, rfl⟩
          · exact .inl rfl
        | ok _ =>
          refine .inl ⟨_, _, rfl, ?_⟩
          rw [LogEngine.fromFile]
          simp only [Bool.false_eq_true, if_false, hscan, Checked.ok_bind]

/-- A candidate that passes the comparison starts with the acknowledged bytes. -/
theorem checkFloor_eq_ok (hdetects : Detects log file) (hcheck : checkFloor around log file = .ok u) :
    file.take log.acknowledgedValidBytes = log.acknowledgedPrefix ∧
    ∃ scan, Log.scanFile file = .ok scan ∧ log.acknowledgedValidBytes ≤ scan.validBytes := by
  unfold checkFloor at hcheck
  simp only [Checked.bind_eq_ok, failWhen_eq_ok, not_not, not_lt] at hcheck
  obtain ⟨-, -, scan, hscan, -, -, -, hvalid, -, -, hcrc⟩ := hcheck
  exact ⟨hdetects hcrc, scan, hscan, hvalid⟩

/-- The candidate of a reopen that passes the comparison holds every acknowledged record. -/
theorem Acknowledged.fromFile {candidate : LogEngine} (hack : Acknowledged engine ms)
    (hstarts : file.take engine.log.acknowledgedValidBytes = engine.log.acknowledgedPrefix)
    (hscan : ∃ scan, Log.scanFile file = .ok scan ∧ engine.log.acknowledgedValidBytes ≤ scan.validBytes)
    (hopen : LogEngine.fromFile file false = .ok candidate) :
    ∃ extra, candidate.Holds (ms ++ extra) := by
  obtain ⟨ms', tail, hfile, hholds⟩ := LogEngine.holds_of_fromFile hopen
  obtain ⟨scan, hscan, hvalid⟩ := hscan
  have hbytes : scan.validBytes = (encodeFileHeader ++ recordFormat.recordsBytes ms').length := by
    rw [← hholds.appended.file_eq, ← hholds.appended.acknowledged]
    unfold LogEngine.fromFile at hopen
    simp only [Bool.false_eq_true, if_false, hscan, Checked.ok_bind, Except.ok.injEq] at hopen
    rw [← hopen]
  have hstart : engine.log.acknowledgedPrefix <+: encodeFileHeader ++ recordFormat.recordsBytes ms' := by
    rw [hfile, ← List.append_assoc, List.take_append_of_le_length (hbytes ▸ hvalid)] at hstarts
    exact hstarts ▸ List.take_prefix _ _
  rw [hack.prefix_eq, List.prefix_append_right_inj] at hstart
  obtain ⟨extra, rfl⟩ := RecordFormat.prefix_of_recordsBytes hack.appended.writable
    hholds.appended.writable hack.appended.consecutive hholds.appended.consecutive
    hack.appended.sequence_lt.le hstart
  exact ⟨extra, hholds⟩

/-- **A reopen** brings back every acknowledged record, or it poisons the handle. -/
theorem Floor.reopen (hfloor : Floor h ms)
    (helse : ∀ file, around.elsewhere = some file → Detects h.engine.log file) :
    Prog.wp (reopen around) (fun _ h' => h'.held = true ∧ ∃ extra, h'.engine.Holds (ms ++ extra))
      (fun _ h' => h'.engine.poisoned = true ∧ Floor h' ms) h := by
  -- Every failure poisons the handle and keeps the floor, with the lease or without it.
  have hpoison : h.poison.engine.poisoned = true ∧ Floor h.poison ms := ⟨rfl, hfloor.poison⟩
  have hrelease : ({ h.poison with held := false } : Handle).engine.poisoned = true ∧
      Floor { h.poison with held := false } ms := ⟨rfl, hfloor.release⟩
  have hdetects : Detects h.engine.log (around.elsewhere.getD h.engine.log.file) := by
    cases helsewhere : around.elsewhere with
    | none => exact hfloor.detects
    | some file => exact helse file helsewhere
  unfold Handle.reopen
  rw [Prog.wp_bind]
  refine wp_orRelease (fun _ _ => ?_) fun _ => hrelease
  rw [Prog.wp_bind]
  refine wp_orPoison (fun _ _ => ?_) fun _ => hpoison
  rw [Prog.wp_bind]
  refine wp_orPoison (fun _ _ => ?_) fun _ => hpoison
  rw [Prog.wp_bind, checkIdentity, Prog.wp_bind, Prog.wp_get]
  -- With the lease held, the candidate is checked against the floor and becomes the engine.
  have hrest : Prog.wp (do
      let h ← Prog.get
      orPoison (checkFloor around h.engine.log (around.elsewhere.getD h.engine.log.file))
      match fromCandidate around (around.elsewhere.getD h.engine.log.file) with
      | (.ok engine, _) => Prog.set { h with held := true, engine := engine }
      | (.error e, file) => do
        Prog.set (if around.elsewhere.isSome then h else h.replace file).poison
        Prog.throw e)
      (fun _ h' => h'.held = true ∧ ∃ extra, h'.engine.Holds (ms ++ extra))
      (fun _ h' => h'.engine.poisoned = true ∧ Floor h' ms) h := by
    rw [Prog.wp_bind, Prog.wp_get, Prog.wp_bind]
    refine wp_orPoison (fun _ hcheck => ?_) fun _ => hpoison
    obtain ⟨hstarts, hscan⟩ := checkFloor_eq_ok hdetects hcheck
    rcases fromCandidate_cases around (around.elsewhere.getD h.engine.log.file) with
      ⟨engine, left, hrun, hopen⟩ | ⟨e, left, hrun, hleft⟩
    · rw [hrun]
      exact ⟨rfl, hfloor.acknowledged.fromFile hstarts hscan hopen⟩
    · rw [hrun]
      refine ⟨rfl, Floor.poison ?_⟩
      cases helsewhere : around.elsewhere with
      | some file => exact hfloor
      | none =>
        rw [helsewhere, Option.getD_none] at hstarts hscan hleft
        refine hfloor.replace (.of_take ?_)
        rcases hleft with rfl | ⟨scan, hleft, rfl⟩
        · exact hstarts
        · obtain ⟨scan', hscan, hvalid⟩ := hscan
          obtain rfl : scan' = scan := by
            rw [hleft] at hscan
            exact (Except.ok.inj hscan).symm
          rw [List.take_take, min_eq_left hvalid, hstarts]
  by_cases hheld : h.held = true
  · rw [if_pos hheld, Prog.wp_bind]
    refine wp_orRelease (fun _ _ => ?_) fun _ => hrelease
    exact wp_orPoison (fun _ _ => hrest) fun _ => hpoison
  · rw [if_neg hheld, Prog.wp_pure]
    exact hrest

/-! ### Runs -/

/-- Nothing goes wrong at the file system. -/
def Quiet (around : Surroundings) : Prop := ∀ c, around.fault c = none

theorem Quiet.call (hquiet : Quiet around) (c : Call) : around.call c = .ok () := by
  rw [Surroundings.call, hquiet c]

/-- Without faults the handle is the engine. -/
theorem append_of_quiet (hquiet : Quiet around) (path : String) (engine : LogEngine) (kind : RecordKind)
    (key value : Bytes) :
    append around kind key value ⟨path, true, engine⟩ =
      ((LogEngine.append kind key value engine).1,
        ⟨path, true, (LogEngine.append kind key value engine).2⟩) := by
  rw [Handle.append, LogEngine.append]
  by_cases hpoisoned : engine.poisoned = true
  · rw [Prog.bind_error (e := .poisoned) (t := ⟨path, true, engine⟩), Prog.bind_error (e := .poisoned) (t := engine)]
    · rw [LogEngine.ensureUsable, Prog.reads, if_pos hpoisoned]
    · rw [ensureUsable, Prog.reads, if_pos (.inl hpoisoned)]
  · rw [Prog.bind_ok (a := ()) (t := ⟨path, true, engine⟩), Prog.bind_ok (a := ()) (t := engine), Prog.get_bind,
      Prog.get_bind]
    · cases engine.log.prepare recordFormat appendTexts kind key value with
      | error e => rfl
      | ok next =>
        have hcheck : writeRecord around engine.log next =
            match engine.log.validate appendTexts with
            | .error e => (.error e, engine.log.file)
            | .ok () => (.ok (), next.file) := by
          unfold writeRecord checkUnchanged Appender.validate failWhen checkWhen
          simp only [hquiet.call, Checked.ok_bind]
          by_cases hlen : engine.log.file.length = engine.log.acknowledgedValidBytes
          · by_cases hcrc : crc32 (engine.log.file.take engine.log.acknowledgedValidBytes) =
              crc32 engine.log.acknowledgedPrefix
            · simp [hlen, hcrc]
            · simp [hlen, hcrc]
          · simp [hlen]
        rw [Prog.ofExcept_ok_bind, Prog.ofExcept_ok_bind]
        dsimp only
        rw [hcheck]
        cases engine.log.validate appendTexts with
        | error e => rfl
        | ok _ => rfl
    · rw [LogEngine.ensureUsable, Prog.reads, if_neg hpoisoned]
    · rw [ensureUsable, Prog.reads, if_neg]
      simpa using hpoisoned

/-- The runs of a handle, with the mutations that it acknowledges. Between two calls anyone changes
the file, within what the fingerprint of the acknowledged prefix can tell. -/
inductive Run (start : Handle) : List Mutation → Handle → Prop
  | start : Run start [] start
  | outside {acked : List Mutation} {h : Handle} (file : Bytes) (hrun : Run start acked h)
      (hdetects : Detects h.engine.log file) : Run start acked (h.replace file)
  | acknowledged {acked : List Mutation} {h h' : Handle} {previous : Option Bytes} (around : Surroundings)
      (op : Op) (hrun : Run start acked h) (hperform : perform around op h = (.ok previous, h')) :
      Run start (acked ++ [op.mutation h.engine.log.nextSequence]) h'
  | failed {acked : List Mutation} {h h' : Handle} {e : DbError} (around : Surroundings) (op : Op)
      (hrun : Run start acked h) (hperform : perform around op h = (.error e, h')) : Run start acked h'
  | read {acked : List Mutation} {h h' : Handle} {result : Except DbError (Option Bytes)} (key : Bytes)
      (hrun : Run start acked h) (hget : get key h = (result, h')) : Run start acked h'
  | reopened {acked : List Mutation} {h h' : Handle} {result : Except DbError Unit} (around : Surroundings)
      (hrun : Run start acked h)
      (helse : ∀ file, around.elsewhere = some file → Detects h.engine.log file)
      (hreopen : reopen around h = (result, h')) : Run start acked h'

theorem get_run (key : Bytes) (h : Handle) : ∃ result, get key h = (result, h) := by
  rw [get]
  cases validateKey key with
  | error e => exact ⟨.error e, rfl⟩
  | ok _ =>
    rw [Prog.ofExcept_ok_bind]
    by_cases hstopped : h.engine.poisoned = true ∨ h.held = false
    · refine ⟨.error .poisoned, Prog.bind_error ?_⟩
      rw [ensureUsable, Prog.reads, if_pos hstopped]
    · refine ⟨_, Prog.bind_ok (a := ()) (t := h) ?_⟩
      rw [ensureUsable, Prog.reads, if_neg hstopped]

/-- A live handle answers from its map. -/
theorem Floor.get (hfloor : Floor h ms) (hlive : h.engine.poisoned = false)
    (hkey : validateKey key = .ok ()) :
    get key h = (.ok ((lookupBy Prod.fst key (replayAll ms)).map Prod.snd), h) := by
  rw [Handle.get, hkey, Prog.ofExcept_ok_bind, Prog.bind_ok (a := ()) (t := h), Prog.get_bind,
    hfloor.acknowledged.values]
  · rfl
  · rw [ensureUsable, Prog.reads, if_neg]
    rw [hlive, hfloor.held hlive]
    decide

/-- A poisoned handle serves nothing. -/
theorem poisoned_serves_nothing (hpoisoned : h.engine.poisoned = true) :
    (∀ around op, ∃ e, perform around op h = (.error e, h)) ∧ ∀ key, ∃ e, get key h = (.error e, h) := by
  have hstopped : ensureUsable h = (.error .poisoned, h) := by
    rw [ensureUsable, Prog.reads, if_pos (.inl hpoisoned)]
  constructor
  · intro around op
    rcases perform_run op with ⟨e, hrefused⟩ | hrun
    · exact ⟨e, hrefused around h⟩
    · refine ⟨.poisoned, ?_⟩
      rw [hrun, Handle.append, Prog.bind_error hstopped]
  · intro key
    rw [Handle.get]
    cases validateKey key with
    | error e => exact ⟨e, rfl⟩
    | ok _ =>
      rw [Prog.ofExcept_ok_bind]
      exact ⟨.poisoned, Prog.bind_error hstopped⟩

/-- **A run keeps the floor** and adds to it: the records of the start, and behind them in order every
mutation that the handle acknowledges. -/
theorem Run.floor {start : Handle} {before acked : List Mutation} (hstart : Floor start before)
    (hrun : Run start acked h) : ∃ later, Floor h (before ++ later) ∧ acked.Sublist later := by
  induction hrun with
  | start => exact ⟨[], by rwa [List.append_nil], .slnil⟩
  | outside file _ hdetects ih =>
    obtain ⟨later, hfloor, hsub⟩ := ih
    exact ⟨later, hfloor.replace hdetects, hsub⟩
  | @acknowledged _ h _ _ around op _ hperform ih =>
    obtain ⟨later, hfloor, hsub⟩ := ih
    rcases hfloor.perform around op with ⟨previous, h', hrun, -, hfloor'⟩ | ⟨e, h', hrun, -⟩ | ⟨e, hrefused⟩
    · rw [hrun] at hperform
      obtain ⟨-, rfl⟩ := Prod.mk.inj hperform
      refine ⟨later ++ [op.mutation h.engine.log.nextSequence], ?_, hsub.append (.refl _)⟩
      rwa [← List.append_assoc]
    · rw [hrun] at hperform
      cases hperform
    · have hsame : perform around op h = (.error e, h) := hrefused around h.engine.log.file
      rw [hsame] at hperform
      cases hperform
  | @failed _ h _ _ around op _ hperform ih =>
    obtain ⟨later, hfloor, hsub⟩ := ih
    refine ⟨later, ?_, hsub⟩
    rcases hfloor.perform around op with ⟨previous, h', hrun, -⟩ | ⟨e, h', hrun, -, hfloor'⟩ | ⟨e, hrefused⟩
    · rw [hrun] at hperform
      cases hperform
    · rw [hrun] at hperform
      obtain ⟨-, rfl⟩ := Prod.mk.inj hperform
      exact hfloor'
    · have hsame : perform around op h = (.error e, h) := hrefused around h.engine.log.file
      rw [hsame] at hperform
      obtain ⟨-, rfl⟩ := Prod.mk.inj hperform
      exact hfloor
  | @read _ h _ _ key _ hget ih =>
    obtain ⟨result, hsame⟩ := get_run key h
    rw [hsame] at hget
    obtain ⟨-, rfl⟩ := Prod.mk.inj hget
    exact ih
  | @reopened _ h h' result around _ helse hreopen ih =>
    obtain ⟨later, hfloor, hsub⟩ := ih
    have hwp := hfloor.reopen helse
    cases result with
    | error e => exact ⟨later, (Prog.wp_error hwp hreopen).2, hsub⟩
    | ok _ =>
      -- A reopened handle may find records of failed calls behind the acknowledged ones.
      obtain ⟨hheld, extra, hholds⟩ := Prog.wp_ok hwp hreopen
      refine ⟨later ++ extra, .of_holds ?_ hheld, hsub.trans (List.sublist_append_left _ _)⟩
      rwa [← List.append_assoc]

/-- **The durability floor.** In every run the handle knows the records of the start and behind them,
in order, every mutation that it acknowledged. While it is live it answers from their replay. A reopen
that succeeds recovers all of them, and possibly further records; one that fails poisons the handle. A
mutation that fails poisons the handle or fails in front of the file, with the same error whatever the
file holds. A poisoned handle serves nothing. -/
theorem durability_floor {path : String} {file : Option Bytes} {acked : List Mutation}
    (hopen : LogEngine.openFile file = .ok engine) (hrun : Run ⟨path, true, engine⟩ acked h) :
    ∃ before later, engine.Holds before ∧ acked.Sublist later ∧
      Acknowledged h.engine (before ++ later) ∧
      (h.engine.poisoned = false → ∀ key, validateKey key = .ok () →
        get key h = (.ok ((lookupBy Prod.fst key (replayAll (before ++ later))).map Prod.snd), h)) ∧
      (∀ around, (∀ file, around.elsewhere = some file → Detects h.engine.log file) →
        ∀ result h', reopen around h = (result, h') →
          match result with
          | .ok _ => h'.held = true ∧ ∃ extra, h'.engine.Holds (before ++ later ++ extra)
          | .error _ => h'.engine.poisoned = true) ∧
      (∀ around op e h', perform around op h = (.error e, h') →
        h'.engine.poisoned = true ∨ h' = h ∧ ∀ around, Refused around op e h) ∧
      (h.engine.poisoned = true →
        (∀ around op, ∃ e, perform around op h = (.error e, h)) ∧ ∀ key, ∃ e, get key h = (.error e, h)) := by
  obtain ⟨before, hholds⟩ := LogEngine.holds_of_openFile hopen
  obtain ⟨later, hfloor, hsub⟩ := hrun.floor (.of_holds hholds rfl)
  refine ⟨before, later, hholds, hsub, hfloor.acknowledged, fun hlive key => hfloor.get hlive, ?_, ?_,
    poisoned_serves_nothing⟩
  · intro around helse result h' hreopen
    have hwp := hfloor.reopen helse
    cases result with
    | ok _ => exact Prog.wp_ok hwp hreopen
    | error e => exact (Prog.wp_error hwp hreopen).1
  · intro around op e h' hperform
    rcases hfloor.perform around op with ⟨previous, h'', hrun, -⟩ | ⟨e', h'', hrun, hpoisoned, -⟩ | ⟨e', hrefused⟩
    · rw [hrun] at hperform
      cases hperform
    · rw [hrun] at hperform
      obtain ⟨-, rfl⟩ := Prod.mk.inj hperform
      exact .inl hpoisoned
    · have hsame : perform around op h = (.error e', h) := hrefused around h.engine.log.file
      rw [hsame] at hperform
      obtain ⟨he, rfl⟩ := Prod.mk.inj hperform
      obtain rfl := Except.error.inj he
      exact .inr ⟨rfl, hrefused⟩

/-- A file system without faults. -/
def quiet : Surroundings := ⟨fun _ => none, 0, none⟩

/-- A handle on a new file that has taken one write. -/
def written : Handle :=
  (perform quiet (.put [7] [8])
    ⟨"log", true, ⟨⟨encodeFileHeader, 1, 0, 16, encodeFileHeader⟩, [], none, false⟩⟩).2

/-- The file of a handle loses its last byte, and the reopen refuses it. -/
theorem durability_floor_cut : ∃ h, Run ⟨"log", true, ⟨⟨encodeFileHeader, 1, 0, 16, encodeFileHeader⟩, [], none, false⟩⟩
      [⟨1, [7], some [8]⟩] h ∧
    (∃ before later, [⟨1, [7], some [8]⟩].Sublist later ∧ Acknowledged h.engine (before ++ later)) ∧
    (reopen quiet h).2.engine.poisoned = true := by
  have hput : Run ⟨"log", true, ⟨⟨encodeFileHeader, 1, 0, 16, encodeFileHeader⟩, [], none, false⟩⟩
      [⟨1, [7], some [8]⟩] written :=
    @Run.acknowledged _ _ _ written none quiet (.put [7] [8]) .start (by decide +kernel)
  have hcut : Detects written.engine.log (written.engine.log.file.take 49) := fun hcrc =>
    absurd hcrc (by decide +kernel)
  have hrun := hput.outside _ hcut
  have hopen : LogEngine.openFile none =
      .ok ⟨⟨encodeFileHeader, 1, 0, 16, encodeFileHeader⟩, [], none, false⟩ := by decide +kernel
  obtain ⟨before, later, -, hsub, hack, -, hreopen, -⟩ := durability_floor hopen hrun
  refine ⟨_, hrun, ⟨before, later, hsub, hack⟩, ?_⟩
  rcases hresult : reopen quiet (written.replace (written.engine.log.file.take 49)) with ⟨(e | u), h'⟩
  · exact hreopen quiet (by simp [quiet]) _ _ hresult
  · have hfails : (reopen quiet (written.replace (written.engine.log.file.take 49))).1 ≠ .ok () := by
      decide +kernel
    rw [hresult] at hfails
    exact absurd rfl hfails

end Handle
end DbLab.Log
