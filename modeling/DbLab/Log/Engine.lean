import DbLab.Lib.Prog
import DbLab.Log.AppendLog
import DbLab.Record.Append

/-!
# The append-log engine

`LogEngine` appends a record for every mutation before it changes its map, and refuses to go on when
its file is no longer the one that it acknowledged. The file is at one path that no other process
replaces; the writes themselves succeed.
-/

namespace DbLab.Log

open Record

def appendTexts : AppendTexts where
  sequenceExhausted := "record sequence number exhausted"
  countExhausted := "record counter exhausted"
  lengthOverflow := "acknowledged prefix length overflowed u64"
  eofChanged observed acknowledged :=
    s!"append-log physical EOF changed before mutation: observed {observed}, previously acknowledged {acknowledged}"
  prefixChanged :=
    "acknowledged record changed before mutation: durable prefix fingerprint mismatch"

structure LogEngine where
  log : Appender
  values : Values
  recoveredTail : Option TruncatedTail
  poisoned : Bool
  deriving DecidableEq

namespace LogEngine

/-- Source `from_file`. -/
def fromFile (file : Bytes) (created : Bool) : Except DbError LogEngine := do
  let file := if created then encodeFileHeader else file
  let scan ← scanFile file
  let file := if scan.recoverableTail.isSome then file.take scan.validBytes else file
  .ok { log :=
          { file := file
            nextSequence := scan.nextSequence
            recordCount := scan.recordCount
            acknowledgedValidBytes := scan.validBytes
            acknowledgedPrefix := file.take scan.validBytes }
        values := scan.values
        recoveredTail := scan.recoverableTail
        poisoned := false }

/-- Source `create_new`, for a path that is free. -/
def createNew : Except DbError LogEngine := fromFile [] true

/-- Source `open`, for a path that is free or has a file. -/
def openFile : Option Bytes → Except DbError LogEngine
  | none => createNew
  | some file => fromFile file false

def ensureUsable : Prog LogEngine DbError Unit :=
  Prog.reads fun engine => if engine.poisoned then .error .poisoned else .ok ()

/-- Source `append`. An error behind the first access to the file poisons the handle. -/
def append (kind : RecordKind) (key value : Bytes) : Prog LogEngine DbError Unit := do
  ensureUsable
  let engine ← Prog.get
  let next ← Prog.ofExcept (engine.log.prepare recordFormat appendTexts kind key value)
  match engine.log.validate appendTexts with
  | .error e => do
    Prog.set { engine with poisoned := true }
    Prog.throw e
  | .ok () => Prog.set { engine with log := next }

/-- Source `put`. -/
def put (key value : Bytes) : Prog LogEngine DbError (Option Bytes) := do
  Prog.ofExcept (validateKeyValue key value)
  let engine ← Prog.get
  let previous := (lookupBy Prod.fst key engine.values).map Prod.snd
  append .put key value
  Prog.modify fun engine => { engine with values := upsertBy Prod.fst (key, value) engine.values }
  pure previous

/-- Source `get`. -/
def get (key : Bytes) : Prog LogEngine DbError (Option Bytes) := do
  Prog.ofExcept (validateKey key)
  ensureUsable
  let engine ← Prog.get
  pure ((lookupBy Prod.fst key engine.values).map Prod.snd)

/-- Source `delete`. -/
def delete (key : Bytes) : Prog LogEngine DbError (Option Bytes) := do
  Prog.ofExcept (validateKey key)
  let engine ← Prog.get
  let previous := (lookupBy Prod.fst key engine.values).map Prod.snd
  append .delete key []
  Prog.modify fun engine => { engine with values := removeBy Prod.fst key engine.values }
  pure previous

def perform : Op → Prog LogEngine DbError (Option Bytes)
  | .put key value => put key value
  | .delete key => delete key

/-- The mutations that the engine acknowledges, with the sequence numbers that it gives them, and the
engine behind them. -/
def performAll : List Op → LogEngine → List Mutation × LogEngine
  | [], engine => ([], engine)
  | op :: ops, engine =>
    match perform op engine with
    | (.ok _, engine') =>
      let (ms, last) := performAll ops engine'
      (op.mutation engine.log.nextSequence :: ms, last)
    | (.error _, engine') => performAll ops engine'

variable {engine : LogEngine} {ms : List Mutation}

/-- The engine has written the mutations and holds their replay. -/
structure Holds (engine : LogEngine) (ms : List Mutation) : Prop where
  appended : engine.log.Appended recordFormat encodeFileHeader 1 ms
  values : engine.values = replayAll ms
  usable : engine.poisoned = false

/-- What an append does to an engine that holds its file: it adds the record, or it fails without a
trace. -/
theorem Holds.append (h : Holds engine ms) (op : Op) :
    (∃ log, log.Appended recordFormat encodeFileHeader 1 (ms ++ [op.mutation engine.log.nextSequence]) ∧
      append op.kind op.key op.value engine = (.ok (), { engine with log := log })) ∨
    ∃ e, append op.kind op.key op.value engine = (.error e, engine) := by
  have husable : ensureUsable engine = (.ok (), engine) := by
    simp [ensureUsable, Prog.reads, h.usable]
  unfold LogEngine.append
  rw [Prog.bind_ok husable, Prog.get_bind]
  cases hp : engine.log.prepare recordFormat appendTexts op.kind op.key op.value with
  | error e => exact .inr ⟨e, rfl⟩
  | ok next =>
    refine .inl ⟨next, h.appended.prepare hp, ?_⟩
    rw [Prog.ofExcept_ok_bind, h.appended.validate]
    rfl

theorem replayAll_append (m : Mutation) : replayAll (ms ++ [m]) = replay (replayAll ms) m :=
  List.foldl_append

/-- An operation behind its checks: the append, and then the change of the map. -/
theorem Holds.append_modify (h : Holds engine ms) (op : Op) (previous : Option Bytes)
    (change : Values → Values) (hchange : ∀ values sequence, change values = replay values (op.mutation sequence)) :
    let run : Prog LogEngine DbError (Option Bytes) := do
      LogEngine.append op.kind op.key op.value
      Prog.modify fun engine => { engine with values := change engine.values }
      pure previous
    (∃ engine', run engine = (.ok previous, engine') ∧
      Holds engine' (ms ++ [op.mutation engine.log.nextSequence])) ∨
    ∃ e, run engine = (.error e, engine) := by
  rcases h.append op with ⟨log, hlog, hrun⟩ | ⟨e, hrun⟩
  · refine .inl ⟨{ engine with log := log, values := change engine.values },
      (Prog.bind_ok hrun).trans rfl, hlog, ?_, h.usable⟩
    rw [replayAll_append, ← h.values]
    exact hchange _ _
  · exact .inr ⟨e, Prog.bind_error hrun⟩

/-- **One operation** of an engine that holds its file. -/
theorem Holds.perform (h : Holds engine ms) (op : Op) :
    (∃ previous engine', perform op engine = (.ok previous, engine') ∧
      Holds engine' (ms ++ [op.mutation engine.log.nextSequence])) ∨
    ∃ e, perform op engine = (.error e, engine) := by
  cases op with
  | put key value =>
    rw [LogEngine.perform, put]
    cases validateKeyValue key value with
    | error e => exact .inr ⟨e, rfl⟩
    | ok _ =>
      rcases h.append_modify (.put key value) ((lookupBy Prod.fst key engine.values).map Prod.snd)
        (upsertBy Prod.fst (key, value)) (fun _ _ => rfl) with ⟨engine', hrun, h'⟩ | ⟨e, hrun⟩
      · exact .inl ⟨(lookupBy Prod.fst key engine.values).map Prod.snd, engine', hrun, h'⟩
      · exact .inr ⟨e, hrun⟩
  | delete key =>
    rw [LogEngine.perform, delete]
    cases validateKey key with
    | error e => exact .inr ⟨e, rfl⟩
    | ok _ =>
      rcases h.append_modify (.delete key) ((lookupBy Prod.fst key engine.values).map Prod.snd)
        (removeBy Prod.fst key) (fun _ _ => rfl) with ⟨engine', hrun, h'⟩ | ⟨e, hrun⟩
      · exact .inl ⟨(lookupBy Prod.fst key engine.values).map Prod.snd, engine', hrun, h'⟩
      · exact .inr ⟨e, hrun⟩

/-- **A run of operations.** -/
theorem Holds.performAll (h : Holds engine ms) (ops : List Op) :
    Holds (performAll ops engine).2 (ms ++ (performAll ops engine).1) := by
  induction ops generalizing engine ms with
  | nil => simpa [LogEngine.performAll] using h
  | cons op ops ih =>
    rw [LogEngine.performAll]
    rcases h.perform op with ⟨previous, engine', hrun, h'⟩ | ⟨e, hrun⟩
    · rw [hrun]
      have := ih h'
      rwa [List.append_assoc] at this
    · rw [hrun]
      exact ih h

/-- A new engine holds the empty list of mutations. -/
theorem exists_createNew : ∃ engine, createNew = .ok engine ∧ Holds engine [] := by
  have hlen : encodeFileHeader.length = 16 := encodeFileHeader_length
  have hscan : scanFile encodeFileHeader = .ok ⟨16, 16, 0, 1, none, []⟩ := by
    have hshort : ¬ encodeFileHeader.length < fileHeaderLen := by
      rw [encodeFileHeader_length]
      exact lt_irrefl _
    rw [scanFile, if_neg hshort, List.take_of_length_le encodeFileHeader_length.le,
      (validateFileHeader_eq_ok (u := ()) encodeFileHeader_length).2 rfl, Checked.ok_bind,
      List.drop_eq_nil_of_le encodeFileHeader_length.le, hlen]
    rfl
  refine ⟨⟨⟨encodeFileHeader, 1, 0, 16, encodeFileHeader⟩, [], none, false⟩, ?_, ?_, rfl, rfl⟩
  · rw [createNew, fromFile]
    simp only [if_true, hscan, Checked.ok_bind]
    rw [if_neg (by simp), List.take_of_length_le hlen.le]
  · constructor
    · simp
    · simp
    · trivial
    · rfl
    · rfl
    · exact hlen.symm
    · rfl
    · rw [u64Limit_eq]
      decide
    · rw [u64Limit_eq]
      decide
    · rw [hlen, u64Limit_eq]
      decide

/-- The scan of the file of an engine, cut behind its header. -/
theorem Holds.scanFile_cut (h : Holds engine ms) {n k : ℕ} {tail : Bytes}
    (hcut : recordFormat.Cut ms n k tail) :
    scanFile (engine.log.file.take (fileHeaderLen + n)) = .ok
      { fileBytes := (engine.log.file.take (fileHeaderLen + n)).length
        validBytes := recordFormat.recordStart fileHeaderLen ms k
        recordCount := k
        nextSequence := 1 + k
        recoverableTail := recordFormat.cutTail fileHeaderLen ms k tail
        values := replayAll (ms.take k) } := by
  have hscan := h.appended.scan_cut hcut (fun values m => .ok (replay values m)) []
  have hhead := h.appended.take_header n
  rw [encodeFileHeader_length] at hscan hhead
  have hlong : ¬ (engine.log.file.take (fileHeaderLen + n)).length < fileHeaderLen := by
    have := congrArg List.length hhead
    rw [List.length_take, encodeFileHeader_length] at this
    omega
  rw [scanFile, if_neg hlong, hhead,
    (validateFileHeader_eq_ok (u := ()) encodeFileHeader_length).2 rfl, Checked.ok_bind, hscan,
    foldlM_replay]
  rfl

/-- The scan of the whole file of an engine. -/
theorem Holds.scanFile (h : Holds engine ms) :
    ∃ scan, scanFile engine.log.file = .ok scan ∧ scan.values = replayAll ms ∧
      scan.recoverableTail = none := by
  have hcut : recordFormat.Cut ms (recordFormat.recordsBytes ms).length ms.length [] :=
    ⟨le_rfl, by rw [List.take_length, List.take_length, List.append_nil], .inl rfl⟩
  have hscan := h.scanFile_cut hcut
  have hfile : engine.log.file.take (fileHeaderLen + (recordFormat.recordsBytes ms).length) =
      engine.log.file := by
    refine List.take_of_length_le ?_
    rw [h.appended.file_eq, List.length_append, encodeFileHeader_length]
  rw [hfile, List.take_length] at hscan
  exact ⟨_, hscan, rfl, rfl⟩

/-- What the open of a file makes of its scan. -/
theorem openFile_of_scan {file : Bytes} {scan : ScanResult Values} (h : Log.scanFile file = .ok scan) :
    ∃ engine, openFile (some file) = .ok engine ∧ engine.values = scan.values ∧
      engine.log.file =
        if scan.recoverableTail.isSome then file.take scan.validBytes else file := by
  rw [openFile, fromFile]
  simp only [Bool.false_eq_true, if_false, h, Checked.ok_bind]
  exact ⟨_, rfl, rfl, rfl⟩

/-- **An engine that opens a file holds the records that the scan has found**, behind the repair of
the tail. -/
theorem holds_of_fromFile {file : Bytes} (h : fromFile file false = .ok engine) :
    ∃ ms tail, file = encodeFileHeader ++ (recordFormat.recordsBytes ms ++ tail) ∧ Holds engine ms := by
  unfold fromFile at h
  simp only [Bool.false_eq_true, if_false, Checked.bind_eq_ok, Except.ok.injEq] at h
  obtain ⟨scan, hscan, rfl⟩ := h
  unfold Log.scanFile at hscan
  by_cases hshort : file.length < fileHeaderLen
  · rw [if_pos hshort] at hscan
    cases hscan
  rw [if_neg hshort, Checked.bind_eq_ok] at hscan
  obtain ⟨_, hvalid, hscan⟩ := hscan
  rw [not_lt] at hshort
  rw [validateFileHeader_eq_ok (by rw [List.length_take, min_eq_left hshort])] at hvalid
  obtain ⟨ms, tail, hread⟩ := RecordFormat.scanRecords_eq_ok (by rw [List.length_drop]; omega)
    (by rw [List.length_drop]; simp only; omega) hscan
  have hfile : file = encodeFileHeader ++ (recordFormat.recordsBytes ms ++ tail) := by
    rw [← hread.rest_eq, ← hvalid, List.take_append_drop]
  have hbytes : scan.validBytes = (encodeFileHeader ++ recordFormat.recordsBytes ms).length := by
    rw [hread.validBytes, List.length_append, encodeFileHeader_length]
  -- A torn tail is cut off, and without one there is nothing behind the records.
  have hrepaired : (if scan.recoverableTail.isSome then file.take scan.validBytes else file) =
      encodeFileHeader ++ recordFormat.recordsBytes ms := by
    rcases hread.tail_ok with ⟨hnone, rfl⟩ | ⟨required, -, hsome⟩
    · rw [hnone]
      simpa using hfile
    · rw [hsome, Option.isSome_some, if_pos rfl, hfile, ← List.append_assoc, hbytes, List.take_left]
  have hvalues := hread.values
  rw [foldlM_replay, Except.ok.injEq] at hvalues
  refine ⟨ms, tail, hfile, ⟨hrepaired, hread.writable, hread.consecutive, hread.nextSequence, ?_, ?_, ?_, ?_, ?_, ?_⟩,
    hvalues.symm, rfl⟩
  · simpa using hread.recordCount
  · simp only
    rw [hrepaired, hbytes]
  · simp only
    rw [hrepaired, hbytes, List.take_length]
  · by_cases hms : ms = []
    · rw [hms, u64Limit_eq]
      decide
    · exact hread.sequence_lt hms
  · by_cases hms : ms = []
    · rw [hms, u64Limit_eq]
      decide
    · have := hread.sequence_lt hms
      simp only at this
      omega
  · simp only
    rw [hrepaired, List.length_append, encodeFileHeader_length]
    by_cases hms : ms = []
    · rw [hms, u64Limit_eq]
      decide
    · exact hread.length_lt hms

theorem holds_of_openFile {file : Option Bytes} (h : openFile file = .ok engine) :
    ∃ ms, Holds engine ms := by
  cases file with
  | none =>
    obtain ⟨engine', hcreate, hholds⟩ := exists_createNew
    rw [openFile, hcreate, Except.ok.injEq] at h
    exact ⟨[], h ▸ hholds⟩
  | some file =>
    obtain ⟨ms, -, -, hholds⟩ := holds_of_fromFile h
    exact ⟨ms, hholds⟩

theorem length_upsertBy_le (a : Bytes × Bytes) (values : Values) :
    (upsertBy Prod.fst a values).length ≤ values.length + 1 := by
  induction values with
  | nil => simp [upsertBy]
  | cons b values ih =>
    rw [upsertBy]
    by_cases h1 : a.1 < b.1
    · rw [if_pos h1, List.length_cons]
    · rw [if_neg h1]
      by_cases h2 : a.1 = b.1
      · rw [if_pos h2, List.length_cons, List.length_cons]
        omega
      · rw [if_neg h2, List.length_cons, List.length_cons]
        omega

/-- A log has at most as many live keys as records. -/
theorem length_replayAll_le (ms : List Mutation) : (replayAll ms).length ≤ ms.length := by
  induction ms using List.reverseRecOn with
  | nil => simp [replayAll]
  | append_singleton ms m ih =>
    rw [replayAll_append, List.length_append, List.length_singleton, replay]
    cases m.value with
    | some value => exact (length_upsertBy_le _ _).trans (by omega)
    | none => exact (List.length_filter_le ..).trans (by omega)

end LogEngine
end DbLab.Log
