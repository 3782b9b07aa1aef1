import DbLab.Log.Numbered
import DbLab.Tx.ReadWrite

/-!
# The transaction log

`db-log-tx-incremental` and `db-log-tx-serialized` keep one record for every batch, under a key with the id of
its transaction, and rebuild their map from the records when they open. The second program has its engine
behind a lock, and any number of threads call it.
-/

namespace DbLab.Tx

open Log

/-- How a program names its database. -/
def Program.databaseName : Program → String
  | readWrite => "read-write"
  | serialized => "serialized"
  | incremental => "incremental"

structure IncrementalTransactionEngine where
  backing : LogEngine
  values : Committed
  nextTxId : ℕ
  deriving DecidableEq

namespace IncrementalTransactionEngine

/-- One round of the loop of `open`, with the map and the expected transaction id. -/
def replayEntry (program : Program) (state : Committed × ℕ) (entry : Bytes × Bytes) :
    Except DbError (Committed × ℕ) := do
  failWhen (entry.1 = legacySnapshotKey) (.invalidInput
    "legacy snapshot transaction database is not compatible with incremental v2; use db-log-tx for the v1 database")
  match ← parseTxKey entry.1 with
  | none => .error (corruption
      s!"{program.databaseName} transaction database contains unexpected live key {encodeHex entry.1}")
  | some txId =>
    failWhen (txId ≠ state.2) (corruption
      s!"incremental transaction id discontinuity: expected {state.2}, found {txId}")
    let mutations ← program.decodeTransaction entry.2 txId
    let expected ← checkedSucc state.2 (corruption "transaction id overflow during replay")
    .ok (applyMutations state.1 mutations, expected)

/-- Source `open`. -/
def openFile (program : Program) (file : Option Bytes) : Except DbError IncrementalTransactionEngine := do
  let backing ← LogEngine.openFile file
  let inspection ← scanFile backing.log.file
  let (values, expectedTxId) ← inspection.values.foldlM (replayEntry program) (.empty, 1)
  .ok ⟨backing, values, expectedTxId⟩

def onBacking {α : Type} (x : Prog LogEngine DbError α) : Prog IncrementalTransactionEngine DbError α :=
  Prog.zoom backing (fun engine backing => { engine with backing := backing }) x

/-- Source `commit_batch`. -/
def commitBatch (program : Program) (mutations : List Mutation) : Prog IncrementalTransactionEngine DbError ℕ := do
  Prog.ofExcept (program.validateBatch mutations)
  let engine ← Prog.get
  let encoded ← Prog.ofExcept (program.encodeTransaction engine.nextTxId mutations)
  let _ ← onBacking (LogEngine.put (txKey engine.nextTxId) encoded)
  Prog.modify fun engine => { engine with values := applyMutations engine.values mutations }
  let nextTxId ← Prog.ofExcept (checkedSucc engine.nextTxId
    (.invalidInput "transaction id space exhausted after commit"))
  Prog.modify fun engine => { engine with nextTxId := nextTxId }
  pure engine.nextTxId

end IncrementalTransactionEngine

variable {program : Program} {n m k : ℕ} {mutations : List Mutation} {batches : List (List Mutation)}
  {values : Committed}

/-- The keys sort as the ids. -/
theorem txKey_lt (h : n < m) (hm : m < u64Limit) : txKey n < txKey m := by
  refine List.append_left_lt (leBytes_reverse_lt h ?_)
  rw [u64Limit_eq] at hm
  omega

/-- The records of batches that are committed one after another. -/
def batchLog (program : Program) (batches : List (List Mutation)) : List Record.Mutation :=
  numberedLog txKey program.record 1 batches

/-- A map with the batches applied in order. -/
def applyBatches (values : Committed) (batches : List (List Mutation)) : Committed :=
  batches.foldl applyMutations values

namespace IncrementalTransactionEngine

/-- **The replay applies the batches.** -/
theorem foldlM_replayEntry_entries (hpos : 0 < n) (hlimit : n + batches.length < u64Limit)
    (hvalid : ∀ mutations ∈ batches, program.validateBatch mutations = .ok ()) :
    (numberedEntries txKey program.record n batches).foldlM (replayEntry program) (values, n) =
      .ok (applyBatches values batches, n + batches.length) := by
  induction batches generalizing n values with
  | nil => rfl
  | cons mutations batches ih =>
    rw [List.length_cons] at hlimit
    obtain ⟨hfirst, hrest⟩ := List.forall_mem_cons.1 hvalid
    have hstep : replayEntry program (values, n) (txKey n, program.record n mutations) =
        .ok (applyMutations values mutations, n + 1) := by
      have hlegacy : failWhen (txKey n = legacySnapshotKey) (.invalidInput
          "legacy snapshot transaction database is not compatible with incremental v2; use db-log-tx for the v1 database") =
          .ok () := failWhen_eq_ok.2 (txKey_ne_legacy _)
      have hn : n < u64Limit := by omega
      have hdecode : program.decodeTransaction (program.record n mutations) n = .ok mutations :=
        (Program.decodeTransaction_eq_ok hn).2 ⟨hfirst, rfl⟩
      rw [replayEntry]
      dsimp only
      rw [hlegacy, Checked.ok_bind, parseTxKey_txKey hpos (by omega), Checked.ok_bind]
      dsimp only
      rw [failWhen_eq_ok (u := ()) |>.2 (not_not.2 rfl), Checked.ok_bind, hdecode, Checked.ok_bind,
        checkedSucc_eq_ok.2 ⟨by omega, rfl⟩]
      rfl
    rw [numberedEntries, List.foldlM_cons, hstep, Checked.ok_bind, ih (Nat.succ_pos n) (by omega) hrest,
      List.length_cons]
    congr 2
    omega

variable {engine engine' : IncrementalTransactionEngine} {tail : Bytes}

/-- An engine that has committed the batches. -/
structure Recorded (program : Program) (engine : IncrementalTransactionEngine) (batches : List (List Mutation)) :
    Prop where
  holds : engine.backing.Holds (batchLog program batches)
  valid : ∀ mutations ∈ batches, program.validateBatch mutations = .ok ()
  values : engine.values = applyBatches .empty batches
  nextTxId : engine.nextTxId = batches.length + 1

/-- A new store. -/
theorem exists_openFile_none (program : Program) :
    ∃ engine, openFile program none = .ok engine ∧ Recorded program engine [] := by
  obtain ⟨backing, hcreate, hholds⟩ := LogEngine.exists_createNew
  obtain ⟨scan, hscan, hvalues, -⟩ := hholds.scanFile
  refine ⟨⟨backing, .empty, 1⟩, ?_, hholds, fun _ h => absurd h List.not_mem_nil, rfl, rfl⟩
  rw [openFile, LogEngine.openFile, hcreate, Checked.ok_bind, hscan, Checked.ok_bind, hvalues]
  rfl

/-- **Opening the file of an engine, cut behind its header.** -/
theorem Recorded.openFile_cut (h : Recorded program engine batches)
    (hcut : recordFormat.Cut (batchLog program batches) n k tail) :
    ∃ engine', openFile program (some (engine.backing.log.file.take (fileHeaderLen + n))) = .ok engine' ∧
      Recorded program engine' (batches.take k) := by
  obtain ⟨backing, hopen, hholds⟩ := openFile_of_cut h.holds hcut
  rw [batchLog, numberedLog_take] at hholds
  obtain ⟨scan, hscan, hvalues, -⟩ := hholds.scanFile
  have hlimit := hholds.appended.sequence_lt
  rw [numberedLog_length] at hlimit
  have hvalid : ∀ mutations ∈ batches.take k, program.validateBatch mutations = .ok () :=
    fun mutations hmem => h.valid mutations (List.mem_of_mem_take hmem)
  have hreplay := @foldlM_replayEntry_entries program 1 (batches.take k) .empty Nat.one_pos hlimit hvalid
  rw [← replayAll_numberedLog txKey_lt hlimit.le, ← hvalues] at hreplay
  refine ⟨⟨backing, applyBatches .empty (batches.take k), 1 + (batches.take k).length⟩, ?_, hholds, hvalid, rfl,
    Nat.add_comm ..⟩
  rw [openFile, hopen, Checked.ok_bind, hscan, Checked.ok_bind, hreplay]
  rfl

/-- **A commit** adds its batch under the next id, or fails without a trace. -/
theorem Recorded.commitBatch (h : Recorded program engine batches) (mutations : List Mutation) :
    (∃ engine', commitBatch program mutations engine = (.ok (batches.length + 1), engine') ∧
      Recorded program engine' (batches ++ [mutations])) ∨
    ∃ e, commitBatch program mutations engine = (.error e, engine) := by
  unfold IncrementalTransactionEngine.commitBatch
  cases hvalid : program.validateBatch mutations with
  | error e => exact .inr ⟨e, rfl⟩
  | ok _ =>
  rw [Prog.ofExcept_ok_bind, Prog.get_bind]
  cases hencode : program.encodeTransaction engine.nextTxId mutations with
  | error e => exact .inr ⟨e, rfl⟩
  | ok encoded =>
  rw [Prog.ofExcept_ok_bind]
  rcases h.holds.perform (.put (txKey engine.nextTxId) encoded) with
    ⟨previous, backing, hput, hholds⟩ | ⟨e, hput⟩
  · have hrun : onBacking (LogEngine.put (txKey engine.nextTxId) encoded) engine =
        (.ok previous, { engine with backing := backing }) := by
      show Prog.zoom _ _ (LogEngine.perform (.put (txKey engine.nextTxId) encoded)) engine = _
      rw [Prog.zoom, hput]
    have hlt := hholds.appended.sequence_lt
    rw [List.length_append, List.length_singleton, batchLog, numberedLog_length] at hlt
    have hid : engine.nextTxId = 1 + batches.length := h.nextTxId.trans (Nat.add_comm ..)
    have hsequence : engine.backing.log.nextSequence = 1 + batches.length := by
      rw [h.holds.appended.nextSequence, batchLog, numberedLog_length]
    obtain ⟨-, -, -, rfl⟩ := Program.encodeTransaction_eq_ok.1 hencode
    refine .inl ⟨⟨backing, applyMutations engine.values mutations, engine.nextTxId + 1⟩, ?_, ?_, ?_, ?_, ?_⟩
    · rw [Prog.bind_ok hrun, checkedSucc_eq_ok.2 ⟨by omega, rfl⟩, h.nextTxId]
      rfl
    · rw [batchLog, numberedLog_concat]
      rw [hsequence, hid] at hholds
      exact hholds
    · intro other hmem
      rcases List.mem_append.1 hmem with hold | hnew
      · exact h.valid other hold
      · rw [List.mem_singleton.1 hnew, hvalid]
    · show applyMutations engine.values mutations = _
      rw [h.values, applyBatches, applyBatches, List.foldl_append]
      rfl
    · rw [List.length_append, List.length_singleton, h.nextTxId]
  · have hrun : onBacking (LogEngine.put (txKey engine.nextTxId) encoded) engine = (.error e, engine) := by
      show Prog.zoom _ _ (LogEngine.perform (.put (txKey engine.nextTxId) encoded)) engine = _
      rw [Prog.zoom, hput]
    exact .inr ⟨e, Prog.bind_error hrun⟩

/-! ### Histories -/

/-- The histories of a store: it is created, commits succeed or fail, and the file is opened again, whole or cut
behind its header. The list has the ids and the batches of the commits that succeeded and survived. -/
inductive Run (program : Program) : IncrementalTransactionEngine → List (ℕ × List Mutation) → Prop
  | created {engine : IncrementalTransactionEngine} (hopen : openFile program none = .ok engine) :
      Run program engine []
  | committed {engine engine' : IncrementalTransactionEngine} {history : List (ℕ × List Mutation)}
      {mutations : List Mutation} {txId : ℕ} (hrun : Run program engine history)
      (hcommit : commitBatch program mutations engine = (.ok txId, engine')) :
      Run program engine' (history ++ [(txId, mutations)])
  | failed {engine engine' : IncrementalTransactionEngine} {history : List (ℕ × List Mutation)}
      {mutations : List Mutation} {e : DbError} (hrun : Run program engine history)
      (hcommit : commitBatch program mutations engine = (.error e, engine')) : Run program engine' history
  | opened {engine engine' : IncrementalTransactionEngine} {history : List (ℕ × List Mutation)} {n k : ℕ}
      {tail : Bytes} (hrun : Run program engine history)
      (hcut : recordFormat.Cut (batchLog program (history.map Prod.snd)) n k tail)
      (hopen : openFile program (some (engine.backing.log.file.take (fileHeaderLen + n))) = .ok engine') :
      Run program engine' (history.take k)

variable {history : List (ℕ × List Mutation)}

/-- **The ids count the batches**, and the engine has recorded these. -/
theorem Run.recorded (h : Run program engine history) :
    Recorded program engine (history.map Prod.snd) ∧ history.map Prod.fst = List.range' 1 history.length := by
  induction h with
  | created hopen =>
    obtain ⟨engine', hopen', hrecorded⟩ := exists_openFile_none program
    rw [hopen', Except.ok.injEq] at hopen
    exact ⟨hopen ▸ hrecorded, rfl⟩
  | @committed engine engine' history mutations txId _ hcommit ih =>
    rcases ih.1.commitBatch mutations with ⟨next, hrun, hnext⟩ | ⟨e, hrun⟩
    · rw [hrun, Prod.mk.injEq, Except.ok.injEq, List.length_map] at hcommit
      obtain ⟨rfl, rfl⟩ := hcommit
      rw [List.map_append, List.map_append, List.length_append, List.map_cons, List.map_nil, List.map_cons,
        List.map_nil, List.length_singleton, ih.2, List.range'_concat, Nat.one_mul, Nat.add_comm 1]
      exact ⟨hnext, rfl⟩
    · rw [hrun] at hcommit
      cases hcommit
  | @failed engine engine' history mutations e _ hcommit ih =>
    rcases ih.1.commitBatch mutations with ⟨next, hrun, -⟩ | ⟨e', hrun⟩
    · rw [hrun] at hcommit
      cases hcommit
    · rw [hrun, Prod.mk.injEq] at hcommit
      obtain ⟨-, rfl⟩ := hcommit
      exact ih
  | @opened engine engine' history n k tail _ hcut hopen ih =>
    obtain ⟨next, hopen', hnext⟩ := ih.1.openFile_cut hcut
    rw [hopen', Except.ok.injEq] at hopen
    subst hopen
    rw [List.map_take, List.map_take, ih.2, List.length_take]
    refine ⟨hnext, ?_⟩
    rcases le_total k history.length with hle | hle
    · rw [List.take_range'_of_length_ge hle, min_eq_left hle]
    · rw [List.take_range'_of_length_le hle, min_eq_right hle]

/-- The file of an engine is its header and the records of its batches. -/
theorem Recorded.file_length (h : Recorded program engine batches) :
    engine.backing.log.file.length = fileHeaderLen + (recordFormat.recordsBytes (batchLog program batches)).length := by
  rw [h.holds.appended.file_eq, List.length_append, encodeFileHeader_length]

/-- **What a reopen finds**: the live map and next id, and behind a cut those of the batches whose records are
complete. -/
theorem Recorded.reopens (h : Recorded program engine batches) :
    (∃ engine', openFile program (some engine.backing.log.file) = .ok engine' ∧ engine'.values = engine.values ∧
      engine'.nextTxId = engine.nextTxId) ∧
    ∀ n, ∃ k engine', recordFormat.CutAt fileHeaderLen (batchLog program batches) (fileHeaderLen + n) k ∧
      openFile program (some (engine.backing.log.file.take (fileHeaderLen + n))) = .ok engine' ∧
      engine'.values = applyBatches .empty (batches.take k) ∧ engine'.nextTxId = (batches.take k).length + 1 := by
  refine ⟨?_, fun n => ?_⟩
  · have hcut : recordFormat.Cut (batchLog program batches) (recordFormat.recordsBytes (batchLog program batches)).length
        (batchLog program batches).length [] :=
      ⟨le_rfl, by rw [List.take_length, List.take_length, List.append_nil], .inl rfl⟩
    obtain ⟨engine', hopen, hnext⟩ := h.openFile_cut hcut
    rw [← h.file_length, List.take_length] at hopen
    rw [batchLog, numberedLog_length, List.take_length] at hnext
    exact ⟨engine', hopen, hnext.values.trans h.values.symm, hnext.nextTxId.trans h.nextTxId.symm⟩
  · obtain ⟨k, tail, hcut⟩ := Record.RecordFormat.exists_cut recordFormat (batchLog program batches) n
    obtain ⟨engine', hopen, hnext⟩ := h.openFile_cut hcut
    exact ⟨k, engine', hcut.numbers.1, hopen, hnext.values, hnext.nextTxId⟩

end IncrementalTransactionEngine
end DbLab.Tx
