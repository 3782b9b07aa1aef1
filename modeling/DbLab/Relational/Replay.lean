import DbLab.Log.Numbered
import DbLab.Relational.Engine
import DbLab.Relational.RoundTrip

/-!
# Reopening a relational store

The log of a store has one record for every transaction that was committed, under keys that sort as their
ids. Opening it again decodes these records and applies them in order, which gives the tables and the next
id of the live engine; a file that is cut gives those of the transactions whose records are complete.
-/

namespace DbLab.Relational

open Record Log RecordFormat

/-! ### The records of transactions -/

/-- The bytes of the record of a transaction, none if it cannot be encoded. -/
def txBytes (txId : ℕ) (ops : List RelOp) : Bytes := (encodeTransaction txId ops).toOption.getD []

/-- The records of transactions that are committed one after another, the first one under the id `n`. -/
def logFrom : ℕ → List (List RelOp) → List Mutation
  | _, [] => []
  | n, ops :: txs => ⟨n, txKey n, some (txBytes n ops)⟩ :: logFrom (n + 1) txs

/-- The live entries of the records. -/
def entriesFrom : ℕ → List (List RelOp) → List (Bytes × Bytes)
  | _, [] => []
  | n, ops :: txs => (txKey n, txBytes n ops) :: entriesFrom (n + 1) txs

/-- The records are read back as the transactions. -/
def Decodes : ℕ → List (List RelOp) → Prop
  | _, [] => True
  | n, ops :: txs => decodeTransaction (txBytes n ops) n = .ok ops ∧ Decodes (n + 1) txs

variable {n m k : ℕ} {ops : List RelOp} {txs txs' : List (List RelOp)} {tables tables' : Tables}

theorem logFrom_eq : logFrom n txs = numberedLog txKey txBytes n txs := by
  induction txs generalizing n with
  | nil => rfl
  | cons ops txs ih => rw [logFrom, numberedLog, ih]

theorem entriesFrom_eq : entriesFrom n txs = numberedEntries txKey txBytes n txs := by
  induction txs generalizing n with
  | nil => rfl
  | cons ops txs ih => rw [entriesFrom, numberedEntries, ih]

@[simp] theorem logFrom_length : (logFrom n txs).length = txs.length := by
  rw [logFrom_eq, numberedLog_length]

theorem logFrom_concat : logFrom n (txs ++ [ops]) =
    logFrom n txs ++ [⟨n + txs.length, txKey (n + txs.length), some (txBytes (n + txs.length) ops)⟩] := by
  rw [logFrom_eq, logFrom_eq, numberedLog_concat]

theorem logFrom_take : (logFrom n txs).take k = logFrom n (txs.take k) := by
  rw [logFrom_eq, logFrom_eq, numberedLog_take]

theorem decodes_append : Decodes n (txs ++ txs') ↔ Decodes n txs ∧ Decodes (n + txs.length) txs' := by
  induction txs generalizing n with
  | nil => simp [Decodes]
  | cons ops txs ih =>
    have hlen : n + 1 + txs.length = n + (ops :: txs).length := by
      rw [List.length_cons]
      omega
    rw [List.cons_append, Decodes, Decodes, ih, hlen, and_assoc]

theorem Decodes.take (h : Decodes n txs) (k : ℕ) : Decodes n (txs.take k) :=
  (decodes_append.1 (List.take_append_drop k txs ▸ h)).1

/-! ### Keys -/

/-- The keys sort as the ids. -/
theorem txKey_lt (h : n < m) (hm : m < u64Limit) : txKey n < txKey m := by
  refine List.append_left_lt (leBytes_reverse_lt h ?_)
  rw [u64Limit_eq] at hm
  omega

theorem parseTxKey_txKey (hpos : 0 < n) (hn : n < u64Limit) : parseTxKey (txKey n) = .ok (some n) := by
  have hdrop : (txKey n).drop txKeyPrefix.length = (leBytes 8 n).reverse := List.drop_left' rfl
  have htake : (txKey n).take txKeyPrefix.length = txKeyPrefix := List.take_left' rfl
  have hvalue : leNat (leBytes 8 n) = n := leNat_leBytes (by rw [u64Limit_eq] at hn; omega)
  rw [parseTxKey, hdrop, htake, List.reverse_reverse, hvalue, if_neg (not_not.2 rfl),
    if_neg (by simp), if_neg hpos.ne']

/-! ### The replay -/

theorem replayAll_logFrom (hlimit : n + txs.length ≤ u64Limit) :
    replayAll (logFrom n txs) = entriesFrom n txs := by
  rw [logFrom_eq, entriesFrom_eq]
  exact replayAll_numberedLog txKey_lt hlimit

/-- **The replay applies the transactions.** -/
theorem foldlM_replayEntry_entriesFrom (hpos : 0 < n) (hlimit : n + txs.length < u64Limit)
    (hdecodes : Decodes n txs) (happly : txs.foldlM applyOps tables = .ok tables') :
    (entriesFrom n txs).foldlM RelationalEngine.replayEntry (tables, n) = .ok (tables', n + txs.length) := by
  induction txs generalizing n tables with
  | nil =>
    cases happly
    rfl
  | cons ops txs ih =>
    rw [List.length_cons] at hlimit
    obtain ⟨hops, hrest⟩ := hdecodes
    rw [List.foldlM_cons, Checked.bind_eq_ok] at happly
    obtain ⟨middle, hmiddle, happly⟩ := happly
    have hstep : RelationalEngine.replayEntry (tables, n) (txKey n, txBytes n ops) = .ok (middle, n + 1) := by
      rw [RelationalEngine.replayEntry, parseTxKey_txKey hpos (by omega), Checked.ok_bind]
      dsimp only
      rw [failWhen_eq_ok (u := ()) |>.2 (not_not.2 rfl), Checked.ok_bind, hops, Checked.ok_bind, hmiddle,
        Checked.ok_bind, checkedSucc_eq_ok.2 ⟨by omega, rfl⟩]
      rfl
    rw [entriesFrom, List.foldlM_cons, hstep, Checked.ok_bind, ih (Nat.succ_pos n) (by omega) hrest happly,
      List.length_cons]
    congr 2
    omega

/-! ### Opening a file that was cut -/

namespace RelationalEngine

variable {engine engine' : RelationalEngine} {tail : Bytes}

/-- An engine that has committed the transactions. -/
structure Committed (engine : RelationalEngine) (txs : List (List RelOp)) : Prop where
  holds : engine.backing.Holds (logFrom 1 txs)
  decodes : Decodes 1 txs
  tables : txs.foldlM applyOps [] = .ok engine.tables
  sized : Sized engine.tables
  nextTxId : engine.nextTxId = txs.length + 1

theorem sized_of_foldlM (h : Sized tables) (hfold : txs.foldlM applyOps tables = .ok tables') :
    Sized tables' := by
  induction txs generalizing tables with
  | nil =>
    cases hfold
    exact h
  | cons ops txs ih =>
    rw [List.foldlM_cons, Checked.bind_eq_ok] at hfold
    obtain ⟨middle, hmiddle, hfold⟩ := hfold
    exact ih (h.applyOps hmiddle).2 hfold

theorem exists_foldlM_take (h : txs.foldlM applyOps tables = .ok tables') (k : ℕ) :
    ∃ middle, (txs.take k).foldlM applyOps tables = .ok middle := by
  rw [← List.take_append_drop k txs, List.foldlM_append, Checked.bind_eq_ok] at h
  exact ⟨h.choose, h.choose_spec.1⟩

/-- **Opening the file of an engine, cut behind its header.** -/
theorem Committed.openFile_cut (h : Committed engine txs) (hcut : recordFormat.Cut (logFrom 1 txs) n k tail) :
    ∃ engine', openFile (some (engine.backing.log.file.take (fileHeaderLen + n))) = .ok engine' ∧
      Committed engine' (txs.take k) := by
  obtain ⟨backing, hopen, hholds⟩ := openFile_of_cut h.holds hcut
  rw [logFrom_take] at hholds
  obtain ⟨scan, hscan, hvalues, -⟩ := hholds.scanFile
  obtain ⟨tables', htables⟩ := exists_foldlM_take h.tables k
  have hlimit := hholds.appended.sequence_lt
  rw [logFrom_length] at hlimit
  have hreplay := foldlM_replayEntry_entriesFrom Nat.one_pos hlimit (h.decodes.take k) htables
  rw [← replayAll_logFrom hlimit.le, ← hvalues] at hreplay
  refine ⟨⟨backing, tables', 1 + (txs.take k).length⟩, ?_, hholds, h.decodes.take k, htables, ?_, Nat.add_comm ..⟩
  · rw [openFile, hopen, Checked.ok_bind, hscan, Checked.ok_bind, hreplay]
    rfl
  · exact sized_of_foldlM (fun _ hentry => absurd hentry List.not_mem_nil) htables

/-- **A commit** adds its transaction, or fails without a trace. -/
theorem Committed.commit (h : Committed engine txs) (ops : List RelOp) :
    (∃ engine', commit ops engine = (.ok engine.nextTxId, engine') ∧ Committed engine' (txs ++ [ops])) ∨
    ∃ e, commit ops engine = (.error e, engine) := by
  unfold RelationalEngine.commit
  cases hempty : failWhen (ops = []) (.invalidInput
      "relational transaction must contain at least one operation") with
  | error e => exact .inr ⟨e, rfl⟩
  | ok _ =>
  rw [Prog.ofExcept_ok_bind]
  cases hmany : failWhen (maxOps < ops.length) (.invalidInput
      s!"relational transaction has {ops.length} operations; maximum is {maxOps}") with
  | error e => exact .inr ⟨e, rfl⟩
  | ok _ =>
  rw [Prog.ofExcept_ok_bind, Prog.get_bind]
  cases happly : applyOps engine.tables ops with
  | error e => exact .inr ⟨e, rfl⟩
  | ok candidate =>
  rw [Prog.ofExcept_ok_bind]
  cases hencode : encodeTransaction engine.nextTxId ops with
  | error e => exact .inr ⟨e, rfl⟩
  | ok encoded =>
  rw [Prog.ofExcept_ok_bind]
  rw [failWhen_eq_ok] at hempty hmany
  -- Up to here nothing is written, and the append decides the rest.
  rcases h.holds.perform (.put (txKey engine.nextTxId) encoded) with
    ⟨previous, backing, hput, hholds⟩ | ⟨e, hput⟩
  · have hrun : onBacking (LogEngine.put (txKey engine.nextTxId) encoded) engine =
        (.ok previous, { engine with backing := backing }) := by
      show Prog.zoom _ _ (LogEngine.perform (.put (txKey engine.nextTxId) encoded)) engine = _
      rw [Prog.zoom, hput]
    have hlt := hholds.appended.sequence_lt
    rw [List.length_append, List.length_singleton, logFrom_length] at hlt
    have hid : engine.nextTxId = 1 + txs.length := h.nextTxId.trans (Nat.add_comm ..)
    have hsequence : engine.backing.log.nextSequence = 1 + txs.length := by
      rw [h.holds.appended.nextSequence, logFrom_length]
    obtain ⟨hreadable, hsized⟩ := h.sized.applyOps happly
    -- The bytes of the new record decode to the operations, so that a replay applies them.
    have hdecode := decodeTransaction_encode hencode hempty (not_lt.1 hmany) hreadable (by omega)
    have hbytes : txBytes (1 + txs.length) ops = encoded := by
      rw [← hid, txBytes, hencode]
      rfl
    refine .inl ⟨⟨backing, candidate, engine.nextTxId + 1⟩, ?_, ?_, ?_, ?_, hsized, ?_⟩
    · rw [Prog.bind_ok hrun, checkedSucc_eq_ok.2 ⟨by omega, rfl⟩]
      rfl
    · rw [logFrom_concat, hbytes]
      rw [hsequence, hid] at hholds
      exact hholds
    · rw [decodes_append]
      refine ⟨h.decodes, ?_, trivial⟩
      rw [hbytes, ← hid]
      exact hdecode
    · rw [List.foldlM_append, h.tables, Checked.ok_bind, List.foldlM_cons, happly]
      rfl
    · rw [List.length_append, List.length_singleton, h.nextTxId]
  · have hrun : onBacking (LogEngine.put (txKey engine.nextTxId) encoded) engine = (.error e, engine) := by
      show Prog.zoom _ _ (LogEngine.perform (.put (txKey engine.nextTxId) encoded)) engine = _
      rw [Prog.zoom, hput]
    exact .inr ⟨e, Prog.bind_error hrun⟩

/-- A new store. -/
theorem exists_openFile_none : ∃ engine, openFile none = .ok engine ∧ Committed engine [] := by
  obtain ⟨backing, hcreate, hholds⟩ := LogEngine.exists_createNew
  obtain ⟨scan, hscan, hvalues, -⟩ := hholds.scanFile
  refine ⟨⟨backing, [], 1⟩, ?_, hholds, trivial, rfl, fun _ hentry => absurd hentry List.not_mem_nil, rfl⟩
  rw [openFile, LogEngine.openFile, hcreate, Checked.ok_bind, hscan, Checked.ok_bind, hvalues]
  rfl

/-- The histories of a store: it is created, commits succeed or fail, and the file is opened again, whole
or cut behind its header. The list has the transactions whose commits succeeded and survived. -/
inductive Run : RelationalEngine → List (List RelOp) → Prop
  | created {engine : RelationalEngine} : openFile none = .ok engine → Run engine []
  | committed {engine engine' : RelationalEngine} {txs : List (List RelOp)} {ops : List RelOp} {txId : ℕ} :
      Run engine txs → commit ops engine = (.ok txId, engine') → Run engine' (txs ++ [ops])
  | failed {engine engine' : RelationalEngine} {txs : List (List RelOp)} {ops : List RelOp} {e : DbError} :
      Run engine txs → commit ops engine = (.error e, engine') → Run engine' txs
  | opened {engine engine' : RelationalEngine} {txs : List (List RelOp)} {n k : ℕ} {tail : Bytes} :
      Run engine txs → recordFormat.Cut (logFrom 1 txs) n k tail →
      openFile (some (engine.backing.log.file.take (fileHeaderLen + n))) = .ok engine' →
      Run engine' (txs.take k)

theorem Run.committed_txs (h : Run engine txs) : Committed engine txs := by
  induction h with
  | created hopen =>
    obtain ⟨engine', hopen', hcommitted⟩ := exists_openFile_none
    rw [hopen', Except.ok.injEq] at hopen
    exact hopen ▸ hcommitted
  | @committed engine engine' txs ops txId _ hcommit ih =>
    rcases ih.commit ops with ⟨next, hrun, hnext⟩ | ⟨e, hrun⟩
    · rw [hrun] at hcommit
      cases hcommit
      exact hnext
    · rw [hrun] at hcommit
      cases hcommit
  | @failed engine engine' txs ops e _ hcommit ih =>
    rcases ih.commit ops with ⟨next, hrun, -⟩ | ⟨e', hrun⟩
    · rw [hrun] at hcommit
      cases hcommit
    · rw [hrun] at hcommit
      cases hcommit
      exact ih
  | opened _ hcut hopen ih =>
    obtain ⟨next, hopen', hnext⟩ := ih.openFile_cut hcut
    rw [hopen', Except.ok.injEq] at hopen
    exact hopen ▸ hnext

/-- **Reopening rebuilds the store.** Behind any history, opening the file again gives the tables and the
next id of the live engine. Opening it cut at any length behind the header gives the tables and the next id
of the first transactions, those whose records are complete before the cut. -/
theorem reopening_rebuilds (h : Run engine txs) :
    engine.backing.log.file = encodeFileHeader ++ recordFormat.recordsBytes (logFrom 1 txs) ∧
    (∃ engine', openFile (some engine.backing.log.file) = .ok engine' ∧ engine'.tables = engine.tables ∧
      engine'.nextTxId = engine.nextTxId) ∧
    ∀ n, ∃ k engine', recordFormat.CutAt fileHeaderLen (logFrom 1 txs) (fileHeaderLen + n) k ∧
      openFile (some (engine.backing.log.file.take (fileHeaderLen + n))) = .ok engine' ∧
      (txs.take k).foldlM applyOps [] = .ok engine'.tables ∧ engine'.nextTxId = (txs.take k).length + 1 := by
  have hcommitted := h.committed_txs
  refine ⟨hcommitted.holds.appended.file_eq, ?_, fun n => ?_⟩
  · have hcut : recordFormat.Cut (logFrom 1 txs) (recordFormat.recordsBytes (logFrom 1 txs)).length
        (logFrom 1 txs).length [] :=
      ⟨le_rfl, by rw [List.take_length, List.take_length, List.append_nil], .inl rfl⟩
    obtain ⟨engine', hopen, hnext⟩ := hcommitted.openFile_cut hcut
    have hfile : engine.backing.log.file.take (fileHeaderLen +
        (recordFormat.recordsBytes (logFrom 1 txs)).length) = engine.backing.log.file := by
      refine List.take_of_length_le ?_
      rw [hcommitted.holds.appended.file_eq, List.length_append, encodeFileHeader_length]
    rw [hfile] at hopen
    rw [logFrom_length, List.take_length] at hnext
    refine ⟨engine', hopen, ?_, hnext.nextTxId.trans hcommitted.nextTxId.symm⟩
    have htables := hnext.tables
    rw [hcommitted.tables, Except.ok.injEq] at htables
    exact htables.symm
  · obtain ⟨k, tail, hcut⟩ := exists_cut recordFormat (logFrom 1 txs) n
    obtain ⟨engine', hopen, hnext⟩ := hcommitted.openFile_cut hcut
    exact ⟨k, engine', hcut.numbers.1, hopen, hnext.tables, hnext.nextTxId⟩

/-- The store of a new file. -/
def fresh : RelationalEngine := ⟨⟨⟨encodeFileHeader, 1, 0, 16, encodeFileHeader⟩, [], none, false⟩, [], 1⟩

/-- A table with one row. -/
def notes : List RelOp := [.createTable "notes" ⟨[⟨"id", .int64⟩], 0⟩, .upsertRow "notes" [.int64 ⟨1, by decide⟩]]

/-- A store with one transaction is rebuilt. -/
theorem reopening_rebuilds_notes : ∃ engine, Run engine [notes] ∧ engine.nextTxId = 2 ∧
    ∃ engine', openFile (some engine.backing.log.file) = .ok engine' ∧ engine'.tables = engine.tables ∧
      engine'.nextTxId = engine.nextTxId := by
  have hopen : openFile none = .ok fresh := by decide +kernel
  have hcommit : (commit notes fresh).1 = .ok 1 := by decide +kernel
  have hnext : (commit notes fresh).2.nextTxId = 2 := by decide +kernel
  have hrun : Run (commit notes fresh).2 [notes] := .committed (.created hopen) (Prod.ext hcommit rfl)
  exact ⟨_, hrun, hnext, (reopening_rebuilds hrun).2.1⟩

end RelationalEngine
end DbLab.Relational
