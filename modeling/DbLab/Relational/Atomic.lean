import DbLab.Relational.Oracle
import DbLab.Relational.Replay

/-!
# Commits are atomic

A commit prepares the new tables and the record before it touches anything: what fails there leaves the engine
as it was, and what succeeds is appended, read back as the same operations, and published.
-/

namespace DbLab.Relational

open Log

namespace RelationalEngine

variable {engine engine' : RelationalEngine} {ops : List RelOp} {txId : ℕ} {e : DbError}

/-- What a commit does before the append: it validates the operations, one after another, on a copy of the
tables, and encodes them. -/
def prepare (engine : RelationalEngine) (ops : List RelOp) : Except DbError (Tables × Bytes) := do
  failWhen (ops = []) (.invalidInput "relational transaction must contain at least one operation")
  failWhen (maxOps < ops.length) (.invalidInput
    s!"relational transaction has {ops.length} operations; maximum is {maxOps}")
  let candidate ← applyOps engine.tables ops
  let encoded ← encodeTransaction engine.nextTxId ops
  .ok (candidate, encoded)

/-- A commit prepares, appends the record and publishes the tables. -/
theorem commit_eq (engine : RelationalEngine) (ops : List RelOp) :
    commit ops engine = (Prog.ofExcept (prepare engine ops) >>= fun (candidate, encoded) => do
      let _ ← onBacking (LogEngine.put (txKey engine.nextTxId) encoded)
      Prog.modify fun engine => { engine with tables := candidate }
      let nextTxId ← Prog.ofExcept (checkedSucc engine.nextTxId
        (.invalidInput "relational transaction id space exhausted"))
      Prog.modify fun engine => { engine with nextTxId := nextTxId }
      pure engine.nextTxId) engine := by
  unfold commit prepare
  cases failWhen (ops = []) _ with
  | error e => rfl
  | ok _ =>
  rw [Prog.ofExcept_ok_bind, Checked.ok_bind]
  cases failWhen (maxOps < ops.length) _ with
  | error e => rfl
  | ok _ =>
  rw [Prog.ofExcept_ok_bind, Prog.get_bind, Checked.ok_bind]
  cases applyOps engine.tables ops with
  | error e => rfl
  | ok candidate =>
  rw [Prog.ofExcept_ok_bind, Checked.ok_bind]
  cases encodeTransaction engine.nextTxId ops with
  | error e => rfl
  | ok encoded => rfl

theorem prepare_eq_ok {candidate : Tables} {encoded : Bytes} :
    prepare engine ops = .ok (candidate, encoded) ↔ ops ≠ [] ∧ ops.length ≤ maxOps ∧
      applyOps engine.tables ops = .ok candidate ∧ encodeTransaction engine.nextTxId ops = .ok encoded := by
  unfold prepare
  simp only [Checked.bind_eq_ok, failWhen_eq_ok, Except.ok.injEq, Prod.mk.injEq, not_lt]
  constructor
  · rintro ⟨_, hne, _, hle, _, happly, _, hencode, rfl, rfl⟩
    exact ⟨hne, hle, happly, hencode⟩
  · rintro ⟨hne, hle, happly, hencode⟩
    exact ⟨(), hne, (), hle, candidate, happly, encoded, hencode, rfl, rfl⟩

theorem commit_of_error (h : prepare engine ops = .error e) : commit ops engine = (.error e, engine) := by
  rw [commit_eq, h]
  rfl

/-- **A commit that succeeds** has appended the record of its operations under the key of its id. -/
theorem commit_eq_ok (h : commit ops engine = (.ok txId, engine')) :
    txId = engine.nextTxId ∧ ∃ record previous,
      prepare engine ops = .ok (engine'.tables, record) ∧
      LogEngine.put (txKey txId) record engine.backing = (.ok previous, engine'.backing) ∧
      engine'.nextTxId = txId + 1 ∧ txId + 1 < u64Limit := by
  rw [commit_eq, Prog.bind_eq_ok] at h
  obtain ⟨⟨candidate, encoded⟩, s, hprepared, h⟩ := h
  obtain ⟨hprepare, rfl⟩ := Prod.mk.inj hprepared
  dsimp only at h
  rw [Prog.bind_eq_ok] at h
  obtain ⟨previous, s, happend, h⟩ := h
  obtain ⟨backing, hput, rfl⟩ : ∃ backing, LogEngine.put (txKey engine.nextTxId) encoded engine.backing =
      (.ok previous, backing) ∧ s = { engine with backing := backing } := by
    rw [onBacking, Prog.zoom] at happend
    cases hlog : LogEngine.put (txKey engine.nextTxId) encoded engine.backing with
    | mk r backing =>
      rw [hlog] at happend
      obtain ⟨rfl, rfl⟩ := Prod.mk.inj happend
      exact ⟨backing, rfl, rfl⟩
  rw [Prog.bind_eq_ok] at h
  obtain ⟨_, s, hmodify, h⟩ := h
  obtain ⟨-, rfl⟩ := Prod.mk.inj hmodify
  rw [Prog.bind_eq_ok] at h
  obtain ⟨next, s, hsucc, h⟩ := h
  obtain ⟨hnext, rfl⟩ := Prod.mk.inj hsucc
  obtain ⟨hlt, rfl⟩ := checkedSucc_eq_ok.1 hnext
  obtain ⟨hid, rfl⟩ := Prod.mk.inj h
  obtain rfl := Except.ok.inj hid
  exact ⟨rfl, encoded, previous, hprepare, hput, rfl, hlt⟩

/-- The states of a store: any file was opened, commits succeeded or failed, and an append may have failed at
the file and poisoned the log. -/
inductive Reached : RelationalEngine → Prop
  | opened {file : Option Bytes} {engine : RelationalEngine} (hopen : openFile file = .ok engine) : Reached engine
  | committed {engine engine' : RelationalEngine} {result : Except DbError ℕ} (ops : List RelOp)
      (hbefore : Reached engine) (hcommit : commit ops engine = (result, engine')) : Reached engine'
  | interrupted {engine : RelationalEngine} (file : Bytes) (hbefore : Reached engine) :
      Reached { engine with backing :=
        { engine.backing with poisoned := true, log := { engine.backing.log with file := file } } }

theorem Reached.answering (h : Reached engine) : Answering engine := by
  induction h with
  | opened hopen => exact .inl (healthy_of_openFile hopen)
  | @committed engine engine' result ops _ hcommit ih =>
    rcases ih.commit ops with ⟨txId, next, hrun, hnext, -⟩ | ⟨e, hrun⟩
    · rw [hrun] at hcommit
      cases hcommit
      exact hnext
    · rw [hrun] at hcommit
      cases hcommit
      exact ih
  | interrupted file _ _ => exact .inr rfl

/-- The tables of a store have schemas that can be read back. -/
theorem Reached.sized (h : Reached engine) : Sized engine.tables := by
  induction h with
  | opened hopen =>
    refine tables_of_openFile (fun _ _ _ hsized happly => (hsized.applyOps happly).2) ?_ hopen
    exact fun _ hentry => absurd hentry List.not_mem_nil
  | @committed engine engine' result ops hbefore hcommit ih =>
    rcases hbefore.answering.commit ops with ⟨txId, next, hrun, -, happly⟩ | ⟨e, hrun⟩
    · rw [hrun] at hcommit
      cases hcommit
      exact (ih.applyOps happly).2
    · rw [hrun] at hcommit
      cases hcommit
      exact ih
  | interrupted file _ ih => exact ih

/-- **Commits are atomic.** What fails before the append, be it the validation of any operation behind others that
are valid or the encoding, leaves tables, next id and file as they were. When a commit succeeds, the record that
it has appended decodes to operations that lead from the old tables to the new ones. -/
theorem commit_atomic (h : Reached engine) (ops : List RelOp) :
    (∀ e, prepare engine ops = .error e → commit ops engine = (.error e, engine)) ∧
    ∀ txId engine', commit ops engine = (.ok txId, engine') → ∃ record previous,
      LogEngine.put (txKey txId) record engine.backing = (.ok previous, engine'.backing) ∧
      ∃ decoded, decodeTransaction record txId = .ok decoded ∧
        applyOps engine.tables decoded = .ok engine'.tables := by
  refine ⟨fun e => commit_of_error, fun txId engine' hcommit => ?_⟩
  obtain ⟨rfl, record, previous, hprepare, hput, -, hlt⟩ := commit_eq_ok hcommit
  obtain ⟨hne, hle, happly, hencode⟩ := prepare_eq_ok.1 hprepare
  obtain ⟨hreadable, -⟩ := h.sized.applyOps happly
  exact ⟨record, previous, hput, ops, decodeTransaction_encode hencode hne hle hreadable (by omega), happly⟩

/-- A new store: two valid operations do not survive an invalid third, and on their own they are committed. -/
theorem commit_atomic_notes :
    (∃ e, commit (notes ++ [.deleteRow "none" (.text "")]) fresh = (.error e, fresh)) ∧
    ∃ record decoded, decodeTransaction record 1 = .ok decoded ∧
      applyOps [] decoded = .ok (commit notes fresh).2.tables := by
  have hreached : Reached fresh := @Reached.opened none fresh (by decide +kernel)
  constructor
  · have hprepare : prepare fresh (notes ++ [.deleteRow "none" (.text "")]) = .error (unknownTable "none") := by
      decide +kernel
    exact ⟨_, (commit_atomic hreached _).1 _ hprepare⟩
  · have hcommit : (commit notes fresh).1 = .ok 1 := by decide +kernel
    obtain ⟨record, _, -, decoded, hdecode, happly⟩ :=
      (commit_atomic hreached notes).2 1 (commit notes fresh).2 (Prod.ext hcommit rfl)
    exact ⟨record, decoded, hdecode, happly⟩

end RelationalEngine
end DbLab.Relational
