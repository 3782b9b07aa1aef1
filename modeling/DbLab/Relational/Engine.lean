import DbLab.Log.Engine
import DbLab.Relational.Codec

/-!
# The relational engine

Every transaction is one value in the append log, under a key with its id. Opening a file applies the
transactions in the order of their ids; a commit validates its operations on a copy of the tables,
appends the record and then replaces the tables.
-/

namespace DbLab.Relational

open Record Log

def txKeyPrefix : Bytes := [0, 100, 98, 45, 108, 97, 98, 45, 114, 101, 108, 45, 118, 49, 47]

/-- Source `tx_key`; the id is written most significant byte first. -/
def txKey (txId : ℕ) : Bytes := txKeyPrefix ++ (leBytes 8 txId).reverse

/-- Source `parse_tx_key`. -/
def parseTxKey (key : Bytes) : Except DbError (Option ℕ) :=
  if key.take txKeyPrefix.length ≠ txKeyPrefix then .ok none
  else if (key.drop txKeyPrefix.length).length ≠ 8 then
    .error (corruption "relational transaction key has invalid id width")
  else if leNat (key.drop txKeyPrefix.length).reverse = 0 then
    .error (corruption "relational transaction id zero is reserved")
  else .ok (some (leNat (key.drop txKeyPrefix.length).reverse))

/-- The bytes in hexadecimal. -/
def hex (bytes : Bytes) : String := String.join (bytes.map fun b => hexPad 2 b.val)

structure RelationalEngine where
  backing : LogEngine
  tables : Tables
  nextTxId : ℕ
  deriving DecidableEq

namespace RelationalEngine

/-- One round of the loop of `open`, with the tables and the expected transaction id. -/
def replayEntry (state : Tables × ℕ) (entry : Bytes × Bytes) : Except DbError (Tables × ℕ) := do
  match ← parseTxKey entry.1 with
  | none =>
    .error (corruption s!"relational database contains unexpected live key {hex entry.1}")
  | some txId =>
    failWhen (txId ≠ state.2)
      (corruption s!"relational transaction id discontinuity: expected {state.2}, found {txId}")
    let ops ← decodeTransaction entry.2 txId
    let tables ← applyOps state.1 ops
    let expected ← checkedSucc state.2 (corruption "relational transaction id overflow during replay")
    .ok (tables, expected)

/-- Source `open`. -/
def openFile (file : Option Bytes) : Except DbError RelationalEngine := do
  let backing ← LogEngine.openFile file
  let inspection ← scanFile backing.log.file
  let (tables, expectedTxId) ← inspection.values.foldlM replayEntry ([], 1)
  .ok ⟨backing, tables, expectedTxId⟩

def onBacking {α : Type} (x : Prog LogEngine DbError α) : Prog RelationalEngine DbError α :=
  Prog.zoom backing (fun engine backing => { engine with backing := backing }) x

/-- Source `commit`. -/
def commit (ops : List RelOp) : Prog RelationalEngine DbError ℕ := do
  Prog.ofExcept (failWhen (ops = [])
    (.invalidInput "relational transaction must contain at least one operation"))
  Prog.ofExcept (failWhen (maxOps < ops.length) (.invalidInput
    s!"relational transaction has {ops.length} operations; maximum is {maxOps}"))
  let engine ← Prog.get
  let candidate ← Prog.ofExcept (applyOps engine.tables ops)
  let encoded ← Prog.ofExcept (encodeTransaction engine.nextTxId ops)
  let _ ← onBacking (LogEngine.put (txKey engine.nextTxId) encoded)
  Prog.modify fun engine => { engine with tables := candidate }
  let nextTxId ← Prog.ofExcept (checkedSucc engine.nextTxId
    (.invalidInput "relational transaction id space exhausted"))
  Prog.modify fun engine => { engine with nextTxId := nextTxId }
  pure engine.nextTxId

/-- Source `row`. -/
def row (engine : RelationalEngine) (table : String) (key : Cell) :
    Except DbError (Option (List Cell)) :=
  match engine.tables.get table with
  | none => .error (unknownTable table)
  | some state => do
    validateCellType key state.keyType
    .ok ((lookupBy Prod.fst key state.rows).map Prod.snd)

/-- The table names with their schemas, in the order of the names. -/
def catalog (engine : RelationalEngine) : List (String × Schema) :=
  engine.tables.map fun (name, state) => (name, state.schema)

variable {engine engine' : RelationalEngine} {ops : List RelOp}

/-- The log holds its file, and there are at least as many records as transactions, so the sequence
numbers run out first. -/
def Healthy (engine : RelationalEngine) : Prop :=
  ∃ ms, LogEngine.Holds engine.backing ms ∧ engine.nextTxId ≤ ms.length + 1

theorem foldlM_replayEntry {entries : List (Bytes × Bytes)} {state state' : Tables × ℕ}
    (h : entries.foldlM replayEntry state = .ok state') : state'.2 = state.2 + entries.length := by
  induction entries generalizing state with
  | nil =>
    rw [Except.ok.inj h]
    rfl
  | cons entry entries ih =>
    rw [List.foldlM_cons, Checked.bind_eq_ok] at h
    obtain ⟨mid, hmid, h⟩ := h
    have hstep : mid.2 = state.2 + 1 := by
      unfold replayEntry at hmid
      obtain ⟨id, -, hmid⟩ := Checked.bind_eq_ok.1 hmid
      cases id with
      | none => cases hmid
      | some txId =>
        simp only [Checked.bind_eq_ok, checkedSucc_eq_ok, Except.ok.injEq] at hmid
        obtain ⟨_, -, _, -, _, -, _, ⟨-, rfl⟩, rfl⟩ := hmid
        rfl
    rw [ih h, hstep, List.length_cons]
    omega

/-- What the transactions of a log keep holds of the tables that their replay builds. -/
theorem tables_of_replay {P : Tables → Prop} {entries : List (Bytes × Bytes)} {state state' : Tables × ℕ}
    (hstep : ∀ tables ops tables', P tables → applyOps tables ops = .ok tables' → P tables')
    (h : P state.1) (hfold : entries.foldlM replayEntry state = .ok state') : P state'.1 := by
  induction entries generalizing state with
  | nil =>
    cases hfold
    exact h
  | cons entry entries ih =>
    rw [List.foldlM_cons, Checked.bind_eq_ok] at hfold
    obtain ⟨middle, hmiddle, hrest⟩ := hfold
    refine ih ?_ hrest
    unfold replayEntry at hmiddle
    obtain ⟨id, -, hmiddle⟩ := Checked.bind_eq_ok.1 hmiddle
    cases id with
    | none => cases hmiddle
    | some txId =>
      simp only [Checked.bind_eq_ok, Except.ok.injEq] at hmiddle
      obtain ⟨_, -, ops, -, tables, htables, _, -, rfl⟩ := hmiddle
      exact hstep state.1 ops tables h htables

theorem tables_of_openFile {P : Tables → Prop} {file : Option Bytes}
    (hstep : ∀ tables ops tables', P tables → applyOps tables ops = .ok tables' → P tables')
    (hnil : P []) (h : openFile file = .ok engine) : P engine.tables := by
  unfold openFile at h
  simp only [Checked.bind_eq_ok, Except.ok.injEq] at h
  obtain ⟨backing, -, inspection, -, state, hfold, rfl⟩ := h
  exact tables_of_replay hstep hnil hfold

theorem healthy_of_openFile {file : Option Bytes} (h : openFile file = .ok engine) :
    Healthy engine := by
  unfold openFile at h
  simp only [Checked.bind_eq_ok, Except.ok.injEq] at h
  obtain ⟨backing, hbacking, inspection, hinspection, ⟨tables, expected⟩, hfold, rfl⟩ := h
  obtain ⟨ms, hholds⟩ := LogEngine.holds_of_openFile hbacking
  obtain ⟨scan, hscan, hvalues, -⟩ := hholds.scanFile
  rw [hinspection, Except.ok.injEq] at hscan
  refine ⟨ms, hholds, ?_⟩
  have hexpected := foldlM_replayEntry hfold
  have hlen := LogEngine.length_replayAll_le ms
  rw [hscan, hvalues] at hexpected
  simp only at hexpected ⊢
  omega

/-- **What a commit does**: it appends the record and publishes the tables under the next id, or it
fails without a trace. -/
theorem Healthy.commit (h : Healthy engine) (ops : List RelOp) :
    (∃ engine', commit ops engine = (.ok engine.nextTxId, engine') ∧ Healthy engine' ∧
      applyOps engine.tables ops = .ok engine'.tables ∧ engine'.nextTxId = engine.nextTxId + 1) ∨
    ∃ e, commit ops engine = (.error e, engine) := by
  obtain ⟨ms, hholds, hcount⟩ := h
  unfold RelationalEngine.commit
  cases failWhen (ops = []) _ with
  | error e => exact .inr ⟨e, rfl⟩
  | ok _ =>
  rw [Prog.ofExcept_ok_bind]
  cases failWhen (maxOps < ops.length) _ with
  | error e => exact .inr ⟨e, rfl⟩
  | ok _ =>
  rw [Prog.ofExcept_ok_bind, Prog.get_bind]
  cases happly : applyOps engine.tables ops with
  | error e => exact .inr ⟨e, rfl⟩
  | ok candidate =>
  rw [Prog.ofExcept_ok_bind]
  cases encodeTransaction engine.nextTxId ops with
  | error e => exact .inr ⟨e, rfl⟩
  | ok encoded =>
  rw [Prog.ofExcept_ok_bind]
  rcases hholds.perform (.put (txKey engine.nextTxId) encoded) with
    ⟨previous, backing, hput, hholds'⟩ | ⟨e, hput⟩
  · have hrun : onBacking (LogEngine.put (txKey engine.nextTxId) encoded) engine =
        (.ok previous, { engine with backing := backing }) := by
      show Prog.zoom _ _ (LogEngine.perform (.put (txKey engine.nextTxId) encoded)) engine = _
      rw [Prog.zoom, hput]
    have hlt := hholds'.appended.sequence_lt
    rw [List.length_append, List.length_singleton] at hlt
    refine .inl ⟨⟨backing, candidate, engine.nextTxId + 1⟩, ?_, ⟨_, hholds', ?_⟩, rfl, rfl⟩
    · rw [Prog.bind_ok hrun, checkedSucc_eq_ok.2 ⟨by omega, rfl⟩]
      rfl
    · rw [List.length_append, List.length_singleton]
      simp only
      omega
  · have hrun : onBacking (LogEngine.put (txKey engine.nextTxId) encoded) engine =
        (.error e, engine) := by
      show Prog.zoom _ _ (LogEngine.perform (.put (txKey engine.nextTxId) encoded)) engine = _
      rw [Prog.zoom, hput]
    exact .inr ⟨e, Prog.bind_error hrun⟩

end RelationalEngine
end DbLab.Relational
