import DbLab.Relational.Engine
import Mathlib.Data.Prod.Lex

/-!
# Optimistic transactions

A transaction declares the rows that it reads, takes a snapshot of them under the lock, runs its body
on the snapshot without the lock, and commits under the lock when every row that it has read still has
its value and its version. The steps of any number of clients interleave.

The key fact is `validate_snapshot_eq`: a snapshot that validates is the snapshot that the transaction
would take at its commit. A commit is therefore the whole transaction run there, and the history of
the commits is a serial run (`serializable`).
-/

namespace DbLab.Relational

open Log

/-- One explicitly declared row read. -/
structure RowRead where
  table : String
  key : Cell
  deriving DecidableEq

theorem RowRead.toLex_injective :
    Function.Injective fun read : RowRead => toLex (read.table, read.key) := by
  rintro ⟨t, k⟩ ⟨t', k'⟩ h
  have h' := Prod.mk.inj (toLex.injective h)
  rw [RowRead.mk.injEq]
  exact h'

instance : LinearOrder RowRead :=
  LinearOrder.lift' (fun read => toLex (read.table, read.key)) RowRead.toLex_injective

structure ObservedRow where
  row : Option (List Cell)
  version : ℕ
  deriving DecidableEq

/-- Source `OptimisticSnapshot`: the declared rows, in the order of the map. -/
abbrev Snapshot := List (RowRead × ObservedRow)

/-- Source `OptimisticSnapshot::row`. -/
def Snapshot.row (snapshot : Snapshot) (read : RowRead) : Except DbError (Option (List Cell)) :=
  match lookupBy Prod.fst read snapshot with
  | none => .error (.invalidInput
      s!"optimistic transaction attempted undeclared read on table {read.table}")
  | some (_, observed) => .ok observed.row

/-- Source `VersionedRelationalState`. -/
structure OptimisticState where
  engine : RelationalEngine
  rowVersions : List (RowRead × ℕ)
  deriving DecidableEq

/-- A transaction: the reads that it declares, and its body. -/
structure Txn (τ : Type) where
  reads : List RowRead
  body : Snapshot → Except DbError (τ × List RelOp)

namespace OptimisticState

/-- Source `open`; the rows of an opened database have version zero. -/
def openFile (file : Option Bytes) : Except DbError OptimisticState := do
  let engine ← RelationalEngine.openFile file
  .ok ⟨engine, []⟩

/-- The version of a row. -/
def version (s : OptimisticState) (read : RowRead) : ℕ :=
  ((lookupBy Prod.fst read s.rowVersions).map Prod.snd).getD 0

/-- The loop of `snapshot`, with the rows so far. -/
def snapshotLoop (s : OptimisticState) (rows : Snapshot) : List RowRead → Except DbError Snapshot
  | [] => .ok rows
  | read :: reads => do
    failWhen (read ∈ rows.map Prod.fst)
      (.invalidInput s!"duplicate optimistic row read on table {read.table}")
    let row ← s.engine.row read.table read.key
    s.snapshotLoop (upsertBy Prod.fst (read, ⟨row, s.version read⟩) rows) reads

/-- Source `snapshot`. -/
def snapshot (s : OptimisticState) (reads : List RowRead) : Except DbError Snapshot :=
  s.snapshotLoop [] reads

/-- One round of `validate_snapshot`. -/
def validateRow (s : OptimisticState) (entry : RowRead × ObservedRow) : Except DbError Unit := do
  let current ← s.engine.row entry.1.table entry.1.key
  failWhen (current ≠ entry.2.row ∨ s.version entry.1 ≠ entry.2.version)
    (.invalidInput s!"optimistic transaction conflict on table {entry.1.table}")

/-- Source `validate_snapshot`. -/
def validateSnapshot (s : OptimisticState) (snapshot : Snapshot) : Except DbError Unit :=
  snapshot.forM s.validateRow

/-- The loop of `touched_rows`, with the schemas so far. -/
def touchedLoop (schemas : List (String × Schema)) : List RelOp → List RowRead
  | [] => []
  | .createTable name schema :: ops => touchedLoop (upsertBy Prod.fst (name, schema) schemas) ops
  | .upsertRow table row :: ops =>
    match lookupBy Prod.fst table schemas with
    | some (_, schema) =>
      match row[schema.primaryKey]? with
      | some key => ⟨table, key⟩ :: touchedLoop schemas ops
      | none => touchedLoop schemas ops
    | none => touchedLoop schemas ops
  | .deleteRow table key :: ops => ⟨table, key⟩ :: touchedLoop schemas ops

/-- Source `touched_rows`. -/
def touchedRows (engine : RelationalEngine) (ops : List RelOp) : List RowRead :=
  touchedLoop engine.catalog ops

def onEngine {α : Type} (x : Prog RelationalEngine DbError α) : Prog OptimisticState DbError α :=
  Prog.zoom engine (fun s engine => { s with engine := engine }) x

/-- Stamp the rows that a commit has touched. -/
def stamp (s : OptimisticState) (touched : List RowRead) (txId : ℕ) : OptimisticState :=
  { s with rowVersions := touched.foldl (fun vs row => upsertBy Prod.fst (row, txId) vs) s.rowVersions }

end OptimisticState

namespace Txn

variable {τ : Type}

/-- The part of `transaction` behind the body, under the lock. -/
def publish (snapshot : Snapshot) (ops : List RelOp) : Prog OptimisticState DbError (Option ℕ) := do
  let s ← Prog.get
  Prog.ofExcept (s.validateSnapshot snapshot)
  if ops = [] then pure none
  else do
    let touched := OptimisticState.touchedRows s.engine ops
    let txId ← OptimisticState.onEngine (RelationalEngine.commit ops)
    Prog.modify fun s => s.stamp touched txId
    pure (some txId)

/-- The part of `transaction` behind the snapshot. -/
def finish (txn : Txn τ) (snapshot : Snapshot) : Prog OptimisticState DbError (Option ℕ × τ) := do
  let (output, ops) ← Prog.ofExcept (txn.body snapshot)
  let txId ← publish snapshot ops
  pure (txId, output)

/-- Source `transaction`, without interruption. -/
def run (txn : Txn τ) : Prog OptimisticState DbError (Option ℕ × τ) := do
  let snapshot ← Prog.reads fun s => s.snapshot txn.reads
  txn.finish snapshot

end Txn

/-! ### Clients -/

/-- A client is idle, or it has a snapshot and has not yet tried to commit. -/
inductive Client (τ : Type)
  | idle
  | running (txn : Txn τ) (snapshot : Snapshot)

inductive ClientAction (τ : Type)
  | begin (txn : Txn τ)
  | commit

/-- A transaction that was committed, with what it has read, its id if it wrote, and its output. -/
structure Committed (τ : Type) where
  txn : Txn τ
  snapshot : Snapshot
  txId : Option ℕ
  output : τ

/-- The shared state, the clients, and the commits so far. -/
structure System (τ : Type) where
  shared : OptimisticState
  clients : ℕ → Client τ
  history : List (Committed τ)

namespace System

variable {τ : Type}

def setClient (s : System τ) (i : ℕ) (client : Client τ) : System τ :=
  { s with clients := Function.update s.clients i client }

/-- One step of client `i`: everything it does under one lock. -/
def step (s : System τ) (i : ℕ) (a : ClientAction τ) : System τ :=
  match a, s.clients i with
  | .begin txn, .idle =>
    match s.shared.snapshot txn.reads with
    | .ok snapshot => s.setClient i (.running txn snapshot)
    | .error _ => s
  | .commit, .running txn snapshot =>
    match txn.finish snapshot s.shared with
    | (.ok (txId, output), shared) =>
      { (s.setClient i .idle) with
        shared := shared
        history := s.history ++ [⟨txn, snapshot, txId, output⟩] }
    | (.error _, shared) => { (s.setClient i .idle) with shared := shared }
  | _, _ => s

def steps (s : System τ) (run : List (ℕ × ClientAction τ)) : System τ :=
  run.foldl (fun s action => s.step action.1 action.2) s

/-- All clients idle in front of a shared state. -/
def init (shared : OptimisticState) : System τ := ⟨shared, fun _ => .idle, []⟩

end System

/-- The committed transactions, run one after another from `start`, read the same rows, get the same
ids, give the same output, and end in `final`. -/
def Serial {τ : Type} (start : OptimisticState) : List (Committed τ) → OptimisticState → Prop
  | [], final => start = final
  | c :: history, final =>
    start.snapshot c.txn.reads = .ok c.snapshot ∧
      ∃ next, c.txn.run start = (.ok (c.txId, c.output), next) ∧ Serial next history final

/-! ### Snapshots -/

section Snapshots

variable {s t : OptimisticState} {rows snapshot : Snapshot} {reads : List RowRead}
  {entry : RowRead × ObservedRow}

/-- What a row must be to validate. -/
theorem validateRow_eq_ok {u : Unit} :
    t.validateRow entry = .ok u ↔
      t.engine.row entry.1.table entry.1.key = .ok entry.2.row ∧ t.version entry.1 = entry.2.version := by
  unfold OptimisticState.validateRow
  simp only [Checked.bind_eq_ok, failWhen_eq_ok, not_or, not_not]
  constructor
  · rintro ⟨current, hrow, rfl, hversion⟩
    exact ⟨hrow, hversion⟩
  · rintro ⟨hrow, hversion⟩
    exact ⟨entry.2.row, hrow, rfl, hversion⟩

/-- A round of the loop keeps the rows that were read before. -/
theorem mem_of_snapshotLoop (hsorted : SortedBy Prod.fst rows)
    (h : s.snapshotLoop rows reads = .ok snapshot) (hentry : entry ∈ rows) : entry ∈ snapshot := by
  induction reads generalizing rows with
  | nil => rwa [← Except.ok.inj h]
  | cons read reads ih =>
    simp only [OptimisticState.snapshotLoop, Checked.bind_eq_ok, exists_const, failWhen_eq_ok] at h
    obtain ⟨hnew, row, hrow, h⟩ := h
    refine ih hsorted.upsertBy h ((mem_upsertBy hsorted).2 (.inr ⟨hentry, fun hkey => ?_⟩))
    exact hnew (List.mem_map.2 ⟨entry, hentry, hkey⟩)

theorem snapshotLoop_eq (hsorted : SortedBy Prod.fst rows)
    (h : s.snapshotLoop rows reads = .ok snapshot)
    (hvalid : ∀ entry ∈ snapshot, t.validateRow entry = .ok ()) :
    t.snapshotLoop rows reads = .ok snapshot := by
  induction reads generalizing rows with
  | nil => exact h
  | cons read reads ih =>
    simp only [OptimisticState.snapshotLoop, Checked.bind_eq_ok, exists_const, failWhen_eq_ok] at h ⊢
    obtain ⟨hnew, row, hrow, h⟩ := h
    have hmem : (read, (⟨row, s.version read⟩ : ObservedRow)) ∈ snapshot :=
      mem_of_snapshotLoop hsorted.upsertBy h ((mem_upsertBy hsorted).2 (.inl rfl))
    obtain ⟨hcurrent, hversion⟩ := validateRow_eq_ok.1 (hvalid _ hmem)
    refine ⟨hnew, row, hcurrent, ?_⟩
    rw [show t.version read = s.version read from hversion]
    exact ih hsorted.upsertBy h

/-- **A snapshot that validates is the snapshot that would be taken now.** -/
theorem validateSnapshot_eq (h : s.snapshot reads = .ok snapshot)
    (hvalid : t.validateSnapshot snapshot = .ok ()) : t.snapshot reads = .ok snapshot :=
  snapshotLoop_eq sortedBy_nil h (Checked.forM_eq_ok.1 hvalid)

end Snapshots

/-! ### Commits -/

section Commits

variable {τ : Type} {txn : Txn τ} {s s' : OptimisticState} {snapshot : Snapshot} {ops : List RelOp}

/-- **What the locked part does**: it commits a snapshot that is still valid, or it fails without a
trace. -/
theorem publish_cases (h : s.engine.Healthy) :
    (∃ txId s', Txn.publish snapshot ops s = (.ok txId, s') ∧ s'.engine.Healthy ∧
      s.validateSnapshot snapshot = .ok () ∧
      s'.engine.nextTxId = s.engine.nextTxId + txId.toList.length ∧
      (txId = none ∨ txId = some s.engine.nextTxId)) ∨
    ∃ e, Txn.publish snapshot ops s = (.error e, s) := by
  unfold Txn.publish
  rw [Prog.get_bind]
  cases hvalid : s.validateSnapshot snapshot with
  | error e => exact .inr ⟨e, rfl⟩
  | ok _ =>
    rw [Prog.ofExcept_ok_bind]
    by_cases hops : ops = []
    · rw [if_pos hops]
      exact .inl ⟨none, s, rfl, h, rfl, rfl, .inl rfl⟩
    · rw [if_neg hops]
      rcases h.commit ops with ⟨engine, hcommit, hhealthy, -, hnext⟩ | ⟨e, hcommit⟩
      · have hrun : OptimisticState.onEngine (RelationalEngine.commit ops) s =
            (.ok s.engine.nextTxId, { s with engine := engine }) := by
          rw [OptimisticState.onEngine, Prog.zoom, hcommit]
        exact .inl ⟨some s.engine.nextTxId, _, (Prog.bind_ok hrun).trans rfl, hhealthy, rfl, hnext,
          .inr rfl⟩
      · have hrun : OptimisticState.onEngine (RelationalEngine.commit ops) s = (.error e, s) := by
          rw [OptimisticState.onEngine, Prog.zoom, hcommit]
        exact .inr ⟨e, Prog.bind_error hrun⟩

theorem finish_cases (h : s.engine.Healthy) (txn : Txn τ) (snapshot : Snapshot) :
    (∃ txId output s', txn.finish snapshot s = (.ok (txId, output), s') ∧ s'.engine.Healthy ∧
      s.validateSnapshot snapshot = .ok () ∧
      s'.engine.nextTxId = s.engine.nextTxId + txId.toList.length ∧
      (txId = none ∨ txId = some s.engine.nextTxId)) ∨
    ∃ e, txn.finish snapshot s = (.error e, s) := by
  unfold Txn.finish
  cases txn.body snapshot with
  | error e => exact .inr ⟨e, rfl⟩
  | ok result =>
    obtain ⟨output, ops⟩ := result
    rw [Prog.ofExcept_ok_bind]
    dsimp only
    rcases @publish_cases s snapshot ops h with ⟨txId, s', hrun, hrest⟩ | ⟨e, hrun⟩
    · exact .inl ⟨txId, output, s', (Prog.bind_ok hrun).trans rfl, hrest⟩
    · exact .inr ⟨e, Prog.bind_error hrun⟩

theorem Serial.append {start mid final : OptimisticState} {history : List (Committed τ)}
    {c : Committed τ} (h : Serial start history mid) (hsnapshot : mid.snapshot c.txn.reads = .ok c.snapshot)
    (hrun : c.txn.run mid = (.ok (c.txId, c.output), final)) : Serial start (history ++ [c]) final := by
  induction history generalizing start with
  | nil =>
    obtain rfl : start = mid := h
    exact ⟨hsnapshot, final, hrun, rfl⟩
  | cons d history ih =>
    obtain ⟨hd, next, hdrun, hrest⟩ := h
    exact ⟨hd, next, hdrun, ih hrest⟩

/-- What holds in every state of a run from `start`. -/
structure SystemInv (start : OptimisticState) (s : System τ) : Prop where
  serial : Serial start s.history s.shared
  healthy : s.shared.engine.Healthy
  ids : ∃ k, s.history.filterMap (fun c => c.txId) = List.range' start.engine.nextTxId k ∧
    s.shared.engine.nextTxId = start.engine.nextTxId + k
  /-- A client that runs has taken its snapshot from some state. -/
  snapshots : ∀ i txn snapshot, s.clients i = .running txn snapshot →
    ∃ past : OptimisticState, past.snapshot txn.reads = .ok snapshot

theorem SystemInv.setClient {start : OptimisticState} {s : System τ} (h : SystemInv start s) (i : ℕ)
    {client : Client τ} (hclient : ∀ txn snapshot, client = .running txn snapshot →
      ∃ past : OptimisticState, past.snapshot txn.reads = .ok snapshot) :
    SystemInv start (s.setClient i client) := by
  refine ⟨h.serial, h.healthy, h.ids, fun j txn snapshot hj => ?_⟩
  rw [System.setClient] at hj
  dsimp only at hj
  rw [Function.update_apply] at hj
  by_cases hij : j = i
  · rw [if_pos hij] at hj
    exact hclient txn snapshot hj
  · rw [if_neg hij] at hj
    exact h.snapshots j txn snapshot hj

/-- **One step** keeps the invariant, and it changes the shared state only by a commit. -/
theorem SystemInv.step {start : OptimisticState} {s : System τ} (h : SystemInv start s) (i : ℕ)
    (a : ClientAction τ) :
    SystemInv start (s.step i a) ∧
      ((s.step i a).history = s.history → (s.step i a).shared = s.shared) := by
  unfold System.step
  cases a with
  | begin txn =>
    cases hclient : s.clients i with
    | idle =>
      dsimp only
      cases hsnapshot : s.shared.snapshot txn.reads with
      | ok snapshot =>
        refine ⟨h.setClient i fun txn' snapshot' heq => ?_, fun _ => rfl⟩
        cases heq
        exact ⟨s.shared, hsnapshot⟩
      | error e => exact ⟨h, fun _ => rfl⟩
    | running txn' snapshot => exact ⟨h, fun _ => rfl⟩
  | commit =>
    cases hclient : s.clients i with
    | idle => exact ⟨h, fun _ => rfl⟩
    | running txn snapshot =>
      dsimp only
      have hidle : SystemInv start (s.setClient i .idle) := h.setClient i fun _ _ heq => by cases heq
      rcases finish_cases h.healthy txn snapshot with
        ⟨txId, output, shared, hrun, hhealthy, hvalid, hnext, hid⟩ | ⟨e, hrun⟩
      · rw [hrun]
        -- The validation says that the snapshot of the past state is the one of the present state.
        obtain ⟨past, hpast⟩ := h.snapshots i txn snapshot hclient
        have hsnapshot := validateSnapshot_eq hpast hvalid
        refine ⟨⟨?_, hhealthy, ?_, hidle.snapshots⟩, fun heq => ?_⟩
        · refine h.serial.append hsnapshot ?_
          have hreads : (Prog.reads fun t : OptimisticState => t.snapshot txn.reads) s.shared =
              (.ok snapshot, s.shared) := by
            rw [Prog.reads, hsnapshot]
          exact (Prog.bind_ok hreads).trans hrun
        · obtain ⟨k, hids, hk⟩ := h.ids
          refine ⟨k + txId.toList.length, ?_, by dsimp only; omega⟩
          dsimp only
          rw [List.filterMap_append, hids]
          rcases hid with rfl | rfl
          · simp
          · rw [hk]
            simp [List.range'_concat]
        · have := congrArg List.length heq
          simp at this
      · rw [hrun]
        exact ⟨⟨h.serial, h.healthy, h.ids, hidle.snapshots⟩, fun _ => rfl⟩

/-- **A run** keeps the invariant. -/
theorem SystemInv.steps {start : OptimisticState} {s : System τ} (h : SystemInv start s)
    (run : List (ℕ × ClientAction τ)) : SystemInv start (s.steps run) := by
  induction run generalizing s with
  | nil => exact h
  | cons action run ih => exact ih (h.step action.1 action.2).1

theorem SystemInv.init {file : Option Bytes} {start : OptimisticState}
    (h : OptimisticState.openFile file = .ok start) : SystemInv start (System.init (τ := τ) start) := by
  unfold OptimisticState.openFile at h
  simp only [Checked.bind_eq_ok, Except.ok.injEq] at h
  obtain ⟨engine, hengine, rfl⟩ := h
  exact ⟨rfl, RelationalEngine.healthy_of_openFile hengine, ⟨0, rfl, rfl⟩, fun _ _ _ hi => by cases hi⟩

end Commits

/-- **Serializability.** Whatever the interleaving of the clients, the committed transactions, run one
after another in the order of their ids, read the same rows and end in the same state; a step that
commits nothing changes nothing. -/
theorem serializable {τ : Type} {file : Option Bytes} {start : OptimisticState}
    (hopen : OptimisticState.openFile file = .ok start) (run : List (ℕ × ClientAction τ)) :
    let s := (System.init start).steps run
    Serial start s.history s.shared ∧
      (∃ k, s.history.filterMap (fun c => c.txId) = List.range' start.engine.nextTxId k ∧
        s.shared.engine.nextTxId = start.engine.nextTxId + k) ∧
      ∀ i a, (s.step i a).history = s.history → (s.step i a).shared = s.shared := by
  have h := (SystemInv.init (τ := τ) hopen).steps run
  exact ⟨h.serial, h.ids, fun i a => (h.step i a).2⟩

/-- A transaction that creates a table. -/
def createAccounts : Txn Unit where
  reads := []
  body _ := .ok ((), [.createTable "accounts" ⟨[⟨"id", .int64⟩, ⟨"balance", .int64⟩], 0⟩])

theorem exists_openFile : ∃ start, OptimisticState.openFile none = .ok start := by
  obtain ⟨backing, hcreate, hholds⟩ := LogEngine.exists_createNew
  obtain ⟨scan, hscan, hvalues, -⟩ := hholds.scanFile
  refine ⟨⟨⟨backing, [], 1⟩, []⟩, ?_⟩
  have hempty : scan.values = [] := hvalues
  rw [OptimisticState.openFile, RelationalEngine.openFile, LogEngine.openFile, hcreate]
  simp only [Checked.ok_bind, hscan, hempty]
  rfl

/-- Two clients create the same table at once. -/
theorem serializable_create_twice :
    ∃ start, OptimisticState.openFile none = .ok start ∧
      let s := (System.init start).steps
        [(0, .begin createAccounts), (1, .begin createAccounts), (1, .commit), (0, .commit)]
      Serial start s.history s.shared := by
  obtain ⟨start, hopen⟩ := exists_openFile
  exact ⟨start, hopen, (serializable hopen _).1⟩

end DbLab.Relational
