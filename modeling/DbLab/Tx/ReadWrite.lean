import DbLab.Lib.SortedMap
import DbLab.Log.Engine
import DbLab.Tx.RoundTrip

/-!
# Read-write transactions

A transaction body reads through an overlay of its own writes. When it ends well, the writes that it has
staged are one record in the append log, and then they are applied to the committed map. The lock of the
program is held for the whole transaction, so that a transaction is one step here.
-/

namespace DbLab.Tx

open Log

def legacySnapshotKey : Bytes :=
  [0, 100, 98, 45, 108, 97, 98, 45, 97, 116, 111, 109, 105, 99, 45, 115, 110, 97, 112, 115, 104, 111, 116,
    45, 118, 49]

def txKeyPrefix : Bytes := [0, 100, 98, 45, 108, 97, 98, 45, 116, 120, 45, 118, 50, 47]

/-- Source `tx_key`; the id is written most significant byte first. -/
def txKey (txId : ℕ) : Bytes := txKeyPrefix ++ (leBytes 8 txId).reverse

/-- Source `parse_tx_key`. -/
def parseTxKey (key : Bytes) : Except DbError (Option ℕ) :=
  if key.take txKeyPrefix.length ≠ txKeyPrefix then .ok none
  else if (key.drop txKeyPrefix.length).length ≠ 8 then
    .error (corruption "incremental transaction key has invalid id width")
  else if leNat (key.drop txKeyPrefix.length).reverse = 0 then
    .error (corruption "incremental transaction id zero is reserved")
  else .ok (some (leNat (key.drop txKeyPrefix.length).reverse))

/-- The bytes in hexadecimal. -/
def encodeHex (bytes : Bytes) : String := String.join (bytes.map fun b => hexPad 2 b.val)

/-- The committed map. -/
abbrev Committed := SortedMap Bytes Bytes

/-- What `apply_mutations` does with one mutation. -/
def applyMutation (values : Committed) : Mutation → Committed
  | .put key value => values.insert key value
  | .delete key => values.erase key

/-- Source `apply_mutations`. -/
def applyMutations (values : Committed) (mutations : List Mutation) : Committed :=
  mutations.foldl applyMutation values

/-! ### The transaction -/

structure ReadWriteTransaction where
  base : Committed
  overlay : SortedMap Bytes (Option Bytes)
  mutations : List Mutation

namespace ReadWriteTransaction

/-- Source `new`. -/
def new (base : Committed) : ReadWriteTransaction := ⟨base, .empty, []⟩

/-- Source `get`. -/
def get (key : Bytes) (tx : ReadWriteTransaction) : Except DbError (Option Bytes) := do
  validateKey key
  match tx.overlay.find key with
  | some value => .ok value
  | none => .ok (tx.base.find key)

/-- Source `put`. -/
def put (key value : Bytes) : Prog ReadWriteTransaction DbError Unit := do
  Prog.ofExcept (validateKeyValue key value)
  Prog.modify fun tx => { tx with
    overlay := tx.overlay.insert key (some value)
    mutations := tx.mutations ++ [.put key value] }

/-- Source `delete`. -/
def delete (key : Bytes) : Prog ReadWriteTransaction DbError Unit := do
  Prog.ofExcept (validateKey key)
  Prog.modify fun tx => { tx with
    overlay := tx.overlay.insert key none
    mutations := tx.mutations ++ [.delete key] }

end ReadWriteTransaction

/-- A transaction body: it calls the transaction, looks at the answers, and ends with a result. A call
that fails does not have to end it. -/
inductive Body (α : Type)
  | done (result : Except DbError α)
  | get (key : Bytes) (next : Except DbError (Option Bytes) → Body α)
  | put (key value : Bytes) (next : Except DbError Unit → Body α)
  | delete (key : Bytes) (next : Except DbError Unit → Body α)

namespace Body

variable {α : Type}

def run : Body α → ReadWriteTransaction → Except DbError α × ReadWriteTransaction
  | done result, tx => (result, tx)
  | get key next, tx => (next (tx.get key)).run tx
  | put key value next, tx =>
    let (answer, tx) := ReadWriteTransaction.put key value tx
    (next answer).run tx
  | delete key next, tx =>
    let (answer, tx) := ReadWriteTransaction.delete key tx
    (next answer).run tx

/-- What a body is meant to do: every get looks into the committed map with the mutations that are staged
so far applied to it in order. -/
def meaning (base : Committed) : Body α → List Mutation → Except DbError α × List Mutation
  | done result, staged => (result, staged)
  | get key next, staged =>
    (next ((validateKey key).map fun _ => (applyMutations base staged).find key)).meaning base staged
  | put key value next, staged =>
    match validateKeyValue key value with
    | .ok () => (next (.ok ())).meaning base (staged ++ [.put key value])
    | .error e => (next (.error e)).meaning base staged
  | delete key next, staged =>
    match validateKey key with
    | .ok () => (next (.ok ())).meaning base (staged ++ [.delete key])
    | .error e => (next (.error e)).meaning base staged

end Body

/-! ### The durable state -/

structure DurableState where
  backing : LogEngine
  values : Committed
  nextTxId : ℕ

namespace DurableState

/-- One round of the loop of `open`, with the map and the expected transaction id. -/
def replayEntry (state : Committed × ℕ) (entry : Bytes × Bytes) : Except DbError (Committed × ℕ) := do
  failWhen (entry.1 = legacySnapshotKey) (.invalidInput
    "legacy snapshot transaction database is not compatible with incremental v2; use db-log-tx for the v1 database")
  match ← parseTxKey entry.1 with
  | none => .error (corruption
      s!"read-write transaction database contains unexpected live key {encodeHex entry.1}")
  | some txId =>
    failWhen (txId ≠ state.2) (corruption
      s!"incremental transaction id discontinuity: expected {state.2}, found {txId}")
    let mutations ← Program.readWrite.decodeTransaction entry.2 txId
    let expected ← checkedSucc state.2 (corruption "transaction id overflow during replay")
    .ok (applyMutations state.1 mutations, expected)

/-- Source `open`. -/
def openFile (file : Option Bytes) : Except DbError DurableState := do
  let backing ← LogEngine.openFile file
  let inspection ← scanFile backing.log.file
  let (values, expectedTxId) ← inspection.values.foldlM replayEntry (.empty, 1)
  .ok ⟨backing, values, expectedTxId⟩

def onBacking {α : Type} (x : Prog LogEngine DbError α) : Prog DurableState DbError α :=
  Prog.zoom backing (fun state backing => { state with backing := backing }) x

/-- Source `commit`. -/
def commit (mutations : List Mutation) : Prog DurableState DbError ℕ := do
  Prog.ofExcept (Program.readWrite.validateBatch mutations)
  let state ← Prog.get
  let encoded ← Prog.ofExcept (Program.readWrite.encodeTransaction state.nextTxId mutations)
  let _ ← onBacking (LogEngine.put (txKey state.nextTxId) encoded)
  Prog.modify fun state => { state with values := applyMutations state.values mutations }
  let nextTxId ← Prog.ofExcept (checkedSucc state.nextTxId
    (.invalidInput "transaction id space exhausted after commit"))
  Prog.modify fun state => { state with nextTxId := nextTxId }
  pure state.nextTxId

/-- Source `transaction`. -/
def transaction {α : Type} (body : Body α) : Prog DurableState DbError (Option ℕ × α) := do
  let state ← Prog.get
  let (result, tx) := body.run (.new state.values)
  let output ← Prog.ofExcept result
  if tx.mutations = [] then pure (none, output)
  else do
    let txId ← commit tx.mutations
    pure (some txId, output)

end DurableState

/-! ### The overlay -/

theorem applyMutations_append {values : Committed} {staged : List Mutation} {mutation : Mutation} :
    applyMutations values (staged ++ [mutation]) = applyMutation (applyMutations values staged) mutation := by
  simp [applyMutations]

/-- The overlay over the base has the answers of the base with the staged mutations applied. -/
def ReadWriteTransaction.Agrees (tx : ReadWriteTransaction) : Prop :=
  ∀ key, (match tx.overlay.find key with
    | some value => value
    | none => tx.base.find key) = (applyMutations tx.base tx.mutations).find key

namespace ReadWriteTransaction

variable {tx : ReadWriteTransaction} {key value : Bytes} {base : Committed}

theorem agrees_new : (new base).Agrees := by
  intro key
  simp [new, applyMutations]

/-- One more mutation, with what it leaves at its key in the overlay. -/
theorem Agrees.stage {mutation : Mutation} {written : Option Bytes} (h : tx.Agrees)
    (hwritten : ∀ values : Committed, ∀ k,
      (applyMutation values mutation).find k = if k = key then written else values.find k) :
    Agrees { tx with
      overlay := tx.overlay.insert key written
      mutations := tx.mutations ++ [mutation] } := by
  intro k
  simp only [SortedMap.find_insert, applyMutations_append, hwritten, ← h k]
  by_cases hk : k = key
  · simp [hk]
  · simp [hk]

theorem Agrees.put (h : tx.Agrees) (key value : Bytes) :
    Agrees { tx with
      overlay := tx.overlay.insert key (some value)
      mutations := tx.mutations ++ [.put key value] } :=
  h.stage fun values k => by
    rw [applyMutation, SortedMap.find_insert]
    congr

theorem Agrees.delete (h : tx.Agrees) (key : Bytes) :
    Agrees { tx with
      overlay := tx.overlay.insert key none
      mutations := tx.mutations ++ [.delete key] } :=
  h.stage fun values k => by
    rw [applyMutation, SortedMap.find_erase]
    congr

theorem Agrees.get_eq (h : tx.Agrees) (key : Bytes) :
    tx.get key = (validateKey key).map fun _ => (applyMutations tx.base tx.mutations).find key := by
  unfold ReadWriteTransaction.get
  rw [← h key]
  cases validateKey key with
  | error e => rfl
  | ok _ => cases tx.overlay.find key <;> rfl

end ReadWriteTransaction

/-- **A body does what it is meant to do**: all its reads agree with the map that it builds. -/
theorem Body.run_eq_meaning {α : Type} (body : Body α) {tx : ReadWriteTransaction} (h : tx.Agrees) :
    (body.run tx).1 = (body.meaning tx.base tx.mutations).1 ∧
      (body.run tx).2.mutations = (body.meaning tx.base tx.mutations).2 := by
  induction body generalizing tx with
  | done result => exact ⟨rfl, rfl⟩
  | get key next ih =>
    rw [run, meaning, h.get_eq key]
    exact ih _ h
  | put key value next ih =>
    rw [run, meaning]
    cases hvalid : validateKeyValue key value with
    | error e =>
      have hput : ReadWriteTransaction.put key value tx = (.error e, tx) := by
        simp [ReadWriteTransaction.put, hvalid, Prog.ofExcept, Bind.bind]
      rw [hput]
      exact ih _ h
    | ok _ =>
      have hput : ReadWriteTransaction.put key value tx = (.ok (), { tx with
          overlay := tx.overlay.insert key (some value)
          mutations := tx.mutations ++ [.put key value] }) := by
        simp [ReadWriteTransaction.put, hvalid, Prog.ofExcept, Prog.modify, Bind.bind]
      rw [hput]
      exact ih _ (h.put key value)
  | delete key next ih =>
    rw [run, meaning]
    cases hvalid : validateKey key with
    | error e =>
      have hdelete : ReadWriteTransaction.delete key tx = (.error e, tx) := by
        simp [ReadWriteTransaction.delete, hvalid, Prog.ofExcept, Bind.bind]
      rw [hdelete]
      exact ih _ h
    | ok _ =>
      have hdelete : ReadWriteTransaction.delete key tx = (.ok (), { tx with
          overlay := tx.overlay.insert key none
          mutations := tx.mutations ++ [.delete key] }) := by
        simp [ReadWriteTransaction.delete, hvalid, Prog.ofExcept, Prog.modify, Bind.bind]
      rw [hdelete]
      exact ih _ (h.delete key)

/-! ### Transactions of a healthy state -/

theorem parseTxKey_txKey {n : ℕ} (hpos : 0 < n) (hn : n < u64Limit) :
    parseTxKey (txKey n) = .ok (some n) := by
  have hdrop : (txKey n).drop txKeyPrefix.length = (leBytes 8 n).reverse := List.drop_left' rfl
  have htake : (txKey n).take txKeyPrefix.length = txKeyPrefix := List.take_left' rfl
  have hvalue : leNat (leBytes 8 n) = n := leNat_leBytes (by rw [u64Limit_eq] at hn; omega)
  rw [parseTxKey, hdrop, htake, List.reverse_reverse, hvalue, if_neg (not_not.2 rfl),
    if_neg (by simp), if_neg hpos.ne']

theorem txKey_ne_legacy (n : ℕ) : txKey n ≠ legacySnapshotKey := by
  intro h
  have hlen := congrArg List.length h
  rw [txKey, List.length_append, List.length_reverse, leBytes_length] at hlen
  revert hlen
  decide

theorem sortedBy_replayAll (ms : List Record.Mutation) : SortedBy Prod.fst (replayAll ms) := by
  have hfold : ∀ (ms : List Record.Mutation) (values : Values), SortedBy Prod.fst values →
      SortedBy Prod.fst (ms.foldl replay values) := by
    intro ms
    induction ms with
    | nil => exact fun _ h => h
    | cons m ms ih =>
      intro values h
      refine ih _ ?_
      unfold replay
      cases m.value with
      | none => exact h.removeBy
      | some value => exact h.upsertBy
  exact hfold ms [] sortedBy_nil

namespace DurableState

variable {state state' : DurableState} {mutations : List Mutation}

/-- The log holds its file, and there are at least as many records as transactions, so the sequence
numbers run out first. -/
def Healthy (state : DurableState) : Prop :=
  ∃ ms, LogEngine.Holds state.backing ms ∧ 0 < state.nextTxId ∧ state.nextTxId ≤ ms.length + 1

theorem foldlM_replayEntry {entries : List (Bytes × Bytes)} {start last : Committed × ℕ}
    (h : entries.foldlM replayEntry start = .ok last) : last.2 = start.2 + entries.length := by
  induction entries generalizing start with
  | nil =>
    rw [Except.ok.inj h]
    rfl
  | cons entry entries ih =>
    rw [List.foldlM_cons, Checked.bind_eq_ok] at h
    obtain ⟨middle, hmiddle, h⟩ := h
    have hstep : middle.2 = start.2 + 1 := by
      unfold replayEntry at hmiddle
      obtain ⟨_, -, hmiddle⟩ := Checked.bind_eq_ok.1 hmiddle
      obtain ⟨id, -, hmiddle⟩ := Checked.bind_eq_ok.1 hmiddle
      cases id with
      | none => cases hmiddle
      | some txId =>
        simp only [Checked.bind_eq_ok, checkedSucc_eq_ok, Except.ok.injEq] at hmiddle
        obtain ⟨_, -, _, -, _, ⟨-, rfl⟩, rfl⟩ := hmiddle
        rfl
    rw [ih h, hstep, List.length_cons]
    omega

/-- A file that opens gives a healthy state. -/
theorem healthy_of_openFile {file : Option Bytes} (h : openFile file = .ok state) : state.Healthy := by
  unfold openFile at h
  simp only [Checked.bind_eq_ok, Except.ok.injEq] at h
  obtain ⟨backing, hbacking, inspection, hinspection, ⟨values, expected⟩, hfold, rfl⟩ := h
  obtain ⟨ms, hholds⟩ := LogEngine.holds_of_openFile hbacking
  obtain ⟨scan, hscan, hvalues, -⟩ := hholds.scanFile
  rw [hinspection, Except.ok.injEq] at hscan
  have hexpected := foldlM_replayEntry hfold
  have hlen := LogEngine.length_replayAll_le ms
  rw [hscan, hvalues] at hexpected
  refine ⟨ms, hholds, ?_, ?_⟩
  · simp only at hexpected ⊢
    omega
  · simp only at hexpected ⊢
    omega

/-- What a commit leaves: the record under the next key, and its mutations applied. -/
structure Committing (state : DurableState) (mutations : List Mutation) (bytes : Bytes)
    (state' : DurableState) : Prop where
  healthy : state'.Healthy
  values : state'.values = applyMutations state.values mutations
  nextTxId : state'.nextTxId = state.nextTxId + 1
  recorded : lookupBy Prod.fst (txKey state.nextTxId) state'.backing.values =
    some (txKey state.nextTxId, bytes)
  replayed : replayEntry (state.values, state.nextTxId) (txKey state.nextTxId, bytes) =
    .ok (state'.values, state'.nextTxId)

/-- **A commit** writes its record and applies its mutations, or it fails without a trace; it fails
when the batch is not valid, when it cannot be encoded, or when the log does not take the record. -/
theorem Healthy.commit (h : state.Healthy) (mutations : List Mutation) :
    (∃ bytes state', Program.readWrite.validateBatch mutations = .ok () ∧
      Program.readWrite.encodeTransaction state.nextTxId mutations = .ok bytes ∧
      commit mutations state = (.ok state.nextTxId, state') ∧ Committing state mutations bytes state') ∨
    ∃ e, commit mutations state = (.error e, state) ∧
      (Program.readWrite.validateBatch mutations = .error e ∨
        Program.readWrite.encodeTransaction state.nextTxId mutations = .error e ∨
        ∃ bytes, Program.readWrite.encodeTransaction state.nextTxId mutations = .ok bytes ∧
          (LogEngine.put (txKey state.nextTxId) bytes state.backing).1 = .error e) := by
  obtain ⟨ms, hholds, hpos, hcount⟩ := h
  unfold DurableState.commit
  cases hvalid : Program.readWrite.validateBatch mutations with
  | error e => exact .inr ⟨e, rfl, .inl rfl⟩
  | ok _ =>
  rw [Prog.ofExcept_ok_bind, Prog.get_bind]
  cases hencode : Program.readWrite.encodeTransaction state.nextTxId mutations with
  | error e => exact .inr ⟨e, rfl, .inr (.inl rfl)⟩
  | ok bytes =>
  rw [Prog.ofExcept_ok_bind]
  -- The one append to the backing log decides the rest.
  rcases hholds.perform (.put (txKey state.nextTxId) bytes) with
    ⟨previous, backing, hput, hholds'⟩ | ⟨e, hput⟩
  · have hrun : onBacking (LogEngine.put (txKey state.nextTxId) bytes) state =
        (.ok previous, { state with backing := backing }) := by
      show Prog.zoom _ _ (LogEngine.perform (.put (txKey state.nextTxId) bytes)) state = _
      rw [Prog.zoom, hput]
    have hlt := hholds'.appended.sequence_lt
    rw [List.length_append, List.length_singleton] at hlt
    have hid : state.nextTxId < u64Limit := by omega
    refine .inl ⟨bytes, ⟨backing, applyMutations state.values mutations, state.nextTxId + 1⟩, rfl, rfl,
      ?_, ⟨⟨_, hholds', Nat.succ_pos _, ?_⟩, rfl, rfl, ?_, ?_⟩⟩
    · rw [Prog.bind_ok hrun, checkedSucc_eq_ok.2 ⟨by omega, rfl⟩]
      rfl
    · rw [List.length_append, List.length_singleton]
      simp only
      omega
    · have hsorted := sortedBy_replayAll ms
      show lookupBy Prod.fst _ backing.values = _
      rw [hholds'.values, LogEngine.replayAll_append]
      show lookupBy Prod.fst _ (upsertBy Prod.fst (txKey state.nextTxId, bytes) (replayAll ms)) = _
      rw [lookupBy_upsertBy hsorted, if_pos rfl]
    · -- The replay of the new entry gives the mutations back.
      have hdecode := (Program.decodeTransaction_eq_ok hid).2
        ⟨hvalid, (Program.encodeTransaction_eq_ok.1 hencode).2.2.2⟩
      have hlegacy : failWhen (txKey state.nextTxId = legacySnapshotKey) (.invalidInput
          "legacy snapshot transaction database is not compatible with incremental v2; use db-log-tx for the v1 database") =
          .ok () := failWhen_eq_ok.2 (txKey_ne_legacy _)
      rw [replayEntry]
      dsimp only
      rw [hlegacy, Checked.ok_bind, parseTxKey_txKey hpos hid, Checked.ok_bind]
      dsimp only
      rw [failWhen_eq_ok (u := ()) |>.2 (not_not.2 rfl), Checked.ok_bind, hdecode, Checked.ok_bind,
        checkedSucc_eq_ok.2 ⟨by omega, rfl⟩, Checked.ok_bind]
  · have hrun : onBacking (LogEngine.put (txKey state.nextTxId) bytes) state = (.error e, state) := by
      show Prog.zoom _ _ (LogEngine.perform (.put (txKey state.nextTxId) bytes)) state = _
      rw [Prog.zoom, hput]
    refine .inr ⟨e, Prog.bind_error hrun, .inr (.inr ⟨bytes, rfl, ?_⟩)⟩
    show (LogEngine.perform (.put (txKey state.nextTxId) bytes) state.backing).1 = .error e
    rw [hput]

/-- The states of a program that opens a file and runs transactions. -/
inductive Reached : DurableState → Prop
  | opened {file : Option Bytes} {state : DurableState} (h : openFile file = .ok state) : Reached state
  | transaction {state : DurableState} {α : Type} (h : Reached state) (body : Body α) :
      Reached (transaction body state).2

/-- What a transaction of a body with a result and staged mutations does to a state. -/
def Outcome {α : Type} (state : DurableState) (run : Except DbError (Option ℕ × α) × DurableState) :
    Except DbError α → List Mutation → Prop
  | .error e, _ => run = (.error e, state)
  | .ok output, staged =>
    (staged = [] ∧ run = (.ok (none, output), state)) ∨
    (∃ bytes state', Program.readWrite.encodeTransaction state.nextTxId staged = .ok bytes ∧
      run = (.ok (some state.nextTxId, output), state') ∧ Committing state staged bytes state') ∨
    ∃ e, run = (.error e, state) ∧
      (Program.readWrite.validateBatch staged = .error e ∨
        Program.readWrite.encodeTransaction state.nextTxId staged = .error e ∨
        ∃ bytes, Program.readWrite.encodeTransaction state.nextTxId staged = .ok bytes ∧
          (LogEngine.put (txKey state.nextTxId) bytes state.backing).1 = .error e)

theorem Healthy.transaction {α : Type} (h : state.Healthy) (body : Body α) :
    Outcome state (transaction body state) (body.meaning state.values []).1
      (body.meaning state.values []).2 := by
  obtain ⟨hresult, hstaged⟩ := body.run_eq_meaning (@ReadWriteTransaction.agrees_new state.values)
  change (body.run (.new state.values)).1 = (body.meaning state.values []).1 at hresult
  change (body.run (.new state.values)).2.mutations = (body.meaning state.values []).2 at hstaged
  rw [← hresult, ← hstaged]
  unfold DurableState.transaction
  rw [Prog.get_bind]
  generalize body.run (.new state.values) = ended
  obtain ⟨result, tx⟩ := ended
  cases result with
  | error e => rfl
  | ok output =>
    dsimp only
    rw [Prog.ofExcept_ok_bind]
    by_cases hnil : tx.mutations = []
    · rw [if_pos hnil]
      exact .inl ⟨hnil, rfl⟩
    · rw [if_neg hnil]
      rcases h.commit tx.mutations with ⟨bytes, state', -, hencode, hrun, hcommitting⟩ | ⟨e, hrun, hwhy⟩
      · exact .inr (.inl ⟨bytes, state', hencode, (Prog.bind_ok hrun).trans rfl, hcommitting⟩)
      · exact .inr (.inr ⟨e, Prog.bind_error hrun, hwhy⟩)

theorem Reached.healthy (h : state.Reached) : state.Healthy := by
  induction h with
  | opened h => exact healthy_of_openFile h
  | @transaction state α h body ih =>
    have houtcome := ih.transaction body
    generalize (body.meaning state.values []).1 = result at houtcome
    generalize (body.meaning state.values []).2 = staged at houtcome
    cases result with
    | error e =>
      rw [show DurableState.transaction body state = (.error e, state) from houtcome]
      exact ih
    | ok output =>
      rcases houtcome with ⟨-, hrun⟩ | ⟨bytes, state', -, hrun, hcommitting⟩ | ⟨e, hrun, -⟩
      · rw [hrun]
        exact ih
      · rw [hrun]
        exact hcommitting.healthy
      · rw [hrun]
        exact ih

end DurableState

/-- The transactions that calls on a new one lead to, whether the calls succeed or fail. -/
inductive ReadWriteTransaction.Called (base : Committed) : ReadWriteTransaction → Prop
  | new : Called base (.new base)
  | put {tx : ReadWriteTransaction} (h : Called base tx) (key value : Bytes) :
      Called base (ReadWriteTransaction.put key value tx).2
  | delete {tx : ReadWriteTransaction} (h : Called base tx) (key : Bytes) :
      Called base (ReadWriteTransaction.delete key tx).2

theorem ReadWriteTransaction.Called.agrees {base : Committed} {tx : ReadWriteTransaction}
    (h : Called base tx) : tx.base = base ∧ tx.Agrees := by
  induction h with
  | new => exact ⟨rfl, agrees_new⟩
  | @put tx h key value ih =>
    unfold ReadWriteTransaction.put
    cases validateKeyValue key value with
    | error e => exact ih
    | ok _ => exact ⟨ih.1, ih.2.put key value⟩
  | @delete tx h key ih =>
    unfold ReadWriteTransaction.delete
    cases validateKey key with
    | error e => exact ih
    | ok _ => exact ⟨ih.1, ih.2.delete key⟩

/-- **Read-write transactions.** Every get of a transaction sees the committed map with the mutations
staged before applied in order. A body that ends well commits exactly that view, and the replay of the
record that it wrote leads from the old map to the same one; a body or an encoding that fails leaves the
state as it was. -/
theorem transaction_view :
    (∀ base tx, ReadWriteTransaction.Called base tx → ∀ key,
      tx.get key = (validateKey key).map fun _ => (applyMutations base tx.mutations).find key) ∧
    ∀ (state : DurableState), state.Reached → ∀ (α : Type) (body : Body α),
      DurableState.Outcome state (DurableState.transaction body state)
        (body.meaning state.values []).1 (body.meaning state.values []).2 := by
  constructor
  · intro base tx hcalled key
    obtain ⟨rfl, hagrees⟩ := hcalled.agrees
    exact hagrees.get_eq key
  · intro state hreached α body
    exact hreached.healthy.transaction body

/-- A put and a get of the same key in a new store. -/
theorem transaction_view_put_get : ∃ state, DurableState.Reached state ∧
    (ReadWriteTransaction.put [1] [2] (.new state.values)).2.get [1] = .ok (some [2]) ∧
    DurableState.Outcome state
      (DurableState.transaction (.put [1] [2] fun _ => .get [1] fun answer => .done answer) state)
      (.ok (some [2])) [.put [1] [2]] := by
  obtain ⟨backing, hbacking, hholds⟩ := LogEngine.exists_createNew
  obtain ⟨scan, hscan, hvalues, -⟩ := hholds.scanFile
  have hopen : DurableState.openFile none = .ok ⟨backing, .empty, 1⟩ := by
    rw [DurableState.openFile, LogEngine.openFile, hbacking, Checked.ok_bind, hscan, Checked.ok_bind, hvalues]
    rfl
  have hreached := DurableState.Reached.opened hopen
  have hcalled : ReadWriteTransaction.Called .empty _ := .put .new [1] [2]
  have hget := transaction_view.1 _ _ hcalled [1]
  have hrun := transaction_view.2 _ hreached _
    (.put [1] [2] fun _ => .get [1] fun answer => .done answer)
  exact ⟨_, hreached, hget, hrun⟩

end DbLab.Tx
