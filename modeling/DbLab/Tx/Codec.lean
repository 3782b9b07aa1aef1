import DbLab.ErrorText
import DbLab.Lib.Crc32
import DbLab.Lib.Readers
import DbLab.Lib.Slice

/-!
# The record of a mutation transaction

Three programs write the same record: a header of 24 bytes with the transaction id and the number of
mutations, the mutations with the lengths of key and value in front, and a checksum. Each program has
constants and functions of its own; here the functions take the program, and the constants are its.
-/

namespace DbLab.Tx

inductive Mutation
  | put (key value : Bytes)
  | delete (key : Bytes)
  deriving DecidableEq, Repr

/-- The constants of a program, and how its errors name a batch. -/
structure Constants where
  magic : Bytes
  version : ℕ
  headerLen : ℕ
  mutationHeaderLen : ℕ
  trailerLen : ℕ
  maxBatchMutations : ℕ
  kindPut : ℕ
  kindDelete : ℕ
  batchName : String

/-- The programs `db-log-tx-readwrite`, `db-log-tx-serialized` and `db-log-tx-incremental`. -/
inductive Program
  | readWrite | serialized | incremental
  deriving DecidableEq

def Program.constants : Program → Constants
  | readWrite =>
    { magic := [68, 66, 84, 88, 77, 85, 84, 50]
      version := 2
      headerLen := 24
      mutationHeaderLen := 12
      trailerLen := 4
      maxBatchMutations := 1024
      kindPut := 1
      kindDelete := 2
      batchName := "read-write transaction" }
  | serialized =>
    { magic := [68, 66, 84, 88, 77, 85, 84, 50]
      version := 2
      headerLen := 24
      mutationHeaderLen := 12
      trailerLen := 4
      maxBatchMutations := 1024
      kindPut := 1
      kindDelete := 2
      batchName := "incremental transaction" }
  | incremental =>
    { magic := [68, 66, 84, 88, 77, 85, 84, 50]
      version := 2
      headerLen := 24
      mutationHeaderLen := 12
      trailerLen := 4
      maxBatchMutations := 1024
      kindPut := 1
      kindDelete := 2
      batchName := "incremental transaction" }

def u32Max : ℕ := 4294967295

def corruption (reason : String) : DbError := .corruption 0 reason

namespace Program

variable (program : Program)

/-! ### Validation and encoding -/

/-- The check of `validate_batch` on one mutation. -/
def validateMutation : Mutation → Except DbError Unit
  | .put key value => validateKeyValue key value
  | .delete key => validateKey key

/-- Source `validate_batch`; `db-log-tx-incremental` makes the same checks in `commit_batch`. -/
def validateBatch (mutations : List Mutation) : Except DbError Unit := do
  failWhen (mutations = [])
    (.invalidInput s!"{program.constants.batchName} batch must not be empty")
  failWhen (program.constants.maxBatchMutations < mutations.length) (.invalidInput
    s!"{program.constants.batchName} has {mutations.length} mutations; maximum is {program.constants.maxBatchMutations}")
  mutations.forM validateMutation

/-- The header in front of the mutations. -/
def header (txId count : ℕ) : Bytes :=
  program.constants.magic ++ (leBytes 2 program.constants.version ++ (leBytes 2 0 ++
    (leBytes 8 txId ++ leBytes 4 count)))

/-- The reserved bytes of a mutation. -/
def reservedBytes : Bytes := [0, 0, 0]

/-- The fields in front of the key and the value of a mutation. -/
def mutationHeader (kind keyLen valueLen : ℕ) : Bytes :=
  leBytes 1 kind ++ (reservedBytes ++ (leBytes 4 keyLen ++ leBytes 4 valueLen))

/-- The bytes that `encode_transaction` adds for one mutation. -/
def encodeMutation (mutation : Mutation) : Except DbError Bytes := do
  let (kind, key, value) := match mutation with
    | .put key value => (program.constants.kindPut, key, value)
    | .delete key => (program.constants.kindDelete, key, [])
  failWhen (u32Max < key.length) (.invalidInput "transaction key length does not fit u32")
  failWhen (u32Max < value.length) (.invalidInput "transaction value length does not fit u32")
  .ok (mutationHeader kind key.length value.length ++ (key ++ value))

/-- One round of the loop of `encode_transaction`. -/
def appendMutation (encoded : Bytes) (mutation : Mutation) : Except DbError Bytes := do
  let bytes ← program.encodeMutation mutation
  failWhen (maxValueBytes < (encoded ++ bytes).length + program.constants.trailerLen) (.invalidInput
    s!"encoded incremental transaction exceeds the {maxValueBytes}-byte backing value limit")
  .ok (encoded ++ bytes)

/-- Source `encode_transaction`. -/
def encodeTransaction (txId : ℕ) (mutations : List Mutation) : Except DbError Bytes := do
  failWhen (txId = 0) (.invalidInput "transaction id zero is reserved")
  failWhen (u32Max < mutations.length)
    (.invalidInput "transaction mutation count does not fit u32")
  let encoded ← mutations.foldlM program.appendMutation (program.header txId mutations.length)
  .ok (encoded ++ leBytes 4 (crc32 encoded))

/-! ### Decoding -/

/-- A reader of the mutations. -/
abbrev Reader := StateT Bytes (Except DbError)

/-- The mutation of a kind. -/
def mutationOf (kind : ℕ) (key value : Bytes) : Except DbError Mutation :=
  if kind = program.constants.kindPut then do
    (validateKeyValue key value).mapError fun error =>
      corruption s!"transaction PUT violates KV bounds: {errorText error}"
    .ok (.put key value)
  else if kind = program.constants.kindDelete then do
    failWhen (value.length ≠ 0) (corruption "transaction DELETE unexpectedly contains a value")
    (validateKey key).mapError fun error =>
      corruption s!"transaction DELETE violates KV bounds: {errorText error}"
    .ok (.delete key)
  else .error (corruption s!"unknown transaction mutation kind {kind}")

/-- One round of the loop of `decode_transaction`; the bytes in front of the cursor are taken away. -/
def decodeMutation : Reader Mutation := do
  let fields ← takeFront (corruption "transaction mutation header is truncated")
    program.constants.mutationHeaderLen
  checked (failWhen (slice fields 1 3 ≠ reservedBytes)
    (corruption "transaction mutation reserved header bits are nonzero"))
  let payload ← takeFront (corruption "transaction mutation payload is truncated")
    (leNat (slice fields 4 4) + leNat (slice fields 8 4))
  checked (program.mutationOf (byteAt fields 0) (payload.take (leNat (slice fields 4 4)))
    (payload.drop (leNat (slice fields 4 4))))

/-- Source `decode_transaction`. -/
def decodeTransaction (bytes : Bytes) (expectedTxId : ℕ) : Except DbError (List Mutation) := do
  failWhen (bytes.length < program.constants.headerLen + program.constants.trailerLen)
    (corruption "incremental transaction is truncated")
  failWhen (slice bytes 0 8 ≠ program.constants.magic)
    (corruption "incremental transaction magic mismatch")
  failWhen (leNat (slice bytes 8 2) ≠ program.constants.version)
    (.unsupportedVersion "incremental transaction" (leNat (slice bytes 8 2)) program.constants.version)
  failWhen (leNat (slice bytes 10 2) ≠ 0)
    (corruption "incremental transaction reserved header bits are nonzero")
  failWhen (leNat (slice bytes 12 8) ≠ expectedTxId) (corruption
    s!"incremental transaction key/value id mismatch: key={expectedTxId}, value={leNat (slice bytes 12 8)}")
  let count := leNat (slice bytes 20 4)
  failWhen (count = 0 ∨ program.constants.maxBatchMutations < count) (corruption
    s!"incremental transaction mutation count {count} is outside 1..={program.constants.maxBatchMutations}")
  let trailerStart := bytes.length - program.constants.trailerLen
  let expectedCrc := leNat (bytes.drop trailerStart)
  let actualCrc := crc32 (bytes.take trailerStart)
  failWhen (expectedCrc ≠ actualCrc) (corruption
    s!"incremental transaction checksum mismatch: expected {hexPad 8 expectedCrc}, computed {hexPad 8 actualCrc}")
  failWhen (bytes.length < count * program.constants.mutationHeaderLen +
      (program.constants.headerLen + program.constants.trailerLen))
    (corruption "transaction mutation count exceeds available payload")
  let (mutations, rest) ← (readItems program.decodeMutation count).run
    ((bytes.take trailerStart).drop program.constants.headerLen)
  failWhen (rest ≠ []) (corruption "incremental transaction has unexplained trailing payload")
  .ok mutations

end Program
end DbLab.Tx
