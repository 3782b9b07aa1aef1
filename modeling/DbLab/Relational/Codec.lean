import DbLab.Lib.Crc32
import DbLab.Lib.Slice
import DbLab.Relational.Table

/-!
# The record of a relational transaction

A header of 24 bytes with the transaction id and the number of operations, the operations, and a
checksum. A decoder is a function that takes its field from the front of the bytes that are left in
front of the checksum.
-/

namespace DbLab.Relational

def magic : Bytes := [68, 66, 82, 69, 76, 84, 88, 49]
def version : ℕ := 1
def headerLen : ℕ := 24
def trailerLen : ℕ := 4

def corruption (reason : String) : DbError := .corruption 0 reason

/-! ### Encoding -/

def putString (value : String) : Except DbError Bytes :=
  if 65535 < (stringBytes value).length then
    .error (.invalidInput "string length does not fit u16")
  else .ok (leBytes 2 (stringBytes value).length ++ stringBytes value)

def putU16 (value : ℕ) : Except DbError Bytes :=
  if 65535 < value then .error (.invalidInput "relational field does not fit u16")
  else .ok (leBytes 2 value)

/-- The two's complement of an integer, least significant byte first. -/
def i64Bytes (value : I64) : Bytes := leBytes 8 (value.val % 2 ^ 64).toNat

def encodeCell : Cell → Except DbError Bytes
  | .int64 value => .ok (1 :: i64Bytes value)
  | .text value => do
    let encoded ← putString value
    .ok (2 :: encoded)

def ColumnType.encoded : ColumnType → Byte
  | int64 => 1
  | text => 2

def encodeColumn (column : Column) : Except DbError Bytes := do
  let name ← putString column.name
  .ok (name ++ [column.ty.encoded])

/-- The bytes that `encode_transaction` adds for one operation. -/
def encodeOp : RelOp → Except DbError Bytes
  | .createTable name schema => do
    let name ← putString name
    let primaryKey ← putU16 schema.primaryKey
    let count ← putU16 schema.columns.length
    let columns ← schema.columns.mapM encodeColumn
    .ok (1 :: (name ++ (primaryKey ++ (count ++ columns.flatten))))
  | .upsertRow table row => do
    let table ← putString table
    let count ← putU16 row.length
    let cells ← row.mapM encodeCell
    .ok (2 :: (table ++ (count ++ cells.flatten)))
  | .deleteRow table key => do
    let table ← putString table
    let key ← encodeCell key
    .ok (3 :: (table ++ key))

/-- Source `encode_transaction`. -/
def encodeTransaction (txId : ℕ) (ops : List RelOp) : Except DbError Bytes :=
  if 4294967295 < ops.length then
    .error (.invalidInput "relational operation count does not fit u32")
  else do
    let header := magic ++ (leBytes 2 version ++ (leBytes 2 0 ++ (leBytes 8 txId ++ leBytes 4 ops.length)))
    let out ← ops.foldlM (fun out op => do
      let encoded ← encodeOp op
      if maxValueBytes < (out ++ encoded).length + trailerLen then
        .error (.invalidInput
          s!"encoded relational transaction exceeds the {maxValueBytes}-byte backing value limit")
      else .ok (out ++ encoded)) header
    .ok (out ++ leBytes 4 (crc32 out))

/-! ### Decoding -/

/-- A reader of the payload. -/
abbrev Reader := StateT Bytes (Except DbError)

def take (len : ℕ) : Reader Bytes := fun rest =>
  if rest.length < len then .error (corruption "relational payload is truncated")
  else .ok (rest.take len, rest.drop len)

def takeByte : Reader ℕ := leNat <$> take 1

def takeU16 : Reader ℕ := leNat <$> take 2

def takeString : Reader String := do
  let len ← takeU16
  let value ← take len
  match String.fromUTF8? ⟨(value.map fun b => UInt8.ofNat b.val).toArray⟩ with
  | some s => pure s
  | none => throw (corruption "encoded string is not UTF-8")

/-- The integer of eight bytes in two's complement. -/
def toI64 (bytes : Bytes) : I64 :=
  let n : ℕ := leNat bytes % 2 ^ 64
  have hn : n < 2 ^ 64 := Nat.mod_lt _ (by norm_num)
  if h : n < 2 ^ 63 then ⟨(n : ℤ), by omega, by omega⟩
  else ⟨(n : ℤ) - 2 ^ 64, by omega, by omega⟩

def decodeCell : Reader Cell := do
  match ← takeByte with
  | 1 => return .int64 (toI64 (← take 8))
  | 2 => return .text (← takeString)
  | _ => throw (corruption "encoded row has unknown cell type")

def decodeColumn : Reader Column := do
  let name ← takeString
  match ← takeByte with
  | 1 => return ⟨name, .int64⟩
  | 2 => return ⟨name, .text⟩
  | _ => throw (corruption "encoded schema has unknown column type")

/-- Read several items. -/
def readMany {α : Type} (read : Reader α) : ℕ → Reader (List α)
  | 0 => pure []
  | n + 1 => do
    let item ← read
    let items ← readMany read n
    return item :: items

def decodeOp : Reader RelOp := do
  match ← takeByte with
  | 1 =>
    let name ← takeString
    let primaryKey ← takeU16
    let columnCount ← takeU16
    if columnCount = 0 ∨ maxColumns < columnCount then
      throw (corruption "encoded schema column count is invalid")
    return .createTable name ⟨← readMany decodeColumn columnCount, primaryKey⟩
  | 2 =>
    let table ← takeString
    let cellCount ← takeU16
    if cellCount = 0 ∨ maxColumns < cellCount then
      throw (corruption "encoded row cell count is invalid")
    return .upsertRow table (← readMany decodeCell cellCount)
  | 3 =>
    let table ← takeString
    return .deleteRow table (← decodeCell)
  | _ => throw (corruption "relational transaction contains unknown operation")

/-- Source `decode_transaction`. -/
def decodeTransaction (bytes : Bytes) (expectedTxId : ℕ) : Except DbError (List RelOp) := do
  failWhen (bytes.length < headerLen + trailerLen) (corruption "relational transaction is truncated")
  failWhen (bytes.take 8 ≠ magic) (corruption "relational transaction magic mismatch")
  failWhen (leNat (slice bytes 8 2) ≠ version)
    (.unsupportedVersion "relational transaction" (leNat (slice bytes 8 2)) version)
  failWhen (leNat (slice bytes 10 2) ≠ 0)
    (corruption "relational transaction reserved header bits are nonzero")
  failWhen (leNat (slice bytes 12 8) ≠ expectedTxId)
    (corruption s!"relational transaction key/value id mismatch: key={expectedTxId}, value={leNat (slice bytes 12 8)}")
  let count := leNat (slice bytes 20 4)
  failWhen (count = 0 ∨ maxOps < count)
    (corruption s!"relational operation count {count} is outside 1..={maxOps}")
  let trailer := bytes.length - trailerLen
  failWhen (leNat (bytes.drop trailer) ≠ crc32 (bytes.take trailer))
    (corruption "relational transaction checksum mismatch")
  let (ops, rest) ← readMany decodeOp count ((bytes.take trailer).drop headerLen)
  failWhen (rest ≠ []) (corruption "relational transaction has trailing payload bytes")
  .ok ops

end DbLab.Relational
