import DbLab.Core
import DbLab.Lib.Sorted
import Mathlib.Data.String.Basic
import Mathlib.Data.Sum.Order

/-!
# Tables and relational operations

Tables have a fixed schema with one primary-key column and map keys to rows. `applyOps` validates and
applies the operations of a transaction one after another. The maps of the source are lists sorted by
their key.
-/

namespace DbLab.Relational

def maxOps : ℕ := 1024
def maxColumns : ℕ := 64
def maxNameBytes : ℕ := 255

/-- The UTF-8 bytes of a string. -/
def stringBytes (s : String) : Bytes :=
  s.toByteArray.data.toList.map fun b => ⟨b.toNat, b.toNat_lt⟩

/-- A signed 64-bit integer. -/
abbrev I64 := {z : ℤ // -2 ^ 63 ≤ z ∧ z < 2 ^ 63}

inductive ColumnType
  | int64
  | text
  deriving DecidableEq, Repr

structure Column where
  name : String
  ty : ColumnType
  deriving DecidableEq

structure Schema where
  columns : List Column
  primaryKey : ℕ
  deriving DecidableEq

/-- Typed relational cell. -/
inductive Cell
  | int64 (value : I64)
  | text (value : String)
  deriving DecidableEq

/-- Integers sort before texts. -/
def Cell.toLex : Cell → Lex (I64 ⊕ String)
  | int64 value => Sum.inlₗ value
  | text value => Sum.inrₗ value

theorem Cell.toLex_injective : Function.Injective Cell.toLex := by
  rintro (a | a) (b | b) h
  · rw [Sum.inl.inj h]
  · cases h
  · cases h
  · rw [Sum.inr.inj h]

instance : LinearOrder Cell := LinearOrder.lift' Cell.toLex Cell.toLex_injective

instance : Inhabited Cell := ⟨.text ""⟩

/-- Atomic relational mutation operation. -/
inductive RelOp
  | createTable (name : String) (schema : Schema)
  | upsertRow (table : String) (row : List Cell)
  | deleteRow (table : String) (key : Cell)
  deriving DecidableEq

/-- Source `validate_name`. -/
def validateName (name kind : String) : Except DbError Unit :=
  if name = "" ∨ maxNameBytes < (stringBytes name).length then
    .error (.invalidInput s!"{kind} name length must be in 1..={maxNameBytes} bytes")
  else if (stringBytes name).all fun b =>
      (48 ≤ b.val ∧ b.val ≤ 57) ∨ (65 ≤ b.val ∧ b.val ≤ 90) ∨ (97 ≤ b.val ∧ b.val ≤ 122) ∨ b.val = 95 then
    .ok ()
  else .error (.invalidInput s!"{kind} name must contain only ASCII letters, digits, or underscore")

/-- The loop of `validate_schema` over the columns. -/
def validateColumns (seen : List String) : List Column → Except DbError Unit
  | [] => .ok ()
  | column :: columns => do
    validateName column.name "column"
    if column.name ∈ seen then .error (.invalidInput s!"duplicate column {column.name}")
    else validateColumns (column.name :: seen) columns

/-- Source `validate_schema`. -/
def validateSchema (schema : Schema) : Except DbError Unit :=
  if schema.columns = [] ∨ maxColumns < schema.columns.length then
    .error (.invalidInput s!"schema column count must be in 1..={maxColumns}")
  else if schema.columns.length ≤ schema.primaryKey then
    .error (.invalidInput "schema primary key index is outside the column list")
  else validateColumns [] schema.columns

theorem primaryKey_lt {schema : Schema} (h : validateSchema schema = .ok ()) :
    schema.primaryKey < schema.columns.length := by
  unfold validateSchema at h
  split_ifs at h with h1 h2
  exact not_le.1 h2

/-- Source `validate_cell_type`. -/
def validateCellType : Cell → ColumnType → Except DbError Unit
  | .int64 _, .int64 => .ok ()
  | .text value, .text =>
    if maxValueBytes < (stringBytes value).length then
      .error (.invalidInput "text cell exceeds backing value limit")
    else .ok ()
  | _, _ => .error (.invalidInput "row cell type mismatch")

/-- Source `validate_row`. -/
def validateRow (schema : Schema) (row : List Cell) : Except DbError Unit :=
  if row.length ≠ schema.columns.length then
    .error (.invalidInput
      s!"row has {row.length} cells but schema requires {schema.columns.length}")
  else (row.zip schema.columns).forM fun (cell, column) => validateCellType cell column.ty

/-- A table whose schema has been validated. -/
structure TableState where
  schema : Schema
  rows : List (Cell × List Cell)
  primaryKey_lt : schema.primaryKey < schema.columns.length
  deriving DecidableEq

/-- The type of the primary-key column. -/
def TableState.keyType (state : TableState) : ColumnType :=
  (state.schema.columns.get ⟨state.schema.primaryKey, state.primaryKey_lt⟩).ty

/-- Tables by name. -/
abbrev Tables := List (String × TableState)

def Tables.get (tables : Tables) (name : String) : Option TableState :=
  (lookupBy Prod.fst name tables).map Prod.snd

def Tables.insert (tables : Tables) (name : String) (state : TableState) : Tables :=
  upsertBy Prod.fst (name, state) tables

def unknownTable (name : String) : DbError := .invalidInput s!"unknown table {name}"

/-- One round of `apply_ops`. -/
def applyOp (tables : Tables) : RelOp → Except DbError Tables
  | .createTable name schema => do
    validateName name "table"
    match h : validateSchema schema with
    | .error e => .error e
    | .ok () =>
      if (tables.get name).isSome then .error (.invalidInput s!"table {name} already exists")
      else .ok (tables.insert name ⟨schema, [], primaryKey_lt h⟩)
  | .upsertRow table row =>
    match tables.get table with
    | none => .error (unknownTable table)
    | some state => do
      validateRow state.schema row
      -- A row of the right length has a cell at the primary key.
      let key := row.getD state.schema.primaryKey default
      .ok (tables.insert table { state with rows := upsertBy Prod.fst (key, row) state.rows })
  | .deleteRow table key =>
    match tables.get table with
    | none => .error (unknownTable table)
    | some state => do
      validateCellType key state.keyType
      .ok (tables.insert table { state with rows := removeBy Prod.fst key state.rows })

/-- Source `apply_ops`. -/
def applyOps (tables : Tables) (ops : List RelOp) : Except DbError Tables := ops.foldlM applyOp tables

end DbLab.Relational
