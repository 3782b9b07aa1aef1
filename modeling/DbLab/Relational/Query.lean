import DbLab.Relational.Engine
import DbLab.Relational.Rows

/-!
# Queries by scan

A query names a table, predicates on its columns and a projection. The scan resolves the names from the
catalog before it looks at the first row, and visits the rows in the order of their primary keys.
-/

namespace DbLab.Relational

/-- Typed comparison operator. -/
inductive CompareOp
  | eq | lt | le | gt | ge
  deriving DecidableEq

/-- The comparison of a cell with the literal. -/
def CompareOp.test : CompareOp → Cell → Cell → Bool
  | eq, value, literal => value = literal
  | lt, value, literal => value < literal
  | le, value, literal => value ≤ literal
  | gt, value, literal => literal < value
  | ge, value, literal => literal ≤ value

structure Predicate where
  column : String
  op : CompareOp
  value : Cell
  deriving DecidableEq

inductive Projection
  | all
  | columns (names : List String)
  deriving DecidableEq

structure Query where
  table : String
  predicate : Option Predicate
  projection : Projection
  deriving DecidableEq

structure ConjunctiveQuery where
  table : String
  predicates : List Predicate
  projection : Projection
  deriving DecidableEq

structure QueryResult where
  columns : List String
  rows : List (List Cell)
  deriving DecidableEq

/-- Source `schema`. -/
def RelationalEngine.schema (engine : RelationalEngine) (table : String) : Except DbError Schema :=
  match engine.tables.get table with
  | none => .error (unknownTable table)
  | some state => .ok state.schema

/-- Source `rows`. -/
def RelationalEngine.rows (engine : RelationalEngine) (table : String) :
    Except DbError (List (Cell × List Cell)) :=
  match engine.tables.get table with
  | none => .error (unknownTable table)
  | some state => .ok state.rows

def Schema.names (schema : Schema) : List String := schema.columns.map Column.name

/-- The position of a name among the names of the columns. -/
def position (names : List String) (name : String) : Except DbError ℕ :=
  match names.idxOf? name with
  | none => .error (.invalidInput s!"unknown column {name}")
  | some index => .ok index

/-- The loop over the columns of a projection. -/
def projectColumns (names seen : List String) : List String → Except DbError (List ℕ)
  | [] => .ok []
  | name :: rest =>
    if name ∈ seen then .error (.invalidInput s!"duplicate projected column {name}")
    else do
      let index ← position names name
      let indices ← projectColumns names (name :: seen) rest
      .ok (index :: indices)

/-- A projection over columns with these names. -/
def projectNames (names : List String) : Projection → Except DbError (List ℕ)
  | .all => .ok (List.range names.length)
  | .columns columns =>
    if columns = [] then .error (.invalidInput "query projection must contain at least one column")
    else projectColumns names [] columns

/-- Source `resolve_projection`. -/
def resolveProjection (schema : Schema) (projection : Projection) : Except DbError (List ℕ) :=
  projectNames schema.names projection

/-- Source `column_index`. -/
def columnIndex (schema : Schema) (name : String) : Except DbError ℕ := position schema.names name

/-- The type of a cell. -/
def Cell.type : Cell → ColumnType
  | .int64 _ => .int64
  | .text _ => .text

/-- Source `validate_literal_type`. -/
def validateLiteralType (value : Cell) (ty : ColumnType) : Except DbError Unit :=
  failWhen (value.type ≠ ty)
    (.invalidInput "query predicate literal type does not match column type")

/-- The name and the type of the column at an index. -/
def Schema.column (schema : Schema) (index : ℕ) : Column := schema.columns.getD index ⟨"", .int64⟩

/-- Source `resolve_predicate`. -/
def resolvePredicate (schema : Schema) (predicate : Predicate) : Except DbError (ℕ × Predicate) := do
  let index ← columnIndex schema predicate.column
  validateLiteralType predicate.value (schema.column index).ty
  .ok (index, predicate)

/-- The cell of a row at an index; the rows of a table have one for each column. -/
def cellAt (row : List Cell) (index : ℕ) : Cell := row.getD index default

/-- Source `matches_predicate`. -/
def matchesPredicate (value : Cell) (predicate : Predicate) : Bool :=
  predicate.op.test value predicate.value

/-- Source `project_row`. -/
def projectRow (row : List Cell) (projection : List ℕ) : List Cell := projection.map (cellAt row)

/-- Source `execute`. -/
def execute (engine : RelationalEngine) (query : Query) : Except DbError QueryResult := do
  let schema ← engine.schema query.table
  let projection ← resolveProjection schema query.projection
  let predicate ← match query.predicate with
    | none => .ok none
    | some predicate => some <$> resolvePredicate schema predicate
  let rows ← engine.rows query.table
  .ok
    { columns := projection.map fun index => (schema.column index).name
      rows := ((rows.map Prod.snd).filter fun row =>
          predicate.all fun (index, predicate) => matchesPredicate (cellAt row index) predicate).map
        (projectRow · projection) }

/-- Source `prepare_conjunctive`. -/
def prepareConjunctive (schema : Schema) (predicates : List Predicate) (projection : Projection) :
    Except DbError (List ℕ × List (ℕ × Predicate)) := do
  failWhen (predicates = []) (.invalidInput "conjunctive query must contain at least one predicate")
  let projection ← resolveProjection schema projection
  let predicates ← predicates.mapM (resolvePredicate schema)
  .ok (projection, predicates)

/-- Whether a row matches all predicates. -/
def matchesAll (predicates : List (ℕ × Predicate)) (row : List Cell) : Bool :=
  predicates.all fun (index, predicate) => matchesPredicate (cellAt row index) predicate

/-- Source `execute_conjunctive`. -/
def executeConjunctive (engine : RelationalEngine) (query : ConjunctiveQuery) :
    Except DbError QueryResult := do
  let schema ← engine.schema query.table
  let (projection, predicates) ← prepareConjunctive schema query.predicates query.projection
  let rows ← engine.rows query.table
  .ok
    { columns := projection.map fun index => (schema.column index).name
      rows := ((rows.map Prod.snd).filter (matchesAll predicates)).map (projectRow · projection) }

end DbLab.Relational
