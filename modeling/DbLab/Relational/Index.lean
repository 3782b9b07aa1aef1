import DbLab.Lib.Groups
import DbLab.Relational.Query

/-!
# Secondary indexes

An index groups the rows of a table by the cell in one column; a comparison selects the groups whose
cell matches and puts their rows back into the order of the primary keys. `IndexedQueryExecutor` has one
index over a snapshot, `MaintainedIndexEngine` any number of them, rebuilt behind every commit. In every
history both answer every query as the scan does.
-/

namespace DbLab.Relational

structure IndexSpec where
  table : String
  column : String
  deriving DecidableEq

def IndexSpec.toLex (spec : IndexSpec) : String ×ₗ String := (spec.table, spec.column)

theorem IndexSpec.toLex_injective : Function.Injective IndexSpec.toLex := by
  rintro ⟨table, column⟩ ⟨table', column'⟩ h
  obtain ⟨rfl, rfl⟩ := Prod.mk.inj h
  rfl

instance : LinearOrder IndexSpec := LinearOrder.lift' IndexSpec.toLex IndexSpec.toLex_injective

structure MaterializedIndex where
  keyType : ColumnType
  primaryKey : ℕ
  columns : List String
  entries : List (Cell × List (List Cell))
  deriving DecidableEq

namespace MaterializedIndex

/-- Source `build`. -/
def build (engine : RelationalEngine) (spec : IndexSpec) : Except DbError MaterializedIndex := do
  let schema ← engine.schema spec.table
  let columnIndex ← columnIndex schema spec.column
  let rows ← engine.rows spec.table
  .ok
    { keyType := (schema.column columnIndex).ty
      primaryKey := schema.primaryKey
      columns := schema.names
      entries := groupsOf (cellAt · columnIndex) (rows.map Prod.snd) }

def typeMismatch : DbError :=
  .invalidInput "index lookup literal type does not match indexed column type"

/-- The rows of the groups whose cell matches, in the order of the primary keys. -/
def sortedRows (index : MaterializedIndex) (op : CompareOp) (value : Cell) : List (List Cell) :=
  (selected (op.test · value) index.entries).mergeSort fun left right =>
    decide (cellAt left index.primaryKey ≤ cellAt right index.primaryKey)

/-- Source `matching_rows`. -/
def matchingRows (index : MaterializedIndex) (op : CompareOp) (value : Cell) :
    Except DbError (List (List Cell)) := do
  failWhen (value.type ≠ index.keyType) typeMismatch
  .ok (index.sortedRows op value)

/-- The result that the rows give under a projection. -/
def result (index : MaterializedIndex) (projection : List ℕ) (rows : List (List Cell)) : QueryResult where
  columns := projection.map fun i => index.columns.getD i ""
  rows := rows.map (projectRow · projection)

/-- Source `execute_compare` of the maintained index: the projection is checked before the literal. -/
def executeCompare (index : MaterializedIndex) (op : CompareOp) (value : Cell) (projection : Projection) :
    Except DbError QueryResult := do
  let projection ← projectNames index.columns projection
  let rows ← index.matchingRows op value
  .ok (index.result projection rows)

end MaterializedIndex

/-- An index over a snapshot. -/
structure SecondaryIndex extends MaterializedIndex where
  table : String
  column : String
  deriving DecidableEq

namespace SecondaryIndex

/-- Source `build`. -/
def build (engine : RelationalEngine) (table column : String) : Except DbError SecondaryIndex := do
  let index ← MaterializedIndex.build engine ⟨table, column⟩
  .ok { index with table := table, column := column }

/-- Source `execute_compare`: the literal is checked before the projection. -/
def executeCompare (index : SecondaryIndex) (op : CompareOp) (value : Cell) (projection : Projection) :
    Except DbError QueryResult := do
  failWhen (value.type ≠ index.keyType) MaterializedIndex.typeMismatch
  let projection ← projectNames index.columns projection
  .ok (index.result projection (index.sortedRows op value))

end SecondaryIndex

structure IndexedQueryExecutor where
  engine : RelationalEngine
  index : SecondaryIndex
  deriving DecidableEq

namespace IndexedQueryExecutor

/-- Source `build`. -/
def build (engine : RelationalEngine) (table column : String) : Except DbError IndexedQueryExecutor := do
  let index ← SecondaryIndex.build engine table column
  .ok ⟨engine, index⟩

/-- Source `execute`. -/
def execute (executor : IndexedQueryExecutor) (query : Query) : Except DbError QueryResult :=
  match query.predicate with
  | none => Relational.execute executor.engine query
  | some predicate =>
    if query.table = executor.index.table ∧ predicate.column = executor.index.column then
      executor.index.executeCompare predicate.op predicate.value query.projection
    else Relational.execute executor.engine query

end IndexedQueryExecutor

structure MaintainedIndexEngine where
  engine : RelationalEngine
  indexes : List (IndexSpec × MaterializedIndex)
  deriving DecidableEq

namespace MaintainedIndexEngine

/-- Source `open`. -/
def openFile (file : Option Bytes) : Except DbError MaintainedIndexEngine := do
  let engine ← RelationalEngine.openFile file
  .ok ⟨engine, []⟩

def index (m : MaintainedIndexEngine) (spec : IndexSpec) : Option MaterializedIndex :=
  (lookupBy Prod.fst spec m.indexes).map Prod.snd

/-- Source `register_index`. -/
def registerIndex (table column : String) : Prog MaintainedIndexEngine DbError Unit := do
  let m ← Prog.get
  Prog.ofExcept (failWhen ((m.index ⟨table, column⟩).isSome = true) (.invalidInput
    s!"secondary index already registered for {table}.{column}"))
  let index ← Prog.ofExcept (MaterializedIndex.build m.engine ⟨table, column⟩)
  Prog.set { m with indexes := upsertBy Prod.fst (⟨table, column⟩, index) m.indexes }

/-- The indexes of a list of names, built from one engine. -/
def buildAll (engine : RelationalEngine) (specs : List IndexSpec) :
    Except DbError (List (IndexSpec × MaterializedIndex)) :=
  specs.foldlM (fun rebuilt spec => do
    let index ← MaterializedIndex.build engine spec
    .ok (upsertBy Prod.fst (spec, index) rebuilt)) []

/-- Source `rebuild_indexes`. -/
def rebuildIndexes : Prog MaintainedIndexEngine DbError Unit := do
  let m ← Prog.get
  let rebuilt ← Prog.ofExcept (buildAll m.engine (m.indexes.map Prod.fst))
  Prog.set { m with indexes := rebuilt }

/-- Source `commit`. -/
def commit (ops : List RelOp) : Prog MaintainedIndexEngine DbError ℕ := do
  let txId ← Prog.zoom engine (fun m engine => { m with engine := engine }) (RelationalEngine.commit ops)
  rebuildIndexes
  pure txId

/-- Source `execute`. -/
def execute (m : MaintainedIndexEngine) (query : Query) : Except DbError QueryResult :=
  match query.predicate with
  | none => Relational.execute m.engine query
  | some predicate =>
    match m.index ⟨query.table, predicate.column⟩ with
    | some index => index.executeCompare predicate.op predicate.value query.projection
    | none => Relational.execute m.engine query

/-- The first predicate with an index, and its index. -/
def driver (m : MaintainedIndexEngine) (table : String) (predicates : List (ℕ × Predicate)) :
    Option (MaterializedIndex × Predicate) :=
  predicates.findSome? fun (_, predicate) =>
    (m.index ⟨table, predicate.column⟩).map fun index => (index, predicate)

/-- Source `execute_conjunctive`. -/
def executeConjunctive (m : MaintainedIndexEngine) (query : ConjunctiveQuery) :
    Except DbError QueryResult := do
  let schema ← m.engine.schema query.table
  let (projection, predicates) ← prepareConjunctive schema query.predicates query.projection
  match m.driver query.table predicates with
  | none => Relational.executeConjunctive m.engine query
  | some (index, predicate) => do
    let rows ← index.matchingRows predicate.op predicate.value
    .ok
      { columns := projection.map fun index => (schema.column index).name
        rows := (rows.filter (matchesAll predicates)).map (projectRow · projection) }

end MaintainedIndexEngine
end DbLab.Relational
