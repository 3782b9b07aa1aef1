import DbLab.Relational.Index

/-!
# Indexed queries and the scan

`Keyed` says that every row stands under its primary key, so that the rows of a table are in the order
of their keys; `Fresh` that every index is the one that its name builds now. Both hold in every history,
and then the groups of an index give the rows of the scan.
-/

namespace DbLab.Relational

/-- The tables are ordered, and every row stands under its primary key. -/
structure Keyed (tables : Tables) : Prop where
  ordered : Ordered tables
  keys : ∀ name state, tables.get name = some state →
    ∀ entry ∈ state.rows, entry.1 = cellAt entry.2 state.schema.primaryKey

variable {tables tables' : Tables} {table : String} {state : TableState} {op : RelOp} {ops : List RelOp}
  {engine : RelationalEngine} {m m' : MaintainedIndexEngine} {spec : IndexSpec} {schema : Schema}
  {index : MaterializedIndex} {e : DbError} {names : List String} {projection : Projection}

theorem keyed_nil : Keyed [] := ⟨ordered_nil, fun _ _ h => by cases h⟩

theorem Keyed.insert (h : Keyed tables) (hrows : SortedBy Prod.fst state.rows)
    (hkeys : ∀ entry ∈ state.rows, entry.1 = cellAt entry.2 state.schema.primaryKey) :
    Keyed (tables.insert table state) where
  ordered := h.ordered.insert hrows
  keys name state' hget := by
    rw [h.ordered.get_insert] at hget
    split_ifs at hget with heq
    · cases hget
      exact hkeys
    · exact h.keys name state' hget

theorem Keyed.applyOp (h : Keyed tables) (happly : applyOp tables op = .ok tables') : Keyed tables' := by
  cases op with
  | createTable name schema =>
    obtain ⟨-, hpk, rfl⟩ := applyOp_createTable happly
    exact h.insert sortedBy_nil fun _ hmem => absurd hmem List.not_mem_nil
  | upsertRow table row =>
    obtain ⟨state, hstate, -, rfl⟩ := applyOp_upsertRow happly
    have hsorted := h.ordered.rows table state hstate
    refine h.insert hsorted.upsertBy fun entry hmem => ?_
    rcases (mem_upsertBy hsorted).1 hmem with rfl | ⟨hold, -⟩
    · rfl
    · exact h.keys table state hstate entry hold
  | deleteRow table key =>
    obtain ⟨state, hstate, -, rfl⟩ := applyOp_deleteRow happly
    exact h.insert (h.ordered.rows table state hstate).removeBy fun entry hmem =>
      h.keys table state hstate entry (mem_removeBy.1 hmem).1

theorem Keyed.applyOps (h : Keyed tables) (happly : applyOps tables ops = .ok tables') : Keyed tables' := by
  induction ops generalizing tables with
  | nil =>
    cases happly
    exact h
  | cons op ops ih =>
    rw [Relational.applyOps, List.foldlM_cons, Checked.bind_eq_ok] at happly
    obtain ⟨middle, hmiddle, hrest⟩ := happly
    exact ih (h.applyOp hmiddle) hrest

/-- The rows of a table are in the order of their primary keys. -/
theorem Keyed.sorted (h : Keyed tables) (hstate : tables.get table = some state) :
    SortedBy (cellAt · state.schema.primaryKey) (state.rows.map Prod.snd) := by
  rw [sortedBy_map]
  refine List.Pairwise.imp_of_mem ?_ (h.ordered.rows table state hstate)
  intro a b ha hb hlt
  rwa [h.keys table state hstate a ha, h.keys table state hstate b hb] at hlt

/-! ### One index -/

theorem schema_eq_ok : engine.schema table = .ok schema ↔
    ∃ state, engine.tables.get table = some state ∧ state.schema = schema := by
  rw [RelationalEngine.schema]
  cases engine.tables.get table with
  | none => simp
  | some state => simp

/-- The index that a table and a column of it give. -/
theorem build_eq_ok : MaterializedIndex.build engine spec = .ok index ↔
    ∃ state i, engine.tables.get spec.table = some state ∧ columnIndex state.schema spec.column = .ok i ∧
      index = ⟨(state.schema.column i).ty, state.schema.primaryKey, state.schema.names,
        groupsOf (cellAt · i) (state.rows.map Prod.snd)⟩ := by
  rw [MaterializedIndex.build, RelationalEngine.schema, RelationalEngine.rows]
  cases engine.tables.get spec.table with
  | none => simp [Checked.error_bind]
  | some state =>
    simp only [Checked.ok_bind, Checked.bind_eq_ok, Except.ok.injEq, Option.some.injEq]
    constructor
    · rintro ⟨i, hi, rfl⟩
      exact ⟨state, i, rfl, hi, rfl⟩
    · rintro ⟨state, i, rfl, hi, rfl⟩
      exact ⟨i, hi, rfl⟩

/-- **The index selects the rows that the scan selects**, in the same order. -/
theorem sortedRows_eq (hkeyed : Keyed engine.tables) (hstate : engine.tables.get table = some state) (i : ℕ)
    (ty : ColumnType) (op : CompareOp) (value : Cell) :
    MaterializedIndex.sortedRows ⟨ty, state.schema.primaryKey, state.schema.names,
        groupsOf (cellAt · i) (state.rows.map Prod.snd)⟩ op value =
      (state.rows.map Prod.snd).filter fun row => op.test (cellAt row i) value :=
  sort_selected (hkeyed.sorted hstate)

theorem column_name (i : ℕ) : schema.names.getD i "" = (schema.column i).name := by
  rw [Schema.names, Schema.column]
  rw [List.getD_eq_getElem?_getD, List.getD_eq_getElem?_getD, List.getElem?_map]
  cases schema.columns[i]? with
  | none => rfl
  | some column => rfl

/-! ### Errors -/

/-- Two answers that are the same, or fail with errors of one class. -/
def SameAnswer (x y : Except DbError QueryResult) : Prop :=
  match x, y with
  | .ok r, .ok r' => r = r'
  | .error e, .error e' => e.errorClass = e'.errorClass
  | _, _ => False

theorem sameAnswer_refl (x : Except DbError QueryResult) : SameAnswer x x := by
  cases x with
  | error e => exact rfl
  | ok r => exact rfl

theorem position_error {name : String} (h : position names name = .error e) : e.errorClass = .invalidInput := by
  rw [position] at h
  split at h
  · cases h
    rfl
  · cases h

theorem projectColumns_error {seen columns : List String} (h : projectColumns names seen columns = .error e) :
    e.errorClass = .invalidInput := by
  induction columns generalizing seen with
  | nil => cases h
  | cons name rest ih =>
    rw [projectColumns] at h
    by_cases hseen : name ∈ seen
    · rw [if_pos hseen] at h
      cases h
      rfl
    · rw [if_neg hseen] at h
      cases hposition : position names name with
      | error e' =>
        rw [hposition] at h
        cases h
        exact position_error hposition
      | ok i =>
        rw [hposition, Checked.ok_bind] at h
        cases hrest : projectColumns names (name :: seen) rest with
        | error e' =>
          rw [hrest] at h
          cases h
          exact ih hrest
        | ok indices =>
          rw [hrest] at h
          cases h

/-- What is wrong with a projection is an invalid input. -/
theorem projectNames_error (h : projectNames names projection = .error e) : e.errorClass = .invalidInput := by
  cases projection with
  | all => cases h
  | columns columns =>
    rw [projectNames] at h
    by_cases hempty : columns = []
    · rw [if_pos hempty] at h
      cases h
      rfl
    · rw [if_neg hempty] at h
      exact projectColumns_error h

/-! ### One predicate -/

/-- The scan of a table under one predicate. -/
theorem execute_eq {query : Query} {predicate : Predicate} {i : ℕ} (hpredicate : query.predicate = some predicate)
    (hstate : engine.tables.get query.table = some state)
    (hi : columnIndex state.schema predicate.column = .ok i) :
    execute engine query = (do
      let projection ← projectNames state.schema.names query.projection
      validateLiteralType predicate.value (state.schema.column i).ty
      .ok
        { columns := projection.map fun index => (state.schema.column index).name
          rows := ((state.rows.map Prod.snd).filter fun row =>
            predicate.op.test (cellAt row i) predicate.value).map (projectRow · projection) }) := by
  have hpredicate' : resolvePredicate state.schema predicate = (do
      validateLiteralType predicate.value (state.schema.column i).ty
      .ok (i, predicate)) := by
    rw [resolvePredicate, hi, Checked.ok_bind]
  rw [execute, schema_eq_ok.2 ⟨state, hstate, rfl⟩, Checked.ok_bind, resolveProjection]
  cases projectNames state.schema.names query.projection with
  | error e => rfl
  | ok projection =>
    rw [Checked.ok_bind, Checked.ok_bind, hpredicate]
    dsimp only
    rw [hpredicate', RelationalEngine.rows, hstate]
    cases validateLiteralType predicate.value (state.schema.column i).ty with
    | error e => rfl
    | ok _ => rfl

theorem result_eq {i : ℕ} (hkeyed : Keyed engine.tables) (hstate : engine.tables.get table = some state)
    (ty : ColumnType) (op : CompareOp) (value : Cell) (projection : List ℕ) :
    let index : MaterializedIndex := ⟨ty, state.schema.primaryKey, state.schema.names,
        groupsOf (cellAt · i) (state.rows.map Prod.snd)⟩
    index.result projection (index.sortedRows op value) =
      { columns := projection.map fun index => (state.schema.column index).name
        rows := ((state.rows.map Prod.snd).filter fun row => op.test (cellAt row i) value).map
          (projectRow · projection) } := by
  intro index
  rw [MaterializedIndex.result, sortedRows_eq hkeyed hstate]
  simp only [index, column_name]

/-- **A maintained index** answers a comparison of its column as the scan does. -/
theorem executeCompare_same {query : Query} {predicate : Predicate} (hkeyed : Keyed engine.tables)
    (hpredicate : query.predicate = some predicate)
    (hbuild : MaterializedIndex.build engine ⟨query.table, predicate.column⟩ = .ok index) :
    SameAnswer (index.executeCompare predicate.op predicate.value query.projection) (execute engine query) := by
  obtain ⟨state, i, hstate, hi, rfl⟩ := build_eq_ok.1 hbuild
  rw [execute_eq hpredicate hstate hi, MaterializedIndex.executeCompare]
  dsimp only
  cases hprojection : projectNames state.schema.names query.projection with
  | error e => exact rfl
  | ok projection =>
    rw [Checked.ok_bind, Checked.ok_bind, MaterializedIndex.matchingRows, validateLiteralType]
    dsimp only
    by_cases htype : predicate.value.type = (state.schema.column i).ty
    · rw [failWhen_eq_ok (u := ()) |>.2 (not_not.2 htype), failWhen_eq_ok (u := ()) |>.2 (not_not.2 htype)]
      exact result_eq hkeyed hstate _ _ _ _
    · rw [failWhen, failWhen, checkWhen, checkWhen, if_pos htype, if_pos htype]
      exact rfl

/-- **An index over a snapshot** does as well; it checks the literal first, and every error of either is
an invalid input. -/
theorem secondary_same {query : Query} {predicate : Predicate} {index : SecondaryIndex}
    (hkeyed : Keyed engine.tables) (hpredicate : query.predicate = some predicate)
    (hbuild : SecondaryIndex.build engine query.table predicate.column = .ok index) :
    SameAnswer (index.executeCompare predicate.op predicate.value query.projection) (execute engine query) := by
  rw [SecondaryIndex.build, Checked.bind_eq_ok] at hbuild
  obtain ⟨built, hbuild, hindex⟩ := hbuild
  obtain ⟨state, i, hstate, hi, rfl⟩ := build_eq_ok.1 hbuild
  cases hindex
  rw [execute_eq hpredicate hstate hi, SecondaryIndex.executeCompare, validateLiteralType]
  dsimp only
  by_cases htype : predicate.value.type = (state.schema.column i).ty
  · rw [failWhen_eq_ok (u := ()) |>.2 (not_not.2 htype), failWhen_eq_ok (u := ()) |>.2 (not_not.2 htype),
      Checked.ok_bind]
    cases projectNames state.schema.names query.projection with
    | error e => exact rfl
    | ok projection => exact result_eq hkeyed hstate _ _ _ _
  · rw [failWhen, failWhen, checkWhen, checkWhen, if_pos htype, if_pos htype]
    cases hprojection : projectNames state.schema.names query.projection with
    | error e => exact (projectNames_error hprojection).symm
    | ok projection => exact rfl

/-- **The executor over one index** answers every query as the scan does. -/
theorem executor_same {column : String} {executor : IndexedQueryExecutor} (hkeyed : Keyed engine.tables)
    (hbuild : IndexedQueryExecutor.build engine table column = .ok executor) (query : Query) :
    SameAnswer (executor.execute query) (execute engine query) := by
  rw [IndexedQueryExecutor.build, Checked.bind_eq_ok] at hbuild
  obtain ⟨index, hindex, h⟩ := hbuild
  cases h
  have hnames : index.table = table ∧ index.column = column := by
    rw [SecondaryIndex.build, Checked.bind_eq_ok] at hindex
    obtain ⟨built, -, h⟩ := hindex
    cases h
    exact ⟨rfl, rfl⟩
  rw [IndexedQueryExecutor.execute]
  cases hpredicate : query.predicate with
  | none => exact sameAnswer_refl _
  | some predicate =>
    dsimp only
    by_cases hmatch : query.table = index.table ∧ predicate.column = index.column
    · rw [if_pos hmatch]
      refine secondary_same hkeyed hpredicate ?_
      rw [hmatch.1, hmatch.2, hnames.1, hnames.2]
      exact hindex
    · rw [if_neg hmatch]
      exact sameAnswer_refl _

/-! ### Maintained indexes -/

/-- Every index is the one that its name builds now. -/
structure Fresh (m : MaintainedIndexEngine) : Prop where
  keyed : Keyed m.engine.tables
  sorted : SortedBy Prod.fst m.indexes
  built : ∀ spec index, (spec, index) ∈ m.indexes → MaterializedIndex.build m.engine spec = .ok index

theorem Fresh.index_eq_some (h : Fresh m) (hindex : m.index spec = some index) :
    MaterializedIndex.build m.engine spec = .ok index := by
  rw [MaintainedIndexEngine.index, Option.map_eq_some_iff] at hindex
  obtain ⟨⟨spec', index'⟩, hlookup, rfl⟩ := hindex
  obtain ⟨hmem, rfl⟩ := (lookupBy_eq_some h.sorted).1 hlookup
  exact h.built _ _ hmem

theorem Fresh.execute_same (h : Fresh m) (query : Query) :
    SameAnswer (m.execute query) (execute m.engine query) := by
  rw [MaintainedIndexEngine.execute]
  cases hpredicate : query.predicate with
  | none => exact sameAnswer_refl _
  | some predicate =>
    dsimp only
    cases hindex : m.index ⟨query.table, predicate.column⟩ with
    | none => exact sameAnswer_refl _
    | some index => exact executeCompare_same h.keyed hpredicate (h.index_eq_some hindex)

/-- A predicate that is resolved names a column of its type. -/
theorem resolvePredicate_eq_ok {predicate : Predicate} {resolved : ℕ × Predicate}
    (h : resolvePredicate schema predicate = .ok resolved) :
    resolved.2 = predicate ∧ columnIndex schema predicate.column = .ok resolved.1 ∧
      predicate.value.type = (schema.column resolved.1).ty := by
  unfold resolvePredicate validateLiteralType at h
  simp only [Checked.bind_eq_ok, failWhen_eq_ok, not_not, Except.ok.injEq] at h
  obtain ⟨i, hi, _, htype, rfl⟩ := h
  exact ⟨rfl, hi, htype⟩

theorem Fresh.executeConjunctive_same (h : Fresh m) (query : ConjunctiveQuery) :
    SameAnswer (m.executeConjunctive query) (executeConjunctive m.engine query) := by
  rw [MaintainedIndexEngine.executeConjunctive]
  cases hschema : m.engine.schema query.table with
  | error e =>
    rw [executeConjunctive, hschema]
    exact rfl
  | ok schema =>
    obtain ⟨state, hstate, rfl⟩ := schema_eq_ok.1 hschema
    rw [Checked.ok_bind]
    cases hprepare : prepareConjunctive state.schema query.predicates query.projection with
    | error e =>
      rw [executeConjunctive, hschema, Checked.ok_bind, hprepare]
      exact rfl
    | ok prepared =>
      obtain ⟨projection, predicates⟩ := prepared
      rw [Checked.ok_bind]
      dsimp only
      cases hdriver : m.driver query.table predicates with
      | none => exact sameAnswer_refl _
      | some driver =>
        obtain ⟨index, predicate⟩ := driver
        -- The driver is one of the predicates, resolved, and its index is fresh.
        obtain ⟨⟨i, predicate'⟩, hmem, hindex⟩ := List.exists_of_findSome?_eq_some hdriver
        rw [Option.map_eq_some_iff] at hindex
        obtain ⟨index', hindex, hpair⟩ := hindex
        obtain ⟨rfl, rfl⟩ := Prod.mk.inj hpair
        have hresolved : resolvePredicate state.schema predicate' = .ok (i, predicate') := by
          unfold prepareConjunctive at hprepare
          simp only [Checked.bind_eq_ok, Except.ok.injEq] at hprepare
          obtain ⟨-, -, _, -, _, hpredicates, heq⟩ := hprepare
          obtain ⟨-, rfl⟩ := Prod.mk.inj heq
          obtain ⟨source, -, hsource⟩ := Checked.exists_of_mem_right (Checked.mapM_eq_ok.1 hpredicates) hmem
          obtain ⟨hsame, -⟩ := resolvePredicate_eq_ok hsource
          cases hsame
          exact hsource
        obtain ⟨-, hi, htype⟩ := resolvePredicate_eq_ok hresolved
        obtain ⟨state', i', hstate', hi', rfl⟩ := build_eq_ok.1 (h.index_eq_some hindex)
        rw [hstate, Option.some.injEq] at hstate'
        subst hstate'
        rw [hi, Except.ok.injEq] at hi'
        subst hi'
        rw [executeConjunctive, hschema, Checked.ok_bind, hprepare, Checked.ok_bind, RelationalEngine.rows,
          hstate]
        dsimp only
        rw [MaterializedIndex.matchingRows, failWhen_eq_ok (u := ()) |>.2 (not_not.2 htype),
          sortedRows_eq h.keyed hstate]
        show QueryResult.mk _ _ = QueryResult.mk _ _
        rw [List.filter_filter]
        congr 2
        refine List.filter_congr fun row _ => ?_
        cases hall : matchesAll predicates row with
        | false => rfl
        | true =>
          rw [matchesAll, List.all_eq_true] at hall
          exact hall _ hmem

/-! ### Histories -/

/-- A commit on a log that is poisoned fails without a trace. -/
theorem commit_poisoned (hpoisoned : engine.backing.poisoned = true) (ops : List RelOp) :
    ∃ e, RelationalEngine.commit ops engine = (.error e, engine) := by
  unfold RelationalEngine.commit
  cases failWhen (ops = []) _ with
  | error e => exact ⟨e, rfl⟩
  | ok _ =>
  rw [Prog.ofExcept_ok_bind]
  cases failWhen (maxOps < ops.length) _ with
  | error e => exact ⟨e, rfl⟩
  | ok _ =>
  rw [Prog.ofExcept_ok_bind, Prog.get_bind]
  cases applyOps engine.tables ops with
  | error e => exact ⟨e, rfl⟩
  | ok candidate =>
  rw [Prog.ofExcept_ok_bind]
  cases Relational.encodeTransaction engine.nextTxId ops with
  | error e => exact ⟨e, rfl⟩
  | ok encoded =>
  rw [Prog.ofExcept_ok_bind]
  have hput : ∃ e, Log.LogEngine.put (txKey engine.nextTxId) encoded engine.backing = (.error e, engine.backing) := by
    rw [Log.LogEngine.put]
    cases validateKeyValue (txKey engine.nextTxId) encoded with
    | error e => exact ⟨e, rfl⟩
    | ok _ =>
      refine ⟨.poisoned, ?_⟩
      rw [Prog.ofExcept_ok_bind, Prog.get_bind, Prog.bind_error (t := engine.backing)]
      rw [Log.LogEngine.append, Prog.bind_error]
      rw [Log.LogEngine.ensureUsable, Prog.reads, if_pos hpoisoned]
  obtain ⟨e, hput⟩ := hput
  refine ⟨e, Prog.bind_error ?_⟩
  rw [RelationalEngine.onBacking, Prog.zoom, hput]

/-- The log of the engine holds its file, or it is poisoned. -/
def Answering (engine : RelationalEngine) : Prop :=
  RelationalEngine.Healthy engine ∨ engine.backing.poisoned = true

theorem Answering.commit (h : Answering engine) (ops : List RelOp) :
    (∃ txId engine', RelationalEngine.commit ops engine = (.ok txId, engine') ∧ Answering engine' ∧
      applyOps engine.tables ops = .ok engine'.tables) ∨
    ∃ e, RelationalEngine.commit ops engine = (.error e, engine) := by
  rcases h with h | h
  · rcases h.commit ops with ⟨engine', hrun, hhealthy, happly, -⟩ | ⟨e, hrun⟩
    · exact .inl ⟨_, engine', hrun, .inl hhealthy, happly⟩
    · exact .inr ⟨e, hrun⟩
  · exact .inr (commit_poisoned h ops)

/-- Building depends on the tables alone. -/
theorem build_congr {engine' : RelationalEngine} (h : engine'.tables = engine.tables) :
    MaterializedIndex.build engine' spec = MaterializedIndex.build engine spec := by
  rw [MaterializedIndex.build, MaterializedIndex.build, RelationalEngine.schema, RelationalEngine.schema,
    RelationalEngine.rows, RelationalEngine.rows, h]

/-- What can be built before a commit can be built behind it. -/
theorem exists_build {engine' : RelationalEngine} (hkeyed : Keyed engine.tables)
    (happly : applyOps engine.tables ops = .ok engine'.tables)
    (hbuild : MaterializedIndex.build engine spec = .ok index) :
    ∃ index', MaterializedIndex.build engine' spec = .ok index' := by
  obtain ⟨state, i, hstate, hi, -⟩ := build_eq_ok.1 hbuild
  obtain ⟨state', hstate', hschema, -⟩ := @Ordered.keeps_applyOps _ _ spec.table ops default hkeyed.ordered happly state hstate
  exact ⟨_, build_eq_ok.2 ⟨state', i, hstate', hschema ▸ hi, rfl⟩⟩

/-- Building a list of indexes, one after another. -/
theorem buildAll_spec {specs : List IndexSpec} {rebuilt : List (IndexSpec × MaterializedIndex)}
    (hspecs : ∀ spec ∈ specs, ∃ index, MaterializedIndex.build engine spec = .ok index)
    (hsorted : SortedBy Prod.fst rebuilt)
    (hbuilt : ∀ spec index, (spec, index) ∈ rebuilt → MaterializedIndex.build engine spec = .ok index) :
    ∃ all, specs.foldlM (fun rebuilt spec => do
        let index ← MaterializedIndex.build engine spec
        .ok (upsertBy Prod.fst (spec, index) rebuilt)) rebuilt = .ok all ∧
      SortedBy Prod.fst all ∧
      ∀ spec index, (spec, index) ∈ all → MaterializedIndex.build engine spec = .ok index := by
  induction specs generalizing rebuilt with
  | nil => exact ⟨rebuilt, rfl, hsorted, hbuilt⟩
  | cons spec specs ih =>
    obtain ⟨index, hindex⟩ := hspecs spec List.mem_cons_self
    rw [List.foldlM_cons, hindex, Checked.ok_bind, Checked.ok_bind]
    refine ih (fun spec' hmem => hspecs spec' (List.mem_cons_of_mem _ hmem)) hsorted.upsertBy ?_
    intro spec' index' hmem
    rcases (mem_upsertBy hsorted).1 hmem with heq | ⟨hold, -⟩
    · obtain ⟨rfl, rfl⟩ := Prod.mk.inj heq
      exact hindex
    · exact hbuilt spec' index' hold

/-- **A commit keeps the indexes fresh**: they are rebuilt behind one that succeeds, and the tables stay
behind one that fails. -/
theorem Fresh.commit {result : Except DbError ℕ} (h : Fresh m) (ha : Answering m.engine)
    (hcommit : MaintainedIndexEngine.commit ops m = (result, m')) : Fresh m' ∧ Answering m'.engine := by
  unfold MaintainedIndexEngine.commit at hcommit
  rcases ha.commit ops with ⟨txId, engine', hrun, ha', happly⟩ | ⟨e, hrun⟩
  · have hzoom : Prog.zoom MaintainedIndexEngine.engine (fun m engine => { m with engine := engine })
        (RelationalEngine.commit ops) m = (.ok txId, { m with engine := engine' }) := by
      rw [Prog.zoom, hrun]
    obtain ⟨all, hall, hsorted, hbuilt⟩ := @buildAll_spec engine' (m.indexes.map Prod.fst) []
      (fun spec hmem => by
        obtain ⟨⟨spec, index⟩, hentry, rfl⟩ := List.mem_map.1 hmem
        exact exists_build h.keyed happly (h.built spec index hentry))
      sortedBy_nil (fun _ _ hmem => absurd hmem List.not_mem_nil)
    have hrebuild : MaintainedIndexEngine.rebuildIndexes { m with engine := engine' } =
        (.ok (), { m with engine := engine', indexes := all }) := by
      rw [MaintainedIndexEngine.rebuildIndexes, Prog.get_bind]
      show (Prog.ofExcept (MaintainedIndexEngine.buildAll engine' (m.indexes.map Prod.fst)) >>= _) _ = _
      rw [MaintainedIndexEngine.buildAll, hall]
      rfl
    rw [Prog.bind_ok hzoom, Prog.bind_ok hrebuild] at hcommit
    obtain ⟨-, rfl⟩ := Prod.mk.inj hcommit
    exact ⟨⟨h.keyed.applyOps happly, hsorted, hbuilt⟩, ha'⟩
  · have hzoom : Prog.zoom MaintainedIndexEngine.engine (fun m engine => { m with engine := engine })
        (RelationalEngine.commit ops) m = (.error e, m) := by
      rw [Prog.zoom, hrun]
    rw [Prog.bind_error hzoom] at hcommit
    obtain ⟨-, rfl⟩ := Prod.mk.inj hcommit
    exact ⟨h, ha⟩

theorem Fresh.registerIndex {result : Except DbError Unit} {column : String} (h : Fresh m)
    (ha : Answering m.engine)
    (hregister : MaintainedIndexEngine.registerIndex table column m = (result, m')) :
    Fresh m' ∧ Answering m'.engine := by
  rw [MaintainedIndexEngine.registerIndex, Prog.get_bind] at hregister
  cases hnew : failWhen ((m.index ⟨table, column⟩).isSome = true) (.invalidInput
      s!"secondary index already registered for {table}.{column}") with
  | error e =>
    rw [hnew] at hregister
    obtain ⟨-, rfl⟩ := Prod.mk.inj hregister
    exact ⟨h, ha⟩
  | ok _ =>
    rw [hnew, Prog.ofExcept_ok_bind] at hregister
    cases hbuild : MaterializedIndex.build m.engine ⟨table, column⟩ with
    | error e =>
      rw [hbuild] at hregister
      obtain ⟨-, rfl⟩ := Prod.mk.inj hregister
      exact ⟨h, ha⟩
    | ok index =>
      rw [hbuild] at hregister
      obtain ⟨-, rfl⟩ := Prod.mk.inj hregister
      refine ⟨⟨h.keyed, h.sorted.upsertBy, fun spec index' hmem => ?_⟩, ha⟩
      rcases (mem_upsertBy h.sorted).1 hmem with heq | ⟨hold, -⟩
      · obtain ⟨rfl, rfl⟩ := Prod.mk.inj heq
        exact hbuild
      · exact h.built spec index' hold

namespace MaintainedIndexEngine

/-- The histories of an engine: the open of any file, commits, the registration of indexes, and an
append that fails at the file and poisons the log. -/
inductive History : MaintainedIndexEngine → Prop
  | opened {file : Option Bytes} {m : MaintainedIndexEngine} (hopen : openFile file = .ok m) : History m
  | committed {m m' : MaintainedIndexEngine} {result : Except DbError ℕ} (ops : List RelOp)
      (hbefore : History m) (hcommit : commit ops m = (result, m')) : History m'
  | registered {m m' : MaintainedIndexEngine} {result : Except DbError Unit} (table column : String)
      (hbefore : History m) (hregister : registerIndex table column m = (result, m')) : History m'
  | interrupted {m : MaintainedIndexEngine} (file : Bytes) (hbefore : History m) :
      History { m with engine := { m.engine with backing :=
        { m.engine.backing with poisoned := true, log := { m.engine.backing.log with file := file } } } }

theorem History.fresh (h : History m) : Fresh m ∧ Answering m.engine := by
  induction h with
  | opened hopen =>
    rw [openFile, Checked.bind_eq_ok] at hopen
    obtain ⟨engine, hengine, h⟩ := hopen
    cases h
    exact ⟨⟨RelationalEngine.tables_of_openFile (fun _ _ _ h => h.applyOps) keyed_nil hengine, sortedBy_nil,
      fun _ _ hmem => absurd hmem List.not_mem_nil⟩, .inl (RelationalEngine.healthy_of_openFile hengine)⟩
  | committed ops _ hcommit ih => exact ih.1.commit ih.2 hcommit
  | registered table column _ hregister ih => exact ih.1.registerIndex ih.2 hregister
  | interrupted file _ ih => exact ⟨⟨ih.1.keyed, ih.1.sorted, ih.1.built⟩, .inr rfl⟩

/-- **Indexed execution is the scan.** In every history, every query through the maintained indexes or
through a new index over the snapshot answers as the scan of the tables does: the same columns and
rows in the same order, or an error of the same class. -/
theorem indexed_execution (h : History m) :
    (∀ query, SameAnswer (m.execute query) (Relational.execute m.engine query)) ∧
    (∀ query, SameAnswer (m.executeConjunctive query) (Relational.executeConjunctive m.engine query)) ∧
    ∀ table column executor, IndexedQueryExecutor.build m.engine table column = .ok executor →
      ∀ query, SameAnswer (executor.execute query) (Relational.execute m.engine query) :=
  ⟨h.fresh.1.execute_same, h.fresh.1.executeConjunctive_same,
    fun _ _ _ hbuild query => executor_same h.fresh.1.keyed hbuild query⟩

/-- A new database with no index. -/
def empty : MaintainedIndexEngine :=
  ⟨⟨⟨⟨Log.encodeFileHeader, 1, 0, 16, Log.encodeFileHeader⟩, [], none, false⟩, [], 1⟩, []⟩

theorem one_i64 : -2 ^ 63 ≤ (1 : ℤ) ∧ (1 : ℤ) < 2 ^ 63 := by decide

theorem two_i64 : -2 ^ 63 ≤ (2 : ℤ) ∧ (2 : ℤ) < 2 ^ 63 := by decide

/-- Users with their teams. -/
def users : List RelOp :=
  [.createTable "users" ⟨[⟨"id", .int64⟩, ⟨"team", .text⟩], 0⟩,
    .upsertRow "users" [.int64 ⟨1, one_i64⟩, .text "b"], .upsertRow "users" [.int64 ⟨2, two_i64⟩, .text "a"]]

/-- The users of a team, through an index on the teams. -/
theorem indexed_execution_users :
    (registerIndex "users" "team" (commit users empty).2).2.execute
      ⟨"users", some ⟨"team", .eq, .text "a"⟩, .columns ["id"]⟩ = .ok ⟨["id"], [[.int64 ⟨2, by decide⟩]]⟩ := by
  have hopen : openFile none = .ok empty := by decide +kernel
  have hhistory : History (registerIndex "users" "team" (commit users empty).2).2 :=
    .registered "users" "team" (.committed users (.opened hopen) rfl) rfl
  have hsame := (indexed_execution hhistory).1 ⟨"users", some ⟨"team", .eq, .text "a"⟩, .columns ["id"]⟩
  have hscan : Relational.execute (registerIndex "users" "team" (commit users empty).2).2.engine
      ⟨"users", some ⟨"team", .eq, .text "a"⟩, .columns ["id"]⟩ = .ok ⟨["id"], [[.int64 ⟨2, by decide⟩]]⟩ := by
    decide +kernel
  rw [hscan] at hsame
  revert hsame
  cases (registerIndex "users" "team" (commit users empty).2).2.execute
      ⟨"users", some ⟨"team", .eq, .text "a"⟩, .columns ["id"]⟩ with
  | error e => exact fun h => h.elim
  | ok r => exact fun h => congrArg Except.ok h

end MaintainedIndexEngine
end DbLab.Relational
