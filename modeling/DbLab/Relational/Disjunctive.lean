import DbLab.Relational.Oracle

/-!
# Disjunctive queries

A row matches when any predicate does. The indexed path asks the maintained engine for the full rows of one
predicate after another, collects them in a map by their primary keys and projects what is in the map. In every
history it answers as the filtering scan does (`disjunctive_execution`).
-/

namespace DbLab.Relational

structure DisjunctiveQuery where
  table : String
  predicates : List Predicate
  projection : Projection
  deriving DecidableEq

/-- Full rows under their primary keys. -/
abbrev Candidates := List (Cell × List Cell)

namespace DisjunctiveQuery

/-- Source `prepare`. -/
def prepare (schema : Schema) (predicates : List Predicate) (projection : Projection) :
    Except DbError (List ℕ × List (ℕ × Predicate)) := do
  failWhen (predicates = []) (.invalidInput "disjunctive query must contain at least one predicate")
  let projection ← resolveProjection schema projection
  let predicates ← predicates.mapM (resolvePredicate schema)
  .ok (projection, predicates)

/-- Whether a row matches some predicate. -/
def matchesAny (predicates : List (ℕ × Predicate)) (row : List Cell) : Bool :=
  predicates.any fun (index, predicate) => matchesPredicate (cellAt row index) predicate

/-- Source `execute_scan`. -/
def executeScan (engine : RelationalEngine) (query : DisjunctiveQuery) : Except DbError QueryResult := do
  let schema ← engine.schema query.table
  let (projection, predicates) ← prepare schema query.predicates query.projection
  let rows ← engine.rows query.table
  .ok
    { columns := projection.map fun index => (schema.column index).name
      rows := ((rows.map Prod.snd).filter (matchesAny predicates)).map (projectRow · projection) }

/-- The loop of `execute_indexed` over the rows of one predicate. -/
def addCandidates (primaryKey : ℕ) : List (List Cell) → Candidates → Except DbError Candidates
  | [], candidates => .ok candidates
  | row :: rows, candidates =>
    match row[primaryKey]? with
    | none => .error (corruption "disjunctive candidate row omitted primary key")
    | some key => addCandidates primaryKey rows (upsertBy Prod.fst (key, row) candidates)

/-- The loop of `execute_indexed` over the predicates. -/
def collectCandidates (m : MaintainedIndexEngine) (table : String) (primaryKey : ℕ) :
    List (ℕ × Predicate) → Candidates → Except DbError Candidates
  | [], candidates => .ok candidates
  | (_, predicate) :: predicates, candidates => do
    let result ← m.execute ⟨table, some predicate, .all⟩
    let candidates ← addCandidates primaryKey result.rows candidates
    collectCandidates m table primaryKey predicates candidates

/-- Source `execute_indexed`. -/
def executeIndexed (m : MaintainedIndexEngine) (query : DisjunctiveQuery) : Except DbError QueryResult := do
  let schema ← m.engine.schema query.table
  let (projection, predicates) ← prepare schema query.predicates query.projection
  let candidates ← collectCandidates m query.table schema.primaryKey predicates []
  .ok
    { columns := projection.map fun index => (schema.column index).name
      rows := (candidates.map Prod.snd).map (projectRow · projection) }

end DisjunctiveQuery

/-! ### The width of rows -/

/-- Every row has a cell for each column. -/
def Wide (tables : Tables) : Prop := ∀ name state, tables.get name = some state →
  ∀ entry ∈ state.rows, entry.2.length = state.schema.columns.length

variable {tables tables' : Tables} {table : String} {state : TableState} {op : RelOp} {ops : List RelOp}
  {m m' : MaintainedIndexEngine}

theorem Wide.insert (hordered : Ordered tables) (h : Wide tables)
    (hrows : ∀ entry ∈ state.rows, entry.2.length = state.schema.columns.length) :
    Wide (tables.insert table state) := by
  intro name state' hget
  rw [hordered.get_insert] at hget
  split_ifs at hget with heq
  · cases hget
    exact hrows
  · exact h name state' hget

theorem validateRow_length {schema : Schema} {row : List Cell} (h : validateRow schema row = .ok ()) :
    row.length = schema.columns.length := by
  rw [validateRow, Checked.guard_eq_ok] at h
  exact not_not.1 h.1

theorem Wide.applyOp (hordered : Ordered tables) (h : Wide tables) (happly : applyOp tables op = .ok tables') :
    Wide tables' := by
  cases op with
  | createTable name schema =>
    obtain ⟨-, hpk, rfl⟩ := applyOp_createTable happly
    exact h.insert hordered fun _ hmem => absurd hmem List.not_mem_nil
  | upsertRow table row =>
    obtain ⟨state, hstate, hrow, rfl⟩ := applyOp_upsertRow happly
    refine h.insert hordered fun entry hmem => ?_
    rcases mem_of_mem_upsertBy hmem with rfl | hold
    · exact validateRow_length hrow
    · exact h table state hstate entry hold
  | deleteRow table key =>
    obtain ⟨state, hstate, -, rfl⟩ := applyOp_deleteRow happly
    exact h.insert hordered fun entry hmem => h table state hstate entry (mem_removeBy.1 hmem).1

/-- The tables of a store: ordered, keyed by their rows, and with rows of full width. -/
structure Shaped (tables : Tables) : Prop where
  keyed : Keyed tables
  wide : Wide tables

theorem shaped_nil : Shaped [] := ⟨keyed_nil, fun _ _ h => by cases h⟩

theorem Shaped.applyOps (h : Shaped tables) (happly : Relational.applyOps tables ops = .ok tables') :
    Shaped tables' := by
  induction ops generalizing tables with
  | nil =>
    cases happly
    exact h
  | cons op ops ih =>
    rw [Relational.applyOps, List.foldlM_cons, Checked.bind_eq_ok] at happly
    obtain ⟨middle, hmiddle, hrest⟩ := happly
    exact ih ⟨h.keyed.applyOp hmiddle, h.wide.applyOp h.keyed.ordered hmiddle⟩ hrest

/-! ### Candidates -/

namespace DisjunctiveQuery

variable {rows all : List (List Cell)} {candidates : Candidates} {pk : ℕ} {predicates : List (ℕ × Predicate)}

/-- The rows under their keys. -/
def keyedRows (pk : ℕ) (rows : List (List Cell)) : Candidates := rows.map fun row => (cellAt row pk, row)

theorem getElem?_primaryKey {row : List Cell} (h : pk < row.length) : row[pk]? = some (cellAt row pk) := by
  rw [cellAt, List.getD_eq_getElem?_getD, List.getElem?_eq_getElem h, Option.getD_some]

/-- **Rows of the table are added to the candidates**, and a row that is there already stays the one row of its
key. -/
theorem addCandidates_spec (hall : SortedBy (cellAt · pk) all) (hlong : ∀ row ∈ all, pk < row.length)
    (hrows : ∀ row ∈ rows, row ∈ all) (hsorted : SortedBy Prod.fst candidates)
    (hsub : ∀ entry ∈ candidates, entry.1 = cellAt entry.2 pk ∧ entry.2 ∈ all) :
    ∃ candidates', addCandidates pk rows candidates = .ok candidates' ∧ SortedBy Prod.fst candidates' ∧
      ∀ entry, entry ∈ candidates' ↔
        entry ∈ candidates ∨ entry.1 = cellAt entry.2 pk ∧ entry.2 ∈ rows := by
  induction rows generalizing candidates with
  | nil => exact ⟨candidates, rfl, hsorted, by simp⟩
  | cons row rows ih =>
    have hrow := hrows row List.mem_cons_self
    rw [addCandidates, getElem?_primaryKey (hlong row hrow)]
    dsimp only
    have hmem : ∀ entry, entry ∈ upsertBy Prod.fst (cellAt row pk, row) candidates ↔
        entry = (cellAt row pk, row) ∨ entry ∈ candidates := by
      intro entry
      rw [mem_upsertBy hsorted]
      constructor
      · rintro (heq | ⟨hold, -⟩)
        · exact .inl heq
        · exact .inr hold
      · rintro (heq | hold)
        · exact .inl heq
        -- A candidate with the key of the row is the row.
        · by_cases hkey : entry.1 = cellAt row pk
          · obtain ⟨hown, hentry⟩ := hsub entry hold
            have hsame := hall.eq_of_key_eq hentry hrow (hown.symm.trans hkey)
            exact .inl (Prod.ext hkey hsame)
          · exact .inr ⟨hold, hkey⟩
    obtain ⟨candidates', hadd, hsorted', hmem'⟩ := ih (fun row' hrow' => hrows row' (List.mem_cons_of_mem _ hrow'))
      hsorted.upsertBy fun entry hentry => by
        rcases (hmem entry).1 hentry with rfl | hold
        · exact ⟨rfl, hrow⟩
        · exact hsub entry hold
    refine ⟨candidates', hadd, hsorted', fun entry => ?_⟩
    rw [hmem', hmem, List.mem_cons]
    constructor
    · rintro ((rfl | hold) | ⟨hkey, hrest⟩)
      · exact .inr ⟨rfl, .inl rfl⟩
      · exact .inl hold
      · exact .inr ⟨hkey, .inr hrest⟩
    · rintro (hold | ⟨hkey, hhere | hrest⟩)
      · exact .inl (.inr hold)
      · exact .inl (.inl (Prod.ext (hhere ▸ hkey) hhere))
      · exact .inr ⟨hkey, hrest⟩

/-- The answer of the maintained engine to one resolved predicate are the rows that match it. -/
theorem execute_predicate (h : Fresh m) (hstate : m.engine.tables.get table = some state) {i : ℕ}
    {predicate : Predicate} (hresolve : resolvePredicate state.schema predicate = .ok (i, predicate)) :
    ∃ result, m.execute ⟨table, some predicate, .all⟩ = .ok result ∧
      result.rows = ((state.rows.map Prod.snd).filter fun row => matchesPredicate (cellAt row i) predicate).map
        (projectRow · (List.range state.schema.columns.length)) := by
  obtain ⟨-, hi, htype⟩ := resolvePredicate_eq_ok hresolve
  have hsame := h.execute_same ⟨table, some predicate, .all⟩
  rw [@execute_eq _ _ ⟨table, some predicate, .all⟩ predicate i rfl hstate hi] at hsame
  dsimp only at hsame
  rw [projectNames, Checked.ok_bind, validateLiteralType, failWhen_eq_ok (u := ()) |>.2 (not_not.2 htype),
    Checked.ok_bind] at hsame
  cases hexecute : m.execute ⟨table, some predicate, .all⟩ with
  | error e =>
    rw [hexecute] at hsame
    exact hsame.elim
  | ok result =>
    rw [hexecute] at hsame
    refine ⟨result, rfl, ?_⟩
    rw [show result = _ from hsame]
    simp only [Schema.names, List.length_map]
    rfl

/-- The projection to all columns is the row. -/
theorem projectRow_all {row : List Cell} : projectRow row (List.range row.length) = row := by
  refine List.ext_getElem? fun i => ?_
  rw [projectRow, List.getElem?_map]
  by_cases hi : i < row.length
  · rw [List.getElem?_range hi, Option.map_some, getElem?_primaryKey hi]
  · rw [List.getElem?_eq_none (by simpa using hi), List.getElem?_eq_none (by simpa using hi)]
    rfl

/-- **The union of the answers**: behind the loop the candidates are the rows that match some predicate. -/
theorem collectCandidates_spec (h : Fresh m) (hwide : Wide m.engine.tables)
    (hstate : m.engine.tables.get table = some state)
    (hresolved : ∀ resolved ∈ predicates, resolvePredicate state.schema resolved.2 = .ok resolved)
    (hsorted : SortedBy Prod.fst candidates)
    (hsub : ∀ entry ∈ candidates, entry.1 = cellAt entry.2 state.schema.primaryKey ∧
      entry.2 ∈ state.rows.map Prod.snd) :
    ∃ candidates', collectCandidates m table state.schema.primaryKey predicates candidates = .ok candidates' ∧
      SortedBy Prod.fst candidates' ∧ ∀ entry, entry ∈ candidates' ↔ entry ∈ candidates ∨
        entry.1 = cellAt entry.2 state.schema.primaryKey ∧
          entry.2 ∈ (state.rows.map Prod.snd).filter (matchesAny predicates) := by
  induction predicates generalizing candidates with
  | nil => exact ⟨candidates, rfl, hsorted, by simp [matchesAny]⟩
  | cons resolved predicates ih =>
    obtain ⟨i, predicate⟩ := resolved
    obtain ⟨hresolve, hrest⟩ := List.forall_mem_cons.1 hresolved
    obtain ⟨result, hexecute, hanswer⟩ := execute_predicate h hstate hresolve
    have hlength : ∀ row ∈ state.rows.map Prod.snd, row.length = state.schema.columns.length := by
      intro row hrow
      obtain ⟨entry, hentry, rfl⟩ := List.mem_map.1 hrow
      exact hwide table state hstate entry hentry
    -- Projected to all columns, the answer is a list of rows of the table.
    have hfull : result.rows =
        (state.rows.map Prod.snd).filter fun row => matchesPredicate (cellAt row i) predicate := by
      rw [hanswer]
      refine (List.map_congr_left fun row hrow => ?_).trans (List.map_id _)
      rw [← hlength row (List.mem_of_mem_filter hrow), projectRow_all]
      rfl
    obtain ⟨middle, hadd, hmiddle, hmem⟩ := @addCandidates_spec result.rows _ candidates state.schema.primaryKey
      (h.keyed.sorted hstate) (fun row hrow => (hlength row hrow).symm ▸ state.primaryKey_lt)
      (fun row hrow => List.mem_of_mem_filter (hfull ▸ hrow)) hsorted hsub
    obtain ⟨candidates', hcollect, hsorted', hmem'⟩ := ih hrest hmiddle fun entry hentry => by
      rcases (hmem entry).1 hentry with hold | ⟨hkey, hnew⟩
      · exact hsub entry hold
      · exact ⟨hkey, List.mem_of_mem_filter (hfull ▸ hnew)⟩
    refine ⟨candidates', ?_, hsorted', fun entry => ?_⟩
    · rw [collectCandidates, hexecute, Checked.ok_bind, hadd, Checked.ok_bind, hcollect]
    · rw [hmem', hmem, hfull]
      simp only [List.mem_filter, matchesAny, List.any_cons, Bool.or_eq_true]
      tauto

theorem matchesAny_rows (hkeyed : Keyed m.engine.tables) (hstate : m.engine.tables.get table = some state)
    (hsorted : SortedBy Prod.fst candidates)
    (hmem : ∀ entry, entry ∈ candidates ↔ entry.1 = cellAt entry.2 state.schema.primaryKey ∧
      entry.2 ∈ (state.rows.map Prod.snd).filter (matchesAny predicates)) :
    candidates.map Prod.snd = (state.rows.map Prod.snd).filter (matchesAny predicates) := by
  have hrows := hkeyed.sorted hstate
  have hkeyedRows : candidates = keyedRows state.schema.primaryKey
      ((state.rows.map Prod.snd).filter (matchesAny predicates)) := by
    refine hsorted.ext ?_ fun entry => ?_
    · rw [keyedRows, sortedBy_map]
      exact hrows.sublist List.filter_sublist
    · rw [hmem, keyedRows, List.mem_map]
      constructor
      · rintro ⟨hkey, hrow⟩
        exact ⟨entry.2, hrow, Prod.ext hkey.symm rfl⟩
      · rintro ⟨row, hrow, rfl⟩
        exact ⟨rfl, hrow⟩
  rw [hkeyedRows, keyedRows, List.map_map]
  exact List.map_id _

theorem executeIndexed_eq (h : Fresh m) (hwide : Wide m.engine.tables) (query : DisjunctiveQuery) :
    executeIndexed m query = executeScan m.engine query := by
  rw [executeIndexed, executeScan]
  cases hschema : m.engine.schema query.table with
  | error e => rfl
  | ok schema =>
    obtain ⟨state, hstate, rfl⟩ := schema_eq_ok.1 hschema
    rw [Checked.ok_bind, Checked.ok_bind]
    cases hprepare : prepare state.schema query.predicates query.projection with
    | error e => rfl
    | ok prepared =>
      obtain ⟨projection, predicates⟩ := prepared
      have hresolved : ∀ resolved ∈ predicates, resolvePredicate state.schema resolved.2 = .ok resolved := by
        intro resolved hmem
        unfold prepare at hprepare
        simp only [Checked.bind_eq_ok, Except.ok.injEq] at hprepare
        obtain ⟨-, -, _, -, _, hpredicates, heq⟩ := hprepare
        obtain ⟨-, rfl⟩ := Prod.mk.inj heq
        obtain ⟨source, -, hsource⟩ := Checked.exists_of_mem_right (Checked.mapM_eq_ok.1 hpredicates) hmem
        rw [(resolvePredicate_eq_ok hsource).1]
        exact hsource
      obtain ⟨candidates, hcollect, hsorted, hmem⟩ := @collectCandidates_spec _ _ _ [] predicates h hwide hstate
        hresolved sortedBy_nil fun _ hmem => absurd hmem List.not_mem_nil
      rw [Checked.ok_bind, Checked.ok_bind, RelationalEngine.rows, hstate]
      dsimp only
      rw [hcollect, Checked.ok_bind, Checked.ok_bind]
      have hrows := @matchesAny_rows _ _ _ candidates predicates h.keyed hstate hsorted fun entry => by
        rw [hmem entry]
        simp
      rw [hrows]

end DisjunctiveQuery

/-! ### Histories -/

namespace MaintainedIndexEngine

theorem rebuildIndexes_engine (m : MaintainedIndexEngine) : (rebuildIndexes m).2.engine = m.engine := by
  rw [rebuildIndexes, Prog.get_bind]
  cases hbuild : buildAll m.engine (m.indexes.map Prod.fst) with
  | error e => rfl
  | ok rebuilt => rfl

theorem registerIndex_engine (m : MaintainedIndexEngine) (table column : String) :
    (registerIndex table column m).2.engine = m.engine := by
  rw [registerIndex, Prog.get_bind]
  cases failWhen ((m.index ⟨table, column⟩).isSome = true) (.invalidInput
      s!"secondary index already registered for {table}.{column}") with
  | error e => rfl
  | ok _ =>
    rw [Prog.ofExcept_ok_bind]
    cases MaterializedIndex.build m.engine ⟨table, column⟩ with
    | error e => rfl
    | ok index => rfl

/-- What transactions keep holds of the tables in every history. -/
theorem History.tables_kept {P : Tables → Prop} {m : MaintainedIndexEngine}
    (hstep : ∀ tables ops tables', P tables → applyOps tables ops = .ok tables' → P tables') (hnil : P [])
    (h : History m) : P m.engine.tables := by
  induction h with
  | opened hopen =>
    rw [openFile, Checked.bind_eq_ok] at hopen
    obtain ⟨engine, hengine, h⟩ := hopen
    cases h
    exact RelationalEngine.tables_of_openFile hstep hnil hengine
  | @committed m m' result ops hbefore hcommit ih =>
    unfold commit at hcommit
    rcases hbefore.fresh.2.commit ops with ⟨txId, engine', hrun, -, happly⟩ | ⟨e, hrun⟩
    · have hzoom : Prog.zoom MaintainedIndexEngine.engine (fun m engine => { m with engine := engine })
          (RelationalEngine.commit ops) m = (.ok txId, { m with engine := engine' }) := by
        rw [Prog.zoom, hrun]
      rw [Prog.bind_ok hzoom] at hcommit
      -- The indexes are rebuilt behind the commit, and the engine stays, whether that succeeds or not.
      have hengine : m'.engine = engine' := by
        refine Eq.trans ?_ (rebuildIndexes_engine { m with engine := engine' })
        cases hrebuild : rebuildIndexes { m with engine := engine' } with
        | mk r rebuilt =>
          cases r with
          | error e =>
            rw [Prog.bind_error hrebuild] at hcommit
            cases hcommit
            rfl
          | ok _ =>
            rw [Prog.bind_ok hrebuild] at hcommit
            cases hcommit
            rfl
      rw [hengine]
      exact hstep _ _ _ ih happly
    · have hzoom : Prog.zoom MaintainedIndexEngine.engine (fun m engine => { m with engine := engine })
          (RelationalEngine.commit ops) m = (.error e, m) := by
        rw [Prog.zoom, hrun]
      rw [Prog.bind_error hzoom] at hcommit
      cases hcommit
      exact ih
  | @registered m m' result table column _ hregister ih =>
    have hengine := registerIndex_engine m table column
    rw [hregister] at hengine
    rw [show m'.engine = m.engine from hengine]
    exact ih
  | interrupted file _ ih => exact ih

/-- **Disjunctive execution is the scan.** In every history the indexed execution of every disjunctive query
gives what its scan gives: the same columns and the same rows in the same order, or the same error. -/
theorem disjunctive_execution {m : MaintainedIndexEngine} (h : History m) (query : DisjunctiveQuery) :
    DisjunctiveQuery.executeIndexed m query = DisjunctiveQuery.executeScan m.engine query :=
  DisjunctiveQuery.executeIndexed_eq h.fresh.1
    (h.tables_kept (P := Shaped) (fun _ _ _ hshaped => hshaped.applyOps) shaped_nil).wide query

/-- Two overlapping predicates, one of them on an indexed column. -/
theorem disjunctive_execution_users :
    DisjunctiveQuery.executeIndexed (registerIndex "users" "team" (commit users empty).2).2
      ⟨"users", [⟨"team", .eq, .text "a"⟩, ⟨"id", .ge, .int64 ⟨1, by decide⟩⟩], .columns ["id"]⟩ =
      .ok ⟨["id"], [[.int64 ⟨1, by decide⟩], [.int64 ⟨2, by decide⟩]]⟩ := by
  have hopen : openFile none = .ok empty := by decide +kernel
  have hhistory : History (registerIndex "users" "team" (commit users empty).2).2 :=
    .registered "users" "team" (.committed users (.opened hopen) rfl) rfl
  rw [disjunctive_execution hhistory]
  decide +kernel

end MaintainedIndexEngine
end DbLab.Relational
