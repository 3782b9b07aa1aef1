import DbLab.Relational.Table

/-!
# The rows that operations write

The tables and the rows of each table are ordered, and an operation that succeeds changes only the row
that it writes. A schema never changes once its table exists.
-/

namespace DbLab.Relational

/-- The names of the tables and the keys of their rows are in order. -/
structure Ordered (tables : Tables) : Prop where
  names : SortedBy Prod.fst tables
  rows : ∀ name state, tables.get name = some state → SortedBy Prod.fst state.rows

variable {tables tables' : Tables} {name table : String} {state : TableState} {op : RelOp} {ops : List RelOp}
  {key : Cell} {row : List Cell} {schema : Schema}

theorem ordered_nil : Ordered [] := ⟨sortedBy_nil, fun _ _ h => by cases h⟩

theorem Ordered.get_insert (h : Ordered tables) :
    (tables.insert table state).get name = if name = table then some state else tables.get name := by
  rw [Tables.get, Tables.insert, lookupBy_upsertBy h.names]
  split_ifs with heq
  · rfl
  · rfl

theorem Ordered.insert (h : Ordered tables) (hrows : SortedBy Prod.fst state.rows) :
    Ordered (tables.insert table state) where
  names := h.names.upsertBy
  rows name state' hget := by
    rw [h.get_insert] at hget
    split_ifs at hget with heq
    · cases hget
      exact hrows
    · exact h.rows name state' hget

/-! ### What one operation does -/

theorem applyOp_createTable (h : applyOp tables (.createTable name schema) = .ok tables') :
    tables.get name = none ∧ ∃ hpk : schema.primaryKey < schema.columns.length,
      tables' = tables.insert name ⟨schema, [], hpk⟩ := by
  rw [applyOp, Checked.bind_eq_ok] at h
  obtain ⟨_, -, h⟩ := h
  split at h
  · cases h
  · next hschema =>
    split_ifs at h with hsome
    cases h
    exact ⟨by simpa using hsome, primaryKey_lt hschema, rfl⟩

theorem applyOp_upsertRow (h : applyOp tables (.upsertRow table row) = .ok tables') :
    ∃ state, tables.get table = some state ∧ validateRow state.schema row = .ok () ∧
      tables' = tables.insert table
        { state with rows := upsertBy Prod.fst (row.getD state.schema.primaryKey default, row) state.rows } := by
  rw [applyOp] at h
  split at h
  · cases h
  · next state hstate =>
    rw [Checked.bind_eq_ok] at h
    obtain ⟨_, hrow, h⟩ := h
    cases h
    exact ⟨state, hstate, hrow, rfl⟩

theorem applyOp_deleteRow (h : applyOp tables (.deleteRow table key) = .ok tables') :
    ∃ state, tables.get table = some state ∧ validateCellType key state.keyType = .ok () ∧
      tables' = tables.insert table { state with rows := removeBy Prod.fst key state.rows } := by
  rw [applyOp] at h
  split at h
  · cases h
  · next state hstate =>
    rw [Checked.bind_eq_ok] at h
    obtain ⟨_, hkey, h⟩ := h
    cases h
    exact ⟨state, hstate, hkey, rfl⟩

theorem Ordered.applyOp (h : Ordered tables) (happly : applyOp tables op = .ok tables') : Ordered tables' := by
  cases op with
  | createTable name schema =>
    obtain ⟨-, hpk, rfl⟩ := applyOp_createTable happly
    exact h.insert sortedBy_nil
  | upsertRow table row =>
    obtain ⟨state, hstate, -, rfl⟩ := applyOp_upsertRow happly
    exact h.insert (h.rows table state hstate).upsertBy
  | deleteRow table key =>
    obtain ⟨state, hstate, -, rfl⟩ := applyOp_deleteRow happly
    exact h.insert (h.rows table state hstate).removeBy

theorem Ordered.applyOps (h : Ordered tables) (happly : applyOps tables ops = .ok tables') :
    Ordered tables' := by
  induction ops generalizing tables with
  | nil =>
    cases happly
    exact h
  | cons op ops ih =>
    rw [Relational.applyOps, List.foldlM_cons, Checked.bind_eq_ok] at happly
    obtain ⟨middle, hmiddle, hrest⟩ := happly
    exact ih (h.applyOp hmiddle) hrest

/-! ### The rows that are written -/

/-- The row that an operation writes or deletes, named by its table and its primary key. -/
def writtenRow (tables : Tables) : RelOp → Option (String × Cell)
  | .createTable _ _ => none
  | .upsertRow table row => (tables.get table).map fun state => (table, row.getD state.schema.primaryKey default)
  | .deleteRow table key => some (table, key)

/-- The rows that operations write, one after another. -/
def writtenRows (tables : Tables) : List RelOp → List (String × Cell)
  | [] => []
  | op :: ops => (writtenRow tables op).toList ++
    match applyOp tables op with
    | .ok tables' => writtenRows tables' ops
    | .error _ => []

theorem writtenRows_cons (h : applyOp tables op = .ok tables') :
    writtenRows tables (op :: ops) = (writtenRow tables op).toList ++ writtenRows tables' ops := by
  rw [writtenRows, h]

/-- A table keeps its schema, and the row at `key` if it has `same`. -/
def Keeps (tables tables' : Tables) (table : String) (key : Cell) (same : Prop) : Prop :=
  ∀ state, tables.get table = some state → ∃ state', tables'.get table = some state' ∧
    state'.schema = state.schema ∧
    (same → lookupBy Prod.fst key state'.rows = lookupBy Prod.fst key state.rows)

/-- **An operation changes the row that it writes, and no other.** -/
theorem Ordered.keeps_applyOp (h : Ordered tables) (happly : Relational.applyOp tables op = .ok tables') :
    Keeps tables tables' table key (writtenRow tables op ≠ some (table, key)) := by
  intro state hstate
  cases op with
  | createTable name schema =>
    obtain ⟨hnone, hpk, rfl⟩ := applyOp_createTable happly
    have hne : table ≠ name := by
      rintro rfl
      rw [hnone] at hstate
      cases hstate
    exact ⟨state, by rw [h.get_insert, if_neg hne, hstate], rfl, fun _ => rfl⟩
  | upsertRow target row =>
    obtain ⟨state', hstate', -, rfl⟩ := applyOp_upsertRow happly
    rw [h.get_insert]
    by_cases heq : table = target
    · subst heq
      rw [hstate, Option.some.injEq] at hstate'
      subst hstate'
      refine ⟨_, if_pos rfl, rfl, fun hsame => ?_⟩
      rw [lookupBy_upsertBy (h.rows _ _ hstate), if_neg]
      rintro rfl
      exact hsame (by rw [writtenRow, hstate]; rfl)
    · exact ⟨state, by rw [if_neg heq, hstate], rfl, fun _ => rfl⟩
  | deleteRow target removed =>
    obtain ⟨state', hstate', -, rfl⟩ := applyOp_deleteRow happly
    rw [h.get_insert]
    by_cases heq : table = target
    · subst heq
      rw [hstate, Option.some.injEq] at hstate'
      subst hstate'
      refine ⟨_, if_pos rfl, rfl, fun hsame => ?_⟩
      rw [lookupBy_removeBy (h.rows _ _ hstate), if_neg]
      rintro rfl
      exact hsame rfl
    · exact ⟨state, by rw [if_neg heq, hstate], rfl, fun _ => rfl⟩

theorem Keeps.trans {tables'' : Tables} {same same' : Prop} (h : Keeps tables tables' table key same)
    (h' : Keeps tables' tables'' table key same') : Keeps tables tables'' table key (same ∧ same') := by
  intro state hstate
  obtain ⟨state', hget, hschema, hsame⟩ := h state hstate
  obtain ⟨state'', hget', hschema', hsame'⟩ := h' state' hget
  exact ⟨state'', hget', hschema'.trans hschema, fun hboth => (hsame' hboth.2).trans (hsame hboth.1)⟩

theorem Keeps.mono {same same' : Prop} (h : Keeps tables tables' table key same) (himp : same' → same) :
    Keeps tables tables' table key same' := by
  intro state hstate
  obtain ⟨state', hget, hschema, hsame⟩ := h state hstate
  exact ⟨state', hget, hschema, fun hs => hsame (himp hs)⟩

theorem Ordered.keeps_applyOps (h : Ordered tables) (happly : Relational.applyOps tables ops = .ok tables') :
    Keeps tables tables' table key ((table, key) ∉ writtenRows tables ops) := by
  induction ops generalizing tables with
  | nil =>
    cases happly
    exact fun state hstate => ⟨state, hstate, rfl, fun _ => rfl⟩
  | cons op ops ih =>
    rw [Relational.applyOps, List.foldlM_cons, Checked.bind_eq_ok] at happly
    obtain ⟨middle, hmiddle, hrest⟩ := happly
    refine ((h.keeps_applyOp hmiddle).trans (ih (h.applyOp hmiddle) hrest)).mono fun hnot => ?_
    rw [writtenRows_cons hmiddle, List.mem_append, not_or, Option.mem_toList] at hnot
    exact hnot

end DbLab.Relational
