import DbLab.Relational.Optimistic
import DbLab.Relational.Rows

/-!
# When an optimistic transaction conflicts

A commit stamps the rows that it writes with its id, which is above every stamp before it. So a snapshot
fails to validate if and only if one of its rows has been written by a later commit, whatever was written.
-/

namespace DbLab.Relational

open Log

/-- The commits over an optimistic engine: what any transaction does under the lock. Each commit that
writes is kept with the tables in front of it. -/
inductive Commits : OptimisticState → List (Tables × List RelOp) → OptimisticState → Prop
  | start {s : OptimisticState} : Commits s [] s
  | failed {s t t' : OptimisticState} {log : List (Tables × List RelOp)} {snapshot : Snapshot}
      {ops : List RelOp} {e : DbError} : Commits s log t → Txn.publish snapshot ops t = (.error e, t') →
      Commits s log t'
  | readOnly {s t t' : OptimisticState} {log : List (Tables × List RelOp)} {snapshot : Snapshot}
      {ops : List RelOp} : Commits s log t → Txn.publish snapshot ops t = (.ok none, t') → Commits s log t'
  | committed {s t t' : OptimisticState} {log : List (Tables × List RelOp)} {snapshot : Snapshot}
      {ops : List RelOp} {txId : ℕ} : Commits s log t →
      Txn.publish snapshot ops t = (.ok (some txId), t') → Commits s (log ++ [(t.engine.tables, ops)]) t'

/-- Some commit of the log has written the row. -/
def Touched (log : List (Tables × List RelOp)) (read : RowRead) : Prop :=
  ∃ c ∈ log, (read.table, read.key) ∈ writtenRows c.1 c.2

/-- **The invariant of an optimistic engine**: the stamps are below the next id. -/
structure Sound (s : OptimisticState) : Prop where
  healthy : s.engine.Healthy
  ordered : Ordered s.engine.tables
  sorted : SortedBy Prod.fst s.rowVersions
  below : ∀ read, s.version read < s.engine.nextTxId

variable {s t t' : OptimisticState} {read : RowRead} {reads : List RowRead} {snapshot : Snapshot}
  {ops : List RelOp} {log : List (Tables × List RelOp)} {touched : List RowRead} {txId : ℕ}

/-! ### Opening -/

theorem sound_of_openFile {file : Option Bytes} (h : OptimisticState.openFile file = .ok s) : Sound s := by
  unfold OptimisticState.openFile at h
  rw [Checked.bind_eq_ok] at h
  obtain ⟨engine, hengine, h⟩ := h
  cases h
  have hhealthy := RelationalEngine.healthy_of_openFile hengine
  have hordered := RelationalEngine.tables_of_openFile (fun _ _ _ h => h.applyOps) ordered_nil hengine
  unfold RelationalEngine.openFile at hengine
  simp only [Checked.bind_eq_ok, Except.ok.injEq] at hengine
  obtain ⟨backing, -, inspection, -, state, hfold, rfl⟩ := hengine
  have hnext := RelationalEngine.foldlM_replayEntry hfold
  refine ⟨hhealthy, hordered, sortedBy_nil, fun read => ?_⟩
  show 0 < state.2
  rw [hnext]
  omega

/-! ### Stamps -/

theorem version_stamp (hsorted : SortedBy Prod.fst s.rowVersions) :
    (s.stamp touched txId).version read = if read ∈ touched then txId else s.version read := by
  induction touched generalizing s with
  | nil => rfl
  | cons row touched ih =>
    have hstamp : s.stamp (row :: touched) txId =
        ({ s with rowVersions := upsertBy Prod.fst (row, txId) s.rowVersions } : OptimisticState).stamp
          touched txId := rfl
    have hone : ({ s with rowVersions := upsertBy Prod.fst (row, txId) s.rowVersions } :
        OptimisticState).version read = if read = row then txId else s.version read := by
      rw [OptimisticState.version, lookupBy_upsertBy hsorted]
      split_ifs with heq
      · rfl
      · rfl
    rw [hstamp, ih hsorted.upsertBy, hone]
    by_cases hmem : read ∈ touched
    · rw [if_pos hmem, if_pos (List.mem_cons_of_mem _ hmem)]
    · rw [if_neg hmem]
      by_cases heq : read = row
      · rw [if_pos heq, if_pos (List.mem_cons.2 (.inl heq))]
      · rw [if_neg heq, if_neg (by rw [List.mem_cons]; exact fun h => h.elim heq hmem)]

theorem sorted_stamp (hsorted : SortedBy Prod.fst s.rowVersions) :
    SortedBy Prod.fst (s.stamp touched txId).rowVersions := by
  induction touched generalizing s with
  | nil => exact hsorted
  | cons row touched ih =>
    exact @ih { s with rowVersions := upsertBy Prod.fst (row, txId) s.rowVersions } hsorted.upsertBy

/-! ### The rows that a commit stamps -/

/-- The schemas that the loop of `touched_rows` has are those of the tables. -/
structure Catalogue (schemas : List (String × Schema)) (tables : Tables) : Prop where
  sorted : SortedBy Prod.fst schemas
  lookup : ∀ name, (lookupBy Prod.fst name schemas).map Prod.snd = (tables.get name).map TableState.schema

variable {schemas : List (String × Schema)} {tables tables' : Tables}

theorem catalogue_of_ordered {engine : RelationalEngine} (h : Ordered engine.tables) :
    Catalogue engine.catalog engine.tables where
  sorted := sortedBy_map.2 h.names
  lookup name := by
    rw [RelationalEngine.catalog, lookupBy_map, Tables.get, Option.map_map, Option.map_map]
    rfl

theorem Catalogue.insert {table : String} {state state' : TableState} (h : Catalogue schemas tables)
    (hordered : Ordered tables) (hget : tables.get table = some state) (hschema : state'.schema = state.schema) :
    Catalogue schemas (tables.insert table state') where
  sorted := h.sorted
  lookup name := by
    rw [h.lookup, hordered.get_insert]
    split_ifs with heq
    · rw [heq, hget, Option.map_some, Option.map_some, hschema]
    · rfl

/-- **`touched_rows` finds the rows that the operations write.** -/
theorem touchedLoop_eq (hcatalogue : Catalogue schemas tables) (hordered : Ordered tables)
    (happly : applyOps tables ops = .ok tables') :
    read ∈ OptimisticState.touchedLoop schemas ops ↔ (read.table, read.key) ∈ writtenRows tables ops := by
  obtain ⟨readTable, readKey⟩ := read
  induction ops generalizing schemas tables with
  | nil => simp [OptimisticState.touchedLoop, writtenRows]
  | cons op ops ih =>
    rw [applyOps, List.foldlM_cons, Checked.bind_eq_ok] at happly
    obtain ⟨middle, hmiddle, hrest⟩ := happly
    rw [writtenRows_cons hmiddle, List.mem_append]
    cases op with
    | createTable name schema =>
      obtain ⟨hnone, hpk, rfl⟩ := applyOp_createTable hmiddle
      have hnext : Catalogue (upsertBy Prod.fst (name, schema) schemas)
          (tables.insert name ⟨schema, [], hpk⟩) := by
        refine ⟨hcatalogue.sorted.upsertBy, fun name' => ?_⟩
        rw [lookupBy_upsertBy hcatalogue.sorted, hordered.get_insert]
        split_ifs with heq
        · rfl
        · exact hcatalogue.lookup name'
      rw [OptimisticState.touchedLoop, ih hnext (hordered.applyOp hmiddle) hrest]
      simp [writtenRow]
    | upsertRow table row =>
      obtain ⟨state, hstate, hrow, hinsert⟩ := applyOp_upsertRow hmiddle
      have hlookup := hcatalogue.lookup table
      rw [hstate, Option.map_some, Option.map_eq_some_iff] at hlookup
      obtain ⟨⟨name, schema⟩, hfound, hschema⟩ := hlookup
      dsimp only at hschema
      have hlength : row.length = state.schema.columns.length := by
        unfold validateRow at hrow
        split_ifs at hrow with hne
        exact not_not.1 hne
      -- The schema of the loop is that of the table, so both find the key in the same cell.
      have hkey : row[schema.primaryKey]? = some (row.getD state.schema.primaryKey default) := by
        have hlt := state.primaryKey_lt
        rw [← hlength] at hlt
        rw [hschema, List.getD_eq_getElem?_getD, List.getElem?_eq_getElem hlt, Option.getD_some]
      have hnext : Catalogue schemas middle := by
        rw [hinsert]
        exact hcatalogue.insert hordered hstate rfl
      rw [OptimisticState.touchedLoop, hfound]
      dsimp only
      rw [hkey]
      dsimp only
      rw [List.mem_cons, ih hnext (hordered.applyOp hmiddle) hrest, writtenRow, hstate]
      simp
    | deleteRow table key =>
      obtain ⟨state, hstate, -, hinsert⟩ := applyOp_deleteRow hmiddle
      have hnext : Catalogue schemas middle := by
        rw [hinsert]
        exact hcatalogue.insert hordered hstate rfl
      rw [OptimisticState.touchedLoop, List.mem_cons, ih hnext (hordered.applyOp hmiddle) hrest, writtenRow]
      simp

/-! ### Commits -/

/-- **What the locked part does**, as a commit of the history. -/
theorem publish_sound (h : Sound s) (result : Except DbError (Option ℕ))
    (hrun : Txn.publish snapshot ops s = (result, t)) :
    (∀ e, result = .error e → t = s) ∧ (result = .ok none → t = s) ∧
      ∀ txId, result = .ok (some txId) → ∃ engine, txId = s.engine.nextTxId ∧ engine.Healthy ∧
        engine.nextTxId = s.engine.nextTxId + 1 ∧ applyOps s.engine.tables ops = .ok engine.tables ∧
        t = ({ s with engine := engine } : OptimisticState).stamp (OptimisticState.touchedRows s.engine ops)
          txId := by
  unfold Txn.publish at hrun
  rw [Prog.get_bind] at hrun
  cases hvalid : s.validateSnapshot snapshot with
  | error e =>
    rw [hvalid, Prog.ofExcept_error_bind] at hrun
    cases hrun
    exact ⟨fun _ _ => rfl, fun _ => rfl, fun _ heq => absurd heq (by simp)⟩
  | ok u =>
    rw [hvalid, Prog.ofExcept_ok_bind] at hrun
    by_cases hops : ops = []
    · rw [if_pos hops] at hrun
      cases hrun
      exact ⟨fun _ _ => rfl, fun _ => rfl, fun _ heq => absurd heq (by simp)⟩
    · rw [if_neg hops] at hrun
      rcases h.healthy.commit ops with ⟨engine, hcommit, hhealthy, happly, hnext⟩ | ⟨e, hcommit⟩
      · have hstep : OptimisticState.onEngine (RelationalEngine.commit ops) s =
            (.ok s.engine.nextTxId, { s with engine := engine }) := by
          rw [OptimisticState.onEngine, Prog.zoom, hcommit]
        rw [Prog.bind_ok hstep] at hrun
        cases hrun
        refine ⟨fun _ heq => absurd heq (by simp), fun heq => absurd heq (by simp), fun txId heq => ?_⟩
        cases heq
        exact ⟨engine, rfl, hhealthy, hnext, happly, rfl⟩
      · have hstep : OptimisticState.onEngine (RelationalEngine.commit ops) s = (.error e, s) := by
          rw [OptimisticState.onEngine, Prog.zoom, hcommit]
        rw [Prog.bind_error hstep] at hrun
        cases hrun
        exact ⟨fun _ _ => rfl, fun _ => rfl, fun _ heq => absurd heq (by simp)⟩

theorem Sound.commit {engine : RelationalEngine} (h : Sound s) (hhealthy : engine.Healthy)
    (hnext : engine.nextTxId = s.engine.nextTxId + 1)
    (happly : applyOps s.engine.tables ops = .ok engine.tables) :
    Sound (({ s with engine := engine } : OptimisticState).stamp touched s.engine.nextTxId) where
  healthy := hhealthy
  ordered := h.ordered.applyOps happly
  sorted := @sorted_stamp { s with engine := engine } _ _ h.sorted
  below read := by
    rw [@version_stamp { s with engine := engine } _ _ _ h.sorted]
    show _ < engine.nextTxId
    rw [hnext]
    have hbelow := h.below read
    split_ifs
    · exact Nat.lt_succ_self _
    · exact hbelow.trans (Nat.lt_succ_self _)

/-- What the commits behind a snapshot have done to a row. -/
structure Since (s : OptimisticState) (log : List (Tables × List RelOp)) (t : OptimisticState)
    (read : RowRead) : Prop where
  next : s.engine.nextTxId ≤ t.engine.nextTxId
  keeps : Keeps s.engine.tables t.engine.tables read.table read.key (¬ Touched log read)
  touched : Touched log read → s.engine.nextTxId ≤ t.version read
  untouched : ¬ Touched log read → t.version read = s.version read

theorem touched_append {c : Tables × List RelOp} :
    Touched (log ++ [c]) read ↔ Touched log read ∨ (read.table, read.key) ∈ writtenRows c.1 c.2 := by
  simp only [Touched, List.mem_append, List.mem_singleton]
  constructor
  · rintro ⟨c', hmem | rfl, hwritten⟩
    · exact .inl ⟨c', hmem, hwritten⟩
    · exact .inr hwritten
  · rintro (⟨c', hmem, hwritten⟩ | hwritten)
    · exact ⟨c', .inl hmem, hwritten⟩
    · exact ⟨c, .inr rfl, hwritten⟩

/-- **One commit**: its rows get its id, and the others keep their stamp and their value. -/
theorem Since.commit {engine : RelationalEngine} (h : Since s log t read) (ht : Sound t)
    (hnext : engine.nextTxId = t.engine.nextTxId + 1)
    (happly : applyOps t.engine.tables ops = .ok engine.tables) :
    Since s (log ++ [(t.engine.tables, ops)])
      (({ t with engine := engine } : OptimisticState).stamp (OptimisticState.touchedRows t.engine ops)
        t.engine.nextTxId) read := by
  have hversion := @version_stamp { t with engine := engine } read
    (OptimisticState.touchedRows t.engine ops) t.engine.nextTxId ht.sorted
  have hmem : read ∈ OptimisticState.touchedRows t.engine ops ↔
      (read.table, read.key) ∈ writtenRows t.engine.tables ops :=
    touchedLoop_eq (catalogue_of_ordered ht.ordered) ht.ordered happly
  constructor
  · show s.engine.nextTxId ≤ engine.nextTxId
    rw [hnext]
    exact h.next.trans (Nat.le_succ _)
  · refine (h.keeps.trans (ht.ordered.keeps_applyOps happly)).mono fun hnot => ?_
    rw [touched_append, not_or] at hnot
    exact hnot
  · intro htouched
    rw [hversion]
    split_ifs with hrow
    · exact h.next
    · rw [hmem] at hrow
      exact h.touched ((touched_append.1 htouched).resolve_right hrow)
  · intro hnot
    rw [touched_append, not_or] at hnot
    rw [hversion, if_neg (by rw [hmem]; exact hnot.2)]
    exact h.untouched hnot.1

/-- **All commits behind a snapshot.** -/
theorem Commits.sound_since (h : Commits s log t) (hs : Sound s) (read : RowRead) :
    Sound t ∧ Since s log t read := by
  induction h with
  | start =>
    refine ⟨hs, le_rfl, fun state hstate => ⟨state, hstate, rfl, fun _ => rfl⟩, ?_, fun _ => rfl⟩
    rintro ⟨c, hmem, -⟩
    exact absurd hmem List.not_mem_nil
  | failed _ hrun ih =>
    obtain ⟨ht, hsince⟩ := ih
    rw [(publish_sound ht _ hrun).1 _ rfl]
    exact ⟨ht, hsince⟩
  | readOnly _ hrun ih =>
    obtain ⟨ht, hsince⟩ := ih
    rw [(publish_sound ht _ hrun).2.1 rfl]
    exact ⟨ht, hsince⟩
  | committed _ hrun ih =>
    obtain ⟨ht, hsince⟩ := ih
    obtain ⟨engine, rfl, hhealthy, hnext, happly, rfl⟩ := (publish_sound ht _ hrun).2.2 _ rfl
    exact ⟨ht.commit hhealthy hnext happly, hsince.commit ht hnext happly⟩

/-! ### Snapshots -/

/-- The rows of a snapshot: those that were declared, with their values and stamps. -/
theorem mem_snapshotLoop {rows : Snapshot} {entry : RowRead × ObservedRow}
    (hsorted : SortedBy Prod.fst rows) (h : s.snapshotLoop rows reads = .ok snapshot) :
    entry ∈ snapshot ↔ entry ∈ rows ∨ entry.1 ∈ reads ∧
      s.engine.row entry.1.table entry.1.key = .ok entry.2.row ∧ entry.2.version = s.version entry.1 := by
  induction reads generalizing rows with
  | nil =>
    cases h
    simp
  | cons read reads ih =>
    simp only [OptimisticState.snapshotLoop, Checked.bind_eq_ok, exists_const, failWhen_eq_ok] at h
    obtain ⟨hnew, row, hrow, h⟩ := h
    rw [ih hsorted.upsertBy h, mem_upsertBy hsorted]
    constructor
    · rintro ((rfl | ⟨hmem, -⟩) | ⟨hmem, hrest⟩)
      · exact .inr ⟨List.mem_cons_self, hrow, rfl⟩
      · exact .inl hmem
      · exact .inr ⟨List.mem_cons_of_mem _ hmem, hrest⟩
    · rintro (hmem | ⟨hmem, hvalue, hversion⟩)
      · refine .inl (.inr ⟨hmem, fun heq => hnew ?_⟩)
        exact List.mem_map.2 ⟨entry, hmem, heq⟩
      · rcases List.mem_cons.1 hmem with heq | hmem
        · left
          left
          obtain ⟨read', observed⟩ := entry
          dsimp only at heq hvalue hversion
          subst heq
          rw [hrow, Except.ok.injEq] at hvalue
          obtain ⟨row', version⟩ := observed
          dsimp only at hvalue hversion
          rw [hvalue, hversion]
        · exact .inr ⟨hmem, hvalue, hversion⟩

/-- Every declared row is in the snapshot. -/
theorem exists_observed {rows : Snapshot} (hsorted : SortedBy Prod.fst rows)
    (h : s.snapshotLoop rows reads = .ok snapshot) (hread : read ∈ reads) :
    ∃ observed, (read, observed) ∈ snapshot := by
  induction reads generalizing rows with
  | nil => exact absurd hread List.not_mem_nil
  | cons first reads ih =>
    simp only [OptimisticState.snapshotLoop, Checked.bind_eq_ok, exists_const, failWhen_eq_ok] at h
    obtain ⟨-, row, hrow, h⟩ := h
    rcases List.mem_cons.1 hread with rfl | hmem
    · exact ⟨_, mem_of_snapshotLoop hsorted.upsertBy h ((mem_upsertBy hsorted).2 (.inl rfl))⟩
    · exact ih hsorted.upsertBy h hmem

/-- The row is still there to read, and with the same value if nothing has written it. -/
theorem row_since {row : Option (List Cell)} (h : Since s log t read)
    (hrow : s.engine.row read.table read.key = .ok row) :
    ∃ row', t.engine.row read.table read.key = .ok row' ∧ (¬ Touched log read → row' = row) := by
  rw [RelationalEngine.row] at hrow
  cases hget : s.engine.tables.get read.table with
  | none =>
    rw [hget] at hrow
    cases hrow
  | some state =>
    rw [hget] at hrow
    dsimp only at hrow
    rw [Checked.bind_eq_ok] at hrow
    obtain ⟨u, htype, hrow⟩ := hrow
    cases hrow
    obtain ⟨state', hget', hschema, hsame⟩ := h.keeps state hget
    have hkey : state'.keyType = state.keyType := by
      obtain ⟨schema', rows', hpk'⟩ := state'
      obtain ⟨schema, rows, hpk⟩ := state
      dsimp only at hschema
      subst hschema
      rfl
    refine ⟨(lookupBy Prod.fst read.key state'.rows).map Prod.snd, ?_, fun hnot => by rw [hsame hnot]⟩
    rw [RelationalEngine.row, hget']
    dsimp only
    rw [hkey, htype, Checked.ok_bind]

/-- The error of a conflict. -/
def conflict (table : String) : DbError := .invalidInput s!"optimistic transaction conflict on table {table}"

/-- **A row conflicts if and only if a later commit has written it.** -/
theorem validateRow_since {entry : RowRead × ObservedRow} (hs : Sound s) (h : Since s log t entry.1)
    (hrow : s.engine.row entry.1.table entry.1.key = .ok entry.2.row)
    (hversion : entry.2.version = s.version entry.1) :
    t.validateRow entry = .ok () ∧ ¬ Touched log entry.1 ∨
      t.validateRow entry = .error (conflict entry.1.table) ∧ Touched log entry.1 := by
  obtain ⟨row', hrow', hsame⟩ := row_since h hrow
  by_cases htouched : Touched log entry.1
  · right
    have hne : t.version entry.1 ≠ entry.2.version := by
      have hlow := hs.below entry.1
      have hhigh := h.touched htouched
      omega
    refine ⟨?_, htouched⟩
    rw [OptimisticState.validateRow, hrow', Checked.ok_bind]
    exact if_pos (Or.inr hne)
  · left
    refine ⟨validateRow_eq_ok.2 ⟨?_, ?_⟩, htouched⟩
    · rw [hrow', hsame htouched]
    · rw [h.untouched htouched, hversion]

end DbLab.Relational
