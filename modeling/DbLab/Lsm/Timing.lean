import DbLab.Lsm.Engine
import DbLab.Experiment.OperationalTiming

/-!
# Operational timing of the LSM engine

A compaction that is triggered adds one sample of the kind of its outcome, whatever becomes of the operation around
it. A reopen adds one when it succeeds. When the directory does not open, the reopen returns before it adds any.
-/

namespace DbLab.Lsm

open Timing Store Record

abbrev TimedSession := Timed Session

namespace LsmEngine

/-! ### The timed operations -/

/-- The versions and the bytes of the tables. -/
def tableWork (unit : OperationalWorkUnit) (tables : List SstableDescriptor) (units bytes : ℕ) : OperationalWork where
  unit := unit
  unitsExamined := tables.foldl (fun total table => saturate (total + table.entryCount)) units
  bytesExamined := tables.foldl (fun total table => saturate (total + table.fileBytes)) bytes

/-- The body of `maybe_compact_level0` behind its trigger. The merge of tables that were validated does not fail, so
the input is fully examined. -/
def timedCompaction (durationNs : ℕ) : TimedProg Session Unit := fun t =>
  let work := tableWork .lsmSstableRecordVersion t.engine.engine.version.tables 0 0
  match compactLevel0AfterTrigger t.engine with
  | (.ok (), s) =>
    (.ok (), { t with engine := s, timing := t.timing.pushCompactionStall ⟨t.stepIndex, durationNs, work⟩ })
  | (.error error, s) =>
    (.error error,
      { t with
        engine := s
        timing := t.timing.pushCompactionStallFailure ⟨t.stepIndex, durationNs, some work, error.errorClass⟩ })

/-- Source `maybe_compact_level0`. -/
def timedMaybeCompactLevel0 (durationNs : ℕ) : TimedProg Session Unit := do
  let e ← onEngine engine
  if (e.version.tables.filter fun table => table.level = 0).length < level0CompactionTrigger then pure ()
  else witnessed .compactionStall durationNs (timedCompaction durationNs)

/-- Source `flush_frozen_memtables`. -/
def timedFlushFrozenMemtables (durationNs : ℕ) : TimedProg Session Unit := do
  let e ← onEngine engine
  onEngine (flushLoop e.memtables.immutable.length)
  timedMaybeCompactLevel0 durationNs
  onEngine maybeRotateWal

/-- An error poisons the engine. -/
def timedPoisonOnError (x : TimedProg Session Unit) : TimedProg Session Unit := fun t =>
  match x t with
  | (.ok u, t') => (.ok u, t')
  | (.error e, t') => (.error e,
      { t' with engine := { t'.engine with engine := { t'.engine.engine with poisoned := true } } })

/-- Source `persist_and_apply`. -/
def timedPersistAndApply (kind : RecordKind) (key : Bytes) (value : Option Bytes) (durationNs : ℕ) :
    TimedProg Session Unit := do
  onEngine ensureUsable
  let sequence ← onEngine (poisonOnError (appendWal kind key (value.getD [])))
  onEngine (poisonOnError (applyMemtables sequence key value))
  timedPoisonOnError (timedFlushFrozenMemtables durationNs)

/-- Source `put`, with the clock of the compaction that it triggers. -/
def timedPut (key value : Bytes) (durationNs : ℕ) : TimedProg Session (Option Bytes) := do
  onEngine (Prog.ofExcept (validateKeyValue key value))
  onEngine ensureUsable
  let e ← onEngine engine
  timedPersistAndApply .put key (some value) durationNs
  pure (e.currentValue key)

/-- Source `delete`. -/
def timedDelete (key : Bytes) (durationNs : ℕ) : TimedProg Session (Option Bytes) := do
  onEngine (Prog.ofExcept (validateKey key))
  onEngine ensureUsable
  let e ← onEngine engine
  timedPersistAndApply .delete key none durationNs
  pure (e.currentValue key)

/-- Source `reopen_work`. -/
def reopenWork (e : LsmEngine) (openExaminedBytes : ℕ) : Except DbError OperationalWork :=
  match e.wal with
  | none => .error .poisoned
  | some wal => .ok (tableWork .lsmRecordVersion e.version.tables wal.log.recordCount openExaminedBytes)

/-- Source `reopen`: the log is closed first. The bytes that the opened log has examined and the clock are read where
the source reads them. -/
def timedReopen (openExaminedBytes durationNs : ℕ) : TimedProg Session Unit := fun t =>
  match openExisting t.engine.store with
  | (.ok reopened, store) =>
    match reopenWork reopened openExaminedBytes with
    | .ok work =>
      (.ok (),
        { t with engine := ⟨store, reopened⟩, timing := t.timing.pushReopen ⟨t.stepIndex, durationNs, work⟩ })
    | .error error => (.error error, { t with engine := ⟨store, { t.engine.engine with wal := none }⟩ })
  | (.error error, store) =>
    (.error error, { t with engine := ⟨store, { t.engine.engine with wal := none, poisoned := true }⟩ })

/-! ### The operations without their timing -/

/-- The timed computation does what the other one does. -/
def Erases {α : Type} (x : TimedProg Session α) (y : EngineProg α) : Prop :=
  ∀ t, ((x t).1, (x t).2.engine) = y t.engine

section Erases

variable {α β : Type} {x : TimedProg Session α} {y : EngineProg α}

theorem erases_onEngine : Erases (onEngine y) y := by
  intro t
  simp only [onEngine, Prog.zoom]

theorem erases_pure (a : α) : Erases (pure a : TimedProg Session α) (pure a) := fun _ => rfl

theorem Erases.bind {f : α → TimedProg Session β} {g : α → EngineProg β} (h : Erases x y)
    (hf : ∀ a, Erases (f a) (g a)) : Erases (x >>= f) (y >>= g) := by
  intro t
  have ht := h t
  rcases hx : x t with ⟨e | a, t'⟩
  · rw [hx] at ht
    rw [Prog.bind_error hx, Prog.bind_error ht.symm]
  · rw [hx] at ht
    rw [Prog.bind_ok hx, Prog.bind_ok ht.symm]
    exact hf a t'

theorem erases_witnessed {operation : TimedOperation} {durationNs : ℕ} {x : TimedProg Session Unit}
    {y : EngineProg Unit} (h : Erases x y) : Erases (witnessed operation durationNs x) y := by
  intro t
  rw [← h t, witnessed]
  rcases x t with ⟨e | u, t'⟩ <;> rfl

theorem erases_poisonOnError {x : TimedProg Session Unit} {y : EngineProg Unit} (h : Erases x y) :
    Erases (timedPoisonOnError x) (poisonOnError y) := by
  intro t
  rw [timedPoisonOnError, poisonOnError, ← h t]
  rcases x t with ⟨e | u, t'⟩ <;> rfl

theorem erases_timedCompaction {durationNs : ℕ} : Erases (timedCompaction durationNs) compactLevel0AfterTrigger := by
  intro t
  rcases hcompact : compactLevel0AfterTrigger t.engine with ⟨e | u, s⟩
  · simp only [timedCompaction, hcompact]
  · simp only [timedCompaction, hcompact]

theorem erases_timedMaybeCompactLevel0 {durationNs : ℕ} :
    Erases (timedMaybeCompactLevel0 durationNs) maybeCompactLevel0 := by
  refine erases_onEngine.bind fun e => ?_
  split
  · exact erases_pure ()
  · exact erases_witnessed erases_timedCompaction

theorem erases_timedPersistAndApply {kind : RecordKind} {key : Bytes} {value : Option Bytes} {durationNs : ℕ} :
    Erases (timedPersistAndApply kind key value durationNs) (persistAndApply kind key value) :=
  erases_onEngine.bind fun _ => erases_onEngine.bind fun _ => erases_onEngine.bind fun _ =>
    erases_poisonOnError (erases_onEngine.bind fun _ => erases_onEngine.bind fun _ =>
      erases_timedMaybeCompactLevel0.bind fun _ => erases_onEngine)

/-- The timing has no part in what a `put` does. -/
theorem erases_timedPut {key value : Bytes} {durationNs : ℕ} : Erases (timedPut key value durationNs) (put key value) :=
  erases_onEngine.bind fun _ => erases_onEngine.bind fun _ => erases_onEngine.bind fun _ =>
    erases_timedPersistAndApply.bind fun _ => erases_pure _

theorem erases_timedDelete {key : Bytes} {durationNs : ℕ} : Erases (timedDelete key durationNs) (delete key) :=
  erases_onEngine.bind fun _ => erases_onEngine.bind fun _ => erases_onEngine.bind fun _ =>
    erases_timedPersistAndApply.bind fun _ => erases_pure _

end Erases

/-- An engine that was opened has a log. -/
theorem wal_of_openExisting {store store' : Store} {e : LsmEngine} (h : openExisting store = (.ok e, store')) :
    e.wal.isSome := by
  unfold openExisting at h
  simp only [Prog.bind_eq_ok] at h
  obtain ⟨_, _, _, _, _, _, _, _, _, _, _, _, _, _, _, ⟨_, _⟩, _, _, _, _, _, _, _, _, _, _, _, _, _, _, hpure⟩ := h
  cases hpure
  rfl

/-- Without its timing a reopen is the one of the engine. -/
theorem erases_timedReopen {openExaminedBytes durationNs : ℕ} :
    Erases (timedReopen openExaminedBytes durationNs) reopen := by
  intro t
  rw [timedReopen, reopen]
  rcases hopen : openExisting t.engine.store with ⟨error | e, store⟩
  · rfl
  · obtain ⟨wal, hwal⟩ := Option.isSome_iff_exists.1 (wal_of_openExisting hopen)
    simp only [reopenWork, hwal]

/-! ### Samples -/

/-- The report has room for the event: it is no reopen that failed. -/
def Recorded (event : TimedEvent) : Prop := event.operation = .reopen → event.outcome = none

instance (event : TimedEvent) : Decidable (Recorded event) := inferInstanceAs (Decidable (_ → _))

/-- The report has one sample for each event that it has room for. -/
def Kept (t : TimedSession) : Prop := Matches (t.happened.filter (Recorded ·)) t.timing

/-- The reopens that failed. -/
def missed (t : TimedSession) : List TimedEvent := t.happened.filter fun event => ¬ Recorded event

/-- The computation records what happens in it. -/
def Records {α : Type} (x : TimedProg Session α) : Prop :=
  ∀ t, Kept t → Kept (x t).2 ∧ missed (x t).2 = missed t

section Records

variable {α β : Type} {x : TimedProg Session α}

theorem records_onEngine {y : EngineProg α} : Records (onEngine y) := by
  intro t h
  simp only [onEngine, Prog.zoom]
  exact ⟨h, rfl⟩

theorem records_pure (a : α) : Records (pure a : TimedProg Session α) := fun _ h => ⟨h, rfl⟩

theorem Records.bind {f : α → TimedProg Session β} (h : Records x) (hf : ∀ a, Records (f a)) :
    Records (x >>= f) := by
  intro t ht
  obtain ⟨hkept, hmissed⟩ := h t ht
  rcases hx : x t with ⟨e | a, t'⟩
  · rw [Prog.bind_error hx]
    rw [hx] at hkept hmissed
    exact ⟨hkept, hmissed⟩
  · rw [Prog.bind_ok hx]
    rw [hx] at hkept hmissed
    obtain ⟨hkept', hmissed'⟩ := hf a t' hkept
    exact ⟨hkept', hmissed'.trans hmissed⟩

theorem records_poisonOnError {x : TimedProg Session Unit} (h : Records x) : Records (timedPoisonOnError x) := by
  intro t ht
  have hx := h t ht
  rw [timedPoisonOnError]
  rcases hrun : x t with ⟨e | u, t'⟩
  · rw [hrun] at hx
    exact hx
  · rw [hrun] at hx
    exact hx

/-- **A compaction that was triggered** adds one sample of the kind of its outcome. -/
theorem records_compaction {durationNs : ℕ} :
    Records (witnessed .compactionStall durationNs (timedCompaction durationNs)) := by
  intro t h
  rcases hcompact : compactLevel0AfterTrigger t.engine with ⟨e | u, s⟩
  · simp only [witnessed, timedCompaction, hcompact]
    refine ⟨?_, by simp [missed, Recorded]⟩
    rw [Kept, List.filter_append]
    exact h.pushCompactionStallFailure ⟨_, _, _, _⟩
  · simp only [witnessed, timedCompaction, hcompact]
    refine ⟨?_, by simp [missed, Recorded]⟩
    rw [Kept, List.filter_append]
    exact h.pushCompactionStall ⟨_, _, _⟩

theorem records_maybeCompactLevel0 {durationNs : ℕ} : Records (timedMaybeCompactLevel0 durationNs) := by
  refine records_onEngine.bind fun e => ?_
  split
  · exact records_pure ()
  · exact records_compaction

theorem records_persistAndApply {kind : RecordKind} {key : Bytes} {value : Option Bytes} {durationNs : ℕ} :
    Records (timedPersistAndApply kind key value durationNs) :=
  records_onEngine.bind fun _ => records_onEngine.bind fun _ => records_onEngine.bind fun _ =>
    records_poisonOnError (records_onEngine.bind fun _ => records_onEngine.bind fun _ =>
      records_maybeCompactLevel0.bind fun _ => records_onEngine)

theorem records_put {key value : Bytes} {durationNs : ℕ} : Records (timedPut key value durationNs) :=
  records_onEngine.bind fun _ => records_onEngine.bind fun _ => records_onEngine.bind fun _ =>
    records_persistAndApply.bind fun _ => records_pure _

theorem records_delete {key : Bytes} {durationNs : ℕ} : Records (timedDelete key durationNs) :=
  records_onEngine.bind fun _ => records_onEngine.bind fun _ => records_onEngine.bind fun _ =>
    records_persistAndApply.bind fun _ => records_pure _

end Records

/-- The directory of the engine opens. -/
def opens (s : Session) : Bool := (openExisting s.store).1.toBool

/-- A reopen adds one sample when the directory opens, and none otherwise. -/
theorem reopen_records {t : TimedSession} {openExaminedBytes durationNs : ℕ} (h : Kept t) :
    Kept (witnessed .reopen durationNs (timedReopen openExaminedBytes durationNs) t).2 ∧
      (missed (witnessed .reopen durationNs (timedReopen openExaminedBytes durationNs) t).2 = [] ↔
        missed t = [] ∧ opens t.engine = true) := by
  rcases hopen : openExisting t.engine.store with ⟨error | e, store⟩
  · simp only [witnessed, timedReopen, hopen]
    refine ⟨?_, by simp [missed, Recorded, opens, hopen, Except.toBool]⟩
    have hnone : [(⟨.reopen, some error.errorClass, t.stepIndex, durationNs⟩ : TimedEvent)].filter (Recorded ·) = [] := by
      simp [Recorded]
    rw [Kept, List.filter_append, hnone, List.append_nil]
    exact h
  · obtain ⟨wal, hwal⟩ := Option.isSome_iff_exists.1 (wal_of_openExisting hopen)
    simp only [witnessed, timedReopen, hopen, reopenWork, hwal]
    refine ⟨?_, by simp [missed, Recorded, opens, hopen, Except.toBool]⟩
    rw [Kept, List.filter_append]
    exact h.pushReopen ⟨_, _, _⟩

/-- The states of a timed engine, and whether a reopen since the last reset found a directory that does not open:
its operations, reopens, resets and changes of the step, and whatever else happens to the engine, its faults and
those of its directory among it. -/
inductive TimedRun : TimedSession → Bool → Prop
  | start (s : Session) : TimedRun ⟨s, .empty, none, []⟩ false
  | put {t : TimedSession} {lost : Bool} (key value : Bytes) (durationNs : ℕ) : TimedRun t lost →
      TimedRun (timedPut key value durationNs t).2 lost
  | delete {t : TimedSession} {lost : Bool} (key : Bytes) (durationNs : ℕ) : TimedRun t lost →
      TimedRun (timedDelete key durationNs t).2 lost
  | other {t : TimedSession} {lost : Bool} (s : Session) : TimedRun t lost → TimedRun { t with engine := s } lost
  | reopen {t : TimedSession} {lost : Bool} (openExaminedBytes durationNs : ℕ) : TimedRun t lost →
      TimedRun (witnessed .reopen durationNs (timedReopen openExaminedBytes durationNs) t).2
        (lost || !opens t.engine)
  | reset {t : TimedSession} {lost : Bool} : TimedRun t lost → TimedRun t.reset false
  | setStepIndex {t : TimedSession} {lost : Bool} (stepIndex : Option ℕ) : TimedRun t lost →
      TimedRun (t.setStepIndex stepIndex) lost

/-- **Every run of an engine** records all but the reopens that failed. -/
theorem TimedRun.kept {t : TimedSession} {lost : Bool} (h : TimedRun t lost) :
    Kept t ∧ (missed t = [] ↔ lost = false) := by
  induction h with
  | start => exact ⟨matches_empty, by simp [missed]⟩
  | put key value durationNs _ ih =>
    obtain ⟨hkept, hmissed⟩ := records_put _ ih.1
    exact ⟨hkept, hmissed ▸ ih.2⟩
  | delete key durationNs _ ih =>
    obtain ⟨hkept, hmissed⟩ := records_delete _ ih.1
    exact ⟨hkept, hmissed ▸ ih.2⟩
  | other _ _ ih => exact ih
  | reopen openExaminedBytes durationNs _ ih =>
    obtain ⟨hkept, hmissed⟩ := reopen_records ih.1
    refine ⟨hkept, hmissed.trans ?_⟩
    rw [ih.2]
    simp
  | reset _ _ => exact ⟨matches_empty, by simp [missed, Timed.reset]⟩
  | setStepIndex _ _ ih => exact ih

/-- The report has a sample for everything exactly if no reopen has found a directory that does not open. -/
theorem TimedRun.matches_iff {t : TimedSession} {lost : Bool} (h : TimedRun t lost) :
    Matches t.happened t.timing ↔ lost = false := by
  obtain ⟨hkept, hmissed⟩ := h.kept
  rw [← hmissed]
  constructor
  · intro hmatches
    refine List.eq_nil_iff_forall_not_mem.2 fun event hevent => ?_
    obtain ⟨hmem, hfailed⟩ := List.mem_filter.1 hevent
    replace hfailed := Classical.not_imp.1 (of_decide_eq_true hfailed)
    obtain ⟨errorClass, herror⟩ := Option.ne_none_iff_exists'.1 hfailed.2
    have hnone : (t.happened.filter (Recorded ·)).filterMap (TimedEvent.failure .reopen) = [] := by
      refine List.filterMap_eq_nil_iff.2 fun other hother => ?_
      have hrecorded : Recorded other := of_decide_eq_true (List.mem_filter.1 hother).2
      by_cases hreopen : other.operation = .reopen
      · simp [TimedEvent.failure, hrecorded hreopen]
      · simp [TimedEvent.failure, hreopen]
    rw [← hkept.reopenFailures, hmatches.reopenFailures, List.filterMap_eq_nil_iff] at hnone
    have hlost := hnone event hmem
    simp [TimedEvent.failure, hfailed.1, herror] at hlost
  · intro hnil
    have hall : t.happened.filter (Recorded ·) = t.happened := by
      refine List.filter_eq_self.2 fun event hevent => ?_
      by_contra hfailed
      have hmem : event ∈ missed t := List.mem_filter.2 ⟨hevent, by simpa using hfailed⟩
      rw [hnil] at hmem
      cases hmem
    rw [Kept, hall] at hkept
    exact hkept

end LsmEngine

end DbLab.Lsm
