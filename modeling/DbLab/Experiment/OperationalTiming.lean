import DbLab.Lib.Prog
import DbLab.Core

/-!
# Operational timing

The samples of reopens and of synchronous compactions that an engine records for an experiment, and what happened
as the callers of these operations saw it. The two agree when there is one sample for each operation, of the kind
of its outcome and in the same order. Clock readings are numbers that the operations take.
-/

namespace DbLab.Timing

inductive OperationalWorkUnit
  | btreePageAccess | lsmRecordVersion | lsmSstableRecordVersion
  deriving DecidableEq

structure OperationalWork where
  unit : OperationalWorkUnit
  unitsExamined : ℕ
  bytesExamined : ℕ
  deriving DecidableEq

structure OperationalTimingSample where
  measuredStepIndex : Option ℕ
  durationNs : ℕ
  work : OperationalWork
  deriving DecidableEq

structure OperationalTimingFailureSample where
  measuredStepIndex : Option ℕ
  durationNs : ℕ
  work : Option OperationalWork
  errorClass : ErrorClass
  deriving DecidableEq

structure OperationalTimingReport where
  reopenNs : List ℕ
  compactionStallNs : List ℕ
  reopenSamples : List OperationalTimingSample
  compactionStallSamples : List OperationalTimingSample
  reopenFailureSamples : List OperationalTimingFailureSample
  compactionStallFailureSamples : List OperationalTimingFailureSample
  deriving DecidableEq

/-- Source `saturating_add` and `saturating_mul`. -/
def saturate (n : ℕ) : ℕ := min n (u64Limit - 1)

namespace OperationalTimingReport

/-- Source `default`. -/
def empty : OperationalTimingReport := ⟨[], [], [], [], [], []⟩

variable (r : OperationalTimingReport) (sample : OperationalTimingSample) (failure : OperationalTimingFailureSample)

def pushReopen : OperationalTimingReport :=
  { r with reopenNs := r.reopenNs ++ [sample.durationNs], reopenSamples := r.reopenSamples ++ [sample] }

def pushReopenFailure : OperationalTimingReport :=
  { r with reopenFailureSamples := r.reopenFailureSamples ++ [failure] }

def pushCompactionStall : OperationalTimingReport :=
  { r with
    compactionStallNs := r.compactionStallNs ++ [sample.durationNs]
    compactionStallSamples := r.compactionStallSamples ++ [sample] }

def pushCompactionStallFailure : OperationalTimingReport :=
  { r with compactionStallFailureSamples := r.compactionStallFailureSamples ++ [failure] }

end OperationalTimingReport

/-! ### What happened -/

inductive TimedOperation
  | reopen | compactionStall
  deriving DecidableEq

/-- A timed operation, with what it returned. -/
structure TimedEvent where
  operation : TimedOperation
  outcome : Option ErrorClass
  measuredStepIndex : Option ℕ
  durationNs : ℕ
  deriving DecidableEq

/-- The step and the duration of an operation that returned `Ok`. -/
def TimedEvent.success (operation : TimedOperation) (event : TimedEvent) : Option (Option ℕ × ℕ) :=
  if event.operation = operation ∧ event.outcome = none then some (event.measuredStepIndex, event.durationNs)
  else none

/-- The step, the duration and the class of the error of an operation that returned one. -/
def TimedEvent.failure (operation : TimedOperation) (event : TimedEvent) : Option (Option ℕ × ℕ × ErrorClass) :=
  if event.operation = operation then
    event.outcome.map fun errorClass => (event.measuredStepIndex, event.durationNs, errorClass)
  else none

def OperationalTimingSample.key (sample : OperationalTimingSample) : Option ℕ × ℕ :=
  (sample.measuredStepIndex, sample.durationNs)

def OperationalTimingFailureSample.key (sample : OperationalTimingFailureSample) : Option ℕ × ℕ × ErrorClass :=
  (sample.measuredStepIndex, sample.durationNs, sample.errorClass)

/-- One sample for each operation, of the kind of its outcome and in the order in which they happened. -/
structure Matches (events : List TimedEvent) (r : OperationalTimingReport) : Prop where
  reopenNs : r.reopenNs = (events.filterMap (TimedEvent.success .reopen)).map Prod.snd
  reopenSamples : r.reopenSamples.map OperationalTimingSample.key = events.filterMap (TimedEvent.success .reopen)
  reopenFailures : r.reopenFailureSamples.map OperationalTimingFailureSample.key =
    events.filterMap (TimedEvent.failure .reopen)
  compactionStallNs : r.compactionStallNs = (events.filterMap (TimedEvent.success .compactionStall)).map Prod.snd
  compactionStallSamples : r.compactionStallSamples.map OperationalTimingSample.key =
    events.filterMap (TimedEvent.success .compactionStall)
  compactionStallFailures : r.compactionStallFailureSamples.map OperationalTimingFailureSample.key =
    events.filterMap (TimedEvent.failure .compactionStall)

section Matches

variable {events : List TimedEvent} {r : OperationalTimingReport}

theorem matches_empty : Matches [] .empty := ⟨rfl, rfl, rfl, rfl, rfl, rfl⟩

theorem Matches.pushReopen (sample : OperationalTimingSample) (h : Matches events r) : Matches
    (events ++ [⟨.reopen, none, sample.measuredStepIndex, sample.durationNs⟩]) (r.pushReopen sample) := by
  obtain ⟨h₁, h₂, h₃, h₄, h₅, h₆⟩ := h
  constructor <;>
    simp [OperationalTimingReport.pushReopen, TimedEvent.success, TimedEvent.failure, OperationalTimingSample.key, h₁, h₂, h₃, h₄,
      h₅, h₆]

theorem Matches.pushReopenFailure (failure : OperationalTimingFailureSample) (h : Matches events r) : Matches
    (events ++ [⟨.reopen, some failure.errorClass, failure.measuredStepIndex, failure.durationNs⟩])
    (r.pushReopenFailure failure) := by
  obtain ⟨h₁, h₂, h₃, h₄, h₅, h₆⟩ := h
  constructor <;>
    simp [OperationalTimingReport.pushReopenFailure, TimedEvent.success, TimedEvent.failure, OperationalTimingFailureSample.key,
      h₁, h₂, h₃, h₄, h₅, h₆]

theorem Matches.pushCompactionStall (sample : OperationalTimingSample) (h : Matches events r) : Matches
    (events ++ [⟨.compactionStall, none, sample.measuredStepIndex, sample.durationNs⟩])
    (r.pushCompactionStall sample) := by
  obtain ⟨h₁, h₂, h₃, h₄, h₅, h₆⟩ := h
  constructor <;>
    simp [OperationalTimingReport.pushCompactionStall, TimedEvent.success, TimedEvent.failure, OperationalTimingSample.key, h₁, h₂,
      h₃, h₄, h₅, h₆]

theorem Matches.pushCompactionStallFailure (failure : OperationalTimingFailureSample) (h : Matches events r) : Matches
    (events ++ [⟨.compactionStall, some failure.errorClass, failure.measuredStepIndex, failure.durationNs⟩])
    (r.pushCompactionStallFailure failure) := by
  obtain ⟨h₁, h₂, h₃, h₄, h₅, h₆⟩ := h
  constructor <;>
    simp [OperationalTimingReport.pushCompactionStallFailure, TimedEvent.success, TimedEvent.failure,
      OperationalTimingFailureSample.key, h₁, h₂, h₃, h₄, h₅, h₆]

end Matches

/-! ### Timed engines -/

/-- An engine with its timing report. What happened since the last reset stands beside it for the theorems; no
operation reads it. -/
structure Timed (σ : Type) where
  engine : σ
  timing : OperationalTimingReport
  stepIndex : Option ℕ
  happened : List TimedEvent

abbrev TimedProg (σ : Type) := Prog (Timed σ) DbError

section Timed

variable {σ α : Type}

/-- Source `reset_operational_timing`. -/
def Timed.reset (t : Timed σ) : Timed σ := { t with timing := .empty, stepIndex := none, happened := [] }

/-- Source `set_operational_step_index`. -/
def Timed.setStepIndex (t : Timed σ) (stepIndex : Option ℕ) : Timed σ := { t with stepIndex := stepIndex }

/-- A computation of the engine, which has no part in the timing. -/
def onEngine (x : Prog σ DbError α) : TimedProg σ α :=
  Prog.zoom Timed.engine (fun t engine => { t with engine := engine }) x

/-- The caller sees what the operation returns. -/
def witnessed (operation : TimedOperation) (durationNs : ℕ) (x : TimedProg σ Unit) : TimedProg σ Unit := fun t =>
  match x t with
  | (.ok u, t') => (.ok u, { t' with happened := t'.happened ++ [⟨operation, none, t.stepIndex, durationNs⟩] })
  | (.error e, t') => (.error e,
      { t' with happened := t'.happened ++ [⟨operation, some e.errorClass, t.stepIndex, durationNs⟩] })

end Timed

end DbLab.Timing
