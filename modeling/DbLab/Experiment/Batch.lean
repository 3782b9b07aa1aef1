import DbLab.ErrorText
import DbLab.Experiment.Agreement

/-!
# Batches of counterbalanced pairs

A pair runs the ordered comparison twice, once in each order, on four fresh engines. A batch runs many
pairs and keeps a ledger of what became of each; the captured variant keeps evidence of the comparisons
that failed beside it. A callback is called at most once with each context, so its answers in a run are a
function of the context.
-/

namespace DbLab.Experiment

variable {σ ρ τ α ε : Type}

inductive CounterbalancedPairOrder
  | leftThenRightFirst | rightThenLeftFirst
  deriving DecidableEq

namespace CounterbalancedPairOrder

def first : CounterbalancedPairOrder → ExperimentExecutionOrder
  | leftThenRightFirst => .leftThenRight
  | rightThenLeftFirst => .rightThenLeft

def second : CounterbalancedPairOrder → ExperimentExecutionOrder
  | leftThenRightFirst => .rightThenLeft
  | rightThenLeftFirst => .leftThenRight

end CounterbalancedPairOrder

structure CounterbalancedExperimentComparisonReport where
  pairOrder : CounterbalancedPairOrder
  first : OrderedExperimentComparisonReport
  second : OrderedExperimentComparisonReport
  deriving DecidableEq

/-! ### One pair -/

/-- The checks behind the two comparisons. -/
def validateRepetitions (first second : OrderedExperimentComparisonReport) : Except DbError Unit := do
  failWhen (first.comparison.left.capabilities ≠ second.comparison.left.capabilities) (.invalidInput
    s!"counterbalanced left-engine capabilities changed between repetitions: {first.comparison.left.capabilities.name} then {second.comparison.left.capabilities.name}")
  failWhen (first.comparison.right.capabilities ≠ second.comparison.right.capabilities) (.invalidInput
    s!"counterbalanced right-engine capabilities changed between repetitions: {first.comparison.right.capabilities.name} then {second.comparison.right.capabilities.name}")
  failWhen (first.comparison.outcomes ≠ second.comparison.outcomes)
    (.invalidInput "counterbalanced measured logical outcomes changed between repetitions")

/-- Source `compare_experiment_trace_counterbalanced`; `τ` is the state of the factories. -/
def compareExperimentTraceCounterbalanced [Candidate σ] [Candidate ρ] (trace : ExperimentTrace)
    (pairOrder : CounterbalancedPairOrder) (makeLeft : Prog τ DbError σ) (makeRight : Prog τ DbError ρ) :
    Prog τ DbError CounterbalancedExperimentComparisonReport := do
  Prog.ofExcept trace.validate
  let firstLeft ← makeLeft
  let firstRight ← makeRight
  let first ← Prog.ofExcept (compareExperimentTraceOrdered trace pairOrder.first (firstLeft, firstRight)).1
  let secondLeft ← makeLeft
  let secondRight ← makeRight
  let second ← Prog.ofExcept
    (compareExperimentTraceOrdered trace pairOrder.second (secondLeft, secondRight)).1
  Prog.ofExcept (validateRepetitions first second)
  pure ⟨pairOrder, first, second⟩

structure OrderedExperimentFailureEvidence where
  executionOrder : ExperimentExecutionOrder
  errorClass : ErrorClass
  message : String
  leftOperationalTiming : OperationalTimingReport
  rightOperationalTiming : OperationalTimingReport
  deriving DecidableEq

structure CapturedOrderedExperimentError where
  source : DbError
  evidence : OrderedExperimentFailureEvidence

/-- Source `compare_experiment_trace_ordered_captured`. -/
def compareExperimentTraceOrderedCaptured [Candidate σ] [Candidate ρ] (trace : ExperimentTrace)
    (executionOrder : ExperimentExecutionOrder) (engines : σ × ρ) :
    Except CapturedOrderedExperimentError OrderedExperimentComparisonReport :=
  match compareExperimentTraceOrdered trace executionOrder engines with
  | (.ok report, _) => .ok report
  | (.error source, left, right) => .error
    { source := source
      evidence :=
        { executionOrder := executionOrder
          errorClass := source.errorClass
          message := errorText source
          leftOperationalTiming := OperationalTimingInstrumented.operationalTimingReport left
          rightOperationalTiming := OperationalTimingInstrumented.operationalTimingReport right } }

structure CounterbalancedComparisonFailureEvidence where
  pairOrder : CounterbalancedPairOrder
  repetitionIndex : ℕ
  completedFirst : Option OrderedExperimentComparisonReport
  orderedFailure : OrderedExperimentFailureEvidence
  deriving DecidableEq

structure CapturedCounterbalancedExperimentError where
  source : DbError
  comparisonFailure : Option CounterbalancedComparisonFailureEvidence

/-- Source `without_comparison_evidence`. -/
def withoutComparisonEvidence (source : DbError) : CapturedCounterbalancedExperimentError := ⟨source, none⟩

/-- Source `ordered_failure`. -/
def orderedFailure (pairOrder : CounterbalancedPairOrder) (repetitionIndex : ℕ)
    (completedFirst : Option OrderedExperimentComparisonReport) (error : CapturedOrderedExperimentError) :
    CapturedCounterbalancedExperimentError :=
  ⟨error.source, some ⟨pairOrder, repetitionIndex, completedFirst, error.evidence⟩⟩

/-- A computation with its error changed. -/
def mapErr {ε' : Type} (f : ε → ε') (x : Prog τ ε α) : Prog τ ε' α := fun s => ((x s).1.mapError f, (x s).2)

/-- Source `compare_experiment_trace_counterbalanced_captured`. -/
def compareExperimentTraceCounterbalancedCaptured [Candidate σ] [Candidate ρ] (trace : ExperimentTrace)
    (pairOrder : CounterbalancedPairOrder) (makeLeft : Prog τ DbError σ) (makeRight : Prog τ DbError ρ) :
    Prog τ CapturedCounterbalancedExperimentError CounterbalancedExperimentComparisonReport := do
  mapErr withoutComparisonEvidence (Prog.ofExcept trace.validate)
  let firstLeft ← mapErr withoutComparisonEvidence makeLeft
  let firstRight ← mapErr withoutComparisonEvidence makeRight
  let first ← mapErr (orderedFailure pairOrder 0 none) (Prog.ofExcept
    (compareExperimentTraceOrderedCaptured trace pairOrder.first (firstLeft, firstRight)))
  let secondLeft ← mapErr withoutComparisonEvidence makeLeft
  let secondRight ← mapErr withoutComparisonEvidence makeRight
  let second ← mapErr (orderedFailure pairOrder 1 (some first)) (Prog.ofExcept
    (compareExperimentTraceOrderedCaptured trace pairOrder.second (secondLeft, secondRight)))
  mapErr withoutComparisonEvidence (Prog.ofExcept (validateRepetitions first second))
  pure ⟨pairOrder, first, second⟩

/-! ### The ledger -/

def maxExperimentBatchPairs : ℕ := 10000

inductive ExperimentAttemptDisposition
  | included | failed | excluded
  deriving DecidableEq

/-- Source `ExperimentAttemptAdmission`; `admitPair` is its `Include`. -/
inductive ExperimentAttemptAdmission
  | admitPair
  | exclude (reason : String)

structure ExperimentAttemptContext where
  pairIndex : ℕ
  pairOrder : CounterbalancedPairOrder
  deriving DecidableEq

structure ExperimentInstanceContext where
  attempt : ExperimentAttemptContext
  repetitionIndex : ℕ
  deriving DecidableEq

inductive ExperimentEngineRole
  | left | right
  deriving DecidableEq

inductive ExperimentAttemptFailureStage
  | engineFactory | comparison
  deriving DecidableEq

structure ExperimentAttemptFailure where
  stage : ExperimentAttemptFailureStage
  engineRole : Option ExperimentEngineRole
  repetitionIndex : Option ℕ
  errorClass : ErrorClass
  message : String
  deriving DecidableEq

structure ExperimentAttemptRecord where
  context : ExperimentAttemptContext
  disposition : ExperimentAttemptDisposition
  report : Option CounterbalancedExperimentComparisonReport
  failure : Option ExperimentAttemptFailure
  exclusionReason : Option String
  deriving DecidableEq

structure CounterbalancedExperimentBatchReport where
  trace : ExperimentTrace
  pairSeed : UInt64
  requestedPairs : ℕ
  includedPairs : ℕ
  failedPairs : ℕ
  excludedPairs : ℕ
  attempts : List ExperimentAttemptRecord
  deriving DecidableEq

/-- The caller's callbacks. -/
structure Callbacks (σ ρ : Type) where
  makeLeft : ExperimentInstanceContext → Except DbError σ
  makeRight : ExperimentInstanceContext → Except DbError ρ
  admission : ExperimentAttemptContext → ExperimentAttemptAdmission

/-- Source `pair_order`, and `seeded_pair_order` of the captured variant. -/
def pairOrder (seed : UInt64) (pairIndex : ℕ) : CounterbalancedPairOrder :=
  if (seed.toNat % 2) ^^^ (pairIndex % 2) = 0 then .leftThenRightFirst else .rightThenLeftFirst

/-- The context of a pair. -/
def scheduled (pairSeed : UInt64) (pairIndex : ℕ) : ExperimentAttemptContext :=
  ⟨pairIndex, pairOrder pairSeed pairIndex⟩

/-- White space of Unicode. -/
def isWhiteSpace (c : Char) : Bool :=
  (9 ≤ c.toNat && c.toNat ≤ 13) || c.toNat = 0x20 || c.toNat = 0x85 || c.toNat = 0xA0 ||
    c.toNat = 0x1680 || (0x2000 ≤ c.toNat && c.toNat ≤ 0x200A) || c.toNat = 0x2028 ||
    c.toNat = 0x2029 || c.toNat = 0x202F || c.toNat = 0x205F || c.toNat = 0x3000

/-- A string without white space at its ends. -/
def trimmed (s : String) : String :=
  String.ofList ((s.toList.dropWhile isWhiteSpace).reverse.dropWhile isWhiteSpace).reverse

/-- What the closure around a factory keeps: how often it was called, and its first failure. -/
structure FactoryState where
  repetition : ℕ
  failure : Option ExperimentAttemptFailure

def FactoryState.fresh : FactoryState := ⟨0, none⟩

/-- The closure around the factory of a side; it is called twice, so that its counter does not saturate. -/
def callFactory (role : ExperimentEngineRole) (make : ExperimentInstanceContext → Except DbError α)
    (context : ExperimentAttemptContext) : Prog FactoryState DbError α := fun s =>
  match make ⟨context, s.repetition⟩ with
  | .ok engine => (.ok engine, ⟨s.repetition + 1, s.failure⟩)
  | .error error => (.error error, ⟨s.repetition + 1, some (s.failure.getD
      { stage := .engineFactory
        engineRole := some role
        repetitionIndex := some s.repetition
        errorClass := error.errorClass
        message := errorText error })⟩)

/-- The failure of a pair: that of a factory, or else the error of the comparison. -/
def attemptFailure (factories : FactoryState × FactoryState) (error : DbError) : ExperimentAttemptFailure :=
  (factories.1.failure.or factories.2.failure).getD
    { stage := .comparison
      engineRole := none
      repetitionIndex := none
      errorClass := error.errorClass
      message := errorText error }

/-- The counters and the attempts of the pairs so far. The counters stay far below their limit. -/
structure Ledger where
  includedPairs : ℕ
  failedPairs : ℕ
  excludedPairs : ℕ
  attempts : List ExperimentAttemptRecord

def Ledger.empty : Ledger := ⟨0, 0, 0, []⟩

namespace Ledger

variable (ledger : Ledger) (context : ExperimentAttemptContext)

def exclude (reason : String) : Ledger :=
  { ledger with
    excludedPairs := ledger.excludedPairs + 1
    attempts := ledger.attempts ++ [⟨context, .excluded, none, none, some reason⟩] }

def includeReport (report : CounterbalancedExperimentComparisonReport) : Ledger :=
  { ledger with
    includedPairs := ledger.includedPairs + 1
    attempts := ledger.attempts ++ [⟨context, .included, some report, none, none⟩] }

def fail (failure : ExperimentAttemptFailure) : Ledger :=
  { ledger with
    failedPairs := ledger.failedPairs + 1
    attempts := ledger.attempts ++ [⟨context, .failed, none, some failure, none⟩] }

/-- The report of the batch. -/
def report (trace : ExperimentTrace) (pairSeed : UInt64) (requestedPairs : ℕ) :
    CounterbalancedExperimentBatchReport :=
  { trace := trace
    pairSeed := pairSeed
    requestedPairs := requestedPairs
    includedPairs := ledger.includedPairs
    failedPairs := ledger.failedPairs
    excludedPairs := ledger.excludedPairs
    attempts := ledger.attempts }

end Ledger

/-- The check of the reason of an exclusion. -/
def checkReason (pairIndex : ℕ) (reason : String) : Except DbError String := do
  failWhen (trimmed reason = "") (.invalidInput
    s!"experiment batch exclusion for pair {pairIndex} must include a non-empty reason")
  .ok (trimmed reason)

/-- The checks in front of a batch. -/
def validateBatchRequest (trace : ExperimentTrace) (requestedPairs : ℕ) : Except DbError Unit := do
  trace.validate
  failWhen (requestedPairs = 0 ∨ maxExperimentBatchPairs < requestedPairs) (.invalidInput
    s!"experiment batch pairs is {requestedPairs}; expected 1..={maxExperimentBatchPairs}")

section Batch

variable [Candidate σ] [Candidate ρ] (callbacks : Callbacks σ ρ) (trace : ExperimentTrace)

/-- The round of the batch for one pair. -/
def runPair (context : ExperimentAttemptContext) (ledger : Ledger) : Except DbError Ledger :=
  match callbacks.admission context with
  | .exclude reason => do
    let reason ← checkReason context.pairIndex reason
    .ok (ledger.exclude context reason)
  | .admitPair =>
    match compareExperimentTraceCounterbalanced trace context.pairOrder
        (onLeft (callFactory .left callbacks.makeLeft context))
        (onRight (callFactory .right callbacks.makeRight context)) (.fresh, .fresh) with
    | (.ok report, _) => .ok (ledger.includeReport context report)
    | (.error error, factories) => .ok (ledger.fail context (attemptFailure factories error))

/-- Source `run_counterbalanced_experiment_batch`. -/
def runCounterbalancedExperimentBatch (pairSeed : UInt64) (requestedPairs : ℕ) :
    Except DbError CounterbalancedExperimentBatchReport := do
  validateBatchRequest trace requestedPairs
  let ledger ← (List.range requestedPairs).foldlM
    (fun ledger pairIndex => runPair callbacks trace (scheduled pairSeed pairIndex) ledger) .empty
  .ok (ledger.report trace pairSeed requestedPairs)

structure CounterbalancedBatchComparisonFailureEvidence where
  context : ExperimentAttemptContext
  failure : CounterbalancedComparisonFailureEvidence
  deriving DecidableEq

structure CounterbalancedExperimentBatchCapturedReport where
  batch : CounterbalancedExperimentBatchReport
  comparisonFailures : List CounterbalancedBatchComparisonFailureEvidence
  deriving DecidableEq

/-- The round of the captured batch for one pair, with the sidecars so far. -/
def runPairCaptured (context : ExperimentAttemptContext)
    (state : Ledger × List CounterbalancedBatchComparisonFailureEvidence) :
    Except DbError (Ledger × List CounterbalancedBatchComparisonFailureEvidence) :=
  match callbacks.admission context with
  | .exclude reason => do
    let reason ← checkReason context.pairIndex reason
    .ok (state.1.exclude context reason, state.2)
  | .admitPair =>
    match compareExperimentTraceCounterbalancedCaptured trace context.pairOrder
        (onLeft (callFactory .left callbacks.makeLeft context))
        (onRight (callFactory .right callbacks.makeRight context)) (.fresh, .fresh) with
    | (.ok report, _) => .ok (state.1.includeReport context report, state.2)
    | (.error error, factories) => .ok (state.1.fail context (attemptFailure factories error.source),
        match error.comparisonFailure with
        | some evidence => state.2 ++ [⟨context, evidence⟩]
        | none => state.2)

/-- Source `run_counterbalanced_experiment_batch_captured`. -/
def runCounterbalancedExperimentBatchCaptured (pairSeed : UInt64) (requestedPairs : ℕ) :
    Except DbError CounterbalancedExperimentBatchCapturedReport := do
  validateBatchRequest trace requestedPairs
  let (ledger, comparisonFailures) ← (List.range requestedPairs).foldlM
    (fun state pairIndex => runPairCaptured callbacks trace (scheduled pairSeed pairIndex) state)
    (.empty, [])
  .ok ⟨ledger.report trace pairSeed requestedPairs, comparisonFailures⟩

end Batch

/-! ### What becomes of a pair -/

/-- How a pair ends: at a factory, at one of the ordered comparisons, at the comparison of the two
repetitions, or with a report. -/
inductive PairOutcome
  | factory (role : ExperimentEngineRole) (repetition : ℕ) (error : DbError)
  | ordered (evidence : CounterbalancedComparisonFailureEvidence) (error : DbError)
  | repetitions (error : DbError)
  | complete (report : CounterbalancedExperimentComparisonReport)

namespace PairOutcome

/-- The first comparison or the second one, on two fresh engines, and what is done with its report. -/
def ofRepetition [Candidate σ] [Candidate ρ] (callbacks : Callbacks σ ρ) (trace : ExperimentTrace)
    (context : ExperimentAttemptContext) (repetition : ℕ) (order : ExperimentExecutionOrder)
    (completedFirst : Option OrderedExperimentComparisonReport)
    (next : OrderedExperimentComparisonReport → PairOutcome) : PairOutcome :=
  match callbacks.makeLeft ⟨context, repetition⟩ with
  | .error e => factory .left repetition e
  | .ok left =>
    match callbacks.makeRight ⟨context, repetition⟩ with
    | .error e => factory .right repetition e
    | .ok right =>
      match compareExperimentTraceOrdered trace order (left, right) with
      | (.ok report, _) => next report
      | (.error e, left, right) => ordered
        ⟨context.pairOrder, repetition, completedFirst, order, e.errorClass, errorText e,
          OperationalTimingInstrumented.operationalTimingReport left,
          OperationalTimingInstrumented.operationalTimingReport right⟩ e

/-- The two comparisons of a pair. -/
def ofPair [Candidate σ] [Candidate ρ] (callbacks : Callbacks σ ρ) (trace : ExperimentTrace)
    (context : ExperimentAttemptContext) : PairOutcome :=
  ofRepetition callbacks trace context 0 context.pairOrder.first none fun first =>
    ofRepetition callbacks trace context 1 context.pairOrder.second (some first) fun second =>
      match validateRepetitions first second with
      | .error e => repetitions e
      | .ok () => complete ⟨context.pairOrder, first, second⟩

/-- The failure that the ledger attributes to an outcome: a factory's to its engine and repetition, and
every other one to the comparison. -/
def failure : PairOutcome → Option ExperimentAttemptFailure
  | factory role repetition e =>
    some ⟨.engineFactory, some role, some repetition, e.errorClass, errorText e⟩
  | ordered _ e => some ⟨.comparison, none, none, e.errorClass, errorText e⟩
  | repetitions e => some ⟨.comparison, none, none, e.errorClass, errorText e⟩
  | complete _ => none

/-- The evidence of an ordered comparison that failed. -/
def evidence : PairOutcome → Option CounterbalancedComparisonFailureEvidence
  | ordered evidence _ => some evidence
  | _ => none

/-- The record of an outcome. -/
def record (context : ExperimentAttemptContext) : PairOutcome → ExperimentAttemptRecord
  | complete report => ⟨context, .included, some report, none, none⟩
  | outcome => ⟨context, .failed, none, outcome.failure, none⟩

theorem record_of_failure {outcome : PairOutcome} {failure : ExperimentAttemptFailure}
    (h : outcome.failure = some failure) (context : ExperimentAttemptContext) :
    outcome.record context = ⟨context, .failed, none, some failure, none⟩ := by
  cases outcome with
  | complete report => simp [PairOutcome.failure] at h
  | factory role repetition e => simp [record, h]
  | ordered evidence e => simp [record, h]
  | repetitions e => simp [record, h]

end PairOutcome

section Runs

variable [Candidate σ] [Candidate ρ] {callbacks : Callbacks σ ρ} {trace : ExperimentTrace}

/-- A pair that runs ends as its outcome says, and the ledger attributes its failure so. -/
theorem counterbalanced_outcome (hvalid : trace.validate = .ok ()) (context : ExperimentAttemptContext) :
    match compareExperimentTraceCounterbalanced trace context.pairOrder
        (onLeft (callFactory .left callbacks.makeLeft context))
        (onRight (callFactory .right callbacks.makeRight context)) (.fresh, .fresh) with
    | (.ok report, _) => PairOutcome.ofPair callbacks trace context = .complete report
    | (.error error, factories) =>
        (PairOutcome.ofPair callbacks trace context).failure = some (attemptFailure factories error) := by
  unfold compareExperimentTraceCounterbalanced PairOutcome.ofPair PairOutcome.ofRepetition
  rw [hvalid, Prog.ofExcept_ok_bind]
  cases hleft : callbacks.makeLeft ⟨context, 0⟩ with
  | error e =>
    simp [Bind.bind, onLeft, Prog.zoom, callFactory, FactoryState.fresh, hleft,
      PairOutcome.failure, attemptFailure]
  | ok left =>
  cases hright : callbacks.makeRight ⟨context, 0⟩ with
  | error e =>
    simp [Bind.bind, onLeft, onRight, Prog.zoom, callFactory, FactoryState.fresh, hleft, hright,
      PairOutcome.failure, attemptFailure]
  | ok right =>
  cases hfirst : compareExperimentTraceOrdered trace context.pairOrder.first (left, right) with
  | mk result engines =>
  cases result with
  | error e =>
    simp [Bind.bind, onLeft, onRight, Prog.zoom, Prog.ofExcept, callFactory, FactoryState.fresh, hleft,
      hright, hfirst, PairOutcome.failure, attemptFailure]
  | ok first =>
  cases hleft' : callbacks.makeLeft ⟨context, 1⟩ with
  | error e =>
    simp [Bind.bind, onLeft, onRight, Prog.zoom, Prog.ofExcept, callFactory, FactoryState.fresh, hleft,
      hright, hfirst, hleft', PairOutcome.failure, attemptFailure]
  | ok left' =>
  cases hright' : callbacks.makeRight ⟨context, 1⟩ with
  | error e =>
    simp [Bind.bind, onLeft, onRight, Prog.zoom, Prog.ofExcept, callFactory, FactoryState.fresh, hleft,
      hright, hfirst, hleft', hright', PairOutcome.failure, attemptFailure]
  | ok right' =>
  cases hsecond : compareExperimentTraceOrdered trace context.pairOrder.second (left', right') with
  | mk result' engines' =>
  cases result' with
  | error e =>
    simp [Bind.bind, onLeft, onRight, Prog.zoom, Prog.ofExcept, callFactory, FactoryState.fresh, hleft,
      hright, hfirst, hleft', hright', hsecond, PairOutcome.failure, attemptFailure]
  | ok second =>
  cases hrepetitions : validateRepetitions first second with
  | error e =>
    simp [Bind.bind, onLeft, onRight, Prog.zoom, Prog.ofExcept, callFactory, FactoryState.fresh, hleft,
      hright, hfirst, hleft', hright', hsecond, hrepetitions, PairOutcome.failure,
      attemptFailure]
  | ok _ =>
    simp [Bind.bind, Pure.pure, onLeft, onRight, Prog.zoom, Prog.ofExcept, callFactory,
      FactoryState.fresh, hleft, hright, hfirst, hleft', hright', hsecond, hrepetitions]

/-- The captured variant ends the same way, and keeps the evidence of the outcome. -/
theorem counterbalanced_captured_outcome (hvalid : trace.validate = .ok ())
    (context : ExperimentAttemptContext) :
    match compareExperimentTraceCounterbalancedCaptured trace context.pairOrder
        (onLeft (callFactory .left callbacks.makeLeft context))
        (onRight (callFactory .right callbacks.makeRight context)) (.fresh, .fresh) with
    | (.ok report, _) => PairOutcome.ofPair callbacks trace context = .complete report
    | (.error error, factories) =>
        (PairOutcome.ofPair callbacks trace context).failure = some (attemptFailure factories error.source) ∧
        (PairOutcome.ofPair callbacks trace context).evidence = error.comparisonFailure := by
  unfold compareExperimentTraceCounterbalancedCaptured PairOutcome.ofPair PairOutcome.ofRepetition
  unfold compareExperimentTraceOrderedCaptured
  rw [hvalid]
  -- One case for each call that may fail, in the order of the calls.
  cases hleft : callbacks.makeLeft ⟨context, 0⟩ with
  | error e =>
    simp [Bind.bind, mapErr, Except.mapError, Prog.ofExcept, onLeft, Prog.zoom, callFactory,
      FactoryState.fresh, hleft, PairOutcome.failure, PairOutcome.evidence, attemptFailure,
      withoutComparisonEvidence]
  | ok left =>
  cases hright : callbacks.makeRight ⟨context, 0⟩ with
  | error e =>
    simp [Bind.bind, mapErr, Except.mapError, Prog.ofExcept, onLeft, onRight, Prog.zoom, callFactory,
      FactoryState.fresh, hleft, hright, PairOutcome.failure, PairOutcome.evidence, attemptFailure,
      withoutComparisonEvidence]
  | ok right =>
  cases hfirst : compareExperimentTraceOrdered trace context.pairOrder.first (left, right) with
  | mk result engines =>
  cases result with
  | error e =>
    simp [Bind.bind, mapErr, Except.mapError, onLeft, onRight, Prog.zoom, Prog.ofExcept, callFactory,
      FactoryState.fresh, hleft, hright, hfirst, PairOutcome.failure, PairOutcome.evidence,
      attemptFailure, orderedFailure]
  | ok first =>
  cases hleft' : callbacks.makeLeft ⟨context, 1⟩ with
  | error e =>
    simp [Bind.bind, mapErr, Except.mapError, onLeft, onRight, Prog.zoom, Prog.ofExcept, callFactory,
      FactoryState.fresh, hleft, hright, hfirst, hleft', PairOutcome.failure, PairOutcome.evidence,
      attemptFailure, withoutComparisonEvidence]
  | ok left' =>
  cases hright' : callbacks.makeRight ⟨context, 1⟩ with
  | error e =>
    simp [Bind.bind, mapErr, Except.mapError, onLeft, onRight, Prog.zoom, Prog.ofExcept, callFactory,
      FactoryState.fresh, hleft, hright, hfirst, hleft', hright', PairOutcome.failure,
      PairOutcome.evidence, attemptFailure, withoutComparisonEvidence]
  | ok right' =>
  cases hsecond : compareExperimentTraceOrdered trace context.pairOrder.second (left', right') with
  | mk result' engines' =>
  cases result' with
  | error e =>
    simp [Bind.bind, mapErr, Except.mapError, onLeft, onRight, Prog.zoom, Prog.ofExcept, callFactory,
      FactoryState.fresh, hleft, hright, hfirst, hleft', hright', hsecond, PairOutcome.failure,
      PairOutcome.evidence, attemptFailure, orderedFailure]
  | ok second =>
  cases hrepetitions : validateRepetitions first second with
  | error e =>
    simp [Bind.bind, mapErr, Except.mapError, onLeft, onRight, Prog.zoom, Prog.ofExcept, callFactory,
      FactoryState.fresh, hleft, hright, hfirst, hleft', hright', hsecond, hrepetitions,
      PairOutcome.failure, PairOutcome.evidence, attemptFailure, withoutComparisonEvidence]
  | ok _ =>
    simp [Bind.bind, Pure.pure, mapErr, Except.mapError, onLeft, onRight, Prog.zoom, Prog.ofExcept,
      callFactory, FactoryState.fresh, hleft, hright, hfirst, hleft', hright', hsecond, hrepetitions]

/-! ### The ledger of a run -/

/-- The ledger that records these attempts, with each counter at what it counts. -/
def Ledger.ofAttempts (attempts : List ExperimentAttemptRecord) : Ledger :=
  { includedPairs := attempts.countP (·.disposition = .included)
    failedPairs := attempts.countP (·.disposition = .failed)
    excludedPairs := attempts.countP (·.disposition = .excluded)
    attempts := attempts }

variable (callbacks trace) in
/-- The record that a pair leaves in the ledger. -/
def attemptOf (context : ExperimentAttemptContext) : ExperimentAttemptRecord :=
  match callbacks.admission context with
  | .exclude reason => ⟨context, .excluded, none, none, some (trimmed reason)⟩
  | .admitPair => (PairOutcome.ofPair callbacks trace context).record context

variable (callbacks trace) in
/-- The sidecar of a pair, if it has one. -/
def sidecarOf (context : ExperimentAttemptContext) : Option CounterbalancedBatchComparisonFailureEvidence :=
  match callbacks.admission context with
  | .exclude _ => none
  | .admitPair => (PairOutcome.ofPair callbacks trace context).evidence.map (⟨context, ·⟩)

/-- Every exclusion gives a reason. -/
def Callbacks.Reasoned (callbacks : Callbacks σ ρ) (context : ExperimentAttemptContext) : Prop :=
  ∀ reason, callbacks.admission context = .exclude reason → trimmed reason ≠ ""

variable {context : ExperimentAttemptContext} {attempts : List ExperimentAttemptRecord}

/-- One round appends the record of its pair, whatever the ledger holds. -/
theorem runPair_ofAttempts (hvalid : trace.validate = .ok ()) (hreasoned : callbacks.Reasoned context) :
    runPair callbacks trace context (.ofAttempts attempts) =
      .ok (.ofAttempts (attempts ++ [attemptOf callbacks trace context])) := by
  cases hadmission : callbacks.admission context with
  | exclude reason =>
    have hreason := hreasoned reason hadmission
    simp [runPair, attemptOf, hadmission, checkReason, failWhen, hreason, Ledger.exclude, Ledger.ofAttempts]
  | admitPair =>
    have houtcome := @counterbalanced_outcome _ _ _ _ callbacks _ hvalid context
    rw [runPair, hadmission, attemptOf, hadmission]
    dsimp only
    split at houtcome
    · next report factories hrun =>
      simp [houtcome, PairOutcome.record, Ledger.includeReport, Ledger.ofAttempts]
    · next error factories hrun =>
      simp [PairOutcome.record_of_failure houtcome, Ledger.fail, Ledger.ofAttempts]

/-- One round of the captured batch appends the same record, and the sidecar of its pair. -/
theorem runPairCaptured_ofAttempts {sidecars : List CounterbalancedBatchComparisonFailureEvidence}
    (hvalid : trace.validate = .ok ()) (hreasoned : callbacks.Reasoned context) :
    runPairCaptured callbacks trace context (.ofAttempts attempts, sidecars) =
      .ok (.ofAttempts (attempts ++ [attemptOf callbacks trace context]),
        sidecars ++ (sidecarOf callbacks trace context).toList) := by
  cases hadmission : callbacks.admission context with
  | exclude reason =>
    have hreason := hreasoned reason hadmission
    simp [runPairCaptured, attemptOf, sidecarOf, hadmission, checkReason, failWhen, hreason, Ledger.exclude,
      Ledger.ofAttempts]
  | admitPair =>
    have houtcome := @counterbalanced_captured_outcome _ _ _ _ callbacks _ hvalid context
    rw [runPairCaptured, hadmission, attemptOf, hadmission, sidecarOf, hadmission]
    dsimp only
    split at houtcome
    · next report factories hrun =>
      simp [houtcome, PairOutcome.record, PairOutcome.evidence, Ledger.includeReport, Ledger.ofAttempts]
    · next error factories hrun =>
      obtain ⟨hfailure, hevidence⟩ := houtcome
      rw [PairOutcome.record_of_failure hfailure, hevidence]
      cases error.comparisonFailure with
      | none => simp [Ledger.fail, Ledger.ofAttempts]
      | some evidence => simp [Ledger.fail, Ledger.ofAttempts]

/-- The rounds of a batch append the records of their pairs in order. -/
theorem foldlM_runPair (hvalid : trace.validate = .ok ()) {indices : List ℕ}
    {contextOf : ℕ → ExperimentAttemptContext} (hreasoned : ∀ i ∈ indices, callbacks.Reasoned (contextOf i)) :
    indices.foldlM (fun ledger i => runPair callbacks trace (contextOf i) ledger) (.ofAttempts attempts) =
      .ok (.ofAttempts (attempts ++ indices.map fun i => attemptOf callbacks trace (contextOf i))) := by
  induction indices generalizing attempts with
  | nil => simp
  | cons i indices ih =>
    rw [List.foldlM_cons, runPair_ofAttempts hvalid (hreasoned i (by simp)), Checked.ok_bind,
      ih fun j hj => hreasoned j (by simp [hj])]
    simp

theorem foldlM_runPairCaptured {sidecars : List CounterbalancedBatchComparisonFailureEvidence}
    (hvalid : trace.validate = .ok ()) {indices : List ℕ} {contextOf : ℕ → ExperimentAttemptContext}
    (hreasoned : ∀ i ∈ indices, callbacks.Reasoned (contextOf i)) :
    indices.foldlM (fun state i => runPairCaptured callbacks trace (contextOf i) state)
        (.ofAttempts attempts, sidecars) =
      .ok (.ofAttempts (attempts ++ indices.map fun i => attemptOf callbacks trace (contextOf i)),
        sidecars ++ indices.filterMap fun i => sidecarOf callbacks trace (contextOf i)) := by
  induction indices generalizing attempts sidecars with
  | nil => simp
  | cons i indices ih =>
    rw [List.foldlM_cons, runPairCaptured_ofAttempts hvalid (hreasoned i (by simp)), Checked.ok_bind,
      ih fun j hj => hreasoned j (by simp [hj])]
    cases h : sidecarOf callbacks trace (contextOf i) with
    | none => simp [h]
    | some sidecar => simp [h]

/-! ### Batches -/

/-- The factory that an engine's role names. -/
def Callbacks.factoryError (callbacks : Callbacks σ ρ) (context : ExperimentInstanceContext) :
    ExperimentEngineRole → Option DbError
  | .left => match callbacks.makeLeft context with | .error e => some e | .ok _ => none
  | .right => match callbacks.makeRight context with | .error e => some e | .ok _ => none

/-- A pair that ends at a factory ends at one that failed. -/
theorem factoryError_of_ofPair {role : ExperimentEngineRole} {repetition : ℕ} {e : DbError}
    (h : PairOutcome.ofPair callbacks trace context = .factory role repetition e) :
    callbacks.factoryError ⟨context, repetition⟩ role = some e := by
  unfold PairOutcome.ofPair PairOutcome.ofRepetition at h
  split at h
  · next hleft =>
    cases h
    simp [Callbacks.factoryError, hleft]
  split at h
  · next hright =>
    cases h
    simp [Callbacks.factoryError, hright]
  split at h
  · -- the first comparison has a report, and the second one is run
    dsimp only at h
    split at h
    · next hleft =>
      cases h
      simp [Callbacks.factoryError, hleft]
    split at h
    · next hright =>
      cases h
      simp [Callbacks.factoryError, hright]
    split at h
    · split at h <;> cases h
    · cases h
  · cases h

/-- Callbacks that answer alike about one pair. -/
def Callbacks.AgreeOn (callbacks callbacks' : Callbacks σ ρ) (context : ExperimentAttemptContext) : Prop :=
  callbacks.admission context = callbacks'.admission context ∧
    (∀ repetition, callbacks.makeLeft ⟨context, repetition⟩ = callbacks'.makeLeft ⟨context, repetition⟩) ∧
    ∀ repetition, callbacks.makeRight ⟨context, repetition⟩ = callbacks'.makeRight ⟨context, repetition⟩

/-- The record of a pair depends on what the callbacks answer about that pair only. -/
theorem attemptOf_congr {callbacks' : Callbacks σ ρ} (h : callbacks.AgreeOn callbacks' context) :
    attemptOf callbacks trace context = attemptOf callbacks' trace context := by
  obtain ⟨hadmission, hleft, hright⟩ := h
  simp only [attemptOf, hadmission, PairOutcome.ofPair, PairOutcome.ofRepetition, hleft, hright]

/-- The fields that a record fills, and what each failure is attributed to. -/
def Attributed (callbacks : Callbacks σ ρ) (trace : ExperimentTrace) (record : ExperimentAttemptRecord) : Prop :=
  match callbacks.admission record.context with
  | .exclude reason => record = ⟨record.context, .excluded, none, none, some (trimmed reason)⟩
  | .admitPair =>
    match PairOutcome.ofPair callbacks trace record.context with
    | .factory role repetition e =>
      callbacks.factoryError ⟨record.context, repetition⟩ role = some e ∧
        record = ⟨record.context, .failed, none,
          some ⟨.engineFactory, some role, some repetition, e.errorClass, errorText e⟩, none⟩
    | .ordered _ e => record = ⟨record.context, .failed, none,
        some ⟨.comparison, none, none, e.errorClass, errorText e⟩, none⟩
    | .repetitions e => record = ⟨record.context, .failed, none,
        some ⟨.comparison, none, none, e.errorClass, errorText e⟩, none⟩
    | .complete report => record = ⟨record.context, .included, some report, none, none⟩

theorem context_attemptOf : (attemptOf callbacks trace context).context = context := by
  unfold attemptOf
  split
  · rfl
  · cases PairOutcome.ofPair callbacks trace context with
    | factory role repetition e => rfl
    | ordered evidence e => rfl
    | repetitions e => rfl
    | complete report => rfl

theorem attributed_attemptOf : Attributed callbacks trace (attemptOf callbacks trace context) := by
  rw [Attributed, context_attemptOf]
  cases hadmission : callbacks.admission context with
  | exclude reason => simp [attemptOf, hadmission]
  | admitPair =>
    cases houtcome : PairOutcome.ofPair callbacks trace context with
    | factory role repetition e =>
      exact ⟨factoryError_of_ofPair houtcome, by simp [attemptOf, hadmission, houtcome, PairOutcome.record, PairOutcome.failure]⟩
    | ordered evidence e => simp [attemptOf, hadmission, houtcome, PairOutcome.record, PairOutcome.failure]
    | repetitions e => simp [attemptOf, hadmission, houtcome, PairOutcome.record, PairOutcome.failure]
    | complete report => simp [attemptOf, hadmission, houtcome, PairOutcome.record]

/-- Each record of a ledger is counted once. -/
theorem countP_dispositions : ∀ attempts : List ExperimentAttemptRecord,
    attempts.countP (·.disposition = .included) + attempts.countP (·.disposition = .failed) +
      attempts.countP (·.disposition = .excluded) = attempts.length
  | [] => rfl
  | record :: attempts => by
    have ih := countP_dispositions attempts
    simp only [List.countP_cons, List.length_cons]
    cases h : record.disposition with
    | included => simp; omega
    | failed => simp; omega
    | excluded => simp; omega

/-- Neighbouring pairs run in opposite orders. -/
theorem pairOrder_succ (pairSeed : UInt64) (i : ℕ) : pairOrder pairSeed (i + 1) ≠ pairOrder pairSeed i := by
  rcases Nat.mod_two_eq_zero_or_one pairSeed.toNat with hseed | hseed <;>
    rcases Nat.mod_two_eq_zero_or_one i with hi | hi
  all_goals
    have hsucc : (i + 1) % 2 = 1 - i % 2 := by omega
    simp [pairOrder, hsucc, hseed, hi]

theorem validateBatchRequest_ok {requestedPairs : ℕ} (hvalid : trace.validate = .ok ())
    (hpairs : 1 ≤ requestedPairs ∧ requestedPairs ≤ maxExperimentBatchPairs) :
    validateBatchRequest trace requestedPairs = .ok () := by
  have h : ¬(requestedPairs = 0 ∨ maxExperimentBatchPairs < requestedPairs) := by omega
  simp [validateBatchRequest, hvalid, failWhen, h]

/-- The captured batch has the record and the sidecar of each pair. -/
theorem runCounterbalancedExperimentBatchCaptured_eq {pairSeed : UInt64} {requestedPairs : ℕ}
    (hvalid : trace.validate = .ok ()) (hpairs : 1 ≤ requestedPairs ∧ requestedPairs ≤ maxExperimentBatchPairs)
    (hreasoned : ∀ i < requestedPairs, callbacks.Reasoned (scheduled pairSeed i)) :
    runCounterbalancedExperimentBatchCaptured callbacks trace pairSeed requestedPairs = .ok
      { batch := (Ledger.ofAttempts ((List.range requestedPairs).map fun i =>
          attemptOf callbacks trace (scheduled pairSeed i))).report trace pairSeed requestedPairs
        comparisonFailures := (List.range requestedPairs).filterMap fun i =>
          sidecarOf callbacks trace (scheduled pairSeed i) } := by
  have hfold := @foldlM_runPairCaptured _ _ _ _ callbacks trace [] [] hvalid (List.range requestedPairs)
    (scheduled pairSeed) fun i hi => hreasoned i (List.mem_range.mp hi)
  rw [runCounterbalancedExperimentBatchCaptured, validateBatchRequest_ok hvalid hpairs, Checked.ok_bind]
  exact (congrArg (· >>= _) hfold).trans rfl

/-- A batch has one record for each pair, in order and with the scheduled order; its counters count the
records; each record is attributed as its pair ended, whatever the other pairs did; and the captured batch
has the same ledger, with the evidence of each ordered comparison that failed. -/
theorem batch_ledger {pairSeed : UInt64} {requestedPairs : ℕ} (hvalid : trace.validate = .ok ())
    (hpairs : 1 ≤ requestedPairs ∧ requestedPairs ≤ maxExperimentBatchPairs)
    (hreasoned : ∀ i < requestedPairs, callbacks.Reasoned (scheduled pairSeed i)) :
    ∃ batch, runCounterbalancedExperimentBatch callbacks trace pairSeed requestedPairs = .ok batch ∧
      batch.attempts.map (·.context) = (List.range requestedPairs).map (scheduled pairSeed) ∧
      batch.includedPairs + batch.failedPairs + batch.excludedPairs = requestedPairs ∧
      batch.includedPairs = batch.attempts.countP (·.disposition = .included) ∧
      batch.failedPairs = batch.attempts.countP (·.disposition = .failed) ∧
      batch.excludedPairs = batch.attempts.countP (·.disposition = .excluded) ∧
      (∀ record ∈ batch.attempts, Attributed callbacks trace record) ∧
      (∀ callbacks' : Callbacks σ ρ, (∀ i < requestedPairs, callbacks'.Reasoned (scheduled pairSeed i)) →
        ∃ batch', runCounterbalancedExperimentBatch callbacks' trace pairSeed requestedPairs = .ok batch' ∧
          ∀ i < requestedPairs, callbacks.AgreeOn callbacks' (scheduled pairSeed i) →
            batch'.attempts[i]? = batch.attempts[i]?) ∧
      runCounterbalancedExperimentBatchCaptured callbacks trace pairSeed requestedPairs = .ok
        { batch := batch
          comparisonFailures := (List.range requestedPairs).filterMap fun i =>
            sidecarOf callbacks trace (scheduled pairSeed i) } := by
  have hrun : ∀ {callbacks : Callbacks σ ρ}, (∀ i < requestedPairs, callbacks.Reasoned (scheduled pairSeed i)) →
      runCounterbalancedExperimentBatch callbacks trace pairSeed requestedPairs = .ok
        ((Ledger.ofAttempts ((List.range requestedPairs).map fun i =>
          attemptOf callbacks trace (scheduled pairSeed i))).report trace pairSeed requestedPairs) := by
    intro callbacks hreasoned
    have hfold := @foldlM_runPair _ _ _ _ callbacks trace [] hvalid (List.range requestedPairs)
      (scheduled pairSeed) fun i hi => hreasoned i (List.mem_range.mp hi)
    rw [runCounterbalancedExperimentBatch, validateBatchRequest_ok hvalid hpairs, Checked.ok_bind]
    exact (congrArg (· >>= _) hfold).trans rfl
  refine ⟨_, hrun hreasoned, ?_, ?_, rfl, rfl, rfl, ?_, ?_, ?_⟩
  · simp [Ledger.report, Ledger.ofAttempts, context_attemptOf]
  · exact (countP_dispositions _).trans (by simp)
  · intro record hrecord
    obtain ⟨i, -, rfl⟩ := List.mem_map.mp hrecord
    exact attributed_attemptOf
  · intro callbacks' hreasoned'
    refine ⟨_, hrun hreasoned', ?_⟩
    intro i hi hagree
    simp [Ledger.report, Ledger.ofAttempts, hi, attemptOf_congr hagree]
  · exact runCounterbalancedExperimentBatchCaptured_eq hvalid hpairs hreasoned

end Runs

/-- Three pairs on maps in memory: the first is excluded, the factory of the right engine fails in the second
repetition of the second one, and the third one runs. -/
def threePairs : Callbacks (List (Bytes × Bytes)) (List (Bytes × Bytes)) where
  makeLeft _ := .ok []
  makeRight context :=
    if context.attempt.pairIndex = 1 ∧ context.repetitionIndex = 1 then .error (.io "disk") else .ok []
  admission context := if context.pairIndex = 0 then .exclude " warm up " else .admitPair

theorem batch_ledger_threePairs : ∃ trace batch, buildGeneratedTrace oneWrite = .ok trace ∧
    runCounterbalancedExperimentBatch threePairs trace 1 3 = .ok batch ∧
    batch.attempts.map (·.context) =
      [⟨0, .rightThenLeftFirst⟩, ⟨1, .leftThenRightFirst⟩, ⟨2, .rightThenLeftFirst⟩] ∧
    batch.includedPairs + batch.failedPairs + batch.excludedPairs = 3 := by
  have hvalid : ((buildGeneratedTrace oneWrite).toOption.map fun trace => trace.validate.toOption) =
      some (some ()) := by decide +kernel
  cases hbuild : buildGeneratedTrace oneWrite with
  | error e => simp [hbuild, Except.toOption] at hvalid
  | ok trace =>
    have htrace : trace.validate = .ok () := by
      cases h : trace.validate with
      | error e => simp [hbuild, h, Except.toOption] at hvalid
      | ok _ => rfl
    have hreasoned : ∀ i < 3, threePairs.Reasoned (scheduled 1 i) := by
      intro i _ reason hadmission
      simp only [threePairs, scheduled] at hadmission
      split at hadmission
      · cases hadmission
        decide +kernel
      · cases hadmission
    obtain ⟨batch, hrun, hcontexts, hcount, -⟩ := batch_ledger htrace (by decide) hreasoned
    exact ⟨trace, batch, rfl, hrun, hcontexts.trans (by decide +kernel), hcount⟩

end DbLab.Experiment
