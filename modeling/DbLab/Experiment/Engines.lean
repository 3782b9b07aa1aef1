import DbLab.Btree.Conformance
import DbLab.Experiment.Conformance
import DbLab.Lsm.Conformance

/-!
# The tree and the engine in the experiments

A new tree and a new engine stand for the same map, the empty one, so the comparisons of the experiments find no
divergence between them.
-/

namespace DbLab.Experiment

open Btree Checked Lsm Memory

variable {ι κ : Type} {io io' : List Lsm.Io} {engine : LsmEngine} {store : Store} {trace : ExperimentTrace}
  {left right : ExperimentRunReport}

theorem tree_lsm_compatible (ordered : Bool) :
    validateExperimentCompatibility BPlusTree.capabilities LsmEngine.capabilities ordered = .ok () := by
  cases ordered <;> decide

/-- **The tree and the engine never diverge.** A new tree and a new engine, whatever instruments are beside them and
whatever the later accesses meet: when each of them runs a trace on its own, the outcomes of both are those of the
reference engine, and the comparisons of the two, in lockstep and in either order, report what the runs report. -/
theorem tree_and_lsm_agree [Instrument BPlusTree ι] [Instrument Session κ] {m : ι} {n : κ}
    (hnew : LsmEngine.initializeNew ⟨Files.empty, io, []⟩ = (.ok engine, store))
    (hrun : (runExperimentTrace trace (⟨BPlusTree.createNew, m⟩ : Measured BPlusTree ι)).1 = .ok left)
    (hrun' : (runExperimentTrace trace (⟨⟨{ store with io := io' }, engine⟩, n⟩ : Measured Session κ)).1 =
      .ok right) :
    (∃ setup middle final, trace.setupSteps.mapM executeExperimentStep (⟨.empty⟩ : MemoryEngine) =
        (.ok setup, middle) ∧
      trace.measuredSteps.mapM executeExperimentStep middle = (.ok left.outcomes, final)) ∧
    right.outcomes = left.outcomes ∧
    (compareExperimentTrace trace ((⟨BPlusTree.createNew, m⟩ : Measured BPlusTree ι),
      (⟨⟨{ store with io := io' }, engine⟩, n⟩ : Measured Session κ))).1 =
      .ok ⟨trace, left.setupStepsExecuted, left.measuredStepsExecuted, left.outcomes, left.engine, right.engine⟩ ∧
    ∀ order, (compareExperimentTraceOrdered trace order ((⟨BPlusTree.createNew, m⟩ : Measured BPlusTree ι),
      (⟨⟨{ store with io := io' }, engine⟩, n⟩ : Measured Session κ))).1 = .ok ⟨order,
      trace, left.setupStepsExecuted, left.measuredStepsExecuted, left.outcomes, left.engine, right.engine⟩ := by
  obtain ⟨hhas, hsteady⟩ := Prog.wp_ok (Prog.wp_and initializeNew_leaves initializeNew_steady) hnew
  have htree : BPlusTree.createNew.Follows ⟨.empty⟩ := BPlusTree.Tracked.created.follows
  have hlsm : Matches ⟨{ store with io := io' }, engine⟩ ⟨.empty⟩ := ⟨hsteady, hhas⟩
  exact BPlusTree.conforms.agree Lsm.conforms htree hlsm (fun _ _ => rfl) (fun _ _ => rfl)
    (tree_lsm_compatible trace.requiresOrderedRange) hrun hrun'

/-- Instruments that see nothing. -/
instance silent {σ : Type} : Instrument σ Unit where
  observe _ _ _ _ := ()
  resetAmplification _ _ := ()
  amplificationReport _ := pure ⟨⟨⟨0, 0⟩, .btreePageAccess⟩, ⟨⟨0, 0⟩, .btreePageAccess⟩, ⟨0, 0⟩, ⟨0, 0⟩⟩
  resetOperationalTiming _ _ := ()
  setOperationalStepIndex _ _ _ := ()
  operationalTimingReport _ _ := ⟨[], [], [], [], [], []⟩

/-- The reports of one write in a new tree and in an engine. -/
def oneWriteReports (engine : LsmEngine) (store : Store) :
    Except DbError (ExperimentRunReport × ExperimentRunReport) := do
  let trace ← buildGeneratedTrace oneWrite
  let left ← (runExperimentTrace trace (⟨BPlusTree.createNew, ()⟩ : Measured BPlusTree Unit)).1
  let right ← (runExperimentTrace trace (⟨⟨{ store with io := [] }, engine⟩, ()⟩ : Measured Session Unit)).1
  pure (left, right)

theorem tree_and_lsm_agree_one_write : ∃ engine store trace, ∃ left right : ExperimentRunReport,
    LsmEngine.initializeNew ⟨Files.empty, [], []⟩ = (.ok engine, store) ∧
    (runExperimentTrace trace (⟨BPlusTree.createNew, ()⟩ : Measured BPlusTree Unit)).1 = .ok left ∧
    right.outcomes = left.outcomes := by
  have hreports : ((LsmEngine.initializeNew ⟨Files.empty, [], []⟩).1 >>= fun engine =>
      oneWriteReports engine (LsmEngine.initializeNew ⟨Files.empty, [], []⟩).2).isOk = true := by decide +kernel
  obtain ⟨engine, store, hnew⟩ := exists_initializeNew
  rw [hnew, ok_bind] at hreports
  cases hresult : oneWriteReports engine store with
  | error e =>
    rw [hresult] at hreports
    cases hreports
  | ok reports =>
    obtain ⟨trace, -, hruns⟩ := bind_eq_ok.1 hresult
    obtain ⟨left, hleft, hruns⟩ := bind_eq_ok.1 hruns
    obtain ⟨right, hright, -⟩ := bind_eq_ok.1 hruns
    exact ⟨engine, store, trace, left, right, hnew, hleft, (tree_and_lsm_agree hnew hleft hright).2.1⟩

end DbLab.Experiment
