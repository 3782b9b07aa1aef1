import DbLab.Btree.Timing
import DbLab.Lsm.Timing

/-!
# Operational sampling

The two engines with timing reports. The tree records every reopen; the LSM engine records every compaction that is
triggered and every reopen of a directory that opens.
-/

namespace DbLab.Timing

open Btree Lsm

/-- **Operational sampling.** In every run of a tree the report has one sample for each reopen, of the kind of what it
returned and in the order in which they happened. In every run of an LSM engine it has one for each reopen and each
triggered compaction exactly if every reopen since the last reset found a directory that opens. -/
theorem operational_sampling (tree : Timed BPlusTree) (engine : Timed Session) (lost : Bool) :
    (BPlusTree.TimedRun tree → Matches tree.happened tree.timing) ∧
      (LsmEngine.TimedRun engine lost → (Matches engine.happened engine.timing ↔ lost = false)) :=
  ⟨fun hrun => hrun.matches, fun hrun => hrun.matches_iff⟩

/-- A directory without files. -/
def emptied (e : LsmEngine) : Session := ⟨⟨.empty, [], []⟩, e⟩

theorem opens_emptied (e : LsmEngine) : LsmEngine.opens (emptied e) = false := by
  have hclosed : (LsmEngine.openExisting ⟨.empty, [], []⟩).1.toBool = false := by decide +kernel
  exact hclosed

/-- A new engine loses its files and is reopened. -/
theorem operational_sampling_lost : ∃ e store, LsmEngine.initializeNew ⟨.empty, [], []⟩ = (.ok e, store) ∧
    ∃ t, LsmEngine.TimedRun t true ∧ ¬ Matches t.happened t.timing := by
  have hok : (LsmEngine.initializeNew ⟨.empty, [], []⟩).1.toBool = true := by decide +kernel
  rcases hnew : LsmEngine.initializeNew ⟨.empty, [], []⟩ with ⟨error | e, store⟩
  · rw [hnew] at hok
    cases hok
  have hrun := LsmEngine.TimedRun.reopen 0 1 (.other (emptied e) (.start ⟨store, e⟩))
  rw [opens_emptied] at hrun
  refine ⟨e, store, rfl, _, hrun, fun hmatches => ?_⟩
  exact absurd (hrun.matches_iff.1 hmatches) (by simp)

end DbLab.Timing
