import DbLab.Btree.Tree
import DbLab.Experiment.OperationalTiming

/-!
# Operational timing of the B+ tree

A reopen takes over the report of the handle that it replaces. A reopen that fails leaves its sample in the handle
that stays, which is poisoned.
-/

namespace DbLab.Btree

open Timing

/-- Source `common_error`. -/
def commonError : BtreeError → DbError
  | .invalidInput reason => .invalidInput reason
  | .io reason => .io reason
  | .corruption offset reason => .corruption offset reason
  | .unsupportedVersion found supported => .unsupportedVersion "B+ tree page file" found supported
  | .poisoned => .poisoned

namespace BPlusTree

/-- Source `reopen`: what is found under the path is opened. The number of the page accesses of an opened tree and
the clock are read where the source reads them. -/
def reopen (found : Except BtreeError PageFile) (pageAccesses durationNs : ℕ) : TimedProg BPlusTree Unit := fun t =>
  match found >>= openFile with
  | .ok reopened =>
    (.ok (),
      { t with
        engine := reopened
        timing := t.timing.pushReopen ⟨t.stepIndex, durationNs,
          ⟨.btreePageAccess, pageAccesses, saturate (pageAccesses * pageSize)⟩⟩ })
  | .error error =>
    (.error (commonError error),
      { t with
        engine := { t.engine with pager := { t.engine.pager with poisoned := true } }
        timing := t.timing.pushReopenFailure
          ⟨t.stepIndex, durationNs, none, (commonError error).errorClass⟩ })

/-- The states of a timed tree: its operations, reopens, resets and changes of the step, and whatever else happens
to the tree, its faults and those of its file among it. -/
inductive TimedRun : Timed BPlusTree → Prop
  | start (s : BPlusTree) : TimedRun ⟨s, .empty, none, []⟩
  | put {t : Timed BPlusTree} (key value : Bytes) : TimedRun t → TimedRun { t with engine := (put key value t.engine).2 }
  | delete {t : Timed BPlusTree} (key : Bytes) : TimedRun t → TimedRun { t with engine := (delete key t.engine).2 }
  | other {t : Timed BPlusTree} (s : BPlusTree) : TimedRun t → TimedRun { t with engine := s }
  | reopen {t : Timed BPlusTree} (found : Except BtreeError PageFile) (pageAccesses durationNs : ℕ) : TimedRun t →
      TimedRun (witnessed .reopen durationNs (reopen found pageAccesses durationNs) t).2
  | reset {t : Timed BPlusTree} : TimedRun t → TimedRun t.reset
  | setStepIndex {t : Timed BPlusTree} (stepIndex : Option ℕ) : TimedRun t → TimedRun (t.setStepIndex stepIndex)

/-- A reopen adds one sample, of the kind of what it returns. -/
theorem reopen_matches {t : Timed BPlusTree} {found : Except BtreeError PageFile} {pageAccesses durationNs : ℕ}
    (h : Matches t.happened t.timing) :
    Matches (witnessed .reopen durationNs (reopen found pageAccesses durationNs) t).2.happened
      (witnessed .reopen durationNs (reopen found pageAccesses durationNs) t).2.timing := by
  cases hopen : found >>= openFile with
  | ok reopened =>
    simp only [witnessed, reopen, hopen]
    exact h.pushReopen ⟨_, _, _⟩
  | error error =>
    simp only [witnessed, reopen, hopen]
    exact h.pushReopenFailure ⟨_, _, _, _⟩

/-- **Every run of a tree** has one sample for each reopen. -/
theorem TimedRun.matches {t : Timed BPlusTree} (h : TimedRun t) : Matches t.happened t.timing := by
  induction h with
  | start => exact matches_empty
  | put _ _ _ ih => exact ih
  | delete _ _ ih => exact ih
  | other _ _ ih => exact ih
  | reopen _ _ _ _ ih => exact reopen_matches ih
  | reset _ _ => exact matches_empty
  | setStepIndex _ _ ih => exact ih

end BPlusTree

end DbLab.Btree
