import DbLab.Experiment.Differential
import DbLab.Lsm.Acknowledged

/-!
# The engine conforms to the reference engine

Every call of a usable engine that succeeds is answered as the reference engine with the same values answers it, and
leaves the two with the same values again, whatever its accesses meet. The differential driver therefore never
reports a mismatch of this engine.
-/

namespace DbLab.Lsm

open Record LsmEngine Memory

namespace LsmEngine

def capabilities : Experiment.EngineCapabilities where
  name := "lsm-level1-tombstone-gc-v5"
  logicalModel := .keyValue
  storageArchitecture := .lsmTree
  concurrency := .callerSerialized
  persistence := .persistent
  crashRecovery := .writeAheadLogReplay
  distribution := .standalone
  orderedRangeScan := true
  maxKeyBytes := maxKeyBytes
  maxValueBytes := maxValueBytes

end LsmEngine

instance : Experiment.KvEngine Session where
  capabilities _ := LsmEngine.capabilities
  put := LsmEngine.put
  get := LsmEngine.get
  delete := LsmEngine.delete
  rangeScan := LsmEngine.rangeScan
  reopen := LsmEngine.reopen

variable {base values : SortedMap Bytes Bytes} {files : Files} {history : History} {e : LsmEngine} {s s' : Session}
  {key value : Bytes}

/-- A usable session with the values of a reference engine. -/
def Matches (s : Session) (engine : MemoryEngine) : Prop := At (Serving engine.values) s

theorem Serving.ensureUsable (h : At (Serving values) s) : LsmEngine.ensureUsable s = (.ok (), s) := by
  rw [ensureUsable_run, if_neg h.usable]

/-- The part that the mutations share. -/
theorem Serving.mutation (op : Op) {previous : Option Bytes} (h : At (Serving values) s)
    (hrun : (do
      LsmEngine.ensureUsable
      let e ← engine
      persistAndApply op.kind op.key (written op)
      pure (e.currentValue op.key)) s = (.ok previous, s')) :
    previous = values.find op.key ∧ At (Serving (op.mutate values)) s' := by
  rw [Prog.bind_ok h.ensureUsable] at hrun
  obtain ⟨⟨⟩, s₁, hpersist, hresult⟩ := Prog.bind_eq_ok.1 (show
    (persistAndApply op.kind op.key (written op) >>= fun _ => pure (s.engine.currentValue op.key)) s =
      (.ok previous, s') from hrun)
  cases hresult
  exact ⟨h.2 op.key, Prog.wp_ok (persistAndApply_serving op h) hpersist⟩

theorem put_refines (key value : Bytes) :
    Prog.Refines Matches (LsmEngine.put key value) (MemoryEngine.put key value) := by
  intro s m h previous s' hrun
  obtain ⟨⟨⟩, s₁, hcheck, hbody⟩ := Prog.bind_eq_ok.1 hrun
  obtain ⟨hvalid, rfl⟩ := Experiment.ofExcept_eq_ok.1 hcheck
  obtain ⟨rfl, hafter⟩ := Serving.mutation (.put key value) h hbody
  exact ⟨_, MemoryEngine.put_run hvalid, hafter⟩

theorem get_refines (key : Bytes) : Prog.Refines Matches (LsmEngine.get key) (MemoryEngine.get key) := by
  intro s m h found s' hrun
  obtain ⟨⟨⟩, s₁, hcheck, hbody⟩ := Prog.bind_eq_ok.1 hrun
  obtain ⟨hvalid, rfl⟩ := Experiment.ofExcept_eq_ok.1 hcheck
  rw [Prog.bind_ok (Serving.ensureUsable h)] at hbody
  cases hbody
  rw [h.2 key]
  exact ⟨m, MemoryEngine.get_run hvalid, h⟩

theorem delete_refines (key : Bytes) : Prog.Refines Matches (LsmEngine.delete key) (MemoryEngine.delete key) := by
  intro s m h previous s' hrun
  obtain ⟨⟨⟩, s₁, hcheck, hbody⟩ := Prog.bind_eq_ok.1 hrun
  obtain ⟨hvalid, rfl⟩ := Experiment.ofExcept_eq_ok.1 hcheck
  obtain ⟨rfl, hafter⟩ := Serving.mutation (.delete key) h hbody
  exact ⟨_, MemoryEngine.delete_run hvalid, hafter⟩

theorem reopen_refines : Prog.Refines Matches LsmEngine.reopen MemoryEngine.reopen := by
  intro s m h u s' hrun
  refine ⟨m, rfl, ?_⟩
  rw [LsmEngine.reopen] at hrun
  rcases hopen : openExisting s.store with ⟨err | e, store⟩
  · rw [hopen] at hrun
    cases hrun
  · rw [hopen] at hrun
    obtain rfl : s' = ⟨store, e⟩ := (Prod.mk.inj hrun).2.symm
    exact ⟨Prog.wp_ok (openExisting_steady h.1.layered.directory h.1.ids.ledger) hopen,
      Prog.wp_ok (openExisting_leaves h.1.layered.directory h.shows) hopen⟩

theorem rangeScan_refines (start : Bytes) (stop : Option Bytes) (limit : ℕ) :
    Prog.Refines Matches (LsmEngine.rangeScan start stop limit) (MemoryEngine.rangeScan start stop limit) := by
  intro s m h rows s' hrun
  have hanswer := h.answers.2 start stop limit
  obtain ⟨⟨⟩, s₁, hcheck, hbody⟩ := Prog.bind_eq_ok.1 hrun
  obtain ⟨hvalid, rfl⟩ := Experiment.ofExcept_eq_ok.1 hcheck
  rw [validateRangeScan_eq] at hvalid
  rw [hrun, MemoryEngine.rangeScan_run hvalid] at hanswer
  rw [Except.ok.inj hanswer]
  refine ⟨m, MemoryEngine.rangeScan_run hvalid, ?_⟩
  have hsame : s' = s₁ := by
    rw [Prog.bind_ok (Serving.ensureUsable h)] at hbody
    by_cases hempty : limit = 0 ∨ stop = some start
    · obtain ⟨e, s₂, hengine, hrows⟩ := Prog.bind_eq_ok.1 hbody
      cases hengine
      rw [if_pos hempty] at hrows
      cases hrows
      rfl
    · obtain ⟨e, s₂, hengine, hrows⟩ := Prog.bind_eq_ok.1 hbody
      cases hengine
      rw [if_neg hempty] at hrows
      cases hrows
      rfl
  rwa [hsame]

theorem conforms : Experiment.Conforms Matches :=
  ⟨put_refines, get_refines, delete_refines, rangeScan_refines, reopen_refines⟩

/-- What the driver says of the reference engine with the values and a session. -/
def NoMismatch (values : SortedMap Bytes Bytes) (s : Session) : Prop :=
  ∀ workload : Experiment.Workload, workload.validate = .ok () →
    (Experiment.compareWorkload workload ((⟨values⟩ : MemoryEngine), s)).1 = .ok ⟨workload.steps.length⟩ ∨
      ∃ index source, (Experiment.compareWorkload workload ((⟨values⟩ : MemoryEngine), s)).1 =
        .error (.rightEngine index source)

theorem comparable : Experiment.checkComparable MemoryEngine.capabilities LsmEngine.capabilities = .ok () := rfl

theorem Serving.noMismatch (h : At (Serving values) s) : NoMismatch values s := fun _ hvalid =>
  conforms.verdict (show Matches s ⟨values⟩ from h) hvalid comparable

/-- **The driver finds no mismatch.** At every point of a run, with crashes and failed calls behind it, one map
explains the outcomes so far, and no valid workload tells a usable handle, or whatever is opened on the directory,
from the reference engine with this map: the comparison ends well or at an error of the engine. -/
theorem differential_finds_no_mismatch {handle : Option LsmEngine} {outcomes : List Outcome}
    (h : Served base files history handle outcomes) :
    ∃ values, Explains base outcomes values ∧
      (∀ e ∈ handle, e.poisoned = false → ∀ io, NoMismatch values ⟨⟨files, io, history⟩, e⟩) ∧
      ∀ io e store, openExisting ⟨files, io, history⟩ = (.ok e, store) → NoMismatch values ⟨store, e⟩ := by
  obtain ⟨values, hexplains, haccounts⟩ := h.accounts
  refine ⟨values, hexplains, fun e he husable io => ?_, fun io e store hopen => ?_⟩
  · exact Serving.noMismatch (h.handle_serving haccounts he husable)
  · exact Serving.noMismatch (h.opened_serving haccounts.1 hopen)

theorem differential_finds_no_mismatch_torn : ∃ files history,
    (openExisting ⟨files, [], history⟩).1.isOk = true ∧
    ∃ values, Explains .empty [.acknowledged (.put [97] [49]), .failed (.put [97] [50])] values ∧
      ∀ io e store, openExisting ⟨files, io, history⟩ = (.ok e, store) → NoMismatch values ⟨store, e⟩ := by
  obtain ⟨files, history, hopen, hserved⟩ := exists_torn_put
  obtain ⟨values, hexplains, -, hnone⟩ := differential_finds_no_mismatch hserved
  exact ⟨files, history, hopen, values, hexplains, hnone⟩

end DbLab.Lsm
