import DbLab.Experiment.Agreement
import DbLab.Experiment.Shrink
import DbLab.Lib.Refinement
import DbLab.Memory.Engine

/-!
# The differential driver

`compareWorkload` runs two engines side by side and stops at the first step at which one of them fails or their
outcomes differ. Its verdict says exactly what the two engines do on their own. An engine whose calls refine those
of the reference engine is never reported to differ from it.
-/

namespace DbLab.Experiment

open Memory

/-! ### Running a workload -/

inductive Outcome
  | put (previous : Option Bytes)
  | get (value : Option Bytes)
  | delete (previous : Option Bytes)
  | reopened
  deriving DecidableEq

variable {σ ρ : Type}

/-- Source `execute_step`. -/
def executeStep [KvEngine σ] : WorkloadStep → Prog σ DbError Outcome
  | .put key value => .put <$> KvEngine.put key value
  | .get key => .get <$> KvEngine.get key
  | .delete key => .delete <$> KvEngine.delete key
  | .reopen => do
    KvEngine.reopen
    pure .reopened

/-- Source `execute_workload`. -/
def executeWorkload [KvEngine σ] (workload : Workload) : Prog σ DbError (List Outcome) := do
  Prog.ofExcept workload.validate
  workload.steps.mapM executeStep

/-! ### Comparing two engines -/

structure DifferentialReport where
  stepsChecked : ℕ
  deriving DecidableEq

inductive DifferentialError
  | invalidWorkload (source : DbError)
  | incompatibleCapabilities (reason : String)
  | leftEngine (stepIndex : ℕ) (source : DbError)
  | rightEngine (stepIndex : ℕ) (source : DbError)
  | mismatch (stepIndex : ℕ) (step : WorkloadStep) (left right : Outcome)
  deriving DecidableEq

/-! The variants as the messages print them. -/

def LogicalModel.debug : LogicalModel → String
  | keyValue => "KeyValue"

def ConcurrencyMode.debug : ConcurrencyMode → String
  | callerSerialized => "CallerSerialized"

def DistributionMode.debug : DistributionMode → String
  | standalone => "Standalone"

/-- The checks of `compare_workload` on the two engines. -/
def checkComparable (left right : EngineCapabilities) : Except DifferentialError Unit :=
  if left.logicalModel ≠ right.logicalModel then
    .error (.incompatibleCapabilities
      s!"logical models differ: left={left.logicalModel.debug}, right={right.logicalModel.debug}")
  else if left.concurrency ≠ right.concurrency ∨ left.distribution ≠ right.distribution then
    .error (.incompatibleCapabilities (s!"execution contracts differ: " ++
      s!"left=({left.concurrency.debug}, {left.distribution.debug}), " ++
      s!"right=({right.concurrency.debug}, {right.distribution.debug})"))
  else if left.maxKeyBytes ≠ right.maxKeyBytes ∨ left.maxValueBytes ≠ right.maxValueBytes then
    .error (.incompatibleCapabilities (s!"common size limits differ: " ++
      s!"left=({left.maxKeyBytes} key, {left.maxValueBytes} value), " ++
      s!"right=({right.maxKeyBytes} key, {right.maxValueBytes} value)"))
  else .ok ()

/-- The loop of `compare_workload`. -/
def compareWorkloadSteps [KvEngine σ] [KvEngine ρ] :
    List WorkloadStep → ℕ → Prog (σ × ρ) DifferentialError Unit
  | [], _ => pure ()
  | step :: steps, stepIndex => do
    let left ← (onLeft (executeStep step)).mapError (.leftEngine stepIndex)
    let right ← (onRight (executeStep step)).mapError (.rightEngine stepIndex)
    if left ≠ right then Prog.throw (.mismatch stepIndex step left right)
    else compareWorkloadSteps steps (stepIndex + 1)

/-- Source `compare_workload`. -/
def compareWorkload [KvEngine σ] [KvEngine ρ] (workload : Workload) :
    Prog (σ × ρ) DifferentialError DifferentialReport := do
  (Prog.ofExcept workload.validate).mapError .invalidWorkload
  let s ← Prog.get
  Prog.ofExcept (checkComparable (KvEngine.capabilities s.1) (KvEngine.capabilities s.2))
  compareWorkloadSteps workload.steps 0
  pure ⟨workload.steps.length⟩

/-! ### The verdict -/

variable {l l' : σ} {r r' : ρ}

theorem onLeft_run {α : Type} {x : Prog σ DbError α} {result : Except DbError α} (h : x l = (result, l')) :
    onLeft x (l, r) = (result, (l', r)) := by
  rw [onLeft, Prog.zoom]
  simp only [h]

theorem onRight_run {α : Type} {x : Prog ρ DbError α} {result : Except DbError α} (h : x r = (result, r')) :
    onRight x (l, r) = (result, (l, r')) := by
  rw [onRight, Prog.zoom]
  simp only [h]

variable [KvEngine σ] [KvEngine ρ] {step : WorkloadStep} {steps before after : List WorkloadStep}
  {i : ℕ} {outcomes : List Outcome} {left right : Outcome} {err : DifferentialError} {workload : Workload}

/-- Both engines run the steps with the same outcomes. -/
def Agree (steps : List WorkloadStep) (l : σ) (r : ρ) (outcomes : List Outcome) (l' : σ) (r' : ρ) : Prop :=
  steps.mapM executeStep l = (.ok outcomes, l') ∧ steps.mapM executeStep r = (.ok outcomes, r')

/-- What goes wrong in one step. -/
def Fault (stepIndex : ℕ) (step : WorkloadStep) (l : σ) (r : ρ) : DifferentialError → Prop
  | .leftEngine i source => i = stepIndex ∧ (executeStep step l).1 = .error source
  | .rightEngine i source => i = stepIndex ∧ (∃ left, (executeStep step l).1 = .ok left) ∧
      (executeStep step r).1 = .error source
  | .mismatch i s left right => i = stepIndex ∧ s = step ∧ (executeStep step l).1 = .ok left ∧
      (executeStep step r).1 = .ok right ∧ left ≠ right
  | _ => False

/-- The engines agree up to a step in which something goes wrong. -/
def Differs (steps : List WorkloadStep) (i : ℕ) (l : σ) (r : ρ) (err : DifferentialError) : Prop :=
  ∃ before step after outcomes l' r', steps = before ++ step :: after ∧ Agree before l r outcomes l' r' ∧
    Fault (i + before.length) step l' r' err

theorem mapM_cons_ok {s s' : σ} : (step :: steps).mapM executeStep s = (.ok outcomes, s') ↔
    ∃ outcome rest middle, outcomes = outcome :: rest ∧ executeStep step s = (.ok outcome, middle) ∧
      steps.mapM executeStep middle = (.ok rest, s') := by
  rw [List.mapM_cons, Prog.bind_eq_ok]
  constructor
  · rintro ⟨outcome, middle, hstep, hrest⟩
    obtain ⟨rest, last, hrest, hresult⟩ := Prog.bind_eq_ok.1 hrest
    cases hresult
    exact ⟨outcome, rest, middle, rfl, hstep, hrest⟩
  · rintro ⟨outcome, rest, middle, rfl, hstep, hrest⟩
    exact ⟨outcome, middle, hstep, Prog.bind_eq_ok.2 ⟨rest, s', hrest, rfl⟩⟩

theorem agree_nil : Agree [] l r [] l r := ⟨rfl, rfl⟩

theorem agree_cons {l'' : σ} {r'' : ρ} {outcome : Outcome} (hl : executeStep step l = (.ok outcome, l'))
    (hr : executeStep step r = (.ok outcome, r')) (h : Agree steps l' r' outcomes l'' r'') :
    Agree (step :: steps) l r (outcome :: outcomes) l'' r'' :=
  ⟨mapM_cons_ok.2 ⟨_, _, _, rfl, hl, h.1⟩, mapM_cons_ok.2 ⟨_, _, _, rfl, hr, h.2⟩⟩

/-! What one step of the loop does. -/

theorem compareWorkloadSteps_left {source : DbError} (h : executeStep step l = (.error source, l')) :
    compareWorkloadSteps (step :: steps) i (l, r) = (.error (.leftEngine i source), (l', r)) := by
  rw [compareWorkloadSteps]
  exact Prog.bind_error (Prog.mapError_error (onLeft_run h))

theorem compareWorkloadSteps_right {source : DbError} (hl : executeStep step l = (.ok left, l'))
    (hr : executeStep step r = (.error source, r')) :
    compareWorkloadSteps (step :: steps) i (l, r) = (.error (.rightEngine i source), (l', r')) := by
  rw [compareWorkloadSteps, Prog.bind_ok (Prog.mapError_ok (onLeft_run hl))]
  exact Prog.bind_error (Prog.mapError_error (onRight_run hr))

theorem compareWorkloadSteps_mismatch (hl : executeStep step l = (.ok left, l'))
    (hr : executeStep step r = (.ok right, r')) (h : left ≠ right) :
    compareWorkloadSteps (step :: steps) i (l, r) = (.error (.mismatch i step left right), (l', r')) := by
  rw [compareWorkloadSteps, Prog.bind_ok (Prog.mapError_ok (onLeft_run hl)),
    Prog.bind_ok (Prog.mapError_ok (onRight_run hr)), if_pos h]
  rfl

theorem compareWorkloadSteps_equal (hl : executeStep step l = (.ok left, l'))
    (hr : executeStep step r = (.ok left, r')) :
    compareWorkloadSteps (step :: steps) i (l, r) = compareWorkloadSteps steps (i + 1) (l', r') := by
  rw [compareWorkloadSteps, Prog.bind_ok (Prog.mapError_ok (onLeft_run hl)),
    Prog.bind_ok (Prog.mapError_ok (onRight_run hr)), if_neg (not_not.2 rfl)]

theorem Fault.found (h : Fault i step l r err) : (compareWorkloadSteps (step :: steps) i (l, r)).1 = .error err := by
  cases err with
  | invalidWorkload source => exact h.elim
  | incompatibleCapabilities reason => exact h.elim
  | leftEngine index source =>
    obtain ⟨rfl, hl⟩ := h
    rw [compareWorkloadSteps_left (Prod.ext hl rfl)]
  | rightEngine index source =>
    obtain ⟨rfl, ⟨left, hl⟩, hr⟩ := h
    rw [compareWorkloadSteps_right (Prod.ext hl rfl) (Prod.ext hr rfl)]
  | mismatch index s left right =>
    obtain ⟨rfl, rfl, hl, hr, hne⟩ := h
    rw [compareWorkloadSteps_mismatch (Prod.ext hl rfl) (Prod.ext hr rfl) hne]

/-- The loop passes over steps on which the engines agree. -/
theorem Agree.passes (h : Agree before l r outcomes l' r') :
    compareWorkloadSteps (before ++ after) i (l, r) = compareWorkloadSteps after (i + before.length) (l', r') := by
  induction before generalizing i l r outcomes with
  | nil =>
    obtain ⟨hl, hr⟩ := h
    cases hl
    cases hr
    rfl
  | cons step before ih =>
    obtain ⟨outcome, rest, middle, rfl, hl, hrestl⟩ := mapM_cons_ok.1 h.1
    obtain ⟨outcome', rest', middle', heq, hr, hrestr⟩ := mapM_cons_ok.1 h.2
    obtain ⟨rfl, rfl⟩ := List.cons.inj heq
    rw [List.cons_append, compareWorkloadSteps_equal hl hr, ih ⟨hrestl, hrestr⟩, List.length_cons]
    congr 1
    omega

/-- The engines agree on all steps, or something goes wrong in one of them. -/
theorem agree_or_differs (steps : List WorkloadStep) (i : ℕ) (l : σ) (r : ρ) :
    (∃ outcomes l' r', Agree steps l r outcomes l' r') ∨ ∃ err, Differs steps i l r err := by
  induction steps generalizing i l r with
  | nil => exact .inl ⟨[], l, r, agree_nil⟩
  | cons step steps ih =>
    have here : ∀ err, Fault i step l r err → ∃ err, Differs (step :: steps) i l r err := fun err h =>
      ⟨err, [], step, steps, [], l, r, rfl, agree_nil, h⟩
    rcases hl : executeStep step l with ⟨source | left, l'⟩
    · exact .inr (here (.leftEngine i source) ⟨rfl, by rw [hl]⟩)
    rcases hr : executeStep step r with ⟨source | right, r'⟩
    · exact .inr (here (.rightEngine i source) ⟨rfl, ⟨left, by rw [hl]⟩, by rw [hr]⟩)
    by_cases h : left = right
    · subst h
      rcases ih (i + 1) l' r' with ⟨outcomes, l'', r'', hagree⟩ |
          ⟨err, before, s, after, outcomes, l'', r'', rfl, hagree, hfault⟩
      · exact .inl ⟨_, _, _, agree_cons hl hr hagree⟩
      · refine .inr ⟨err, step :: before, s, after, _, _, _, rfl, agree_cons hl hr hagree, ?_⟩
        rwa [List.length_cons, Nat.add_comm before.length, ← Nat.add_assoc]
    · exact .inr (here (.mismatch i step left right) ⟨rfl, rfl, by rw [hl], by rw [hr], h⟩)

theorem Differs.found (h : Differs steps i l r err) : (compareWorkloadSteps steps i (l, r)).1 = .error err := by
  obtain ⟨before, step, after, outcomes, l', r', rfl, hagree, hfault⟩ := h
  rw [hagree.passes]
  exact hfault.found

theorem compareWorkloadSteps_eq_ok {u : Unit} {p : σ × ρ} : compareWorkloadSteps steps i (l, r) = (.ok u, p) ↔
    ∃ outcomes, Agree steps l r outcomes p.1 p.2 := by
  have passes : ∀ outcomes l' r', Agree steps l r outcomes l' r' →
      compareWorkloadSteps steps i (l, r) = (.ok (), (l', r')) := fun outcomes l' r' h => by
    rw [← List.append_nil steps, h.passes]
    rfl
  constructor
  · intro hrun
    rcases agree_or_differs steps i l r with ⟨outcomes, l', r', hagree⟩ | ⟨err, hdiffers⟩
    · rw [passes _ _ _ hagree] at hrun
      cases hrun
      exact ⟨outcomes, hagree⟩
    · have herr := hdiffers.found
      rw [hrun] at herr
      cases herr
  · rintro ⟨outcomes, hagree⟩
    exact passes _ _ _ hagree

/-- What the driver reports as an error: the first of its checks that fails, and then the first step in which
something goes wrong. -/
def Reports (workload : Workload) (l : σ) (r : ρ) : DifferentialError → Prop
  | .invalidWorkload source => workload.validate = .error source
  | .incompatibleCapabilities reason => workload.validate = .ok () ∧
      checkComparable (KvEngine.capabilities l) (KvEngine.capabilities r) = .error (.incompatibleCapabilities reason)
  | err => workload.validate = .ok () ∧
      checkComparable (KvEngine.capabilities l) (KvEngine.capabilities r) = .ok () ∧ Differs workload.steps 0 l r err

theorem checkComparable_eq_error {left right : EngineCapabilities} (h : checkComparable left right = .error err) :
    ∃ reason, err = .incompatibleCapabilities reason := by
  rw [checkComparable] at h
  split_ifs at h <;> exact ⟨_, (Except.error.inj h).symm⟩

theorem compareWorkload_invalid {source : DbError} (h : workload.validate = .error source) :
    compareWorkload workload (l, r) = (.error (.invalidWorkload source), (l, r)) := by
  rw [compareWorkload, h]
  rfl

theorem compareWorkload_valid (hvalid : workload.validate = .ok ()) : compareWorkload workload (l, r) =
    (Prog.ofExcept (checkComparable (KvEngine.capabilities l) (KvEngine.capabilities r)) >>= fun _ =>
      compareWorkloadSteps workload.steps 0 >>= fun _ => pure ⟨workload.steps.length⟩) (l, r) := by
  rw [compareWorkload, hvalid]
  rfl

theorem compareWorkload_incomparable (hvalid : workload.validate = .ok ())
    (h : checkComparable (KvEngine.capabilities l) (KvEngine.capabilities r) = .error err) :
    compareWorkload workload (l, r) = (.error err, (l, r)) := by
  rw [compareWorkload_valid hvalid, h, Prog.ofExcept_error_bind]

theorem compareWorkload_run (hvalid : workload.validate = .ok ())
    (h : checkComparable (KvEngine.capabilities l) (KvEngine.capabilities r) = .ok ()) :
    compareWorkload workload (l, r) =
      (compareWorkloadSteps workload.steps 0 >>= fun _ => pure ⟨workload.steps.length⟩) (l, r) := by
  rw [compareWorkload_valid hvalid, h, Prog.ofExcept_ok_bind]

theorem compareWorkload_agree {p : σ × ρ} (hvalid : workload.validate = .ok ())
    (h : checkComparable (KvEngine.capabilities l) (KvEngine.capabilities r) = .ok ())
    (hagree : Agree workload.steps l r outcomes p.1 p.2) :
    compareWorkload workload (l, r) = (.ok ⟨workload.steps.length⟩, p) := by
  have hsteps : compareWorkloadSteps workload.steps 0 (l, r) = (.ok (), p) :=
    compareWorkloadSteps_eq_ok.2 ⟨outcomes, hagree⟩
  rw [compareWorkload_run hvalid h, Prog.bind_ok hsteps]
  rfl

theorem compareWorkload_differs (hvalid : workload.validate = .ok ())
    (h : checkComparable (KvEngine.capabilities l) (KvEngine.capabilities r) = .ok ())
    (hdiffers : Differs workload.steps 0 l r err) : (compareWorkload workload (l, r)).1 = .error err := by
  rw [compareWorkload_run hvalid h, Prog.bind_error (Prod.ext hdiffers.found rfl)]

theorem reports_iff (hvalid : workload.validate = .ok ())
    (h : checkComparable (KvEngine.capabilities l) (KvEngine.capabilities r) = .ok ()) :
    Reports workload l r err ↔ Differs workload.steps 0 l r err := by
  cases err with
  | invalidWorkload source => simp [Reports, Differs, Fault, hvalid]
  | incompatibleCapabilities reason => simp [Reports, Differs, Fault, h]
  | leftEngine index source => simp [Reports, hvalid, h]
  | rightEngine index source => simp [Reports, hvalid, h]
  | mismatch index step left right => simp [Reports, hvalid, h]

theorem executeWorkload_run (hvalid : workload.validate = .ok ()) :
    executeWorkload workload l = workload.steps.mapM executeStep l := by
  rw [executeWorkload, hvalid]
  rfl

/-- **The verdict is exact.** The driver accepts exactly the valid workloads that both engines, each on its own, run
with the same outcomes, and each error is exactly what it says. -/
theorem compareWorkload_exact (workload : Workload) (l : σ) (r : ρ) :
    (∀ report, (compareWorkload workload (l, r)).1 = .ok report ↔
      checkComparable (KvEngine.capabilities l) (KvEngine.capabilities r) = .ok () ∧
        report = ⟨workload.steps.length⟩ ∧
        ∃ outcomes, (executeWorkload workload l).1 = .ok outcomes ∧ (executeWorkload workload r).1 = .ok outcomes) ∧
    ∀ err, (compareWorkload workload (l, r)).1 = .error err ↔ Reports workload l r err := by
  rcases hvalid : workload.validate with source | ⟨⟨⟩⟩
  · have hrun : executeWorkload workload l = (.error source, l) := by
      rw [executeWorkload, hvalid]
      rfl
    rw [compareWorkload_invalid hvalid, hrun]
    refine ⟨fun report => by simp, fun err => ?_⟩
    cases err <;> simp [Reports, hvalid]
  rcases hcomparable : checkComparable (KvEngine.capabilities l) (KvEngine.capabilities r) with found | ⟨⟨⟩⟩
  · obtain ⟨reason, rfl⟩ := checkComparable_eq_error hcomparable
    rw [compareWorkload_incomparable hvalid hcomparable]
    refine ⟨fun report => by simp, fun err => ?_⟩
    cases err <;> simp [Reports, hvalid, hcomparable]
  · rw [executeWorkload_run hvalid, executeWorkload_run hvalid]
    rcases agree_or_differs workload.steps 0 l r with ⟨outcomes, l', r', hagree⟩ | ⟨found, hdiffers⟩
    · have hrun := compareWorkload_agree (p := (l', r')) hvalid hcomparable hagree
      rw [hrun, hagree.1, hagree.2]
      refine ⟨fun report => by simp [eq_comm], fun err => ?_⟩
      rw [reports_iff hvalid hcomparable]
      refine iff_of_false (by simp) fun hdiffers => ?_
      have herr := compareWorkload_differs hvalid hcomparable hdiffers
      rw [hrun] at herr
      cases herr
    · have hfound := compareWorkload_differs hvalid hcomparable hdiffers
      refine ⟨fun report => ?_, fun err => ?_⟩
      · rw [hfound]
        refine iff_of_false (by simp) ?_
        rintro ⟨-, -, outcomes, hl, hr⟩
        rw [compareWorkload_agree (p := (_, _)) hvalid hcomparable ⟨Prod.ext hl rfl, Prod.ext hr rfl⟩] at hfound
        cases hfound
      · rw [reports_iff hvalid hcomparable]
        refine ⟨fun h => ?_, compareWorkload_differs hvalid hcomparable⟩
        rw [hfound] at h
        rwa [← Except.error.inj h]

/-! ### Against the reference engine -/

/-- The calls of one engine refine those of another. -/
structure Conforms (R : σ → ρ → Prop) : Prop where
  put : ∀ key value, Prog.Refines R (KvEngine.put key value : Prog σ DbError (Option Bytes))
    (KvEngine.put key value : Prog ρ DbError (Option Bytes))
  get : ∀ key, Prog.Refines R (KvEngine.get key : Prog σ DbError (Option Bytes))
    (KvEngine.get key : Prog ρ DbError (Option Bytes))
  delete : ∀ key, Prog.Refines R (KvEngine.delete key : Prog σ DbError (Option Bytes))
    (KvEngine.delete key : Prog ρ DbError (Option Bytes))
  rangeScan : ∀ start stop limit, Prog.Refines R
    (KvEngine.rangeScan start stop limit : Prog σ DbError (List (Bytes × Bytes)))
    (KvEngine.rangeScan start stop limit : Prog ρ DbError (List (Bytes × Bytes)))
  reopen : Prog.Refines R (KvEngine.reopen : Prog σ DbError Unit) (KvEngine.reopen : Prog ρ DbError Unit)

theorem Conforms.executeStep {R : σ → ρ → Prop} (h : Conforms R) (step : WorkloadStep) :
    Prog.Refines R (Experiment.executeStep step : Prog σ DbError Outcome)
      (Experiment.executeStep step : Prog ρ DbError Outcome) := by
  cases step with
  | put key value => exact (h.put key value).map _
  | get key => exact (h.get key).map _
  | delete key => exact (h.delete key).map _
  | reopen => exact h.reopen.bind fun _ => Prog.refines_pure _

/-- The reference engine runs every valid step. -/
theorem executeStep_reference (engine : MemoryEngine) (h : Workload.validateStep step = .ok ()) :
    ∃ outcome engine', executeStep step engine = (.ok outcome, engine') := by
  cases step with
  | put key value => exact ⟨_, _, Prog.bind_ok (MemoryEngine.put_run h)⟩
  | get key => exact ⟨_, _, Prog.bind_ok (MemoryEngine.get_run h)⟩
  | delete key => exact ⟨_, _, Prog.bind_ok (MemoryEngine.delete_run h)⟩
  | reopen => exact ⟨_, _, rfl⟩

/-- The only differences from the reference engine are errors of the other one. -/
theorem Conforms.differs {R : ρ → MemoryEngine → Prop} (h : Conforms R) {engine : MemoryEngine} (hrel : R r engine)
    (hvalid : ∀ step ∈ steps, Workload.validateStep step = .ok ()) (hdiffers : Differs steps i engine r err) :
    ∃ index source, err = .rightEngine index source := by
  obtain ⟨before, step, after, outcomes, engine', r', rfl, ⟨hl, hr⟩, hfault⟩ := hdiffers
  obtain ⟨reached, hreached, hrel'⟩ := Prog.refines_mapM h.executeStep before r engine hrel outcomes r' hr
  rw [hl, Prod.mk.injEq] at hreached
  obtain ⟨-, rfl⟩ := hreached
  cases err with
  | invalidWorkload source => exact hfault.elim
  | incompatibleCapabilities reason => exact hfault.elim
  | leftEngine index source =>
    obtain ⟨outcome, engine'', hstep⟩ := executeStep_reference engine' (hvalid step (by simp))
    have herr := hfault.2
    rw [hstep] at herr
    cases herr
  | rightEngine index source => exact ⟨index, source, rfl⟩
  | mismatch index s left right =>
    obtain ⟨-, -, hleft, hright, hne⟩ := hfault
    obtain ⟨engine'', hstep, -⟩ := h.executeStep step r' engine' hrel' right _ (Prod.ext hright rfl)
    rw [hstep] at hleft
    exact absurd (Except.ok.inj hleft).symm hne

theorem validateStep_of_mem (h : workload.validate = .ok ()) :
    ∀ step ∈ workload.steps, Workload.validateStep step = .ok () := by
  obtain ⟨⟨⟩, -, h⟩ := Checked.bind_eq_ok.1 h
  obtain ⟨⟨⟩, -, h⟩ := Checked.bind_eq_ok.1 h
  exact Checked.forM_eq_ok.1 h

theorem length_le_of_validate (h : workload.validate = .ok ()) : workload.steps.length ≤ maxWorkloadSteps := by
  obtain ⟨⟨⟩, -, h⟩ := Checked.bind_eq_ok.1 h
  obtain ⟨⟨⟩, hlength, -⟩ := Checked.bind_eq_ok.1 h
  exact not_lt.1 (failWhen_eq_ok.1 hlength)

/-- A run of the engine that ends well is accepted. -/
theorem Conforms.accepts {R : ρ → MemoryEngine → Prop} (h : Conforms R) {engine : MemoryEngine} (hrel : R r engine)
    (hvalid : workload.validate = .ok ())
    (hcomparable : checkComparable MemoryEngine.capabilities (KvEngine.capabilities r) = .ok ())
    (hrun : workload.steps.mapM Experiment.executeStep r = (.ok outcomes, r')) :
    (compareWorkload workload (engine, r)).1 = .ok ⟨workload.steps.length⟩ := by
  obtain ⟨engine', hreference, -⟩ := Prog.refines_mapM h.executeStep workload.steps r engine hrel outcomes r' hrun
  rw [compareWorkload_agree (p := (engine', r')) hvalid hcomparable ⟨hreference, hrun⟩]

/-- **An engine that conforms to the reference engine is never reported to differ from it.** The driver runs the
workload to its end, or stops at an error of the engine. -/
theorem Conforms.verdict {R : ρ → MemoryEngine → Prop} (h : Conforms R) {engine : MemoryEngine} (hrel : R r engine)
    (hvalid : workload.validate = .ok ())
    (hcomparable : checkComparable MemoryEngine.capabilities (KvEngine.capabilities r) = .ok ()) :
    (compareWorkload workload (engine, r)).1 = .ok ⟨workload.steps.length⟩ ∨
      ∃ index source, (compareWorkload workload (engine, r)).1 = .error (.rightEngine index source) := by
  rcases agree_or_differs workload.steps 0 engine r with ⟨outcomes, engine', r', hagree⟩ | ⟨err, hdiffers⟩
  · left
    rw [compareWorkload_agree (p := (engine', r')) hvalid hcomparable hagree]
  · obtain ⟨index, source, rfl⟩ := h.differs hrel (validateStep_of_mem hvalid) hdiffers
    exact .inr ⟨index, source, compareWorkload_differs hvalid hcomparable hdiffers⟩

end DbLab.Experiment
