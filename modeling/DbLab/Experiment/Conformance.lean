import DbLab.Experiment.Differential

/-!
# Experiments on conforming engines

The instrumentation of an engine stands beside it: it sees the states before and behind every call, and it changes
nothing that the engine answers. Two engines that conform to the reference engine have the outcomes of the reference
engine on every trace that they run to the end, and so no comparison of the two reports that they diverge.
-/

namespace DbLab.Experiment

open Memory

variable {σ ρ τ ι κ α : Type}

/-! ### Instrumentation -/

/-- The calls of an engine. -/
inductive Call
  | put (key value : Bytes)
  | get (key : Bytes)
  | delete (key : Bytes)
  | rangeScan (start : Bytes) (stop : Option Bytes) (limit : ℕ)
  | reopen

/-- What measures an engine. A call is observed with the states before and behind it. -/
class Instrument (σ ι : Type) where
  observe : Call → σ → σ → ι → ι
  resetAmplification : σ → ι → ι
  amplificationReport : σ → Prog ι DbError AmplificationReport
  resetOperationalTiming : σ → ι → ι
  setOperationalStepIndex : σ → Option ℕ → ι → ι
  operationalTimingReport : σ → ι → OperationalTimingReport

/-- An engine with its instrumentation. -/
structure Measured (σ ι : Type) where
  engine : σ
  instrument : ι

namespace Measured

/-- A call of the engine, which the instrumentation observes. -/
def call [Instrument σ ι] (c : Call) (x : Prog σ DbError α) : Prog (Measured σ ι) DbError α := fun s =>
  let (result, engine) := x s.engine
  (result, ⟨engine, Instrument.observe c s.engine engine s.instrument⟩)

instance [KvEngine σ] [Instrument σ ι] : Candidate (Measured σ ι) where
  capabilities s := KvEngine.capabilities s.engine
  put key value := call (.put key value) (KvEngine.put key value)
  get key := call (.get key) (KvEngine.get key)
  delete key := call (.delete key) (KvEngine.delete key)
  rangeScan start stop limit := call (.rangeScan start stop limit) (KvEngine.rangeScan start stop limit)
  reopen := call .reopen KvEngine.reopen
  resetAmplification s := { s with instrument := Instrument.resetAmplification s.engine s.instrument }
  amplificationReport := fun s =>
    let (result, instrument) := Instrument.amplificationReport s.engine s.instrument
    (result, ⟨s.engine, instrument⟩)
  resetOperationalTiming s := { s with instrument := Instrument.resetOperationalTiming s.engine s.instrument }
  setOperationalStepIndex stepIndex s :=
    { s with instrument := Instrument.setOperationalStepIndex s.engine stepIndex s.instrument }
  operationalTimingReport s := Instrument.operationalTimingReport s.engine s.instrument

/-- A relation of the engine, whatever its instrumentation is. -/
def Beside (R : σ → τ → Prop) (s : Measured σ ι) (t : τ) : Prop := R s.engine t

theorem call_refines [Instrument σ ι] {R : σ → τ → Prop} {x : Prog σ DbError α} {y : Prog τ DbError α} (c : Call)
    (h : Prog.Refines R x y) : Prog.Refines (Beside R) (call c x : Prog (Measured σ ι) DbError α) y := by
  intro s t hrel a s' hrun
  rcases hx : x s.engine with ⟨result, engine⟩
  have hcall : (call c x : Prog (Measured σ ι) DbError α) s =
      (result, ⟨engine, Instrument.observe c s.engine engine s.instrument⟩) := by
    rw [call, hx]
  rw [hcall, Prod.mk.injEq] at hrun
  obtain ⟨rfl, rfl⟩ := hrun
  exact h s.engine t hrel a engine hx

theorem conforms [KvEngine σ] [KvEngine τ] [Instrument σ ι] {R : σ → τ → Prop} (h : Conforms R) :
    Conforms (Beside R : Measured σ ι → τ → Prop) where
  put key value := call_refines _ (h.put key value)
  get key := call_refines _ (h.get key)
  delete key := call_refines _ (h.delete key)
  rangeScan start stop limit := call_refines _ (h.rangeScan start stop limit)
  reopen := call_refines _ h.reopen

end Measured

/-! ### One engine -/

theorem Conforms.executeExperimentStep [KvEngine σ] [KvEngine τ] {R : σ → τ → Prop} (h : Conforms R)
    (step : ExperimentStep) :
    Prog.Refines R (Experiment.executeExperimentStep step : Prog σ DbError ExperimentOutcome)
      (Experiment.executeExperimentStep step : Prog τ DbError ExperimentOutcome) := by
  refine (Prog.refines_ofExcept _).bind fun _ => ?_
  cases step with
  | put key value => exact (h.put key value).map _
  | get key => exact (h.get key).map _
  | delete key => exact (h.delete key).map _
  | rangeScan start stop limit => exact (h.rangeScan start stop limit.val).map _
  | reopen => exact h.reopen.bind fun _ => Prog.refines_pure _

variable [KvEngine σ] [KvEngine τ] [Instrument σ ι] {R : σ → τ → Prop} {phase : Phase} {s s' : Measured σ ι} {t : τ}
  {steps : List ExperimentStep} {i : ℕ} {outcomes : List ExperimentOutcome} {outcome : ExperimentOutcome}
  {step : ExperimentStep} {trace : ExperimentTrace} {capabilities : EngineCapabilities}
  {setup measured : List ExperimentOutcome} {evidence : ExperimentEngineEvidence}

/-- A step of a phase that ends well is one of the reference engine. -/
theorem Conforms.execute (h : Conforms R) (hrel : R s.engine t)
    (hrun : phase.execute step i s = (.ok outcome, s')) :
    ∃ t', Experiment.executeExperimentStep step t = (.ok outcome, t') ∧ R s'.engine t' := by
  have hstep := (Measured.conforms h (ι := ι)).executeExperimentStep step
  cases phase with
  | setup => exact hstep s t hrel outcome s' hrun
  | measured =>
    rw [Phase.execute, executeMeasuredExperimentStep] at hrun
    obtain ⟨⟨⟩, s₁, hindex, hset⟩ := Prog.bind_eq_ok.1 hrun
    obtain ⟨-, rfl⟩ := ofExcept_eq_ok.1 hindex
    obtain ⟨⟨⟩, s₂, hmodify, hbody⟩ := Prog.bind_eq_ok.1 hset
    cases hmodify
    rcases hexecute : Experiment.executeExperimentStep step
      (OperationalTimingInstrumented.setOperationalStepIndex (some i) s₁) with ⟨result, s₃⟩
    dsimp only at hbody
    rw [hexecute, Prod.mk.injEq] at hbody
    obtain ⟨rfl, rfl⟩ := hbody
    exact hstep (OperationalTimingInstrumented.setOperationalStepIndex (some i) s₁) t hrel outcome s₃ hexecute

theorem Runs.reference (h : Conforms R) (hrel : R s.engine t) (hruns : Runs phase steps i s outcomes s') :
    ∃ t', steps.mapM Experiment.executeExperimentStep t = (.ok outcomes, t') ∧ R s'.engine t' := by
  induction steps generalizing i s t outcomes with
  | nil =>
    obtain ⟨rfl, rfl⟩ := hruns
    exact ⟨t, rfl, hrel⟩
  | cons step steps ih =>
    obtain ⟨outcome, rest, middle, hstep, hrest, rfl⟩ := hruns
    obtain ⟨t₁, ht₁, hrel₁⟩ := h.execute hrel hstep
    obtain ⟨t₂, ht₂, hrel₂⟩ := ih hrel₁ hrest
    refine ⟨t₂, ?_, hrel₂⟩
    rw [List.mapM_cons, Prog.bind_ok ht₁, Prog.bind_ok ht₂]
    rfl

/-- **The outcomes of a run are those of the reference engine.** -/
theorem Solo.reference (h : Conforms R) (hrel : R s.engine t)
    (hsolo : Solo trace capabilities s setup measured evidence) :
    ∃ t₁ t₂, trace.setupSteps.mapM Experiment.executeExperimentStep t = (.ok setup, t₁) ∧
      trace.measuredSteps.mapM Experiment.executeExperimentStep t₁ = (.ok measured, t₂) := by
  obtain ⟨s₁, s₂, s₃, hsetup, hmeasured, -⟩ := hsolo
  obtain ⟨t₁, ht₁, hrel₁⟩ := hsetup.reference h hrel
  obtain ⟨t₂, ht₂, -⟩ := hmeasured.reference h (s := resetState s₁) hrel₁
  exact ⟨t₁, t₂, ht₁, ht₂⟩

theorem solo_of_run {report : ExperimentRunReport} (hrun : (runExperimentTrace trace s).1 = .ok report) :
    trace.validate = .ok () ∧ report.trace = trace ∧ report.setupStepsExecuted = trace.setupSteps.length ∧
      report.measuredStepsExecuted = report.outcomes.length ∧
      ∃ setup, Solo trace (KvEngine.capabilities s) s setup report.outcomes report.engine ∧ Fits .setup 0 setup ∧
        Fits .measured 0 report.outcomes := by
  obtain ⟨s', hrun⟩ := fst_eq_ok.1 hrun
  rw [runExperimentTrace] at hrun
  obtain ⟨⟨⟩, s₁, hcheck, hrest⟩ := Prog.bind_eq_ok.1 hrun
  obtain ⟨hvalid, rfl⟩ := ofExcept_eq_ok.1 hcheck
  rw [Prog.get_bind] at hrest
  obtain ⟨⟨⟩, s₂, hordered, hphases⟩ := Prog.bind_eq_ok.1 hrest
  obtain ⟨-, rfl⟩ := ofExcept_eq_ok.1 hordered
  obtain ⟨setup, s₃, hfirst, hbehind⟩ := Prog.bind_eq_ok.1 hphases
  obtain ⟨hsetup, hfits⟩ := runSteps_eq_ok.1 hfirst
  rw [reset_bind] at hbehind
  obtain ⟨measured, s₄, hsecond, hend⟩ := Prog.bind_eq_ok.1 hbehind
  obtain ⟨hmeasured, hfits'⟩ := runSteps_eq_ok.1 hsecond
  obtain ⟨evidence, s₅, hevidence, hreport⟩ := Prog.bind_eq_ok.1 hend
  cases hreport
  exact ⟨hvalid, rfl, rfl, rfl, setup, ⟨s₃, s₄, _, hsetup, hmeasured, hevidence⟩, hfits, hfits'⟩

/-! ### Two engines -/

variable [KvEngine ρ] [Instrument ρ κ] {R' : ρ → τ → Prop} {r : Measured ρ κ}
  {left right : ExperimentRunReport}

/-- **Two engines that conform to one reference engine do not diverge.** When each of them runs a trace on its own,
the outcomes of both are those of the reference engine, and the comparisons of the two, in lockstep and in either
order, report what the runs report. -/
theorem Conforms.agree (h : Conforms R) (h' : Conforms R') (hrel : R s.engine t) (hrel' : R' r.engine t)
    (hleft : ∀ s s' : σ, KvEngine.capabilities s = KvEngine.capabilities s')
    (hright : ∀ s s' : ρ, KvEngine.capabilities s = KvEngine.capabilities s')
    (hcompatible : validateExperimentCompatibility (KvEngine.capabilities s.engine) (KvEngine.capabilities r.engine)
      trace.requiresOrderedRange = .ok ())
    (hrun : (runExperimentTrace trace s).1 = .ok left) (hrun' : (runExperimentTrace trace r).1 = .ok right) :
    (∃ setup t₁ t₂, trace.setupSteps.mapM Experiment.executeExperimentStep t = (.ok setup, t₁) ∧
      trace.measuredSteps.mapM Experiment.executeExperimentStep t₁ = (.ok left.outcomes, t₂)) ∧
    right.outcomes = left.outcomes ∧
    (compareExperimentTrace trace (s, r)).1 =
      .ok ⟨trace, left.setupStepsExecuted, left.measuredStepsExecuted, left.outcomes, left.engine, right.engine⟩ ∧
    ∀ order, (compareExperimentTraceOrdered trace order (s, r)).1 = .ok ⟨order,
      trace, left.setupStepsExecuted, left.measuredStepsExecuted, left.outcomes, left.engine, right.engine⟩ := by
  obtain ⟨hvalid, -, hsteps, hmeasured, setup, hsolo, hfits, hfits'⟩ := solo_of_run hrun
  obtain ⟨-, -, -, -, setup', hsolo', -, -⟩ := solo_of_run hrun'
  obtain ⟨t₁, t₂, ht₁, ht₂⟩ := hsolo.reference h hrel
  -- the other engine has the same reference engine
  obtain ⟨t₁', t₂', ht₁', ht₂'⟩ := hsolo'.reference h' hrel'
  rw [ht₁, Prod.mk.injEq, Except.ok.injEq] at ht₁'
  obtain ⟨rfl, rfl⟩ := ht₁'
  rw [ht₂, Prod.mk.injEq, Except.ok.injEq] at ht₂'
  obtain ⟨houtcomes, -⟩ := ht₂'
  rw [← houtcomes] at hsolo'
  have hjoint : Joint trace s r ⟨trace, left.setupStepsExecuted, left.measuredStepsExecuted, left.outcomes,
      left.engine, right.engine⟩ :=
    ⟨hvalid, hcompatible, setup, left.outcomes, left.engine, right.engine, hsolo, hsolo', hfits, hfits',
      by rw [hsteps, hmeasured]⟩
  refine ⟨⟨setup, t₁, t₂, ht₁, ht₂⟩, houtcomes.symm, compareExperimentTrace_eq_ok.2 hjoint, fun order => ?_⟩
  refine (compareExperimentTraceOrdered_eq_ok (fun s s' => hleft s.engine s'.engine)
    fun r r' => hright r.engine r'.engine).2 ⟨rfl, hjoint⟩

end DbLab.Experiment
