import DbLab.Experiment.Compare
import DbLab.Lib.Sorted

/-!
# The drivers agree

`Solo` says what one engine makes of a trace on its own: its outcomes in both phases and its evidence.
Engines share no state, so each driver succeeds exactly when both engines run to the end with the same
outcomes inside the payload bounds, and otherwise the first difference decides.
-/

namespace DbLab.Experiment

variable {σ ρ : Type} {s s' : σ} {l l' : σ} {r r' : ρ}

/-! ### Programs that succeed -/

theorem ofExcept_eq_ok {α : Type} {x : Except DbError α} {a : α} :
    Prog.ofExcept x s = (.ok a, s') ↔ x = .ok a ∧ s' = s := by
  show ((x, s) : Except DbError α × σ) = (.ok a, s') ↔ _
  rw [Prod.mk.injEq, @eq_comm _ s]

theorem pure_eq_ok {α : Type} {a b : α} : (pure a : Prog σ DbError α) s = (.ok b, s') ↔ b = a ∧ s' = s := by
  show ((.ok a, s) : Except DbError α × σ) = (.ok b, s') ↔ _
  simp [eq_comm]

theorem onLeft_eq_ok {α : Type} {x : Prog σ DbError α} {a : α} {p : σ × ρ} :
    onLeft x (l, r) = (.ok a, p) ↔ ∃ l', x l = (.ok a, l') ∧ p = (l', r) := by
  rw [onLeft, Prog.zoom]
  rcases x l with ⟨result, l'⟩
  constructor
  · intro h
    obtain ⟨rfl, rfl⟩ := Prod.mk.inj h
    exact ⟨l', rfl, rfl⟩
  · rintro ⟨l'', h, rfl⟩
    obtain ⟨rfl, rfl⟩ := Prod.mk.inj h
    rfl

theorem onRight_eq_ok {α : Type} {x : Prog ρ DbError α} {a : α} {p : σ × ρ} :
    onRight x (l, r) = (.ok a, p) ↔ ∃ r', x r = (.ok a, r') ∧ p = (l, r') := by
  rw [onRight, Prog.zoom]
  rcases x r with ⟨result, r'⟩
  constructor
  · intro h
    obtain ⟨rfl, rfl⟩ := Prod.mk.inj h
    exact ⟨r', rfl, rfl⟩
  · rintro ⟨r'', h, rfl⟩
    obtain ⟨rfl, rfl⟩ := Prod.mk.inj h
    rfl

theorem onLeft_bind_eq_ok {α β : Type} {x : Prog σ DbError α} {f : α → Prog (σ × ρ) DbError β} {b : β}
    {p : σ × ρ} : (onLeft x >>= f) (l, r) = (.ok b, p) ↔ ∃ a l', x l = (.ok a, l') ∧ f a (l', r) = (.ok b, p) := by
  simp only [Prog.bind_eq_ok, onLeft_eq_ok]
  constructor
  · rintro ⟨a, _, ⟨l', hx, rfl⟩, hf⟩
    exact ⟨a, l', hx, hf⟩
  · rintro ⟨a, l', hx, hf⟩
    exact ⟨a, _, ⟨l', hx, rfl⟩, hf⟩

theorem onRight_bind_eq_ok {α β : Type} {x : Prog ρ DbError α} {f : α → Prog (σ × ρ) DbError β} {b : β}
    {p : σ × ρ} : (onRight x >>= f) (l, r) = (.ok b, p) ↔ ∃ a r', x r = (.ok a, r') ∧ f a (l, r') = (.ok b, p) := by
  simp only [Prog.bind_eq_ok, onRight_eq_ok]
  constructor
  · rintro ⟨a, _, ⟨r', hx, rfl⟩, hf⟩
    exact ⟨a, r', hx, hf⟩
  · rintro ⟨a, r', hx, hf⟩
    exact ⟨a, _, ⟨r', hx, rfl⟩, hf⟩

theorem fst_eq_ok {α : Type} {x : Except DbError α × σ} {a : α} : x.1 = .ok a ↔ ∃ s', x = (.ok a, s') := by
  rcases x with ⟨result, s'⟩
  constructor
  · rintro rfl
    exact ⟨s', rfl⟩
  · rintro ⟨_, h⟩
    cases h
    rfl

variable [Candidate σ] [Candidate ρ] {phase : Phase} {steps : List ExperimentStep} {i total k : ℕ}
  {outcomes expected outcomes' : List ExperimentOutcome} {left right capabilities : EngineCapabilities}
  {trace : ExperimentTrace} {evidence : ExperimentEngineEvidence}

/-! ### One engine on its own -/

/-- The steps of a phase, run by one engine. -/
def Runs (phase : Phase) : List ExperimentStep → ℕ → σ → List ExperimentOutcome → σ → Prop
  | [], _, s, outcomes, s' => outcomes = [] ∧ s' = s
  | step :: steps, i, s, outcomes, s' => ∃ outcome rest middle,
    phase.execute step i s = (.ok outcome, middle) ∧ Runs phase steps (i + 1) middle rest s' ∧
      outcomes = outcome :: rest

/-- The outcomes of a phase stay inside the payload bound. -/
def Fits (phase : Phase) : ℕ → List ExperimentOutcome → Prop
  | _, [] => True
  | total, outcome :: outcomes => ∃ next,
    checkedAddOutcomePayload total outcome phase.kind = .ok next ∧ Fits phase next outcomes

theorem Runs.length_eq (h : Runs phase steps i s outcomes s') : outcomes.length = steps.length := by
  induction steps generalizing i s outcomes with
  | nil => rw [h.1]; rfl
  | cons step steps ih =>
    obtain ⟨outcome, rest, middle, -, hrest, rfl⟩ := h
    rw [List.length_cons, List.length_cons, ih hrest]

/-- A deterministic engine has one run. -/
theorem Runs.unique {s'' : σ} (h : Runs phase steps i s outcomes s') (h' : Runs phase steps i s outcomes' s'') :
    outcomes = outcomes' ∧ s' = s'' := by
  induction steps generalizing i s outcomes outcomes' with
  | nil => exact ⟨h.1.trans h'.1.symm, h.2.trans h'.2.symm⟩
  | cons step steps ih =>
    obtain ⟨outcome, rest, middle, hstep, hrest, rfl⟩ := h
    obtain ⟨outcome', rest', middle', hstep', hrest', rfl⟩ := h'
    rw [hstep] at hstep'
    obtain ⟨houtcome, rfl⟩ := Prod.mk.inj hstep'
    obtain rfl := Except.ok.inj houtcome
    obtain ⟨rfl, rfl⟩ := ih hrest hrest'
    exact ⟨rfl, rfl⟩

/-! ### The loops -/

theorem runSteps_eq_ok : runSteps phase steps i total s = (.ok outcomes, s') ↔
    Runs phase steps i s outcomes s' ∧ Fits phase total outcomes := by
  induction steps generalizing i total s s' outcomes with
  | nil =>
    rw [runSteps, pure_eq_ok, Runs]
    constructor
    · rintro ⟨rfl, rfl⟩
      exact ⟨⟨rfl, rfl⟩, trivial⟩
    · exact fun h => h.1
  | cons step steps ih =>
    simp only [runSteps, Prog.bind_eq_ok, ofExcept_eq_ok, pure_eq_ok, ih, Runs]
    constructor
    · rintro ⟨outcome, middle, hstep, next, _, ⟨hnext, rfl⟩, rest, last, ⟨hrest, hfits⟩, rfl, rfl⟩
      exact ⟨⟨outcome, rest, _, hstep, hrest, rfl⟩, next, hnext, hfits⟩
    · rintro ⟨⟨outcome, rest, middle, hstep, hrest, rfl⟩, next, hnext, hfits⟩
      exact ⟨outcome, middle, hstep, next, _, ⟨hnext, rfl⟩, rest, s', ⟨hrest, hfits⟩, rfl, rfl⟩

/-- **The lockstep loop** succeeds when both engines run with the same outcomes. -/
theorem compareSteps_eq_ok : compareSteps phase left right steps i total (l, r) = (.ok outcomes, (l', r')) ↔
    Runs phase steps i l outcomes l' ∧ Runs phase steps i r outcomes r' ∧ Fits phase total outcomes := by
  induction steps generalizing i total l r outcomes with
  | nil =>
    rw [compareSteps, Runs, Runs]
    show ((.ok [], (l, r)) : Except DbError _ × _) = _ ↔ _
    constructor
    · intro h
      cases h
      exact ⟨⟨rfl, rfl⟩, ⟨rfl, rfl⟩, trivial⟩
    · rintro ⟨⟨rfl, rfl⟩, ⟨-, rfl⟩, -⟩
      rfl
  | cons step steps ih =>
    rw [compareSteps, onLeft_bind_eq_ok]
    constructor
    · rintro ⟨leftOutcome, l₁, hleft, h⟩
      obtain ⟨rightOutcome, r₁, hright, h⟩ := onRight_bind_eq_ok.1 h
      cases hsame : failWhen (leftOutcome ≠ rightOutcome) (logicalMismatch phase i left right) with
      | error e =>
        rw [hsame] at h
        cases h
      | ok _ =>
        rw [failWhen_eq_ok, not_not] at hsame
        subst hsame
        rw [failWhen_eq_ok (u := ()) |>.2 (not_not.2 rfl), Prog.ofExcept_ok_bind] at h
        cases hnext : checkedAddOutcomePayload total leftOutcome phase.kind with
        | error e =>
          rw [hnext] at h
          cases h
        | ok next =>
          rw [hnext, Prog.ofExcept_ok_bind] at h
          obtain ⟨rest, ⟨l₂, r₂⟩, hrest, h⟩ := Prog.bind_eq_ok.1 h
          cases h
          obtain ⟨hl, hr, hfits⟩ := ih.1 hrest
          exact ⟨⟨leftOutcome, rest, l₁, hleft, hl, rfl⟩, ⟨leftOutcome, rest, r₁, hright, hr, rfl⟩,
            next, hnext, hfits⟩
    · -- Back: both runs have the same outcomes, so the comparison of each step passes.
      rintro ⟨⟨outcome, rest, l₁, hleft, hl, rfl⟩, ⟨outcome', rest', r₁, hright, hr, heq⟩, next, hnext, hfits⟩
      obtain ⟨rfl, rfl⟩ := List.cons.inj heq
      refine ⟨outcome, l₁, hleft, onRight_bind_eq_ok.2 ⟨outcome, r₁, hright, ?_⟩⟩
      rw [failWhen_eq_ok (u := ()) |>.2 (not_not.2 rfl), Prog.ofExcept_ok_bind, hnext, Prog.ofExcept_ok_bind,
        Prog.bind_ok (ih.2 ⟨hl, hr, hfits⟩)]
      rfl

/-- **The loop of the second engine** succeeds when its outcomes are the ones of the first. -/
theorem checkSteps_eq_ok {u : Unit} : checkSteps phase left right expected steps i total s = (.ok u, s') ↔
    ∃ outcomes, Runs phase steps i s outcomes s' ∧ Fits phase total outcomes ∧
      outcomes <+: expected.drop i := by
  induction steps generalizing i total s with
  | nil =>
    rw [checkSteps, pure_eq_ok]
    constructor
    · rintro ⟨-, rfl⟩
      exact ⟨[], ⟨rfl, rfl⟩, trivial, List.nil_prefix⟩
    · rintro ⟨_, ⟨-, rfl⟩, -⟩
      exact ⟨rfl, rfl⟩
  | cons step steps ih =>
    simp only [checkSteps, Prog.bind_eq_ok, ofExcept_eq_ok, failWhen_eq_ok, not_not, ih, Runs]
    constructor
    · rintro ⟨outcome, middle, hstep, next, _, ⟨hnext, rfl⟩, _, _, ⟨hsame, rfl⟩, rest, hrest, hfits, hstarts⟩
      obtain ⟨hi, hget⟩ := List.getElem?_eq_some_iff.1 hsame.symm
      refine ⟨outcome :: rest, ⟨outcome, rest, _, hstep, hrest, rfl⟩, ⟨next, hnext, hfits⟩, ?_⟩
      rw [List.drop_eq_getElem_cons hi, hget, List.cons_prefix_cons]
      exact ⟨rfl, hstarts⟩
    · rintro ⟨_, ⟨outcome, rest, middle, hstep, hrest, rfl⟩, ⟨next, hnext, hfits⟩, hstarts⟩
      have hi : i < expected.length := by
        have := hstarts.length_le
        rw [List.length_cons, List.length_drop] at this
        omega
      rw [List.drop_eq_getElem_cons hi, List.cons_prefix_cons] at hstarts
      exact ⟨outcome, middle, hstep, next, _, ⟨hnext, rfl⟩, (), _,
        ⟨by rw [List.getElem?_eq_getElem hi, hstarts.1], rfl⟩, rest, hrest, hfits, hstarts.2⟩

/-! ### The drivers -/

/-- The state behind the reset between the phases. -/
def resetState (s : σ) : σ :=
  OperationalTimingInstrumented.resetOperationalTiming (AmplificationInstrumented.resetAmplification s)

/-- What one engine makes of a trace on its own. -/
def Solo (trace : ExperimentTrace) (capabilities : EngineCapabilities) (s : σ)
    (setup measured : List ExperimentOutcome) (evidence : ExperimentEngineEvidence) : Prop :=
  ∃ s₁ s₂ s₃, Runs .setup trace.setupSteps 0 s setup s₁ ∧
    Runs .measured trace.measuredSteps 0 (resetState s₁) measured s₂ ∧
    captureEvidence capabilities s₂ = (.ok evidence, s₃)

theorem reset_bind {β : Type} (f : Unit → Prog σ DbError β) :
    (resetInstrumentation >>= f) s = f () (resetState s) := rfl

theorem runFirstEngine_eq_ok {first : FirstEngineRun} : (runFirstEngine trace capabilities s).1 = .ok first ↔
    Solo trace capabilities s first.setupOutcomes first.measuredOutcomes first.evidence ∧
      Fits .setup 0 first.setupOutcomes ∧ Fits .measured 0 first.measuredOutcomes := by
  simp only [fst_eq_ok, runFirstEngine, Prog.bind_eq_ok, runSteps_eq_ok, reset_bind, pure_eq_ok]
  constructor
  · rintro ⟨_, setup, s₁, ⟨hsetup, hfits⟩, measured, s₂, ⟨hmeasured, hfits'⟩, evidence, s₃, hevidence, rfl, -⟩
    exact ⟨⟨s₁, s₂, s₃, hsetup, hmeasured, hevidence⟩, hfits, hfits'⟩
  · rintro ⟨⟨s₁, s₂, s₃, hsetup, hmeasured, hevidence⟩, hfits, hfits'⟩
    exact ⟨s₃, _, s₁, ⟨hsetup, hfits⟩, _, s₂, ⟨hmeasured, hfits'⟩, _, s₃, hevidence, rfl, rfl⟩

theorem runSecondEngine_eq_ok {expectedSetup expectedMeasured : List ExperimentOutcome}
    (hcapabilities : ∀ s : σ, KvEngine.capabilities s = capabilities) :
    (runSecondEngine trace expectedSetup expectedMeasured left right s).1 = .ok evidence ↔
    ∃ setup measured, Solo trace capabilities s setup measured evidence ∧ Fits .setup 0 setup ∧
      Fits .measured 0 measured ∧ setup <+: expectedSetup ∧ measured <+: expectedMeasured := by
  simp only [fst_eq_ok, runSecondEngine, Prog.bind_eq_ok, checkSteps_eq_ok, reset_bind, Prog.get_bind,
    hcapabilities, List.drop_zero]
  constructor
  · rintro ⟨s₃, -, s₁, ⟨setup, hsetup, hfits, hstarts⟩, -, s₂, ⟨measured, hmeasured, hfits', hstarts'⟩, hevidence⟩
    exact ⟨setup, measured, ⟨s₁, s₂, s₃, hsetup, hmeasured, hevidence⟩, hfits, hfits', hstarts, hstarts'⟩
  · rintro ⟨setup, measured, ⟨s₁, s₂, s₃, hsetup, hmeasured, hevidence⟩, hfits, hfits', hstarts, hstarts'⟩
    exact ⟨s₃, (), s₁, ⟨setup, hsetup, hfits, hstarts⟩, (), s₂, ⟨measured, hmeasured, hfits', hstarts'⟩, hevidence⟩

/-- Both engines run to the end with the same outcomes, and the report has them and the evidence of each. -/
def Joint (trace : ExperimentTrace) (l : σ) (r : ρ) (report : ExperimentComparisonReport) : Prop :=
  trace.validate = .ok () ∧
  validateExperimentCompatibility (KvEngine.capabilities l) (KvEngine.capabilities r)
    trace.requiresOrderedRange = .ok () ∧
  ∃ setup measured leftEvidence rightEvidence,
    Solo trace (KvEngine.capabilities l) l setup measured leftEvidence ∧
    Solo trace (KvEngine.capabilities r) r setup measured rightEvidence ∧
    Fits .setup 0 setup ∧ Fits .measured 0 measured ∧
    report = ⟨trace, trace.setupSteps.length, measured.length, measured, leftEvidence, rightEvidence⟩

/-- **The lockstep comparison** succeeds when both engines agree. -/
theorem compareExperimentTrace_eq_ok {report : ExperimentComparisonReport} :
    (compareExperimentTrace trace (l, r)).1 = .ok report ↔ Joint trace l r report := by
  rw [fst_eq_ok, compareExperimentTrace]
  constructor
  · rintro ⟨p, h⟩
    obtain ⟨_, _, hgate, h⟩ := Prog.bind_eq_ok.1 h
    obtain ⟨hvalid, rfl⟩ := ofExcept_eq_ok.1 hgate
    rw [Prog.get_bind] at h
    obtain ⟨_, _, hgate', h⟩ := Prog.bind_eq_ok.1 h
    obtain ⟨hcompatible, rfl⟩ := ofExcept_eq_ok.1 hgate'
    obtain ⟨setup, ⟨l₁, r₁⟩, hsetup, h⟩ := Prog.bind_eq_ok.1 h
    obtain ⟨hl, hr, hfits⟩ := compareSteps_eq_ok.1 hsetup
    obtain ⟨measured, ⟨l₂, r₂⟩, hmeasured, h⟩ := Prog.bind_eq_ok.1
      (show (compareSteps .measured (KvEngine.capabilities l) (KvEngine.capabilities r) trace.measuredSteps 0 0 >>=
        _) (resetState l₁, resetState r₁) = _ from h)
    obtain ⟨hl', hr', hfits'⟩ := compareSteps_eq_ok.1 hmeasured
    obtain ⟨leftEvidence, l₃, hleft, h⟩ := onLeft_bind_eq_ok.1 h
    obtain ⟨rightEvidence, r₃, hright, h⟩ := onRight_bind_eq_ok.1 h
    cases h
    exact ⟨hvalid, hcompatible, setup, measured, leftEvidence, rightEvidence, ⟨l₁, l₂, l₃, hl, hl', hleft⟩,
      ⟨r₁, r₂, r₃, hr, hr', hright⟩, hfits, hfits', rfl⟩
  · rintro ⟨hvalid, hcompatible, setup, measured, leftEvidence, rightEvidence, ⟨l₁, l₂, l₃, hl, hl', hleft⟩,
      ⟨r₁, r₂, r₃, hr, hr', hright⟩, hfits, hfits', rfl⟩
    refine ⟨(l₃, r₃), ?_⟩
    rw [hvalid, Prog.ofExcept_ok_bind, Prog.get_bind, hcompatible, Prog.ofExcept_ok_bind,
      Prog.bind_ok (compareSteps_eq_ok.2 ⟨hl, hr, hfits⟩)]
    show (compareSteps .measured (KvEngine.capabilities l) (KvEngine.capabilities r) trace.measuredSteps 0 0 >>= _)
      (resetState l₁, resetState r₁) = _
    rw [Prog.bind_ok (compareSteps_eq_ok.2 ⟨hl', hr', hfits'⟩)]
    exact onLeft_bind_eq_ok.2 ⟨_, l₃, hleft, onRight_bind_eq_ok.2 ⟨_, r₃, hright, rfl⟩⟩

theorem Solo.lengths {setup measured : List ExperimentOutcome}
    (h : Solo trace capabilities s setup measured evidence) :
    setup.length = trace.setupSteps.length ∧ measured.length = trace.measuredSteps.length := by
  obtain ⟨s₁, s₂, s₃, hsetup, hmeasured, -⟩ := h
  exact ⟨hsetup.length_eq, hmeasured.length_eq⟩

/-- The second engine passes behind the first when both have the same outcomes. -/
theorem pair_eq_ok {first : FirstEngineRun} (hcapabilities : ∀ s : ρ, KvEngine.capabilities s = capabilities)
    {firstCapabilities : EngineCapabilities} (hfirst : (runFirstEngine trace firstCapabilities l).1 = .ok first) :
    (runSecondEngine trace first.setupOutcomes first.measuredOutcomes left right r).1 = .ok evidence ↔
      Solo trace capabilities r first.setupOutcomes first.measuredOutcomes evidence := by
  obtain ⟨hsolo, hfits, hfits'⟩ := runFirstEngine_eq_ok.1 hfirst
  rw [runSecondEngine_eq_ok hcapabilities]
  constructor
  · rintro ⟨setup, measured, hsecond, -, -, hstarts, hstarts'⟩
    rw [← hstarts.eq_of_length (hsecond.lengths.1.trans hsolo.lengths.1.symm),
      ← hstarts'.eq_of_length (hsecond.lengths.2.trans hsolo.lengths.2.symm)]
    exact hsecond
  · intro hsecond
    exact ⟨_, _, hsecond, hfits, hfits', List.prefix_rfl, List.prefix_rfl⟩

/-- **The ordered comparison** succeeds when both engines agree, in either order. -/
theorem compareExperimentTraceOrdered_eq_ok {order : ExperimentExecutionOrder}
    {report : OrderedExperimentComparisonReport}
    (hleft : ∀ s s' : σ, KvEngine.capabilities s = KvEngine.capabilities s')
    (hright : ∀ s s' : ρ, KvEngine.capabilities s = KvEngine.capabilities s') :
    (compareExperimentTraceOrdered trace order (l, r)).1 = .ok report ↔
      report.executionOrder = order ∧ Joint trace l r report.comparison := by
  rw [fst_eq_ok, compareExperimentTraceOrdered]
  constructor
  · rintro ⟨p, h⟩
    obtain ⟨_, _, hgate, h⟩ := Prog.bind_eq_ok.1 h
    obtain ⟨hvalid, rfl⟩ := ofExcept_eq_ok.1 hgate
    rw [Prog.get_bind] at h
    obtain ⟨_, _, hgate', h⟩ := Prog.bind_eq_ok.1 h
    obtain ⟨hcompatible, rfl⟩ := ofExcept_eq_ok.1 hgate'
    cases order with
    | leftThenRight =>
      obtain ⟨first, l₁, hfirst, h⟩ := onLeft_bind_eq_ok.1 h
      obtain ⟨rightEvidence, r₁, hsecond, h⟩ := onRight_bind_eq_ok.1 h
      cases h
      have hfirst' := fst_eq_ok.2 ⟨l₁, hfirst⟩
      obtain ⟨hsolo, hfits, hfits'⟩ := runFirstEngine_eq_ok.1 hfirst'
      exact ⟨rfl, hvalid, hcompatible, _, _, _, _, hsolo,
        (pair_eq_ok (fun s => hright s r) hfirst').1 (fst_eq_ok.2 ⟨r₁, hsecond⟩), hfits, hfits', rfl⟩
    | rightThenLeft =>
      obtain ⟨first, r₁, hfirst, h⟩ := onRight_bind_eq_ok.1 h
      obtain ⟨leftEvidence, l₁, hsecond, h⟩ := onLeft_bind_eq_ok.1 h
      cases h
      have hfirst' := fst_eq_ok.2 ⟨r₁, hfirst⟩
      obtain ⟨hsolo, hfits, hfits'⟩ := runFirstEngine_eq_ok.1 hfirst'
      exact ⟨rfl, hvalid, hcompatible, _, _, _, _,
        (pair_eq_ok (fun s => hleft s l) hfirst').1 (fst_eq_ok.2 ⟨l₁, hsecond⟩), hsolo, hfits, hfits', rfl⟩
  · -- Back: the engines do not see each other, so each order runs both as alone.
    obtain ⟨executionOrder, comparison⟩ := report
    rintro ⟨rfl, hvalid, hcompatible, setup, measured, leftEvidence, rightEvidence, hl, hr, hfits, hfits', rfl⟩
    have hfirstLeft : (runFirstEngine trace (KvEngine.capabilities l) l).1 = .ok ⟨setup, measured, leftEvidence⟩ :=
      runFirstEngine_eq_ok.2 ⟨hl, hfits, hfits'⟩
    have hfirstRight : (runFirstEngine trace (KvEngine.capabilities r) r).1 = .ok ⟨setup, measured, rightEvidence⟩ :=
      runFirstEngine_eq_ok.2 ⟨hr, hfits, hfits'⟩
    cases executionOrder with
    | leftThenRight =>
      obtain ⟨l₁, hfirst⟩ := fst_eq_ok.1 hfirstLeft
      obtain ⟨r₁, hsecond⟩ := fst_eq_ok.1 ((pair_eq_ok (fun s => hright s r) hfirstLeft).2 hr)
      refine ⟨(l₁, r₁), ?_⟩
      rw [hvalid, Prog.ofExcept_ok_bind, Prog.get_bind, hcompatible, Prog.ofExcept_ok_bind]
      refine onLeft_bind_eq_ok.2 ⟨_, l₁, hfirst, onRight_bind_eq_ok.2 ⟨_, r₁, hsecond, ?_⟩⟩
      rfl
    | rightThenLeft =>
      obtain ⟨r₁, hfirst⟩ := fst_eq_ok.1 hfirstRight
      obtain ⟨l₁, hsecond⟩ := fst_eq_ok.1 ((pair_eq_ok (fun s => hleft s l) hfirstRight).2 hl)
      refine ⟨(l₁, r₁), ?_⟩
      rw [hvalid, Prog.ofExcept_ok_bind, Prog.get_bind, hcompatible, Prog.ofExcept_ok_bind]
      refine onRight_bind_eq_ok.2 ⟨_, r₁, hfirst, onLeft_bind_eq_ok.2 ⟨_, l₁, hsecond, ?_⟩⟩
      rfl

/-! ### The first difference -/

def firstDifference : List ExperimentOutcome → List ExperimentOutcome → Option ℕ
  | outcome :: outcomes, outcome' :: outcomes' =>
    if outcome = outcome' then (firstDifference outcomes outcomes').map (· + 1) else some 0
  | _, _ => none

theorem firstDifference_comm (outcomes outcomes' : List ExperimentOutcome) :
    firstDifference outcomes outcomes' = firstDifference outcomes' outcomes := by
  induction outcomes generalizing outcomes' with
  | nil => cases outcomes' <;> rfl
  | cons outcome outcomes ih =>
    cases outcomes' with
    | nil => rfl
    | cons outcome' outcomes' =>
      rw [firstDifference, firstDifference, ih]
      by_cases heq : outcome = outcome'
      · rw [if_pos heq, if_pos heq.symm]
      · rw [if_neg heq, if_neg (Ne.symm heq)]

theorem eq_of_firstDifference (h : firstDifference outcomes outcomes' = none)
    (hlen : outcomes.length = outcomes'.length) : outcomes = outcomes' := by
  induction outcomes generalizing outcomes' with
  | nil => exact (List.eq_nil_of_length_eq_zero hlen.symm).symm
  | cons outcome outcomes ih =>
    cases outcomes' with
    | nil => cases hlen
    | cons outcome' outcomes' =>
      rw [firstDifference] at h
      by_cases heq : outcome = outcome'
      · rw [if_pos heq, Option.map_eq_none_iff] at h
        rw [heq, ih h (Nat.succ.inj hlen)]
      · rw [if_neg heq] at h
        cases h

/-- The lockstep loop stops at the first difference. -/
theorem compareSteps_differs (hl : Runs phase steps i l outcomes l') (hr : Runs phase steps i r outcomes' r')
    (hfits : Fits phase total outcomes) (h : firstDifference outcomes outcomes' = some k) :
    ∃ p, compareSteps phase left right steps i total (l, r) =
      (.error (logicalMismatch phase (i + k) left right), p) := by
  induction steps generalizing i total l r outcomes outcomes' k with
  | nil =>
    rw [hl.1] at h
    cases h
  | cons step steps ih =>
    obtain ⟨outcome, rest, l₁, hleft, hl, rfl⟩ := hl
    obtain ⟨outcome', rest', r₁, hright, hr, rfl⟩ := hr
    obtain ⟨next, hnext, hfits⟩ := hfits
    rw [compareSteps, Prog.bind_ok (onLeft_eq_ok.2 ⟨l₁, hleft, rfl⟩),
      Prog.bind_ok (onRight_eq_ok.2 ⟨r₁, hright, rfl⟩)]
    rw [firstDifference] at h
    by_cases heq : outcome = outcome'
    · subst heq
      rw [if_pos rfl, Option.map_eq_some_iff] at h
      obtain ⟨k', h, rfl⟩ := h
      obtain ⟨p, hrest⟩ := ih hl hr hfits h
      refine ⟨p, ?_⟩
      rw [failWhen_eq_ok (u := ()) |>.2 (not_not.2 rfl), Prog.ofExcept_ok_bind, hnext, Prog.ofExcept_ok_bind,
        Prog.bind_error hrest, show i + (k' + 1) = i + 1 + k' by omega]
    · rw [if_neg heq, Option.some.injEq] at h
      subst h
      rw [failWhen, checkWhen, if_pos heq]
      exact ⟨_, rfl⟩

/-- The second engine stops there as well. -/
theorem checkSteps_differs (hs : Runs phase steps i s outcomes s') (hfits : Fits phase total outcomes)
    (h : firstDifference outcomes (expected.drop i) = some k) :
    ∃ s'', checkSteps phase left right expected steps i total s =
      (.error (logicalMismatch phase (i + k) left right), s'') := by
  induction steps generalizing i total s outcomes k with
  | nil =>
    rw [hs.1] at h
    cases h
  | cons step steps ih =>
    obtain ⟨outcome, rest, s₁, hstep, hs, rfl⟩ := hs
    obtain ⟨next, hnext, hfits⟩ := hfits
    by_cases hi : i < expected.length
    · rw [List.drop_eq_getElem_cons hi, firstDifference] at h
      rw [checkSteps, Prog.bind_ok hstep, hnext, Prog.ofExcept_ok_bind, List.getElem?_eq_getElem hi]
      by_cases heq : outcome = expected[i]
      · rw [if_pos heq, Option.map_eq_some_iff] at h
        obtain ⟨k', h, rfl⟩ := h
        obtain ⟨s'', hrest⟩ := ih hs hfits h
        refine ⟨s'', ?_⟩
        rw [failWhen_eq_ok (u := ()) |>.2 (not_not.2 (by rw [heq])), Prog.ofExcept_ok_bind, hrest,
          show i + (k' + 1) = i + 1 + k' by omega]
      · rw [if_neg heq, Option.some.injEq] at h
        subst h
        rw [failWhen, checkWhen, if_pos (by rwa [Ne, Option.some.injEq])]
        exact ⟨_, rfl⟩
    · rw [List.drop_eq_nil_of_le (not_lt.1 hi)] at h
      cases h

/-- The phase and the index at which two runs differ first. -/
def divergence (setup measured setup' measured' : List ExperimentOutcome) : Option (Phase × ℕ) :=
  match firstDifference setup setup' with
  | some k => some (.setup, k)
  | none => (firstDifference measured measured').map fun k => (.measured, k)

variable {setup measured setup' measured' : List ExperimentOutcome}
  {leftEvidence rightEvidence : ExperimentEngineEvidence}

theorem divergence_comm : divergence setup measured setup' measured' = divergence setup' measured' setup measured := by
  rw [divergence, divergence, firstDifference_comm setup', firstDifference_comm measured']

/-- Two runs over one trace that differ, differ at a first step. -/
theorem exists_divergence {capabilities' : EngineCapabilities} (hl : Solo trace capabilities l setup measured leftEvidence)
    (hr : Solo trace capabilities' r setup' measured' rightEvidence)
    (hdiffer : setup ≠ setup' ∨ measured ≠ measured') :
    ∃ d, divergence setup measured setup' measured' = some d := by
  rw [divergence]
  cases hsetup : firstDifference setup setup' with
  | some k => exact ⟨_, rfl⟩
  | none =>
    cases hmeasured : firstDifference measured measured' with
    | some k => exact ⟨_, rfl⟩
    | none =>
      refine absurd hdiffer (not_or.2 ⟨not_not.2 ?_, not_not.2 ?_⟩)
      · exact eq_of_firstDifference hsetup (hl.lengths.1.trans hr.lengths.1.symm)
      · exact eq_of_firstDifference hmeasured (hl.lengths.2.trans hr.lengths.2.symm)

theorem compareExperimentTrace_differs (hvalid : trace.validate = .ok ())
    (hcompatible : validateExperimentCompatibility (KvEngine.capabilities l) (KvEngine.capabilities r)
      trace.requiresOrderedRange = .ok ())
    (hl : Solo trace (KvEngine.capabilities l) l setup measured leftEvidence)
    (hr : Solo trace (KvEngine.capabilities r) r setup' measured' rightEvidence)
    (hfits : Fits .setup 0 setup) (hfits' : Fits .measured 0 measured)
    (h : divergence setup measured setup' measured' = some (phase, k)) :
    (compareExperimentTrace trace (l, r)).1 =
      .error (logicalMismatch phase k (KvEngine.capabilities l) (KvEngine.capabilities r)) := by
  have hlengths := hl.lengths.1.trans hr.lengths.1.symm
  obtain ⟨l₁, l₂, l₃, hl, hl', -⟩ := hl
  obtain ⟨r₁, r₂, r₃, hr, hr', -⟩ := hr
  rw [compareExperimentTrace, hvalid, Prog.ofExcept_ok_bind, Prog.get_bind, hcompatible, Prog.ofExcept_ok_bind]
  rw [divergence] at h
  cases hsetup : firstDifference setup setup' with
  | some k' =>
    rw [hsetup] at h
    cases h
    obtain ⟨p, hrun⟩ := @compareSteps_differs σ ρ l l₁ r r₁ _ _ .setup trace.setupSteps 0 0 k setup setup'
      (KvEngine.capabilities l) (KvEngine.capabilities r) hl hr hfits hsetup
    rw [Nat.zero_add] at hrun
    rw [Prog.bind_error hrun]
  | none =>
    rw [hsetup, Option.map_eq_some_iff] at h
    obtain ⟨k', hmeasured, hpair⟩ := h
    cases hpair
    obtain rfl := eq_of_firstDifference hsetup hlengths
    obtain ⟨p, hrun⟩ := @compareSteps_differs σ ρ (resetState l₁) l₂ (resetState r₁) r₂ _ _ .measured
      trace.measuredSteps 0 0 k measured measured' (KvEngine.capabilities l) (KvEngine.capabilities r) hl' hr'
      hfits' hmeasured
    rw [Nat.zero_add] at hrun
    rw [Prog.bind_ok (compareSteps_eq_ok.2 ⟨hl, hr, hfits⟩)]
    show ((compareSteps .measured (KvEngine.capabilities l) (KvEngine.capabilities r) trace.measuredSteps 0 0 >>= _)
      (resetState l₁, resetState r₁)).1 = _
    rw [Prog.bind_error hrun]

theorem runSecondEngine_differs (hs : Solo trace capabilities s setup measured evidence)
    (hfits : Fits .setup 0 setup) (hfits' : Fits .measured 0 measured) (hlengths : setup.length = setup'.length)
    (h : divergence setup measured setup' measured' = some (phase, k)) :
    ∃ s'', runSecondEngine trace setup' measured' left right s = (.error (logicalMismatch phase k left right), s'') := by
  obtain ⟨s₁, s₂, s₃, hs, hs', -⟩ := hs
  rw [divergence] at h
  cases hsetup : firstDifference setup setup' with
  | some k' =>
    rw [hsetup] at h
    cases h
    obtain ⟨s'', hrun⟩ := @checkSteps_differs σ s s₁ _ .setup trace.setupSteps 0 0 k setup setup' left right hs hfits
      hsetup
    rw [Nat.zero_add] at hrun
    exact ⟨s'', Prog.bind_error hrun⟩
  | none =>
    rw [hsetup, Option.map_eq_some_iff] at h
    obtain ⟨k', hmeasured, hpair⟩ := h
    cases hpair
    obtain rfl := eq_of_firstDifference hsetup hlengths
    obtain ⟨s'', hrun⟩ := @checkSteps_differs σ (resetState s₁) s₂ _ .measured trace.measuredSteps 0 0 k measured
      measured' left right hs' hfits' hmeasured
    rw [Nat.zero_add] at hrun
    refine ⟨s'', ?_⟩
    rw [runSecondEngine, Prog.bind_ok (a := ()) (t := s₁), reset_bind, Prog.bind_error hrun]
    exact checkSteps_eq_ok.2 ⟨setup, hs, hfits, List.prefix_rfl⟩

theorem compareExperimentTraceOrdered_differs {order : ExperimentExecutionOrder} {firstLeft firstRight : FirstEngineRun}
    (hvalid : trace.validate = .ok ())
    (hcompatible : validateExperimentCompatibility (KvEngine.capabilities l) (KvEngine.capabilities r)
      trace.requiresOrderedRange = .ok ())
    (hleft : (runFirstEngine trace (KvEngine.capabilities l) l).1 = .ok firstLeft)
    (hright : (runFirstEngine trace (KvEngine.capabilities r) r).1 = .ok firstRight)
    (h : divergence firstLeft.setupOutcomes firstLeft.measuredOutcomes firstRight.setupOutcomes
      firstRight.measuredOutcomes = some (phase, k)) :
    (compareExperimentTraceOrdered trace order (l, r)).1 =
      .error (logicalMismatch phase k (KvEngine.capabilities l) (KvEngine.capabilities r)) := by
  obtain ⟨hl, hfitsLeft, hfitsLeft'⟩ := runFirstEngine_eq_ok.1 hleft
  obtain ⟨hr, hfitsRight, hfitsRight'⟩ := runFirstEngine_eq_ok.1 hright
  have hlengths := hl.lengths.1.trans hr.lengths.1.symm
  rw [compareExperimentTraceOrdered, hvalid, Prog.ofExcept_ok_bind, Prog.get_bind, hcompatible,
    Prog.ofExcept_ok_bind]
  cases order with
  | leftThenRight =>
    obtain ⟨l₁, hfirst⟩ := fst_eq_ok.1 hleft
    obtain ⟨r₁, hsecond⟩ := @runSecondEngine_differs ρ r _ phase k (KvEngine.capabilities l)
      (KvEngine.capabilities r) _ trace _ _ _ _ _ hr hfitsRight hfitsRight' hlengths.symm (divergence_comm.trans h)
    show ((onLeft (runFirstEngine trace (KvEngine.capabilities l)) >>= _) (l, r)).1 = _
    rw [Prog.bind_ok (onLeft_eq_ok.2 ⟨l₁, hfirst, rfl⟩), Prog.bind_error]
    rw [onRight, Prog.zoom, hsecond]
  | rightThenLeft =>
    obtain ⟨r₁, hfirst⟩ := fst_eq_ok.1 hright
    obtain ⟨l₁, hsecond⟩ := @runSecondEngine_differs σ l _ phase k (KvEngine.capabilities l)
      (KvEngine.capabilities r) _ trace _ _ _ _ _ hl hfitsLeft hfitsLeft' hlengths h
    show ((onRight (runFirstEngine trace (KvEngine.capabilities r)) >>= _) (l, r)).1 = _
    rw [Prog.bind_ok (onRight_eq_ok.2 ⟨r₁, hfirst, rfl⟩), Prog.bind_error]
    rw [onLeft, Prog.zoom, hsecond]

/-! ### The comparisons -/

theorem ordered_of_compatible {ordered : Bool} {u : Unit}
    (h : validateExperimentCompatibility left right ordered = .ok u) :
    ordered = true → left.orderedRangeScan = true ∧ right.orderedRangeScan = true := by
  intro hordered
  rw [validateExperimentCompatibility, failWhen_eq_ok, not_not] at h
  have hlast := (List.append_eq_nil_iff.1 h).2
  by_cases hboth : left.orderedRangeScan = true ∧ right.orderedRangeScan = true
  · exact hboth
  · rw [if_pos ⟨hordered, not_and_or.1 hboth⟩] at hlast
    cases hlast

/-- The run of one engine on its own. -/
theorem runExperimentTrace_eq_ok (hvalid : trace.validate = .ok ())
    (hordered : trace.requiresOrderedRange = true → (KvEngine.capabilities s).orderedRangeScan = true)
    (hsolo : Solo trace (KvEngine.capabilities s) s setup measured evidence)
    (hfits : Fits .setup 0 setup) (hfits' : Fits .measured 0 measured) :
    (runExperimentTrace trace s).1 =
      .ok ⟨trace, trace.setupSteps.length, measured.length, measured, evidence⟩ := by
  obtain ⟨s₁, s₂, s₃, hsetup, hmeasured, hevidence⟩ := hsolo
  rw [runExperimentTrace, hvalid, Prog.ofExcept_ok_bind, Prog.get_bind,
    failWhen_eq_ok (u := ()) |>.2 (fun h => h.2 (hordered h.1)), Prog.ofExcept_ok_bind,
    Prog.bind_ok (runSteps_eq_ok.2 ⟨hsetup, hfits⟩), reset_bind,
    Prog.bind_ok (runSteps_eq_ok.2 ⟨hmeasured, hfits'⟩), Prog.bind_ok hevidence]
  rfl

/-- **The comparisons agree.** Two engines whose capabilities are constant, and any trace: the lockstep
comparison and the ordered comparison in either order succeed on the same inputs with the same report,
whose outcomes and evidence are the ones of each engine on its own. When both engines run to the end
inside the payload bounds and some outcomes differ, both report the first step that differs. -/
theorem comparisons_agree (hleft : ∀ s s' : σ, KvEngine.capabilities s = KvEngine.capabilities s')
    (hright : ∀ s s' : ρ, KvEngine.capabilities s = KvEngine.capabilities s') (trace : ExperimentTrace)
    (order : ExperimentExecutionOrder) (l : σ) (r : ρ) :
    (∀ report, (compareExperimentTrace trace (l, r)).1 = .ok report ↔
      (compareExperimentTraceOrdered trace order (l, r)).1 = .ok ⟨order, report⟩) ∧
    (∀ report, (compareExperimentTraceOrdered trace order (l, r)).1 = .ok report →
      report.executionOrder = order) ∧
    (∀ report, (compareExperimentTrace trace (l, r)).1 = .ok report →
      (runExperimentTrace trace l).1 =
        .ok ⟨trace, trace.setupSteps.length, report.outcomes.length, report.outcomes, report.left⟩ ∧
      (runExperimentTrace trace r).1 =
        .ok ⟨trace, trace.setupSteps.length, report.outcomes.length, report.outcomes, report.right⟩) ∧
    ∀ firstLeft firstRight, trace.validate = .ok () →
      validateExperimentCompatibility (KvEngine.capabilities l) (KvEngine.capabilities r)
        trace.requiresOrderedRange = .ok () →
      (runFirstEngine trace (KvEngine.capabilities l) l).1 = .ok firstLeft →
      (runFirstEngine trace (KvEngine.capabilities r) r).1 = .ok firstRight →
      firstLeft.setupOutcomes ≠ firstRight.setupOutcomes ∨
        firstLeft.measuredOutcomes ≠ firstRight.measuredOutcomes →
      ∃ phase k, divergence firstLeft.setupOutcomes firstLeft.measuredOutcomes firstRight.setupOutcomes
          firstRight.measuredOutcomes = some (phase, k) ∧
        (compareExperimentTrace trace (l, r)).1 =
          .error (logicalMismatch phase k (KvEngine.capabilities l) (KvEngine.capabilities r)) ∧
        (compareExperimentTraceOrdered trace order (l, r)).1 =
          .error (logicalMismatch phase k (KvEngine.capabilities l) (KvEngine.capabilities r)) := by
  refine ⟨fun report => ?_, fun report h => ?_, fun report h => ?_, ?_⟩
  · rw [compareExperimentTrace_eq_ok, compareExperimentTraceOrdered_eq_ok hleft hright]
    exact (and_iff_right rfl).symm
  · exact ((compareExperimentTraceOrdered_eq_ok hleft hright).1 h).1
  · obtain ⟨hvalid, hcompatible, setup, measured, leftEvidence, rightEvidence, hl, hr, hfits, hfits', rfl⟩ :=
      compareExperimentTrace_eq_ok.1 h
    have hordered := ordered_of_compatible hcompatible
    exact ⟨runExperimentTrace_eq_ok hvalid (fun h => (hordered h).1) hl hfits hfits',
      runExperimentTrace_eq_ok hvalid (fun h => (hordered h).2) hr hfits hfits'⟩
  · intro firstLeft firstRight hvalid hcompatible hfirst hfirst' hdiffer
    obtain ⟨hl, hfits, hfits'⟩ := runFirstEngine_eq_ok.1 hfirst
    obtain ⟨hr, -, -⟩ := runFirstEngine_eq_ok.1 hfirst'
    obtain ⟨⟨phase, k⟩, h⟩ := exists_divergence hl hr hdiffer
    exact ⟨phase, k, h, compareExperimentTrace_differs hvalid hcompatible hl hr hfits hfits' h,
      compareExperimentTraceOrdered_differs hvalid hcompatible hfirst hfirst' h⟩

/-- A map in memory, with reports that say nothing. -/
instance : Candidate (List (Bytes × Bytes)) where
  capabilities _ :=
    { name := "reference", logicalModel := .keyValue, storageArchitecture := .inMemoryReference
      concurrency := .callerSerialized, persistence := .volatile, crashRecovery := .none
      distribution := .standalone, orderedRangeScan := false, maxKeyBytes := maxKeyBytes
      maxValueBytes := maxValueBytes }
  put key value := fun values =>
    (.ok ((lookupBy Prod.fst key values).map Prod.snd), upsertBy Prod.fst (key, value) values)
  get key := fun values => (.ok ((lookupBy Prod.fst key values).map Prod.snd), values)
  delete key := fun values => (.ok ((lookupBy Prod.fst key values).map Prod.snd), removeBy Prod.fst key values)
  rangeScan _ _ _ := Prog.throw (.invalidInput "engine reference does not expose ordered range scans")
  reopen := pure ()
  resetAmplification values := values
  amplificationReport := pure ⟨⟨⟨0, 0⟩, .btreePageAccess⟩, ⟨⟨0, 0⟩, .btreePageAccess⟩, ⟨0, 0⟩, ⟨0, 0⟩⟩
  resetOperationalTiming values := values
  setOperationalStepIndex _ values := values
  operationalTimingReport _ := ⟨[], [], [], [], [], []⟩

/-- One sequential write. -/
def oneWrite : ExperimentGeneratorConfig := ⟨7, .sequentialWrite, 1, 1, 1, 1, none⟩

/-- The comparison of a map with itself on the trace of one write, the right one first. -/
theorem comparisons_agree_one_write : ∃ trace report, buildGeneratedTrace oneWrite = .ok trace ∧
    (compareExperimentTraceOrdered trace .rightThenLeft
      (([], []) : List (Bytes × Bytes) × List (Bytes × Bytes))).1 = .ok ⟨.rightThenLeft, report⟩ := by
  have htrace : (buildGeneratedTrace oneWrite).toOption.isSome = true := by decide +kernel
  cases hbuild : buildGeneratedTrace oneWrite with
  | error e =>
    rw [hbuild] at htrace
    cases htrace
  | ok trace =>
    have hrun : ((buildGeneratedTrace oneWrite).toOption.bind fun trace => (compareExperimentTrace trace
        (([], []) : List (Bytes × Bytes) × List (Bytes × Bytes))).1.toOption).isSome = true := by decide +kernel
    rw [hbuild] at hrun
    cases hreport : (compareExperimentTrace trace
        (([], []) : List (Bytes × Bytes) × List (Bytes × Bytes))).1 with
    | error e =>
      simp [Except.toOption, hreport] at hrun
    | ok report =>
      exact ⟨trace, report, rfl, ((comparisons_agree (fun _ _ => rfl) (fun _ _ => rfl) trace .rightThenLeft [] []).1
        report).1 hreport⟩

end DbLab.Experiment
