import DbLab.Experiment.Trace
import DbLab.Lib.Readers

/-!
# What the generator makes

The configuration is checked before a step is drawn: the number of steps and a bound on their bytes are
computed from it. Every draw stays inside these bounds, so that the generator succeeds for each
configuration that passes its own check, and `validate` accepts what it makes and nothing else.
-/

namespace DbLab.Experiment

/-! ### Steps and their bytes -/

namespace ExperimentStep

/-- The bytes of the keys and values of a step. -/
def payload : ExperimentStep → ℕ
  | put key value => key.length + value.length
  | get key => key.length
  | delete key => key.length
  | rangeScan start stop _ => start.length + stop.elim 0 List.length
  | reopen => 0

/-- A range scan has its start below its end, and an admitted limit. -/
def Ordered : ExperimentStep → Prop
  | rangeScan start stop limit =>
    (∃ bound, stop = some bound ∧ start < bound) ∧ 1 ≤ limit.val ∧ limit.val ≤ maxExperimentRangeLimit
  | _ => True

end ExperimentStep

theorem checkedAdd_ok {m n : ℕ} {e : DbError} (h : m + n < u64Limit) : checkedAdd m n e = .ok (m + n) :=
  checkedAdd_eq_ok.2 ⟨h, rfl⟩

theorem checkedMul_eq_ok {m n k : ℕ} {e : DbError} :
    checkedMul m n e = .ok k ↔ m * n < u64Limit ∧ k = m * n := by
  unfold checkedMul
  split_ifs with h
  · simp [h, eq_comm]
  · simp [h]

theorem experimentStepPayloadBytes_eq {step : ExperimentStep} (h : step.payload < u64Limit) :
    experimentStepPayloadBytes step = .ok step.payload := by
  have hone : ∀ {a : ℕ}, a < u64Limit → checkedPayloadLengths [a] = .ok a := by
    intro a ha
    simp only [checkedPayloadLengths, List.foldlM_cons, List.foldlM_nil]
    rw [checkedAdd_ok (by omega), Checked.ok_bind, zero_add, Checked.pure_eq]
  have htwo : ∀ {a b : ℕ}, a + b < u64Limit → checkedPayloadLengths [a, b] = .ok (a + b) := by
    intro a b hab
    simp only [checkedPayloadLengths, List.foldlM_cons, List.foldlM_nil]
    rw [checkedAdd_ok (by omega), Checked.ok_bind, zero_add, checkedAdd_ok hab, Checked.ok_bind, Checked.pure_eq]
  cases step with
  | put key value => exact htwo h
  | get key => exact hone h
  | delete key => exact hone h
  | rangeScan start stop limit =>
    cases stop with
    | none => exact hone h
    | some stop => exact htwo h
  | reopen => rfl

/-- The bytes of all keys and values of steps. -/
def payloadOf (steps : List ExperimentStep) : ℕ := (steps.map ExperimentStep.payload).sum

@[simp] theorem payloadOf_nil : payloadOf [] = 0 := rfl

@[simp] theorem payloadOf_cons {step : ExperimentStep} {steps : List ExperimentStep} :
    payloadOf (step :: steps) = step.payload + payloadOf steps := rfl

@[simp] theorem payloadOf_append {steps steps' : List ExperimentStep} :
    payloadOf (steps ++ steps') = payloadOf steps + payloadOf steps' := by
  simp [payloadOf]

theorem maxPayload_lt : maxExperimentTracePayloadBytes < u64Limit := by
  rw [u64Limit_eq]
  decide

/-- The loop of `validate_structure` over steps that are valid and fit. -/
theorem foldlM_payload {steps : List ExperimentStep} {total : ℕ}
    (hvalid : ∀ step ∈ steps, validateExperimentStep step = .ok ())
    (hle : total + payloadOf steps ≤ maxExperimentTracePayloadBytes) :
    steps.foldlM (fun payloadBytes step => do
      validateExperimentStep step
      let next ← experimentStepPayloadBytes step
      checkedAddPayload payloadBytes next maxExperimentTracePayloadBytes "experiment trace") total =
        .ok (total + payloadOf steps) := by
  have hlimit := maxPayload_lt
  induction steps generalizing total with
  | nil => rfl
  | cons step steps ih =>
    rw [payloadOf_cons] at hle
    have hstep : checkedAddPayload total step.payload maxExperimentTracePayloadBytes "experiment trace" =
        .ok (total + step.payload) := by
      rw [checkedAddPayload, checkedAdd_ok (by omega), Checked.ok_bind]
      simp [failWhen, checkWhen, show ¬ maxExperimentTracePayloadBytes < total + step.payload by omega]
    rw [List.foldlM_cons, hvalid step List.mem_cons_self, Checked.ok_bind,
      experimentStepPayloadBytes_eq (by omega), Checked.ok_bind, hstep, Checked.ok_bind,
      ih (fun step hstep => hvalid step (List.mem_cons_of_mem _ hstep)) (by omega), payloadOf_cons, add_assoc]

/-! ### The configuration -/

namespace ExperimentGeneratorConfig

variable (config : ExperimentGeneratorConfig)

/-- The most bytes of one operation. -/
def bytesPerOperation : ℕ :=
  match config.profile with
  | .pointRead => experimentKeyBytes
  | .rangeScan => experimentKeyBytes * 2
  | .sequentialWrite => experimentKeyBytes + config.valueBytes.val
  | .randomWrite => experimentKeyBytes + config.valueBytes.val
  | .mixed => max (experimentKeyBytes + config.valueBytes.val) (experimentKeyBytes * 2)

/-- The number of steps that `validate` computes. -/
def stepCount : ℕ := config.setupPuts + config.operations.val + config.reopenSteps

/-- The bound on the bytes that `validate_generated_payload` computes. -/
def payloadBound : ℕ :=
  config.setupPuts * (experimentKeyBytes + config.valueBytes.val) + config.operations.val * config.bytesPerOperation

variable {config}

/-- The check of the payload is the check of its bound: a product that overflows is above it. -/
theorem validateGeneratedPayload_eq_ok :
    config.validateGeneratedPayload = .ok () ↔ config.payloadBound ≤ maxExperimentTracePayloadBytes := by
  have hlimit := maxPayload_lt
  have hvalue : experimentKeyBytes + config.valueBytes.val < u64Limit := by
    have hlt := config.valueBytes.isLt
    rw [u64Limit_eq]
    unfold experimentKeyBytes
    omega
  have hrange : experimentKeyBytes * 2 < u64Limit := by
    rw [u64Limit_eq]
    decide
  unfold validateGeneratedPayload
  simp only [Checked.bind_eq_ok, checkedAdd_eq_ok, checkedMul_eq_ok, failWhen_eq_ok, not_lt]
  constructor
  · rintro ⟨_, ⟨-, rfl⟩, _, ⟨-, rfl⟩, _, ⟨-, rfl⟩, _, ⟨-, rfl⟩, _, ⟨-, rfl⟩, hle⟩
    exact hle
  · intro hle
    have hle' : config.setupPuts * (experimentKeyBytes + config.valueBytes.val) +
        config.operations.val * config.bytesPerOperation ≤ maxExperimentTracePayloadBytes := hle
    refine ⟨_, ⟨hvalue, rfl⟩, _, ⟨by omega, rfl⟩, _, ⟨hrange, rfl⟩, _, ⟨?_, rfl⟩, _, ⟨?_, rfl⟩, hle⟩
    · exact (Nat.le_add_left _ _).trans_lt (hle'.trans_lt hlimit)
    · exact hle'.trans_lt hlimit

/-- What `validate` checks. -/
structure Admitted (config : ExperimentGeneratorConfig) : Prop where
  operations_pos : config.operations.val ≠ 0
  keySpace_pos : config.keySpace.val ≠ 0
  value_le : config.valueBytes.val ≤ maxValueBytes
  every_pos : config.reopenEvery ≠ some 0
  limit_pos : config.rangeLimit.val ≠ 0
  limit_le : config.rangeLimit.val ≤ maxExperimentRangeLimit
  steps_le : config.stepCount ≤ maxExperimentSteps
  payload_le : config.payloadBound ≤ maxExperimentTracePayloadBytes

theorem admitted_of_validate (h : config.validate = .ok ()) : Admitted config := by
  unfold validate at h
  simp only [Checked.bind_eq_ok, checkedAdd_eq_ok, failWhen_eq_ok, not_lt, not_or] at h
  obtain ⟨-, hoperations, -, hkeySpace, -, hvalue, -, hevery, -, -, -, ⟨hlimit, hlimit'⟩, -, -, _, ⟨-, rfl⟩, _,
    ⟨-, rfl⟩, -, hsteps, hpayload⟩ := h
  exact ⟨hoperations, hkeySpace, hvalue, hevery, hlimit, hlimit', hsteps, validateGeneratedPayload_eq_ok.1 hpayload⟩

end ExperimentGeneratorConfig

/-! ### Draws -/

section Draws

variable {config : ExperimentGeneratorConfig} {random : SplitMix64}

theorem bounded_lt {n : ℕ} (h : n ≠ 0) : (random.bounded n).1 < n := Nat.mod_lt _ (Nat.pos_of_ne_zero h)

theorem length_chunks (n : ℕ) (random : SplitMix64) : (SplitMix64.chunks n random).1.length = 8 * n := by
  induction n generalizing random with
  | zero => rfl
  | succ n ih =>
    show (leBytes 8 _ ++ (SplitMix64.chunks n _).1).length = _
    rw [List.length_append, leBytes_length, ih]
    omega

@[simp] theorem length_randomValue (length : U32) : (randomValue random length).1.length = length.val := by
  show ((SplitMix64.chunks ((length.val + 7) / 8) random).1.take length.val).length = _
  rw [List.length_take, length_chunks]
  omega

@[simp] theorem length_experimentKey (keyId : ℕ) : (experimentKey keyId).length = experimentKeyBytes := by
  simp [experimentKey, experimentKeyBytes]

/-- The order of keys is the order of their ids. -/
theorem experimentKey_lt {m n : ℕ} (h : m < n) (hn : n < 2 ^ 64) : experimentKey m < experimentKey n :=
  leBytes_reverse_lt h (by norm_num; omega)

/-- A step that the generator may draw for an operation. -/
structure Drawn (config : ExperimentGeneratorConfig) (step : ExperimentStep) : Prop where
  valid : validateExperimentStep step = .ok ()
  ordered : step.Ordered
  payload_le : step.payload ≤ config.bytesPerOperation

theorem key_le : experimentKeyBytes ≤ maxKeyBytes := by decide

theorem drawn_get {keyId : ℕ} (h : experimentKeyBytes ≤ config.bytesPerOperation) :
    Drawn config (.get (experimentKey keyId)) where
  valid := by simp [validateExperimentStep, key_le]
  ordered := trivial
  payload_le := by simpa [ExperimentStep.payload] using h

theorem drawn_delete {keyId : ℕ} (h : experimentKeyBytes ≤ config.bytesPerOperation) :
    Drawn config (.delete (experimentKey keyId)) where
  valid := by simp [validateExperimentStep, key_le]
  ordered := trivial
  payload_le := by simpa [ExperimentStep.payload] using h

theorem drawn_put {keyId : ℕ} (hvalue : config.valueBytes.val ≤ maxValueBytes)
    (h : experimentKeyBytes + config.valueBytes.val ≤ config.bytesPerOperation) :
    Drawn config (.put (experimentKey keyId) (randomValue random config.valueBytes).1) where
  valid := by simp [validateExperimentStep, key_le, hvalue]
  ordered := trivial
  payload_le := by simpa [ExperimentStep.payload] using h

/-- The end of a range is above its start, also at the end of the key space. -/
theorem drawn_range (h : config.Admitted) (hbytes : experimentKeyBytes * 2 ≤ config.bytesPerOperation) :
    Drawn config (generatedRangeStep random config.keySpace config.rangeLimit).1 := by
  have hstart := @bounded_lt random _ h.keySpace_pos
  have hlimit := h.limit_pos
  have hspace := config.keySpace.isLt
  have hlt : experimentKey (random.bounded config.keySpace.val).1 <
      experimentKey (min ((random.bounded config.keySpace.val).1 + config.rangeLimit.val) config.keySpace.val) := by
    refine experimentKey_lt ?_ ?_
    · omega
    · omega
  constructor
  · show validateExperimentStep (.rangeScan (experimentKey (random.bounded config.keySpace.val).1)
      (some (experimentKey (min ((random.bounded config.keySpace.val).1 + config.rangeLimit.val)
        config.keySpace.val))) config.rangeLimit) = .ok ()
    simp only [validateExperimentStep, validateRangeScan, Checked.bind_eq_ok, failWhen_eq_ok, validateKey_eq_ok,
      length_experimentKey, not_or, not_lt]
    exact ⟨(), ⟨hlimit, h.limit_le⟩, (), key_le, (), key_le, hlt.le⟩
  · exact ⟨⟨_, rfl, hlt⟩, Nat.pos_of_ne_zero hlimit, h.limit_le⟩
  · show (experimentKey _).length + (experimentKey _).length ≤ _
    rw [length_experimentKey, length_experimentKey]
    omega

/-- **Every measured step is drawn inside the bounds.** -/
theorem drawn_measuredStep (h : config.Admitted) (operationIndex : ℕ) (random : SplitMix64) :
    Drawn config (measuredStep config operationIndex random).1 := by
  have hbytes : ∀ {profile : ExperimentProfile} {n : ℕ}, config.profile = profile →
      n ≤ ({ config with profile := profile }).bytesPerOperation → n ≤ config.bytesPerOperation := by
    rintro _ n rfl hn
    exact hn
  unfold measuredStep
  cases hprofile : config.profile with
  | pointRead => exact drawn_get (hbytes hprofile le_rfl)
  | rangeScan => exact drawn_range h (hbytes hprofile le_rfl)
  | sequentialWrite => exact drawn_put h.value_le (hbytes hprofile le_rfl)
  | randomWrite => exact drawn_put h.value_le (hbytes hprofile le_rfl)
  | mixed =>
    have hput := hbytes hprofile (le_max_left (experimentKeyBytes + config.valueBytes.val) (experimentKeyBytes * 2))
    have hscan := hbytes hprofile (le_max_right (experimentKeyBytes + config.valueBytes.val) (experimentKeyBytes * 2))
    dsimp only
    split_ifs
    · exact drawn_put h.value_le hput
    · exact drawn_get (by omega)
    · exact drawn_range h hscan
    · exact drawn_delete (by omega)

end Draws

/-! ### The steps of a trace -/

section Steps

variable {config : ExperimentGeneratorConfig}

theorem setupPut_cons {keyId : ℕ} {keyIds : List ℕ} {random : SplitMix64} :
    (setupPut config (keyId :: keyIds) random).1 =
      .put (experimentKey keyId) (randomValue random config.valueBytes).1 ::
        (setupPut config keyIds (randomValue random config.valueBytes).2).1 := rfl

/-- The setup has one put for each key id, with all its bytes. -/
theorem setupPut_spec (hvalue : config.valueBytes.val ≤ maxValueBytes) (keyIds : List ℕ) (random : SplitMix64) :
    (setupPut config keyIds random).1.length = keyIds.length ∧
      payloadOf (setupPut config keyIds random).1 =
        keyIds.length * (experimentKeyBytes + config.valueBytes.val) ∧
      ∀ step ∈ (setupPut config keyIds random).1, validateExperimentStep step = .ok () ∧ step.Ordered := by
  induction keyIds generalizing random with
  | nil => simp [setupPut]
  | cons keyId keyIds ih =>
    obtain ⟨hlength, hpayload, hsteps⟩ := ih (randomValue random config.valueBytes).2
    rw [setupPut_cons]
    refine ⟨by simp [hlength], ?_, ?_⟩
    · simp only [payloadOf_cons, ExperimentStep.payload, length_experimentKey, length_randomValue, hpayload,
        List.length_cons]
      ring
    · intro step hstep
      rw [List.mem_cons] at hstep
      rcases hstep with rfl | hstep
      · exact ⟨by simp [validateExperimentStep, key_le, hvalue], trivial⟩
      · exact hsteps step hstep

theorem setupOf_spec (h : config.Admitted) (random : SplitMix64) :
    (setupOf config random).1.length = config.setupPuts ∧
      payloadOf (setupOf config random).1 =
        config.setupPuts * (experimentKeyBytes + config.valueBytes.val) ∧
      ∀ step ∈ (setupOf config random).1, validateExperimentStep step = .ok () ∧ step.Ordered := by
  have heven : ∀ n : ℕ, ((List.range n).filter fun keyId => keyId % 2 = 0).length = (n + 1) / 2 := by
    intro n
    induction n with
    | zero => rfl
    | succ n ih =>
      rw [List.range_succ, List.filter_append, List.length_append, ih]
      by_cases hn : n % 2 = 0
      · simp [hn]
        omega
      · simp [hn]
        omega
  unfold setupOf ExperimentGeneratorConfig.setupPuts
  cases config.profile with
  | pointRead => simpa using setupPut_spec h.value_le (List.range config.keySpace.val) random
  | rangeScan => simpa using setupPut_spec h.value_le (List.range config.keySpace.val) random
  | mixed =>
    have hspec := setupPut_spec h.value_le
      ((List.range config.keySpace.val).filter fun keyId => keyId % 2 = 0) random
    rwa [heven] at hspec
  | sequentialWrite => simp
  | randomWrite => simp

/-- The reopen behind an operation, if there is one. -/
def reopensAt (config : ExperimentGeneratorConfig) (operationIndex : ℕ) : List ExperimentStep :=
  match config.reopenEvery with
  | none => []
  | some every => if (operationIndex + 1) % every.val = 0 then [.reopen] else []

theorem measuredOf_cons {operationIndex : ℕ} {rest : List ℕ} {random : SplitMix64} :
    measuredOf config (operationIndex :: rest) random = (measuredStep config operationIndex random).1 ::
      (reopensAt config operationIndex ++ measuredOf config rest (measuredStep config operationIndex random).2) := rfl

/-- The reopens in front of an operation. -/
def reopensBefore (config : ExperimentGeneratorConfig) (operationIndex : ℕ) : ℕ :=
  match config.reopenEvery with
  | none => 0
  | some every => operationIndex / every.val

theorem reopensBefore_succ (operationIndex : ℕ) :
    reopensBefore config (operationIndex + 1) =
      reopensBefore config operationIndex + (reopensAt config operationIndex).length := by
  unfold reopensBefore reopensAt
  cases config.reopenEvery with
  | none => rfl
  | some every =>
    dsimp only
    rw [Nat.succ_div]
    by_cases h : every.val ∣ operationIndex + 1
    · rw [if_pos h, if_pos (Nat.mod_eq_zero_of_dvd h), List.length_singleton]
    · rw [if_neg h, if_neg fun hmod => h (Nat.dvd_of_mod_eq_zero hmod), List.length_nil]

/-- The measured steps: their number, their bytes, and each of them. -/
theorem measuredOf_spec (h : config.Admitted) (first count : ℕ) (random : SplitMix64) :
    (measuredOf config (List.range' first count) random).length + reopensBefore config first =
        count + reopensBefore config (first + count) ∧
      payloadOf (measuredOf config (List.range' first count) random) ≤ count * config.bytesPerOperation ∧
      ∀ step ∈ measuredOf config (List.range' first count) random,
        validateExperimentStep step = .ok () ∧ step.Ordered := by
  induction count generalizing first random with
  | zero => simp [measuredOf]
  | succ count ih =>
    obtain ⟨hlength, hpayload, hsteps⟩ := ih (first + 1) (measuredStep config first random).2
    have hdrawn := drawn_measuredStep h first random
    have hreopens : ∀ step ∈ reopensAt config first, step = .reopen := by
      intro step hstep
      unfold reopensAt at hstep
      cases hevery : config.reopenEvery with
      | none => simp [hevery] at hstep
      | some every =>
        rw [hevery] at hstep
        dsimp only at hstep
        split_ifs at hstep
        · simpa using hstep
        · simp at hstep
    have hzero : payloadOf (reopensAt config first) = 0 := by
      rw [payloadOf, List.sum_eq_zero]
      intro n hn
      obtain ⟨step, hstep, rfl⟩ := List.mem_map.1 hn
      rw [hreopens step hstep]
      rfl
    rw [List.range'_succ, measuredOf_cons]
    refine ⟨?_, ?_, ?_⟩
    · rw [reopensBefore_succ] at hlength
      rw [List.length_cons, List.length_append, show first + (count + 1) = first + 1 + count by omega]
      omega
    · rw [payloadOf_cons, payloadOf_append, hzero, Nat.succ_mul]
      have hle := hdrawn.payload_le
      omega
    · intro step hstep
      rw [List.mem_cons, List.mem_append] at hstep
      rcases hstep with rfl | hstep | hstep
      · exact ⟨hdrawn.valid, hdrawn.ordered⟩
      · rw [hreopens step hstep]
        exact ⟨rfl, trivial⟩
      · exact hsteps step hstep

end Steps

/-! ### Traces -/

section Traces

variable {config : ExperimentGeneratorConfig} {trace : ExperimentTrace}

/-- The trace of a configuration. -/
def generatedTrace (config : ExperimentGeneratorConfig) : ExperimentTrace where
  formatVersion := experimentTraceFormatVersion
  profile := config.profile
  seed := some config.seed
  generator := some config
  setupSteps := (setupOf config ⟨config.seed⟩).1
  measuredSteps := measuredOf config (List.range config.operations.val) (setupOf config ⟨config.seed⟩).2

theorem buildGeneratedTrace_eq : buildGeneratedTrace config =
    (config.validate >>= fun _ => (generatedTrace config).validateStructure >>= fun _ =>
      .ok (generatedTrace config)) := rfl

/-- The bounds of a trace. -/
structure TraceSpec (config : ExperimentGeneratorConfig) (trace : ExperimentTrace) : Prop where
  count : trace.setupSteps.length + trace.measuredSteps.length = config.stepCount
  payload_le : payloadOf trace.steps ≤ config.payloadBound
  steps : ∀ step ∈ trace.steps, validateExperimentStep step = .ok () ∧ step.Ordered

theorem generatedTrace_spec (h : config.Admitted) : TraceSpec config (generatedTrace config) := by
  obtain ⟨hlength, hpayload, hsteps⟩ := setupOf_spec h ⟨config.seed⟩
  obtain ⟨hlength', hpayload', hsteps'⟩ := measuredOf_spec h 0 config.operations.val (setupOf config ⟨config.seed⟩).2
  rw [← List.range_eq_range'] at hlength' hpayload' hsteps'
  have hbefore : reopensBefore config 0 = 0 := by
    unfold reopensBefore
    cases config.reopenEvery with
    | none => rfl
    | some every => exact Nat.zero_div _
  have hreopens : reopensBefore config config.operations.val = config.reopenSteps := rfl
  rw [hbefore, zero_add, hreopens, add_zero] at hlength'
  refine ⟨?_, ?_, ?_⟩
  · show (setupOf config ⟨config.seed⟩).1.length + (measuredOf config _ _).length = _
    rw [hlength, hlength', ExperimentGeneratorConfig.stepCount, add_assoc]
  · show payloadOf ((setupOf config ⟨config.seed⟩).1 ++ measuredOf config _ _) ≤ _
    rw [payloadOf_append, hpayload, ExperimentGeneratorConfig.payloadBound]
    exact Nat.add_le_add_left hpayload' _
  · intro step hstep
    rcases List.mem_append.1 hstep with hstep | hstep
    · exact hsteps step hstep
    · exact hsteps' step hstep

/-- **The generated trace has a valid structure.** -/
theorem generatedTrace_validateStructure (hvalid : config.validate = .ok ()) :
    (generatedTrace config).validateStructure = .ok () := by
  have h := ExperimentGeneratorConfig.admitted_of_validate hvalid
  have hspec := generatedTrace_spec h
  have hcount := hspec.count
  have hsteps := h.steps_le
  have hmax : maxExperimentSteps < u64Limit := by
    rw [u64Limit_eq]
    decide
  have hmeasured : (generatedTrace config).measuredSteps ≠ [] := by
    intro hnil
    obtain ⟨hlength, -⟩ := setupOf_spec h ⟨config.seed⟩
    rw [hnil, List.length_nil, add_zero] at hcount
    have hpos := h.operations_pos
    have hsetup : (generatedTrace config).setupSteps.length = config.setupPuts := hlength
    rw [hsetup, ExperimentGeneratorConfig.stepCount] at hcount
    omega
  have hmetadata : (generatedTrace config).validateMetadata config = .ok () := by
    simp [ExperimentTrace.validateMetadata, hvalid, generatedTrace]
  have hfold := @foldlM_payload (generatedTrace config).steps 0 (fun step hstep => (hspec.steps step hstep).1)
    (by rw [zero_add]; exact hspec.payload_le.trans h.payload_le)
  unfold ExperimentTrace.validateStructure
  simp only [Checked.bind_eq_ok, failWhen_eq_ok, checkedAdd_eq_ok, not_not, not_lt]
  refine ⟨(), rfl, _, ⟨by omega, rfl⟩, (), by omega, (), hmeasured, ?_⟩
  dsimp only [generatedTrace] at hmetadata hfold ⊢
  rw [hmetadata, Checked.ok_bind, hfold, Checked.ok_bind]

theorem buildGeneratedTrace_ok (hvalid : config.validate = .ok ()) :
    buildGeneratedTrace config = .ok (generatedTrace config) := by
  rw [buildGeneratedTrace_eq, hvalid, Checked.ok_bind, generatedTrace_validateStructure hvalid, Checked.ok_bind]

theorem validate_generatedTrace (hvalid : config.validate = .ok ()) : (generatedTrace config).validate = .ok () := by
  show ((generatedTrace config).validateStructure >>= fun _ => buildGeneratedTrace config >>= fun expected =>
    failWhen _ _) = _
  rw [generatedTrace_validateStructure hvalid, Checked.ok_bind, buildGeneratedTrace_ok hvalid, Checked.ok_bind]
  simp

/-- **The generator is closed under its own bounds.** It succeeds exactly for the configurations that pass
their check; the steps are as many as the check has counted, with at most the bytes that it has computed,
each of them valid; and `validate` accepts exactly the traces that are generated. -/
theorem trace_generation :
    (∀ config : ExperimentGeneratorConfig,
      ((∃ trace, buildGeneratedTrace config = .ok trace) ↔ config.validate = .ok ()) ∧
      (config.validateGeneratedPayload = .ok () ↔ config.payloadBound ≤ maxExperimentTracePayloadBytes) ∧
      ∀ trace, buildGeneratedTrace config = .ok trace → TraceSpec config trace ∧ trace.validate = .ok ()) ∧
    ∀ trace : ExperimentTrace,
      trace.validate = .ok () ↔ ∃ config, buildGeneratedTrace config = .ok trace := by
  have hresult : ∀ (config : ExperimentGeneratorConfig) (trace : ExperimentTrace),
      buildGeneratedTrace config = .ok trace → config.validate = .ok () ∧ trace = generatedTrace config := by
    intro config trace htrace
    rw [buildGeneratedTrace_eq] at htrace
    simp only [Checked.bind_eq_ok] at htrace
    obtain ⟨_, hvalid, _, -, hok⟩ := htrace
    cases hok
    exact ⟨hvalid, rfl⟩
  refine ⟨fun config => ⟨⟨?_, fun hvalid => ⟨_, buildGeneratedTrace_ok hvalid⟩⟩,
    ExperimentGeneratorConfig.validateGeneratedPayload_eq_ok, ?_⟩, fun trace => ⟨?_, ?_⟩⟩
  · rintro ⟨trace, htrace⟩
    exact (hresult config trace htrace).1
  · intro trace htrace
    obtain ⟨hvalid, rfl⟩ := hresult config trace htrace
    exact ⟨generatedTrace_spec (ExperimentGeneratorConfig.admitted_of_validate hvalid), validate_generatedTrace hvalid⟩
  · -- the version, the seed, the profile and the steps are those of the embedded configuration
    intro hvalid
    unfold ExperimentTrace.validate ExperimentTrace.validateStructure at hvalid
    cases hgenerator : trace.generator with
    | none => simp [hgenerator] at hvalid
    | some config =>
      rw [hgenerator] at hvalid
      simp only [Checked.bind_eq_ok, failWhen_eq_ok, not_not, not_or, ExperimentTrace.validateMetadata] at hvalid
      obtain ⟨_, ⟨_, hversion, _, -, _, -, _, -, _, ⟨_, hconfig, _, hseed, hprofile⟩, -⟩, expected, hexpected,
        hsetup, hmeasured⟩ := hvalid
      obtain ⟨-, rfl⟩ := hresult config expected hexpected
      refine ⟨config, ?_⟩
      rw [buildGeneratedTrace_ok hconfig]
      cases trace
      simp_all [generatedTrace]
  · rintro ⟨config, htrace⟩
    obtain ⟨hvalid, rfl⟩ := hresult config trace htrace
    exact validate_generatedTrace hvalid

/-- Three operations of every kind over four keys, with a reopen behind the second one. -/
def threeMixed : ExperimentGeneratorConfig := ⟨7, .mixed, 3, 4, 2, 2, some 2⟩

theorem trace_generation_threeMixed : ∃ trace, buildGeneratedTrace threeMixed = .ok trace ∧
    trace.setupSteps.length + trace.measuredSteps.length = 6 ∧ trace.validate = .ok () := by
  have hcheck : threeMixed.validate.toOption = some () := by decide +kernel
  have hvalid : threeMixed.validate = .ok () := by
    cases h : threeMixed.validate with
    | error e => simp [h, Except.toOption] at hcheck
    | ok _ => rfl
  obtain ⟨hsucceeds, -, hspec⟩ := trace_generation.1 threeMixed
  obtain ⟨trace, htrace⟩ := hsucceeds.2 hvalid
  exact ⟨trace, htrace, (hspec trace htrace).1.count, (hspec trace htrace).2⟩

end Traces

end DbLab.Experiment
