import DbLab.Experiment.Generation
import DbLab.Experiment.Shrink

/-!
# Generated workloads

`generateWorkload` draws one action after the other from the seed and puts a reopen behind every few of them. What
it makes of a configuration can be told without the draws: which configurations it takes, how many steps there are,
where the reopens stand, and that more operations only add steps at the end.
-/

namespace DbLab.Experiment

open Checked

/-- Source `GeneratorConfig`. -/
structure GeneratorConfig where
  seed : UInt64
  operations : U32
  keySpace : U32
  maxValueBytes : U32
  reopenEvery : Option U32
  deriving DecidableEq

/-- Source `generated_key`. -/
def generatedKey (keyId : ℕ) : Bytes := if keyId = 0 then [] else leBytes 4 keyId

/-- The action that the loop draws. -/
def generatedAction (config : GeneratorConfig) (random : SplitMix64) : WorkloadStep × SplitMix64 :=
  let keyId := random.bounded config.keySpace.val
  let key := generatedKey keyId.1
  let draw := keyId.2.bounded 100
  if draw.1 ≤ 49 then
    let length := draw.2.bounded (config.maxValueBytes.val + 1)
    let value := length.2.fill length.1
    (.put key value.1, value.2)
  else if draw.1 ≤ 79 then (.get key, draw.2)
  else (.delete key, draw.2)

/-- The reopen behind an action, if there is one. -/
def reopenBehind (config : GeneratorConfig) (operationIndex : ℕ) : List WorkloadStep :=
  match config.reopenEvery with
  | none => []
  | some every => if (operationIndex + 1) % every.val = 0 then [.reopen] else []

/-- The loop of `generate_workload` over the operation indices that are left. -/
def generatedSteps (config : GeneratorConfig) : List ℕ → SplitMix64 → List WorkloadStep
  | [], _ => []
  | operationIndex :: rest, random =>
    let action := generatedAction config random
    action.1 :: (reopenBehind config operationIndex ++ generatedSteps config rest action.2)

def GeneratorConfig.reopenCount (config : GeneratorConfig) : ℕ :=
  match config.reopenEvery with
  | none => 0
  | some every => config.operations.val / every.val

/-- Source `generate_workload`. -/
def generateWorkload (config : GeneratorConfig) : Except DbError Workload := do
  failWhen (config.keySpace = 0) (.invalidInput "generator key_space must be greater than zero")
  failWhen (maxValueBytes < config.maxValueBytes.val) (.invalidInput
    s!"generator max_value_bytes is {config.maxValueBytes.val}; maximum is {maxValueBytes}")
  failWhen (config.reopenEvery = some 0) (.invalidInput "generator reopen_every must be greater than zero")
  let capacity ← checkedAdd config.operations.val config.reopenCount (.invalidInput "generated workload is too large")
  failWhen (maxWorkloadSteps < capacity) (.invalidInput
    s!"generated workload would have {capacity} steps; maximum is {maxWorkloadSteps}")
  .ok ⟨workloadFormatVersion, some config.seed,
    generatedSteps config (List.range config.operations.val) ⟨config.seed⟩⟩

variable {config : GeneratorConfig} {workload : Workload} {random : SplitMix64} {step : WorkloadStep}
  {indices : List ℕ} {n every : ℕ}

/-! ### Actions -/

/-- An action that a configuration allows. -/
inductive FromConfig (config : GeneratorConfig) : WorkloadStep → Prop
  | put {keyId : ℕ} {value : Bytes} : keyId < config.keySpace.val → value.length ≤ config.maxValueBytes.val →
      FromConfig config (.put (generatedKey keyId) value)
  | get {keyId : ℕ} : keyId < config.keySpace.val → FromConfig config (.get (generatedKey keyId))
  | delete {keyId : ℕ} : keyId < config.keySpace.val → FromConfig config (.delete (generatedKey keyId))

theorem length_fill (length : ℕ) (random : SplitMix64) : (random.fill length).1.length = length := by
  show ((SplitMix64.chunks ((length + 7) / 8) random).1.take length).length = _
  rw [List.length_take, length_chunks]
  omega

theorem generatedAction_fromConfig (h : config.keySpace ≠ 0) : FromConfig config (generatedAction config random).1 := by
  have hkey : (random.bounded config.keySpace.val).1 < config.keySpace.val :=
    bounded_lt (Fin.val_ne_zero_iff.2 h)
  rw [generatedAction]
  split_ifs
  · refine .put hkey ?_
    rw [length_fill]
    exact Nat.le_of_lt_succ (bounded_lt (Nat.succ_ne_zero _))
  · exact .get hkey
  · exact .delete hkey

theorem FromConfig.ne_reopen (h : FromConfig config step) : step ≠ .reopen := by
  cases h <;> simp

theorem generatedKey_length (keyId : ℕ) : (generatedKey keyId).length ≤ maxKeyBytes := by
  rw [generatedKey]
  split_ifs
  · exact Nat.zero_le _
  · rw [leBytes_length, maxKeyBytes]
    omega

theorem FromConfig.valid (h : FromConfig config step) (hvalue : config.maxValueBytes.val ≤ maxValueBytes) :
    Workload.validateStep step = .ok () := by
  cases h with
  | put _ hlength => exact validateKeyValue_eq_ok.2 ⟨generatedKey_length _, hlength.trans hvalue⟩
  | get _ => exact validateKey_eq_ok.2 (generatedKey_length _)
  | delete _ => exact validateKey_eq_ok.2 (generatedKey_length _)

/-! ### The order of the steps -/

theorem generatedSteps_cons {operationIndex : ℕ} {rest : List ℕ} :
    generatedSteps config (operationIndex :: rest) random = (generatedAction config random).1 ::
      (reopenBehind config operationIndex ++ generatedSteps config rest (generatedAction config random).2) := rfl

theorem reopenBehind_eq {operationIndex : ℕ} (h : step ∈ reopenBehind config operationIndex) : step = .reopen := by
  unfold reopenBehind at h
  cases hevery : config.reopenEvery with
  | none =>
    rw [hevery] at h
    exact absurd h List.not_mem_nil
  | some every =>
    rw [hevery] at h
    dsimp only at h
    split_ifs at h
    · exact List.mem_singleton.1 h
    · exact absurd h List.not_mem_nil

theorem mem_generatedSteps (h : config.keySpace ≠ 0) (hmem : step ∈ generatedSteps config indices random) :
    step = .reopen ∨ FromConfig config step := by
  induction indices generalizing random with
  | nil => exact absurd hmem List.not_mem_nil
  | cons operationIndex rest ih =>
    rw [generatedSteps_cons, List.mem_cons, List.mem_append] at hmem
    rcases hmem with rfl | hreopen | hrest
    · exact .inr (generatedAction_fromConfig h)
    · exact .inl (reopenBehind_eq hreopen)
    · exact ih hrest

/-- Where the reopens of a list stand. -/
def reopens (steps : List WorkloadStep) : List Bool := steps.map fun step => decide (step = .reopen)

theorem reopens_generatedSteps (h : config.keySpace ≠ 0) : reopens (generatedSteps config indices random) =
    indices.flatMap fun operationIndex => false :: (reopenBehind config operationIndex).map fun _ => true := by
  induction indices generalizing random with
  | nil => rfl
  | cons operationIndex rest ih =>
    have hbehind : reopens (reopenBehind config operationIndex) =
        (reopenBehind config operationIndex).map fun _ => true :=
      List.map_congr_left fun step hstep => decide_eq_true (reopenBehind_eq hstep)
    rw [generatedSteps_cons, reopens, List.map_cons, List.map_append, List.flatMap_cons,
      decide_eq_false (generatedAction_fromConfig h).ne_reopen]
    exact congrArg (false :: ·) (congrArg₂ (· ++ ·) hbehind ih)

theorem step_index (n : ℕ) (h : 0 < every) : (n + n / every + 1) % (every + 1) = n % every + 1 := by
  have hsplit : n + n / every + 1 = (every + 1) * (n / every) + (n % every + 1) := by
    have hn := Nat.div_add_mod n every
    rw [Nat.add_mul, Nat.one_mul]
    omega
  rw [hsplit, Nat.mul_add_mod, Nat.mod_eq_of_lt (Nat.succ_lt_succ (Nat.mod_lt n h))]

theorem succ_mod_eq_zero (h : 0 < every) : (n + 1) % every = 0 ↔ n % every + 1 = every := by
  have hlt := Nat.mod_lt n h
  rw [← Nat.mod_add_mod]
  by_cases hlast : n % every + 1 = every
  · rw [hlast, Nat.mod_self]
    exact iff_of_true rfl rfl
  · rw [Nat.mod_eq_of_lt (by omega)]
    exact iff_of_false (Nat.succ_ne_zero _) hlast

/-- **A reopen stands behind every few actions**, so at every multiple of one more. -/
theorem reopens_range (h : 0 < every) (n : ℕ) :
    ((List.range n).flatMap fun i => false :: if (i + 1) % every = 0 then [true] else []) =
      (List.range (n + n / every)).map fun j => decide ((j + 1) % (every + 1) = 0) := by
  induction n with
  | zero => simp
  | succ n ih =>
    have hindex := step_index n h
    have haction : decide ((n + n / every + 1) % (every + 1) = 0) = false := by
      rw [hindex]
      exact decide_eq_false (Nat.succ_ne_zero _)
    rw [List.range_succ, List.flatMap_append, ih, List.flatMap_singleton]
    by_cases hlast : (n + 1) % every = 0
    · have hcount : n + 1 + (n + 1) / every = n + n / every + 1 + 1 := by
        rw [Nat.succ_div_of_dvd (Nat.dvd_of_mod_eq_zero hlast)]
        omega
      have hreopen : (n + n / every + 1 + 1) % (every + 1) = 0 := by
        rw [← Nat.mod_add_mod, hindex, (succ_mod_eq_zero h).1 hlast, Nat.mod_self]
      rw [if_pos hlast, hcount, List.range_succ, List.map_append, List.range_succ, List.map_append, List.append_assoc]
      simp [haction, hreopen]
    · have hcount : n + 1 + (n + 1) / every = n + n / every + 1 := by
        rw [Nat.succ_div_of_not_dvd fun hdvd => hlast (Nat.mod_eq_zero_of_dvd hdvd)]
        omega
      rw [if_neg hlast, hcount, List.range_succ, List.map_append]
      simp [haction]

/-! ### Configurations -/

/-- What `generate_workload` checks of a configuration. -/
structure GeneratorConfig.Allowed (config : GeneratorConfig) : Prop where
  keySpace : config.keySpace ≠ 0
  value_le : config.maxValueBytes.val ≤ DbLab.maxValueBytes
  every : config.reopenEvery ≠ some 0
  steps_le : config.operations.val + config.reopenCount ≤ maxWorkloadSteps

/-- A reopen is due at an index of the steps. -/
def GeneratorConfig.ReopenAt (config : GeneratorConfig) (j : ℕ) : Prop :=
  ∃ every, config.reopenEvery = some every ∧ (j + 1) % (every.val + 1) = 0

theorem generateWorkload_eq_ok : generateWorkload config = .ok workload ↔ config.Allowed ∧
    workload = ⟨workloadFormatVersion, some config.seed,
      generatedSteps config (List.range config.operations.val) ⟨config.seed⟩⟩ := by
  constructor
  · intro h
    unfold generateWorkload at h
    simp only [bind_eq_ok, failWhen_eq_ok, checkedAdd_eq_ok, not_lt, Except.ok.injEq] at h
    obtain ⟨-, hkeySpace, -, hvalue, -, hevery, _, ⟨-, rfl⟩, -, hsteps, rfl⟩ := h
    exact ⟨⟨hkeySpace, hvalue, hevery, hsteps⟩, rfl⟩
  · rintro ⟨h, rfl⟩
    have hlimit : config.operations.val + config.reopenCount < u64Limit := by
      have hsteps := h.steps_le
      rw [maxWorkloadSteps] at hsteps
      rw [u64Limit_eq]
      omega
    rw [generateWorkload, failWhen_eq_ok (u := ()) |>.2 h.keySpace, ok_bind,
      failWhen_eq_ok (u := ()) |>.2 (not_lt.2 h.value_le), ok_bind, failWhen_eq_ok (u := ()) |>.2 h.every, ok_bind,
      checkedAdd_eq_ok.2 ⟨hlimit, rfl⟩, ok_bind, failWhen_eq_ok (u := ()) |>.2 (not_lt.2 h.steps_le), ok_bind]

/-- The steps of a configuration without reopens, or with one behind every few actions. -/
theorem generated_shape (h : config.keySpace ≠ 0) (hevery : config.reopenEvery ≠ some 0) (random : SplitMix64) (n : ℕ) :
    config.reopenEvery = none ∧
        reopens (generatedSteps config (List.range n) random) = List.replicate n false ∨
      ∃ every, config.reopenEvery = some every ∧ reopens (generatedSteps config (List.range n) random) =
        (List.range (n + n / every.val)).map fun j => decide ((j + 1) % (every.val + 1) = 0) := by
  rw [reopens_generatedSteps h]
  cases hcase : config.reopenEvery with
  | none =>
    left
    have hbehind : (fun i => false :: (reopenBehind config i).map fun _ => true) = fun _ => [false] := by
      funext i
      rw [reopenBehind, hcase]
      rfl
    rw [hbehind]
    refine ⟨rfl, ?_⟩
    rw [List.eq_replicate_iff]
    simp [List.length_flatMap]
  | some every =>
    right
    have hpos : 0 < every.val := by
      rw [Nat.pos_iff_ne_zero]
      rintro hzero
      rw [hcase] at hevery
      exact hevery (congrArg some (Fin.ext hzero))
    have hbehind : (fun i => false :: (reopenBehind config i).map fun _ => true) =
        fun i => false :: if (i + 1) % every.val = 0 then [true] else [] := by
      funext i
      rw [reopenBehind, hcase]
      dsimp only
      split_ifs <;> rfl
    rw [hbehind]
    exact ⟨every, rfl, reopens_range hpos n⟩

theorem generatedSteps_length (h : config.Allowed) (random : SplitMix64) :
    (generatedSteps config (List.range config.operations.val) random).length =
      config.operations.val + config.reopenCount := by
  have hlength : ∀ steps : List WorkloadStep, steps.length = (reopens steps).length :=
    fun steps => (List.length_map _).symm
  rw [hlength, GeneratorConfig.reopenCount]
  rcases generated_shape h.keySpace h.every random config.operations.val with ⟨hnone, hshape⟩ | ⟨every, hsome, hshape⟩
  · rw [hshape, hnone, List.length_replicate]
    rfl
  · rw [hshape, hsome, List.length_map, List.length_range]

theorem reopen_iff (h : config.Allowed) {j : ℕ}
    (hstep : (generatedSteps config (List.range n) random)[j]? = some step) :
    step = .reopen ↔ config.ReopenAt j := by
  have hmark : (reopens (generatedSteps config (List.range n) random))[j]? = some (decide (step = .reopen)) := by
    rw [reopens, List.getElem?_map, hstep]
    rfl
  rcases generated_shape h.keySpace h.every random n with ⟨hnone, hshape⟩ | ⟨every, hsome, hshape⟩
  · rw [hshape] at hmark
    have hfalse := List.eq_of_mem_replicate (List.mem_of_getElem? hmark)
    refine iff_of_false (of_decide_eq_false hfalse) ?_
    rintro ⟨every, hevery, -⟩
    rw [hnone] at hevery
    cases hevery
  · rw [hshape, List.getElem?_map] at hmark
    obtain ⟨k, hk, hdecide⟩ := Option.map_eq_some_iff.1 hmark
    obtain ⟨hlt, hget⟩ := List.getElem?_eq_some_iff.1 hk
    rw [List.getElem_range] at hget
    subst hget
    rw [decide_eq_decide] at hdecide
    rw [← hdecide]
    constructor
    · exact fun hmod => ⟨every, hsome, hmod⟩
    · rintro ⟨every', hevery', hmod⟩
      rw [hsome, Option.some.injEq] at hevery'
      rwa [hevery']

/-! ### More operations -/

theorem generatedSteps_prefix (tail : List ℕ) :
    generatedSteps config indices random <+: generatedSteps config (indices ++ tail) random := by
  induction indices generalizing random with
  | nil => exact List.nil_prefix
  | cons operationIndex rest ih =>
    rw [List.cons_append, generatedSteps_cons, generatedSteps_cons, List.cons_prefix_cons,
      List.prefix_append_right_inj]
    exact ⟨rfl, ih⟩

theorem generatedSteps_operations (operations : U32) :
    generatedSteps { config with operations := operations } indices random = generatedSteps config indices random := by
  induction indices generalizing random with
  | nil => rfl
  | cons operationIndex rest ih =>
    have haction : generatedAction { config with operations := operations } random =
        generatedAction config random := rfl
    have hbehind : reopenBehind { config with operations := operations } operationIndex =
        reopenBehind config operationIndex := rfl
    rw [generatedSteps_cons, generatedSteps_cons, haction, hbehind, ih]

/-- **What is generated.** Exactly the checked configurations give a workload. It passes the validation of workloads, it
has as many actions as the configuration asks for, over its keys and with values within its bound, and a reopen behind
every so many of them and nowhere else; and with more operations the same seed only adds steps at the end. -/
theorem generateWorkload_exact (config : GeneratorConfig) :
    ((∃ workload, generateWorkload config = .ok workload) ↔ config.Allowed) ∧
    ∀ workload, generateWorkload config = .ok workload →
      workload.validate = .ok () ∧ workload.seed = some config.seed ∧
      workload.steps.length = config.operations.val + config.reopenCount ∧
      (∀ j step, workload.steps[j]? = some step →
        (step = .reopen ↔ config.ReopenAt j) ∧ (step = .reopen ∨ FromConfig config step)) ∧
      ∀ operations longer, config.operations ≤ operations →
        generateWorkload { config with operations := operations } = .ok longer → workload.steps <+: longer.steps := by
  constructor
  · constructor
    · rintro ⟨workload, h⟩
      exact (generateWorkload_eq_ok.1 h).1
    · exact fun h => ⟨_, generateWorkload_eq_ok.2 ⟨h, rfl⟩⟩
  · intro workload hgenerate
    obtain ⟨h, rfl⟩ := generateWorkload_eq_ok.1 hgenerate
    have hlength := generatedSteps_length h ⟨config.seed⟩
    refine ⟨?_, rfl, hlength, fun j step hstep => ⟨reopen_iff h hstep, ?_⟩, fun operations longer hle hlonger => ?_⟩
    · refine bind_eq_ok.2 ⟨(), failWhen_eq_ok.2 (fun hne => hne rfl), bind_eq_ok.2 ⟨(), failWhen_eq_ok.2 ?_,
        forM_eq_ok.2 fun step hstep => ?_⟩⟩
      · rw [hlength]
        exact not_lt.2 h.steps_le
      · rcases mem_generatedSteps h.keySpace hstep with rfl | hfrom
        · rfl
        · exact hfrom.valid h.value_le
    · exact mem_generatedSteps h.keySpace (List.mem_of_getElem? hstep)
    · obtain ⟨-, rfl⟩ := generateWorkload_eq_ok.1 hlonger
      have hrange : List.range operations.val = List.range config.operations.val ++
          List.range' config.operations.val (operations.val - config.operations.val) := by
        have happend := @List.range'_append_1 0 config.operations.val (operations.val - config.operations.val)
        rw [Nat.zero_add, Nat.add_sub_cancel' hle] at happend
        rw [List.range_eq_range', List.range_eq_range', happend]
      have hsame : generatedSteps { config with operations := operations } (List.range operations.val) ⟨config.seed⟩ =
          generatedSteps config (List.range operations.val) ⟨config.seed⟩ := generatedSteps_operations operations
      dsimp only
      rw [hsame, hrange]
      exact generatedSteps_prefix _

example : (generateWorkload ⟨0x5eed, 6, 8, 4, some 3⟩).map (fun workload => reopens workload.steps) =
    .ok [false, false, false, true, false, false, false, true] := by decide +kernel

end DbLab.Experiment
