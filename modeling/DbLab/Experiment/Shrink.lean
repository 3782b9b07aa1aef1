import DbLab.Core

/-!
# Shrinking a failing workload

`minimizeFailingWorkload` removes chunks of steps from a workload that fails, in finer and finer
divisions, and then single steps until no single step can go. The failure predicate can be any
function, also one that is not monotone.
-/

namespace DbLab.Experiment

def workloadFormatVersion : UInt16 := 1
def maxWorkloadSteps : ℕ := 1000000

inductive WorkloadStep
  | put (key value : Bytes)
  | get (key : Bytes)
  | delete (key : Bytes)
  | reopen
  deriving DecidableEq

structure Workload where
  formatVersion : UInt16
  seed : Option UInt64
  steps : List WorkloadStep
  deriving DecidableEq

namespace Workload

/-- The checks of `validate` on one step. -/
def validateStep : WorkloadStep → Except DbError Unit
  | .put key value => validateKeyValue key value
  | .get key => validateKey key
  | .delete key => validateKey key
  | .reopen => .ok ()

/-- Source `validate`. -/
def validate (workload : Workload) : Except DbError Unit := do
  failWhen (workload.formatVersion ≠ workloadFormatVersion) (.unsupportedVersion "workload"
    workload.formatVersion.toNat workloadFormatVersion.toNat)
  failWhen (maxWorkloadSteps < workload.steps.length) (.invalidInput
    s!"workload has {workload.steps.length} steps; maximum is {maxWorkloadSteps}")
  workload.steps.forM validateStep

/-- Source `without_range`. -/
def withoutRange (workload : Workload) (start stop : ℕ) : Workload :=
  { workload with steps := workload.steps.take start ++ workload.steps.drop stop }

@[simp] theorem withoutRange_formatVersion (workload : Workload) (start stop : ℕ) :
    (workload.withoutRange start stop).formatVersion = workload.formatVersion := rfl

@[simp] theorem withoutRange_seed (workload : Workload) (start stop : ℕ) :
    (workload.withoutRange start stop).seed = workload.seed := rfl

theorem withoutRange_length {workload : Workload} {start stop : ℕ} (h : start < stop)
    (hs : stop ≤ workload.steps.length) :
    (workload.withoutRange start stop).steps.length < workload.steps.length := by
  simp only [withoutRange, List.length_append, List.length_take, List.length_drop]
  omega

theorem withoutRange_sublist (workload : Workload) {start stop : ℕ} (h : start ≤ stop) :
    (workload.withoutRange start stop).steps.Sublist workload.steps := by
  have hdrop : (workload.steps.drop stop).Sublist (workload.steps.drop start) :=
    (List.drop_sublist_drop_left _ h)
  simpa [withoutRange] using hdrop.append_left (workload.steps.take start)

theorem withoutRange_succ (workload : Workload) (index : ℕ) :
    workload.withoutRange index (index + 1) =
      { workload with steps := workload.steps.eraseIdx index } := by
  simp [withoutRange, List.eraseIdx_eq_take_drop_succ]

end Workload

/-! ### The minimizer -/

/-- The number of chunks that the steps are divided into, never fewer than two. -/
structure Granularity where
  chunks : ℕ
  two_le : 2 ≤ chunks

namespace Granularity

def initial : Granularity := ⟨2, le_rfl⟩

/-- After a chunk was removed. -/
def coarser (granularity : Granularity) : Granularity :=
  ⟨max (granularity.chunks - 1) 2, le_max_right _ _⟩

/-- After no chunk could be removed. A workload has at most a million steps, so the source's
saturating product is the product. -/
def finer (granularity : Granularity) {length : ℕ} (h : granularity.chunks < length) :
    Granularity :=
  ⟨min (granularity.chunks * 2) length, by have := granularity.two_le; omega⟩

/-- The source's `length.div_ceil(granularity)`. -/
def chunkSize (granularity : Granularity) (length : ℕ) : ℕ :=
  (length + granularity.chunks - 1) / granularity.chunks

theorem chunkSize_pos (granularity : Granularity) {length : ℕ} (h : 0 < length) :
    0 < granularity.chunkSize length :=
  Nat.div_pos (by omega) (by have := granularity.two_le; omega)

end Granularity

section Minimizer

variable {ε : Type} (reproducesFailure : Workload → Except ε Bool)

/-- The inner loop: the workload without the first chunk from `start` on that can go. -/
def removeChunk (current : Workload) {chunkSize : ℕ} (hc : 0 < chunkSize) (start : ℕ) :
    Except ε (Option Workload) :=
  if _h : start < current.steps.length then
    let stop := min (start + chunkSize) current.steps.length
    -- a chunk that is the whole workload is never removed
    if stop - start = current.steps.length then .ok none
    else do
      let candidate := current.withoutRange start stop
      if ← reproducesFailure candidate then .ok (some candidate)
      else removeChunk current hc stop
  else .ok none
termination_by current.steps.length - start

/-- A chunk that was removed has at least one step, and what is left still fails. -/
theorem removeChunk_eq_some {current candidate : Workload} {chunkSize start : ℕ}
    {hc : 0 < chunkSize}
    (h : removeChunk reproducesFailure current hc start = .ok (some candidate)) :
    reproducesFailure candidate = .ok true ∧
      ∃ start stop, start < stop ∧ stop ≤ current.steps.length ∧
        candidate = current.withoutRange start stop := by
  induction start using removeChunk.induct current hc with
  | case1 start hlt stop hall =>
    rw [removeChunk] at h
    simp [hlt, stop, hall] at h
  | case2 start hlt stop hall ih =>
    rw [removeChunk] at h
    simp only [hlt, ↓reduceDIte] at h
    rw [if_neg hall, Checked.bind_eq_ok] at h
    obtain ⟨b, hb, hr⟩ := h
    cases b with
    | true =>
      simp only [↓reduceIte, Except.ok.injEq, Option.some.injEq] at hr
      subst hr
      exact ⟨hb, start, stop, by simp only [stop]; omega, by simp only [stop]; omega, rfl⟩
    | false => exact ih (by simpa using hr)
  | case3 start hlt =>
    rw [removeChunk] at h
    simp [hlt] at h

theorem removeChunk_length {current candidate : Workload} {chunkSize start : ℕ}
    {hc : 0 < chunkSize}
    (h : removeChunk reproducesFailure current hc start = .ok (some candidate)) :
    candidate.steps.length < current.steps.length := by
  obtain ⟨-, start, stop, hlt, hle, rfl⟩ := removeChunk_eq_some reproducesFailure h
  exact Workload.withoutRange_length hlt hle

/-- The outer loop over the divisions. Either steps go, or the division gets finer. -/
def removeChunks (current : Workload) (granularity : Granularity) : Except ε Workload :=
  if h : 2 ≤ current.steps.length then
    match hr : removeChunk reproducesFailure current
        (granularity.chunkSize_pos (show 0 < current.steps.length by omega)) 0 with
    | .error e => .error e
    | .ok (some candidate) => removeChunks candidate granularity.coarser
    | .ok none =>
      if hg : current.steps.length ≤ granularity.chunks then .ok current
      else removeChunks current (granularity.finer (not_le.1 hg))
  else .ok current
termination_by (current.steps.length, current.steps.length - granularity.chunks)
decreasing_by
  · exact Prod.Lex.left _ _ (removeChunk_length reproducesFailure hr)
  · refine Prod.Lex.right _ ?_
    have := granularity.two_le
    simp only [Granularity.finer]
    omega

/-- The last loop: single steps, from the first one again after each that goes. -/
def removeSteps (current : Workload) (index : ℕ) : Except ε Workload :=
  if h : index < current.steps.length then do
    let candidate := current.withoutRange index (index + 1)
    if ← reproducesFailure candidate then removeSteps candidate 0
    else removeSteps current (index + 1)
  else .ok current
termination_by (current.steps.length, current.steps.length - index)
decreasing_by
  · exact Prod.Lex.left _ _ (Workload.withoutRange_length (Nat.lt_succ_self _) h)
  · exact Prod.Lex.right _ (by omega)

/-- Source `minimize_failing_workload`; `fromDb` turns the errors of this code into the caller's. -/
def minimizeFailingWorkload (fromDb : DbError → ε) (workload : Workload) : Except ε Workload := do
  workload.validate.mapError fromDb
  if ← reproducesFailure workload then
    let current ← removeChunks reproducesFailure workload .initial
    removeSteps reproducesFailure current 0
  else .error (fromDb (.invalidInput
    "workload minimization requires the original workload to reproduce the target failure"))

end Minimizer

/-! ### What the minimizer keeps -/

/-- A failing workload that is left of a workload: the same metadata and some of the steps. -/
structure LeftOf {ε : Type} (reproducesFailure : Workload → Except ε Bool)
    (workload current : Workload) : Prop where
  formatVersion : current.formatVersion = workload.formatVersion
  seed : current.seed = workload.seed
  steps : current.steps.Sublist workload.steps
  fails : reproducesFailure current = .ok true

/-- No single step of the workload can go. -/
def OneMinimal {ε : Type} (reproducesFailure : Workload → Except ε Bool) (current : Workload) :
    Prop :=
  ∀ index < current.steps.length,
    reproducesFailure { current with steps := current.steps.eraseIdx index } = .ok false

section Minimal

variable {ε : Type} {reproducesFailure : Workload → Except ε Bool} {workload : Workload}

theorem LeftOf.refl (h : reproducesFailure workload = .ok true) :
    LeftOf reproducesFailure workload workload :=
  ⟨rfl, rfl, List.Sublist.refl _, h⟩

/-- Another range goes. -/
theorem LeftOf.withoutRange {current : Workload} (h : LeftOf reproducesFailure workload current)
    {start stop : ℕ} (hle : start ≤ stop)
    (hf : reproducesFailure (current.withoutRange start stop) = .ok true) :
    LeftOf reproducesFailure workload (current.withoutRange start stop) :=
  ⟨h.formatVersion, h.seed, (current.withoutRange_sublist hle).trans h.steps, hf⟩

/-- What is left of a valid workload is valid. -/
theorem LeftOf.valid {current : Workload} (h : LeftOf reproducesFailure workload current)
    (hv : workload.validate = .ok ()) : current.validate = .ok () := by
  simp only [Workload.validate, Checked.bind_eq_ok, failWhen_eq_ok, exists_const,
    Checked.forM_eq_ok, not_not, not_lt] at hv ⊢
  obtain ⟨hversion, hlength, hsteps⟩ := hv
  refine ⟨h.formatVersion.trans hversion, h.steps.length_le.trans hlength, ?_⟩
  intro step hstep
  exact hsteps step (h.steps.subset hstep)

variable (total : ∀ candidate, ∃ b, reproducesFailure candidate = .ok b)

include total

theorem removeChunk_total (current : Workload) {chunkSize : ℕ} (hc : 0 < chunkSize) (start : ℕ) :
    ∃ r, removeChunk reproducesFailure current hc start = .ok r := by
  induction start using removeChunk.induct current hc with
  | case1 start hlt stop hall =>
    rw [removeChunk]
    simp [hlt, stop, hall]
  | case2 start hlt stop hall ih =>
    rw [removeChunk]
    simp only [hlt, ↓reduceDIte]
    rw [if_neg hall]
    obtain ⟨b, hb⟩ := total (current.withoutRange start stop)
    rw [hb, Checked.ok_bind]
    cases b with
    | true => exact ⟨_, rfl⟩
    | false => exact ih
  | case3 start hlt =>
    rw [removeChunk]
    simp [hlt]

omit total in
/-- A round of the outer loop that removes a chunk. -/
theorem removeChunks_some {current candidate : Workload} {granularity : Granularity}
    (hlen : 2 ≤ current.steps.length)
    (hr : removeChunk reproducesFailure current
      (granularity.chunkSize_pos (show 0 < current.steps.length by omega)) 0 =
        .ok (some candidate)) :
    removeChunks reproducesFailure current granularity =
      removeChunks reproducesFailure candidate granularity.coarser := by
  rw [removeChunks]
  simp only [hlen, ↓reduceDIte]
  split
  · simp_all
  · simp_all
  · simp_all

omit total in
/-- A round that removes nothing. -/
theorem removeChunks_none {current : Workload} {granularity : Granularity}
    (hlen : 2 ≤ current.steps.length)
    (hr : removeChunk reproducesFailure current
      (granularity.chunkSize_pos (show 0 < current.steps.length by omega)) 0 = .ok none) :
    removeChunks reproducesFailure current granularity =
      if hg : current.steps.length ≤ granularity.chunks then .ok current
      else removeChunks reproducesFailure current (granularity.finer (not_le.1 hg)) := by
  rw [removeChunks]
  simp only [hlen, ↓reduceDIte]
  split
  · simp_all
  · simp_all
  · rfl

/-- The first pass ends, in a failing workload that is left of the one it starts from. -/
theorem removeChunks_left {current : Workload} (granularity : Granularity)
    (h : LeftOf reproducesFailure workload current) :
    ∃ result, removeChunks reproducesFailure current granularity = .ok result ∧
      LeftOf reproducesFailure workload result := by
  induction current, granularity using removeChunks.induct reproducesFailure with
  | case1 current granularity hlen e hr =>
    obtain ⟨r, hr'⟩ := removeChunk_total total current
      (granularity.chunkSize_pos (show 0 < current.steps.length by omega)) 0
    rw [hr'] at hr
    cases hr
  | case2 current granularity hlen candidate hr ih =>
    obtain ⟨hf, start, stop, hlt, -, rfl⟩ := removeChunk_eq_some reproducesFailure hr
    rw [removeChunks_some hlen hr]
    exact ih (h.withoutRange hlt.le hf)
  | case3 current granularity hlen hr hg =>
    rw [removeChunks_none hlen hr]
    simp only [hg, ↓reduceDIte]
    exact ⟨current, rfl, h⟩
  | case4 current granularity hlen hr hg ih =>
    rw [removeChunks_none hlen hr]
    simp only [hg, ↓reduceDIte]
    exact ih h
  | case5 current granularity hlen =>
    refine ⟨current, ?_, h⟩
    rw [removeChunks]
    simp [hlen]

/-- The second pass ends in a workload that is 1-minimal. The steps in front of the index are needed
in the workload of the round; a step that goes makes this void, so the pass starts again. -/
theorem removeSteps_minimal {current : Workload} {index : ℕ}
    (h : LeftOf reproducesFailure workload current)
    (hneeded : ∀ i < index, reproducesFailure (current.withoutRange i (i + 1)) = .ok false) :
    ∃ result, removeSteps reproducesFailure current index = .ok result ∧
      LeftOf reproducesFailure workload result ∧ OneMinimal reproducesFailure result := by
  induction current, index using removeSteps.induct with
  | case1 current index hlt candidate hremoved hkept =>
    rw [removeSteps]
    simp only [hlt, ↓reduceDIte]
    obtain ⟨b, hb⟩ := total (current.withoutRange index (index + 1))
    rw [hb, Checked.ok_bind]
    cases b with
    | true =>
      refine hremoved (h.withoutRange (Nat.le_succ index) hb) ?_
      intro i hi
      exact absurd hi (Nat.not_lt_zero i)
    | false =>
      refine hkept h ?_
      intro i hi
      rcases Nat.lt_succ_iff_lt_or_eq.1 hi with hi | rfl
      · exact hneeded i hi
      · exact hb
  | case2 current index hlt =>
    rw [removeSteps]
    simp only [hlt, ↓reduceDIte]
    refine ⟨current, rfl, h, ?_⟩
    intro i hi
    have hneed := hneeded i (by omega)
    rwa [Workload.withoutRange_succ] at hneed

/-- **The minimizer ends in a failing workload that is 1-minimal**: the metadata stay, the steps are
some of the original ones in their order, and without any single one of them the failure is gone. -/
theorem minimizeFailingWorkload_minimal (fromDb : DbError → ε) (hvalid : workload.validate = .ok ())
    (hfails : reproducesFailure workload = .ok true) :
    ∃ result, minimizeFailingWorkload reproducesFailure fromDb workload = .ok result ∧
      result.formatVersion = workload.formatVersion ∧ result.seed = workload.seed ∧
      result.steps.Sublist workload.steps ∧ result.validate = .ok () ∧
      reproducesFailure result = .ok true ∧ OneMinimal reproducesFailure result := by
  obtain ⟨chunked, hchunked, hleft⟩ :=
    removeChunks_left total .initial (LeftOf.refl hfails)
  have hnone : ∀ i < 0, reproducesFailure (chunked.withoutRange i (i + 1)) = .ok false := by
    intro i hi
    omega
  obtain ⟨result, hresult, hleft', hminimal⟩ := removeSteps_minimal total hleft hnone
  refine ⟨result, ?_, hleft'.formatVersion, hleft'.seed, hleft'.steps, hleft'.valid hvalid,
    hleft'.fails, hminimal⟩
  unfold minimizeFailingWorkload
  rw [hvalid, Except.mapError, Checked.ok_bind, hfails, Checked.ok_bind, if_pos rfl, hchunked,
    Checked.ok_bind, hresult]

end Minimal

/-- A failure that needs two of three steps, although neither of the two fails alone. -/
def needsPair (candidate : Workload) : Except DbError Bool :=
  .ok (decide (WorkloadStep.get [1] ∈ candidate.steps ∧ WorkloadStep.reopen ∈ candidate.steps))

/-- The workload of two gets and a reopen is minimized. -/
theorem minimizeFailingWorkload_needsPair :
    ∃ result, minimizeFailingWorkload needsPair id ⟨1, some 42, [.get [1], .get [2], .reopen]⟩ =
        .ok result ∧
      result.formatVersion = 1 ∧ result.seed = some 42 ∧
      result.steps.Sublist [.get [1], .get [2], .reopen] ∧ result.validate = .ok () ∧
      needsPair result = .ok true ∧ OneMinimal needsPair result :=
  minimizeFailingWorkload_minimal (fun _ => ⟨_, rfl⟩) id (by decide) (by decide)

end DbLab.Experiment
