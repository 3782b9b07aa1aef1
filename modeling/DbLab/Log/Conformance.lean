import DbLab.Experiment.Differential
import DbLab.Log.Compacted
import DbLab.Log.Quiet

/-!
# The append log conforms to the reference engine

Every call of a usable handle that succeeds is answered as the reference engine answers it, whatever the calls meet
at the file system, as long as no other process writes the file of the handle.
-/

namespace DbLab.Log

open Record Memory

def LogEngine.capabilities : Experiment.EngineCapabilities where
  name := "append-log-v1"
  logicalModel := .keyValue
  storageArchitecture := .appendLog
  concurrency := .callerSerialized
  persistence := .persistent
  crashRecovery := .truncatedFinalAppend
  distribution := .standalone
  orderedRangeScan := false
  maxKeyBytes := maxKeyBytes
  maxValueBytes := maxValueBytes

/-- A handle, and what its next calls meet; behind the end of the list nothing goes wrong. -/
structure Environment where
  handle : Handle
  surroundings : List Surroundings

namespace Environment

variable {α : Type}

/-- A call in the next surroundings. -/
def meet (call : Surroundings → Prog Handle DbError α) : Prog Environment DbError α := fun environment =>
  let around := environment.surroundings.head?.getD Handle.quiet
  let (result, handle) := call around environment.handle
  (result, ⟨handle, environment.surroundings.tail⟩)

instance : Experiment.KvEngine Environment where
  capabilities _ := LogEngine.capabilities
  put key value := meet fun around => Handle.put around key value
  get key := meet fun _ => Handle.get key
  delete key := meet fun around => Handle.delete around key
  rangeScan _ _ _ := Prog.throw (.invalidInput
    s!"engine {LogEngine.capabilities.name} does not expose ordered range scans")
  reopen := meet Handle.reopen

theorem meet_run {call : Surroundings → Prog Handle DbError α} {environment : Environment} {result : Except DbError α}
    {handle : Handle}
    (h : call (environment.surroundings.head?.getD Handle.quiet) environment.handle = (result, handle)) :
    meet call environment = (result, ⟨handle, environment.surroundings.tail⟩) := by
  rw [meet, h]

theorem meet_refines {call : Surroundings → Prog Handle DbError α} {reference : Prog MemoryEngine DbError α}
    {R : Handle → MemoryEngine → Prop} (h : ∀ around, Prog.Refines R (call around) reference) :
    Prog.Refines (fun environment : Environment => R environment.handle) (meet call) reference := by
  intro environment engine hrel a environment' hrun
  rcases hcall : call (environment.surroundings.head?.getD Handle.quiet) environment.handle with ⟨result, handle⟩
  rw [meet_run hcall, Prod.mk.injEq] at hrun
  obtain ⟨rfl, rfl⟩ := hrun
  exact h _ _ engine hrel a handle hcall

end Environment

namespace Handle

variable {h h' : Handle} {around : Surroundings} {op : Op} {values : SortedMap Bytes Bytes} {previous : Option Bytes}
  {engine : LogEngine} {ms : List Mutation} {key : Bytes} {reference : MemoryEngine}

/-- A usable handle with the values of a reference engine. -/
structure Matches (h : Handle) (reference : MemoryEngine) : Prop where
  held : h.held = true
  holds : ∃ ms, h.engine.Holds ms
  values : h.engine.values = reference.values.entries

theorem entries_mutate (sequence : ℕ) : (op.mutate values).entries = replay values.entries (op.mutation sequence) := by
  cases op with
  | put key value => rfl
  | delete key => rfl

/-- **A mutation that ends well** keeps the handle in step. -/
theorem Matches.performed (op : Op) (hmatches : Matches h reference) (hrun : perform around op h = (.ok previous, h')) :
    previous = reference.values.find op.key ∧ Matches h' ⟨op.mutate reference.values⟩ := by
  obtain ⟨hheld, ⟨ms, hholds⟩, hvalues⟩ := hmatches
  rcases @perform_run op with ⟨e, hrefused⟩ | hperform
  · rw [hrefused] at hrun
    cases hrun
  · rw [hperform] at hrun
    rcases (Floor.of_holds hholds hheld).append around op with ⟨log, happended, hlive, happend⟩ |
      ⟨e, h'', happend, -, -⟩ | ⟨e, hrefused⟩
    · rw [happend] at hrun
      cases hrun
      refine ⟨by rw [hvalues]; rfl, hheld, ⟨_, happended, ?_, hlive⟩, ?_⟩
      · rw [LogEngine.replayAll_append, ← hholds.values]
      · rw [entries_mutate h.engine.log.nextSequence, ← hvalues]
    · rw [happend] at hrun
      cases hrun
    · have happend : append around op.kind op.key op.value h = (.error e, h) := hrefused around h.engine.log.file
      rw [happend] at hrun
      cases hrun

/-- **A reopening that ends well** gives the engine back, whatever goes wrong on the way that does not stop it. -/
theorem reopen_holds (hheld : h.held = true) (hholds : h.engine.Holds ms) :
    Prog.wp (reopen around) (fun _ h' => h' = { h with engine := { h.engine with recoveredTail := none } })
      (fun _ _ => True) h := by
  unfold Handle.reopen
  rw [Prog.wp_bind]
  refine wp_orRelease (fun _ _ => ?_) fun _ => trivial
  rw [Prog.wp_bind]
  refine wp_orPoison (fun _ _ => ?_) fun _ => trivial
  rw [Prog.wp_bind]
  refine wp_orPoison (fun _ _ => ?_) fun _ => trivial
  rw [Prog.wp_bind, checkIdentity, Prog.wp_bind, Prog.wp_get, if_pos hheld, Prog.wp_bind]
  refine wp_orRelease (fun _ _ => ?_) fun _ => trivial
  refine wp_orPoison (fun _ hidentity => ?_) fun _ => trivial
  -- the path leads to the file of the handle
  have helsewhere : around.elsewhere = none := by
    rw [failWhen_eq_ok] at hidentity
    exact Option.not_isSome_iff_eq_none.1 hidentity
  rw [Prog.wp_bind, Prog.wp_get, Prog.wp_bind, helsewhere, Option.getD_none]
  refine wp_orPoison (fun _ _ => ?_) fun _ => trivial
  rcases fromCandidate_cases around h.engine.log.file with ⟨engine, left, hrun, hopen⟩ | ⟨e, left, hrun, -⟩
  · rw [hrun]
    have hengine : engine = { h.engine with recoveredTail := none } := by
      have hprefix : h.engine.log.file.take h.engine.log.acknowledgedValidBytes = h.engine.log.acknowledgedPrefix := by
        rw [hholds.appended.acknowledged, List.take_length, hholds.appended.acknowledgedPrefix]
      unfold LogEngine.fromFile at hopen
      simp only [Bool.false_eq_true, if_false, scanFile_of_holds hholds, Checked.ok_bind, Option.isSome_none,
        Except.ok.injEq, hprefix] at hopen
      rw [← hopen, ← hholds.usable]
    rw [hengine]
    show ({ h with held := true, engine := { h.engine with recoveredTail := none } } : Handle) = _
    rw [← hheld]
  · rw [hrun]
    exact trivial

/-! ### Conformance -/

theorem put_refines (around : Surroundings) (key value : Bytes) :
    Prog.Refines Matches (put around key value) (MemoryEngine.put key value) := by
  intro h reference hmatches previous h' hrun
  obtain ⟨⟨⟩, h₁, hcheck, -⟩ := Prog.bind_eq_ok.1 hrun
  obtain ⟨hvalid, rfl⟩ := Experiment.ofExcept_eq_ok.1 hcheck
  obtain ⟨rfl, hafter⟩ := Matches.performed (.put key value) hmatches hrun
  exact ⟨_, MemoryEngine.put_run hvalid, hafter⟩

theorem get_refines (key : Bytes) : Prog.Refines Matches (get key) (MemoryEngine.get key) := by
  intro h reference hmatches found h' hrun
  obtain ⟨⟨⟩, h₁, hcheck, hbody⟩ := Prog.bind_eq_ok.1 hrun
  obtain ⟨hvalid, rfl⟩ := Experiment.ofExcept_eq_ok.1 hcheck
  obtain ⟨⟨⟩, h₂, husable, hbody⟩ := Prog.bind_eq_ok.1 hbody
  rw [ensureUsable, Prog.reads, Prod.mk.injEq] at husable
  obtain ⟨-, rfl⟩ := husable
  cases hbody
  refine ⟨reference, ?_, hmatches⟩
  rw [MemoryEngine.get_run hvalid, hmatches.values]
  rfl

theorem delete_refines (around : Surroundings) (key : Bytes) :
    Prog.Refines Matches (delete around key) (MemoryEngine.delete key) := by
  intro h reference hmatches previous h' hrun
  obtain ⟨⟨⟩, h₁, hcheck, -⟩ := Prog.bind_eq_ok.1 hrun
  obtain ⟨hvalid, rfl⟩ := Experiment.ofExcept_eq_ok.1 hcheck
  obtain ⟨rfl, hafter⟩ := Matches.performed (.delete key) hmatches hrun
  exact ⟨_, MemoryEngine.delete_run hvalid, hafter⟩

theorem reopen_refines (around : Surroundings) : Prog.Refines Matches (reopen around) MemoryEngine.reopen := by
  intro h reference hmatches u h' hrun
  obtain ⟨hheld, ⟨ms, hholds⟩, hvalues⟩ := hmatches
  obtain rfl := Prog.wp_ok (reopen_holds hheld hholds) hrun
  exact ⟨reference, rfl, hheld, ⟨ms, hholds.appended, hholds.values, hholds.usable⟩, hvalues⟩

theorem conforms : Experiment.Conforms fun environment : Environment => Matches environment.handle where
  put key value := Environment.meet_refines fun around => put_refines around key value
  get key := Environment.meet_refines fun _ => get_refines key
  delete key := Environment.meet_refines fun around => delete_refines around key
  rangeScan start stop limit := by
    intro environment reference _ rows environment' hrun
    cases hrun
  reopen := Environment.meet_refines reopen_refines

theorem comparable : Experiment.checkComparable MemoryEngine.capabilities LogEngine.capabilities = .ok () := rfl

/-- The reference engine with the values of an engine. -/
theorem exists_values (hholds : engine.Holds ms) : ∃ values : SortedMap Bytes Bytes, engine.values = values.entries :=
  ⟨⟨replayAll ms, sortedBy_replayAll' ms⟩, hholds.values⟩

/-! ### Without faults -/

/-- The bytes of the longest record. -/
def longestRecord : ℕ := 32 + (maxKeyBytes + maxValueBytes)

/-- There is room for `n` more records. -/
structure Room (h : Handle) (n : ℕ) : Prop where
  held : h.held = true
  holds : ∃ ms, h.engine.Holds ms ∧ 1 + (ms.length + n) < u64Limit ∧
    h.engine.log.file.length + n * longestRecord < u64Limit

theorem Room.less {n k : ℕ} (hroom : Room h n) (hle : k ≤ n) : Room h k := by
  obtain ⟨hheld, ms, hholds, hcount, hsize⟩ := hroom
  have hmul := Nat.mul_le_mul_right longestRecord hle
  exact ⟨hheld, ms, hholds, by omega, by omega⟩

/-- A record that there is room for is prepared. -/
theorem Room.prepare {n : ℕ} (hroom : Room h (n + 1)) (hkey : op.key.length ≤ maxKeyBytes)
    (hvalue : op.value.length ≤ maxValueBytes) :
    ∃ next, h.engine.log.prepare recordFormat appendTexts op.kind op.key op.value = .ok next := by
  obtain ⟨-, ms, hholds, hcount, hsize⟩ := hroom
  unfold Appender.prepare
  simp only [Checked.bind_eq_ok, checkedSucc_eq_ok, checkedAdd_eq_ok, RecordFormat.encodeRecord_eq_ok, Except.ok.injEq]
  refine ⟨_, _, ⟨?_, rfl⟩, _, ⟨?_, rfl⟩, _, ⟨⟨hkey, hvalue, ?_⟩, rfl⟩, _, ⟨?_, rfl⟩, rfl⟩
  · rw [hholds.appended.nextSequence]
    omega
  · rw [hholds.appended.recordCount]
    omega
  · intro hdelete
    cases op with
    | put key value => cases hdelete
    | delete key => rfl
  · rw [hholds.appended.acknowledged, RecordFormat.recordBytes_length]
    rw [Nat.succ_mul, longestRecord] at hsize
    omega

/-- **A mutation that there is room for** ends well. -/
theorem Room.perform {n : ℕ} (op : Op) (hroom : Room h (n + 1)) (hquiet : Quiet around)
    (hkey : op.key.length ≤ maxKeyBytes) (hvalue : op.value.length ≤ maxValueBytes) :
    ∃ previous h', Handle.perform around op h = (.ok previous, h') ∧ Room h' n := by
  obtain ⟨next, hprepare⟩ := hroom.prepare hkey hvalue
  obtain ⟨hheld, ms, hholds, hcount, hsize⟩ := hroom
  have husable : LogEngine.ensureUsable h.engine = (.ok (), h.engine) := by
    simp [LogEngine.ensureUsable, Prog.reads, hholds.usable]
  have hengine : LogEngine.append op.kind op.key op.value h.engine = (.ok (), { h.engine with log := next }) := by
    rw [LogEngine.append, Prog.bind_ok husable, Prog.get_bind, hprepare, Prog.ofExcept_ok_bind,
      hholds.appended.validate]
    rfl
  have happend : append around op.kind op.key op.value h =
      (.ok (), { h with engine := { h.engine with log := next } }) := by
    have hrun := append_of_quiet hquiet h.path h.engine op.kind op.key op.value
    rw [hengine, ← hheld] at hrun
    exact hrun
  have happended := hholds.appended.prepare hprepare
  have hlength : next.file.length + n * longestRecord < u64Limit := by
    rw [happended.file_eq, RecordFormat.recordsBytes_append, ← List.append_assoc, ← hholds.appended.file_eq,
      List.length_append, RecordFormat.recordsBytes_cons, RecordFormat.recordsBytes_nil, List.append_nil,
      RecordFormat.mutationBytes_length, Op.mutation_key, Op.mutation_valueBytes]
    rw [Nat.succ_mul] at hsize
    rw [longestRecord] at hsize ⊢
    omega
  have hroom : ∀ values, values = replayAll (ms ++ [op.mutation h.engine.log.nextSequence]) →
      Room { h with engine := { h.engine with log := next, values := values } } n := fun values hvalues =>
    ⟨hheld, _, ⟨happended, hvalues, hholds.usable⟩, by rw [List.length_append, List.length_singleton]; omega, hlength⟩
  have hreplayed : replayAll (ms ++ [op.mutation h.engine.log.nextSequence]) =
      replay h.engine.values (op.mutation h.engine.log.nextSequence) := by
    rw [LogEngine.replayAll_append, hholds.values]
  cases op with
  | put key value =>
    have hvalid : validateKeyValue key value = .ok () := validateKeyValue_eq_ok.2 ⟨hkey, hvalue⟩
    refine ⟨(lookupBy Prod.fst key h.engine.values).map Prod.snd, _, ?_, hroom _ hreplayed.symm⟩
    rw [Handle.perform, put, hvalid, Prog.ofExcept_ok_bind, Prog.get_bind]
    exact Prog.bind_ok happend
  | delete key =>
    have hvalid : validateKey key = .ok () := validateKey_eq_ok.2 hkey
    refine ⟨(lookupBy Prod.fst key h.engine.values).map Prod.snd, _, ?_, hroom _ hreplayed.symm⟩
    rw [Handle.perform, delete, hvalid, Prog.ofExcept_ok_bind, Prog.get_bind]
    exact Prog.bind_ok happend

theorem Room.get {n : ℕ} (hroom : Room h n) (hkey : validateKey key = .ok ()) :
    ∃ found, Handle.get key h = (.ok found, h) := by
  obtain ⟨hheld, ms, hholds, -⟩ := hroom
  have husable : ensureUsable h = (.ok (), h) := by
    rw [ensureUsable, Prog.reads, hholds.usable, hheld]
    rfl
  refine ⟨(lookupBy Prod.fst key h.engine.values).map Prod.snd, ?_⟩
  rw [Handle.get, hkey, Prog.ofExcept_ok_bind, Prog.bind_ok husable]
  rfl

theorem Room.reopen {n : ℕ} (hroom : Room h n) (hquiet : Quiet around) (helsewhere : around.elsewhere = none) :
    ∃ h', Handle.reopen around h = (.ok (), h') ∧ Room h' n := by
  obtain ⟨hheld, ms, hholds, hcount, hsize⟩ := hroom
  have hrun := reopen_of_quiet hquiet helsewhere h.path hholds
  have hsame : (⟨h.path, true, h.engine⟩ : Handle) = h := by rw [← hheld]
  rw [hsame] at hrun
  exact ⟨_, hrun, rfl, ms, ⟨hholds.appended, hholds.values, hholds.usable⟩, hcount, hsize⟩

/-- Nothing goes wrong in the surroundings, and no file takes the place of the one of the handle. -/
def Calm (environment : Environment) : Prop :=
  ∀ around ∈ environment.surroundings, Quiet around ∧ around.elsewhere = none

theorem Calm.head {environment : Environment} (h : Calm environment) :
    Quiet (environment.surroundings.head?.getD quiet) ∧
      (environment.surroundings.head?.getD quiet).elsewhere = none := by
  cases hnext : environment.surroundings.head? with
  | none => exact ⟨fun _ => rfl, rfl⟩
  | some around => exact h around (List.mem_of_head? hnext)

/-- **Every valid step** ends well where there is room for a record and nothing goes wrong. -/
theorem Room.step {n : ℕ} {step : Experiment.WorkloadStep} {environment : Environment}
    (hroom : Room environment.handle (n + 1)) (hcalm : Calm environment)
    (hvalid : Experiment.Workload.validateStep step = .ok ()) :
    ∃ outcome environment', Experiment.executeStep step environment = (.ok outcome, environment') ∧
      Room environment'.handle n ∧ Calm environment' := by
  obtain ⟨hquiet, helsewhere⟩ := hcalm.head
  have hrest : ∀ handle, Calm ⟨handle, environment.surroundings.tail⟩ := fun _ around haround =>
    hcalm around (List.mem_of_mem_tail haround)
  cases step with
  | put key value =>
    obtain ⟨hkey, hvalue⟩ := validateKeyValue_eq_ok.1 hvalid
    obtain ⟨previous, h', hrun, hroom'⟩ := Room.perform (.put key value) hroom hquiet hkey hvalue
    exact ⟨_, _, Prog.bind_ok (Environment.meet_run hrun), hroom', hrest h'⟩
  | get key =>
    obtain ⟨found, hrun⟩ := hroom.get hvalid
    exact ⟨_, _, Prog.bind_ok (Environment.meet_run hrun), hroom.less (Nat.le_succ n), hrest _⟩
  | delete key =>
    obtain ⟨previous, h', hrun, hroom'⟩ := Room.perform (.delete key) hroom hquiet (validateKey_eq_ok.1 hvalid)
      (Nat.zero_le _)
    exact ⟨_, _, Prog.bind_ok (Environment.meet_run hrun), hroom', hrest h'⟩
  | reopen =>
    obtain ⟨h', hrun, hroom'⟩ := hroom.reopen hquiet helsewhere
    exact ⟨_, _, Prog.bind_ok (Environment.meet_run hrun), hroom'.less (Nat.le_succ n), hrest h'⟩

theorem Room.steps {steps : List Experiment.WorkloadStep} {environment : Environment}
    (hroom : Room environment.handle steps.length) (hcalm : Calm environment)
    (hvalid : ∀ step ∈ steps, Experiment.Workload.validateStep step = .ok ()) :
    ∃ outcomes environment', steps.mapM Experiment.executeStep environment = (.ok outcomes, environment') := by
  induction steps generalizing environment with
  | nil => exact ⟨[], environment, rfl⟩
  | cons step steps ih =>
    obtain ⟨outcome, environment₁, hrun, hroom₁, hcalm₁⟩ := hroom.step hcalm (hvalid step List.mem_cons_self)
    obtain ⟨outcomes, environment₂, hrest⟩ := ih hroom₁ hcalm₁ fun s hs => hvalid s (List.mem_cons_of_mem _ hs)
    exact ⟨_, _, Experiment.mapM_cons_ok.2 ⟨outcome, outcomes, environment₁, rfl, hrun, hrest⟩⟩

end Handle

open Handle

/-- **The log never answers wrong.** Against a reference engine with what an opened file holds, no workload tells the
log from it, whatever its calls meet; and where nothing goes wrong and there is room for the records, the comparison
ends well. -/
theorem log_matches_reference {file : Option Bytes} {engine : LogEngine}
    (hopen : LogEngine.openFile file = .ok engine) :
    ∃ values : SortedMap Bytes Bytes, engine.values = values.entries ∧
      ∀ (path : String) (surroundings : List Surroundings) (workload : Experiment.Workload),
        workload.validate = .ok () →
        ((Experiment.compareWorkload workload
              ((⟨values⟩ : MemoryEngine), (⟨⟨path, true, engine⟩, surroundings⟩ : Environment))).1 =
            .ok ⟨workload.steps.length⟩ ∨
          ∃ index source, (Experiment.compareWorkload workload
              ((⟨values⟩ : MemoryEngine), (⟨⟨path, true, engine⟩, surroundings⟩ : Environment))).1 =
            .error (.rightEngine index source)) ∧
        ((∀ around ∈ surroundings, Quiet around ∧ around.elsewhere = none) →
          1 + (engine.log.recordCount + workload.steps.length) < u64Limit →
          engine.log.file.length + workload.steps.length * longestRecord < u64Limit →
          (Experiment.compareWorkload workload
              ((⟨values⟩ : MemoryEngine), (⟨⟨path, true, engine⟩, surroundings⟩ : Environment))).1 =
            .ok ⟨workload.steps.length⟩) := by
  obtain ⟨ms, hholds⟩ := LogEngine.holds_of_openFile hopen
  obtain ⟨values, hvalues⟩ := exists_values hholds
  refine ⟨values, hvalues, fun path surroundings workload hvalid => ?_⟩
  have hmatches : Matches ⟨path, true, engine⟩ ⟨values⟩ := ⟨rfl, ⟨ms, hholds⟩, hvalues⟩
  refine ⟨conforms.verdict (show (fun environment : Environment => Matches environment.handle)
    ⟨⟨path, true, engine⟩, surroundings⟩ ⟨values⟩ from hmatches) hvalid comparable, fun hcalm hcount hsize => ?_⟩
  rw [hholds.appended.recordCount] at hcount
  have hroom : Room ⟨path, true, engine⟩ workload.steps.length := ⟨rfl, ms, hholds, hcount, hsize⟩
  have henvironment : Calm ⟨⟨path, true, engine⟩, surroundings⟩ := hcalm
  obtain ⟨outcomes, environment, hrun⟩ := Room.steps hroom henvironment (Experiment.validateStep_of_mem hvalid)
  exact conforms.accepts (show (fun environment : Environment => Matches environment.handle)
    ⟨⟨path, true, engine⟩, surroundings⟩ ⟨values⟩ from hmatches) hvalid comparable hrun

theorem log_matches_reference_new : ∃ engine, LogEngine.openFile none = .ok engine ∧
    ∀ workload : Experiment.Workload, workload.validate = .ok () →
      ∃ values : SortedMap Bytes Bytes, engine.values = values.entries ∧
        (Experiment.compareWorkload workload
          ((⟨values⟩ : MemoryEngine), (⟨⟨"log", true, engine⟩, []⟩ : Environment))).1 = .ok ⟨workload.steps.length⟩ := by
  obtain ⟨engine, hcreate, hholds⟩ := LogEngine.exists_createNew
  refine ⟨engine, hcreate, fun workload hvalid => ?_⟩
  obtain ⟨values, hvalues, hmatches⟩ := log_matches_reference (show LogEngine.openFile none = .ok engine from hcreate)
  obtain ⟨-, haccepts⟩ := hmatches "log" [] workload hvalid
  have hlength := Experiment.length_le_of_validate hvalid
  rw [Experiment.maxWorkloadSteps] at hlength
  refine ⟨values, hvalues, haccepts (fun _ h => absurd h List.not_mem_nil) ?_ ?_⟩
  · rw [hholds.appended.recordCount, List.length_nil, u64Limit_eq]
    omega
  · rw [hholds.appended.file_eq, RecordFormat.recordsBytes_nil, List.append_nil, encodeFileHeader_length, fileHeaderLen,
      longestRecord, maxKeyBytes, maxValueBytes, u64Limit_eq]
    omega

end DbLab.Log
