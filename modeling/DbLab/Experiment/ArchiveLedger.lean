import DbLab.Experiment.ArchiveVerify
import Mathlib.Data.List.TakeWhile

/-!
# The ledger of an archive

The rows and the sidecars that a captured batch writes meet the rules that the verifier has for them, row by row and
then for a batch of any size.
-/

namespace DbLab.Experiment

variable {σ ρ : Type} [Candidate σ] [Candidate ρ] {callbacks : Callbacks σ ρ} {trace : ExperimentTrace}
  {context : ExperimentAttemptContext}

/-! ### Blank strings -/

theorem mem_dropWhile {α : Type} {p : α → Bool} {a : α} {l : List α} (h : a ∈ l) (ha : p a = false) :
    a ∈ l.dropWhile p := by
  induction l with
  | nil => exact absurd h (by simp)
  | cons b l ih =>
    rw [List.dropWhile_cons]
    split
    · next hb =>
      rcases List.mem_cons.1 h with rfl | hl
      · rw [ha] at hb
        cases hb
      · exact ih hl
    · exact h

theorem mem_trimmed {s : String} {c : Char} (hc : c ∈ s.toList) (hwhite : isWhiteSpace c = false) :
    c ∈ (trimmed s).toList := by
  simp only [trimmed, String.toList_ofList, List.mem_reverse]
  exact mem_dropWhile (List.mem_reverse.2 (mem_dropWhile hc hwhite)) hwhite

/-- A string is not blank exactly if it has a character that is no white space. -/
theorem trimmed_ne_empty {s : String} : trimmed s ≠ "" ↔ ∃ c ∈ s.toList, isWhiteSpace c = false := by
  constructor
  · intro h
    by_contra hall
    push Not at hall
    have hwhite : s.toList.dropWhile isWhiteSpace = [] := by
      rw [List.dropWhile_eq_nil_iff]
      intro c hc
      simpa using hall c hc
    exact h (by simp [trimmed, hwhite])
  · rintro ⟨c, hc, hwhite⟩ hempty
    have hmem := mem_trimmed hc hwhite
    rw [hempty] at hmem
    exact absurd hmem (by simp)

theorem trimmed_trimmed_ne_empty {s : String} (h : trimmed s ≠ "") : trimmed (trimmed s) ≠ "" := by
  obtain ⟨c, hc, hwhite⟩ := trimmed_ne_empty.1 h
  exact trimmed_ne_empty.2 ⟨c, mem_trimmed hc hwhite, hwhite⟩

theorem trimmed_append {s t : String} (h : trimmed s ≠ "") : trimmed (s ++ t) ≠ "" := by
  obtain ⟨c, hc, hwhite⟩ := trimmed_ne_empty.1 h
  exact trimmed_ne_empty.2 ⟨c, by simp [hc], hwhite⟩

/-- No error has a blank text. -/
theorem trimmed_errorText (e : DbError) : trimmed (errorText e) ≠ "" := by
  cases e with
  | invalidInput reason => exact trimmed_append (s := "invalid input: ") (by decide +kernel)
  | io reason => exact trimmed_append (s := "I/O error: ") (by decide +kernel)
  | corruption offset reason =>
    have hstart : trimmed "corrupt storage at byte offset " ≠ "" := by decide +kernel
    exact trimmed_append (trimmed_append (trimmed_append hstart))
  | unsupportedVersion format found supported =>
    have hstart : trimmed "unsupported " ≠ "" := by decide +kernel
    exact trimmed_append (trimmed_append (trimmed_append (trimmed_append (trimmed_append hstart))))
  | poisoned =>
    have htext : trimmed "engine is poisoned by a previous persistent-write failure; reopen it before continuing" ≠ "" := by
      decide +kernel
    exact htext

/-! ### The outcome of a pair -/

theorem executionOrder_of_compare {order : ExperimentExecutionOrder} {engines engines' : σ × ρ}
    {report : OrderedExperimentComparisonReport}
    (h : compareExperimentTraceOrdered trace order engines = (.ok report, engines')) :
    report.executionOrder = order := by
  unfold compareExperimentTraceOrdered at h
  obtain ⟨_, _, -, h⟩ := Prog.bind_eq_ok.1 h
  obtain ⟨_, _, -, h⟩ := Prog.bind_eq_ok.1 h
  obtain ⟨_, _, -, h⟩ := Prog.bind_eq_ok.1 h
  cases order with
  | leftThenRight =>
    obtain ⟨_, _, -, h⟩ := Prog.bind_eq_ok.1 h
    obtain ⟨_, _, -, h⟩ := Prog.bind_eq_ok.1 h
    cases h
    rfl
  | rightThenLeft =>
    obtain ⟨_, _, -, h⟩ := Prog.bind_eq_ok.1 h
    obtain ⟨_, _, -, h⟩ := Prog.bind_eq_ok.1 h
    cases h
    rfl

/-- The two repetitions of a pair. -/
def Repetition (context : ExperimentAttemptContext) (repetition : ℕ) (order : ExperimentExecutionOrder)
    (completedFirst : Option OrderedExperimentComparisonReport) : Prop :=
  (repetition = 0 ∧ order = context.pairOrder.first ∧ completedFirst = none) ∨
    (repetition = 1 ∧ order = context.pairOrder.second ∧ completedFirst.isSome)

/-- What an outcome carries belongs to its pair and to one of its repetitions. -/
def PairOutcome.BelongsTo (context : ExperimentAttemptContext) : PairOutcome → Prop
  | factory _ repetition _ => repetition ≤ 1
  | ordered evidence error =>
    evidence.pairOrder = context.pairOrder ∧
      Repetition context evidence.repetitionIndex evidence.orderedFailure.executionOrder evidence.completedFirst ∧
      evidence.orderedFailure.errorClass = error.errorClass ∧ evidence.orderedFailure.message = errorText error
  | repetitions _ => True
  | complete report =>
    report.pairOrder = context.pairOrder ∧ report.first.executionOrder = context.pairOrder.first ∧
      report.second.executionOrder = context.pairOrder.second

/-- One repetition, whatever is done with its report. -/
theorem belongsTo_ofRepetition {repetition : ℕ} {order : ExperimentExecutionOrder}
    {completedFirst : Option OrderedExperimentComparisonReport} {next : OrderedExperimentComparisonReport → PairOutcome}
    (hrepetition : Repetition context repetition order completedFirst)
    (hnext : ∀ report, report.executionOrder = order → (next report).BelongsTo context) :
    (PairOutcome.ofRepetition callbacks trace context repetition order completedFirst next).BelongsTo context := by
  have hle : repetition ≤ 1 := by
    rcases hrepetition with ⟨h, -⟩ | ⟨h, -⟩ <;> omega
  unfold PairOutcome.ofRepetition
  split
  · exact hle
  split
  · exact hle
  split
  · next report engines hcompare => exact hnext report (executionOrder_of_compare hcompare)
  · exact ⟨rfl, hrepetition, rfl, rfl⟩

theorem belongsTo_ofPair : (PairOutcome.ofPair callbacks trace context).BelongsTo context := by
  refine belongsTo_ofRepetition (.inl ⟨rfl, rfl, rfl⟩) fun first hfirst => ?_
  refine belongsTo_ofRepetition (.inr ⟨rfl, rfl, rfl⟩) fun second hsecond => ?_
  split
  · trivial
  · exact ⟨rfl, hfirst, hsecond⟩

namespace BatchArchive

open Analyze (Value)

/-! ### Reading what was written -/

theorem require_eq_ok {p : Prop} [Decidable p] {message : String} : require p message = .ok () ↔ p := by
  unfold require
  split_ifs with h <;> simp [h]

theorem require_ok {p : Prop} [Decidable p] {message : String} (h : p) : require p message = .ok () :=
  require_eq_ok.2 h

/-- A step that succeeds, and then the rest. -/
theorem then_of_ok {α β : Type} {x : Verified α} {f : α → Verified β} {a : α} {r : Verified β} (hx : x = .ok a)
    (hf : f a = r) : (x >>= f) = r := by
  rw [hx, Checked.ok_bind, hf]

theorem orInvalid_some {α : Type} (a : α) (message : String) : orInvalid (some a) message = .ok a := rfl

section Fields

variable {members : List (String × Value)} {field label : String} {v : Value}

@[simp] theorem requiredObject_object : requiredObject (.object members) label = .ok members := rfl

theorem requiredField_eq (h : members.lookup field = some v) : requiredField (.object members) field label = .ok v := by
  simp [requiredField, h, orInvalid]

theorem requiredArray_eq {items : List Value} (h : members.lookup field = some (.array items)) :
    requiredArray (.object members) field label = .ok items := by
  rw [requiredArray, requiredField_eq h]
  rfl

theorem requiredStr_eq {s : String} (h : members.lookup field = some (.string s)) :
    requiredStr (.object members) field label = .ok s := by
  rw [requiredStr, requiredField_eq h]
  rfl

theorem requireNonemptyStr_eq {s : String} (h : members.lookup field = some (.string s)) (hs : trimmed s ≠ "") :
    requireNonemptyStr (.object members) field label = .ok s := by
  rw [requireNonemptyStr, requiredStr_eq h, Checked.ok_bind, require_ok hs, Checked.ok_bind]

theorem requiredU64_eq {n : ℕ} (h : members.lookup field = some (.unsigned n)) :
    requiredU64 (.object members) field label = .ok n := by
  rw [requiredU64, requiredField_eq h]
  rfl

theorem requiredU32_eq {n : ℕ} (h : members.lookup field = some (.unsigned n)) (hn : n < 2 ^ 32) :
    requiredU32 (.object members) field label = .ok n := by
  rw [requiredU32, requiredU64_eq h, Checked.ok_bind, require_ok hn, Checked.ok_bind]

theorem requiredU16_eq {n : ℕ} (h : members.lookup field = some (.unsigned n)) (hn : n < 2 ^ 16) :
    requiredU16 (.object members) field label = .ok n := by
  rw [requiredU16, requiredU64_eq h, Checked.ok_bind, require_ok hn, Checked.ok_bind]

theorem requireEqualStr_eq {expected : String} (h : members.lookup field = some (.string expected)) :
    requireEqualStr (.object members) field expected label = .ok () := by
  rw [requireEqualStr, requiredStr_eq h, Checked.ok_bind, require_ok rfl]

theorem requireErrorClass_eq {c : ErrorClass} (h : members.lookup field = some (.string (errorClassName c))) :
    requireErrorClass (.object members) field label = .ok (errorClassName c) := by
  have hmem : errorClassName c ∈ errorClasses := by cases c <;> decide
  rw [requireErrorClass, requiredStr_eq h, Checked.ok_bind, require_ok hmem, Checked.ok_bind]

end Fields

/-! ### One row -/

theorem expectedPairOrder_eq (pairSeed : UInt64) (pairIndex : ℕ) :
    expectedPairOrder pairSeed.toNat pairIndex = pairOrderName (pairOrder pairSeed pairIndex) := by
  unfold expectedPairOrder pairOrder
  split <;> rfl

theorem firstExecutionOrder_eq (order : CounterbalancedPairOrder) :
    firstExecutionOrder (pairOrderName order) = executionOrderName order.first := by
  cases order <;> rfl

theorem secondExecutionOrder_eq (order : CounterbalancedPairOrder) :
    secondExecutionOrder (pairOrderName order) = executionOrderName order.second := by
  cases order <;> rfl

theorem verifyIncluded_eq {report : CounterbalancedExperimentComparisonReport} {order : CounterbalancedPairOrder}
    {pairIndex : ℕ} (horder : report.pairOrder = order) (hfirst : report.first.executionOrder = order.first)
    (hsecond : report.second.executionOrder = order.second) :
    verifyIncluded report.json .null .null pairIndex (pairOrderName order) = .ok () := by
  unfold verifyIncluded CounterbalancedExperimentComparisonReport.json
  rw [require_ok (by simp [isObject, Value.asObject, Value.isNull]), Checked.ok_bind,
    requireEqualStr_eq (by rw [← horder]; rfl), Checked.ok_bind, requiredField_eq (v := report.first.json) rfl,
    Checked.ok_bind, verifyOrderedReport, OrderedExperimentComparisonReport.json,
    requireEqualStr_eq (by rw [firstExecutionOrder_eq, ← hfirst]; rfl), Checked.ok_bind,
    requiredField_eq (v := report.second.json) rfl, Checked.ok_bind, verifyOrderedReport,
    OrderedExperimentComparisonReport.json, requireEqualStr_eq (by rw [secondExecutionOrder_eq, ← hsecond]; rfl)]

/-- A failure as the ledger attributes it. -/
def WellAttributed (failure : ExperimentAttemptFailure) : Prop :=
  trimmed failure.message ≠ "" ∧
    (failure.stage = .engineFactory →
      failure.engineRole.isSome ∧ ∃ repetition, failure.repetitionIndex = some repetition ∧ repetition ≤ 1)

theorem verifyFailed_eq {failure : ExperimentAttemptFailure} (h : WellAttributed failure) {pairIndex : ℕ} :
    verifyFailed .null failure.json .null pairIndex = .ok () := by
  obtain ⟨stage, engineRole, repetitionIndex, errorClass, message⟩ := failure
  obtain ⟨hmessage, hfactory⟩ := h
  unfold verifyFailed ExperimentAttemptFailure.json
  rw [require_ok (by simp [isObject, Value.asObject, Value.isNull]), Checked.ok_bind, requiredStr_eq (s := stageName stage)
    rfl, Checked.ok_bind, require_ok (by cases stage <;> simp [stageName]), Checked.ok_bind,
    requireNonemptyStr_eq (s := message) rfl hmessage, Checked.ok_bind,
    requireErrorClass_eq (c := errorClass) rfl, Checked.ok_bind]
  cases stage with
  | comparison => rfl
  | engineFactory =>
    obtain ⟨hrole, repetition, hrepetition, hle⟩ := hfactory rfl
    obtain ⟨role, rfl⟩ := Option.isSome_iff_exists.1 hrole
    obtain rfl : repetitionIndex = some repetition := hrepetition
    show verifyFactory _ = _
    rw [verifyFactory]
    cases role with
    | left =>
      rw [requiredStr_eq (s := "left") rfl, Checked.ok_bind,
        require_ok (by simp), Checked.ok_bind, requiredU64_eq (n := repetition) rfl, Checked.ok_bind,
        require_ok hle]
    | right =>
      rw [requiredStr_eq (s := "right") rfl, Checked.ok_bind,
        require_ok (by simp), Checked.ok_bind, requiredU64_eq (n := repetition) rfl, Checked.ok_bind,
        require_ok hle]

theorem verifyExcluded_eq {reason : String} (h : trimmed reason ≠ "") {pairIndex : ℕ} :
    verifyExcluded .null .null (.string reason) pairIndex = .ok () := by
  rw [verifyExcluded, require_ok (by simp [Value.isNull]), Checked.ok_bind, require_ok (by simp [Value.asStr, h])]

theorem verifyAttempt_json {record : ExperimentAttemptRecord} {pairSeed : UInt64} {pairIndex : ℕ}
    (hcontext : record.context = scheduled pairSeed pairIndex) (hindex : pairIndex < 2 ^ 32) :
    verifyAttempt record.json pairIndex pairSeed.toNat =
      let report := Json.orNull CounterbalancedExperimentComparisonReport.json record.report
      let failure := Json.orNull ExperimentAttemptFailure.json record.failure
      let exclusionReason := Json.optionalString record.exclusionReason
      match record.disposition with
      | .included => verifyIncluded report failure exclusionReason pairIndex (pairOrderName (pairOrder pairSeed pairIndex))
      | .failed => verifyFailed report failure exclusionReason pairIndex
      | .excluded => verifyExcluded report failure exclusionReason pairIndex := by
  have hcontextJson : record.context.json =
      .object [("pair_index", .unsigned pairIndex), ("pair_order", .string (pairOrderName (pairOrder pairSeed pairIndex)))] := by
    rw [hcontext]
    rfl
  unfold verifyAttempt ExperimentAttemptRecord.json
  rw [requiredField_eq (v := record.context.json) rfl, Checked.ok_bind, hcontextJson,
    requiredU32_eq (n := pairIndex) rfl hindex, Checked.ok_bind, require_ok rfl, Checked.ok_bind, expectedPairOrder_eq]
  dsimp only
  rw [requireEqualStr_eq rfl, Checked.ok_bind, requiredStr_eq rfl, Checked.ok_bind, requiredField_eq rfl, Checked.ok_bind,
    requiredField_eq rfl, Checked.ok_bind, requiredField_eq rfl, Checked.ok_bind]
  cases record.disposition with
  | included => rfl
  | failed => rfl
  | excluded => rfl

/-- The failure that an outcome leaves in the ledger is attributed well. -/
theorem wellAttributed_failure {outcome : PairOutcome} {failure : ExperimentAttemptFailure}
    (hbelongs : outcome.BelongsTo context) (h : outcome.failure = some failure) : WellAttributed failure := by
  cases outcome with
  | complete report => cases h
  | factory role repetition e =>
    cases h
    exact ⟨trimmed_errorText e, fun _ => ⟨rfl, repetition, rfl, hbelongs⟩⟩
  | ordered evidence e =>
    cases h
    exact ⟨trimmed_errorText e, fun hstage => by cases hstage⟩
  | repetitions e =>
    cases h
    exact ⟨trimmed_errorText e, fun hstage => by cases hstage⟩

/-- **One row.** What becomes of a pair is a row that the verifier accepts. -/
theorem verifyAttempt_attemptOf {pairSeed : UInt64} {pairIndex : ℕ}
    (hreasoned : callbacks.Reasoned (scheduled pairSeed pairIndex)) (hindex : pairIndex < 2 ^ 32) :
    verifyAttempt (attemptOf callbacks trace (scheduled pairSeed pairIndex)).json pairIndex pairSeed.toNat = .ok () := by
  rw [verifyAttempt_json context_attemptOf hindex]
  unfold attemptOf
  cases hadmission : callbacks.admission (scheduled pairSeed pairIndex) with
  | exclude reason => exact verifyExcluded_eq (trimmed_trimmed_ne_empty (hreasoned reason hadmission))
  | admitPair =>
    have hbelongs := @belongsTo_ofPair _ _ _ _ callbacks trace (scheduled pairSeed pairIndex)
    dsimp only
    cases houtcome : PairOutcome.ofPair callbacks trace (scheduled pairSeed pairIndex) with
    | complete report =>
      rw [houtcome] at hbelongs
      obtain ⟨horder, hfirst, hsecond⟩ := hbelongs
      exact verifyIncluded_eq horder hfirst hsecond
    | factory role repetition e =>
      rw [houtcome] at hbelongs
      exact verifyFailed_eq (wellAttributed_failure hbelongs rfl)
    | ordered evidence e =>
      rw [houtcome] at hbelongs
      exact verifyFailed_eq (wellAttributed_failure hbelongs rfl)
    | repetitions e =>
      rw [houtcome] at hbelongs
      exact verifyFailed_eq (wellAttributed_failure hbelongs rfl)

/-! ### All rows -/

/-- The counts after some rows. -/
def BatchCounts.addAll (counts : BatchCounts) (records : List ExperimentAttemptRecord) : BatchCounts :=
  { counts with
    includedPairs := counts.includedPairs + records.countP (·.disposition = .included)
    failedPairs := counts.failedPairs + records.countP (·.disposition = .failed)
    excludedPairs := counts.excludedPairs + records.countP (·.disposition = .excluded) }

theorem BatchCounts.addAll_cons (counts : BatchCounts) (record : ExperimentAttemptRecord)
    (records : List ExperimentAttemptRecord) :
    counts.add (dispositionName record.disposition) = .ok (counts.addAll [record]) ∧
      (counts.addAll [record]).addAll records = counts.addAll (record :: records) := by
  obtain ⟨context, disposition, report, failure, exclusionReason⟩ := record
  cases disposition with
  | included => exact ⟨rfl, by simp [addAll]; omega⟩
  | failed => exact ⟨rfl, by simp [addAll]; omega⟩
  | excluded => exact ⟨rfl, by simp [addAll]; omega⟩

/-- The rows are accepted one by one, and each is counted once. -/
theorem verifyAttempts_eq {f : ℕ → ExperimentAttemptRecord} {pairSeed : ℕ} (n first : ℕ) (counts : BatchCounts)
    (hrows : ∀ i, first ≤ i → i < first + n → verifyAttempt (f i).json i pairSeed = .ok ()) :
    verifyAttempts pairSeed first ((List.range' first n).map fun i => (f i).json) counts =
      .ok (counts.addAll ((List.range' first n).map f)) := by
  induction n generalizing first counts with
  | zero => rfl
  | succ n ih =>
    obtain ⟨hadd, hall⟩ := counts.addAll_cons (f first) ((List.range' (first + 1) n).map f)
    have hdisposition : requiredStr (f first).json "disposition" "batch.json attempt" =
        .ok (dispositionName (f first).disposition) := requiredStr_eq rfl
    rw [List.range'_succ, List.map_cons, verifyAttempts, hrows first le_rfl (by omega), Checked.ok_bind, hdisposition,
      Checked.ok_bind, hadd, Checked.ok_bind, ih (first + 1) _ fun i hi hlt => hrows i (by omega) (by omega), hall,
      List.map_cons]

/-! ### The sidecars -/

/-- A pair with a sidecar failed in an ordered comparison. -/
theorem sidecarOf_eq_some {sidecar : CounterbalancedBatchComparisonFailureEvidence}
    (h : sidecarOf callbacks trace context = some sidecar) :
    ∃ error, sidecar.context = context ∧ (PairOutcome.ordered sidecar.failure error).BelongsTo context ∧
      attemptOf callbacks trace context =
        ⟨context, .failed, none, some ⟨.comparison, none, none, error.errorClass, errorText error⟩, none⟩ := by
  unfold sidecarOf at h
  cases hadmission : callbacks.admission context with
  | exclude reason =>
    rw [hadmission] at h
    cases h
  | admitPair =>
    have hbelongs := @belongsTo_ofPair _ _ _ _ callbacks trace context
    rw [hadmission] at h
    dsimp only at h
    cases houtcome : PairOutcome.ofPair callbacks trace context with
    | ordered evidence error =>
      rw [houtcome] at h hbelongs
      cases h
      refine ⟨error, rfl, hbelongs, ?_⟩
      rw [attemptOf, hadmission]
      dsimp only
      rw [houtcome]
      rfl
    | complete report =>
      rw [houtcome] at h
      cases h
    | factory role repetition e =>
      rw [houtcome] at h
      cases h
    | repetitions e =>
      rw [houtcome] at h
      cases h

theorem verifyCompletedFirst_eq {evidence : CounterbalancedComparisonFailureEvidence} {pairIndex : ℕ}
    (h : Repetition context evidence.repetitionIndex evidence.orderedFailure.executionOrder evidence.completedFirst) :
    verifyCompletedFirst evidence.json pairIndex evidence.repetitionIndex = .ok () := by
  obtain ⟨pairOrder, repetitionIndex, completedFirst, orderedFailure⟩ := evidence
  rcases h with ⟨hzero, -, hnone⟩ | ⟨hone, -, hsome⟩
  · obtain rfl : repetitionIndex = 0 := hzero
    obtain rfl : completedFirst = none := hnone
    rfl
  · obtain rfl : repetitionIndex = 1 := hone
    obtain ⟨report, hreport⟩ := Option.isSome_iff_exists.1 hsome
    obtain rfl : completedFirst = some report := hreport
    rfl

theorem verifyOrderedFailure_eq {evidence : OrderedExperimentFailureEvidence} {failure : ExperimentAttemptFailure}
    {pairIndex : ℕ} (hclass : evidence.errorClass = failure.errorClass) (hmessage : evidence.message = failure.message)
    (hblank : trimmed evidence.message ≠ "") :
    verifyOrderedFailure evidence.json failure.json pairIndex (executionOrderName evidence.executionOrder) = .ok () := by
  unfold verifyOrderedFailure OrderedExperimentFailureEvidence.json ExperimentAttemptFailure.json
  rw [requireEqualStr_eq rfl, Checked.ok_bind, requireErrorClass_eq (c := evidence.errorClass) rfl, Checked.ok_bind,
    requireNonemptyStr_eq (s := evidence.message) rfl hblank, Checked.ok_bind,
    requiredStr_eq (s := errorClassName failure.errorClass) rfl, Checked.ok_bind,
    requiredStr_eq (s := failure.message) rfl, Checked.ok_bind, require_ok ⟨by rw [hclass], hmessage.symm⟩,
    Checked.ok_bind, requiredField_eq (v := evidence.leftOperationalTiming.json) rfl, Checked.ok_bind,
    require_ok (p := isObject evidence.leftOperationalTiming.json) rfl, Checked.ok_bind,
    requiredField_eq (v := evidence.rightOperationalTiming.json) rfl, Checked.ok_bind,
    require_ok (p := isObject evidence.rightOperationalTiming.json) rfl]

/-- **One sidecar** matches the row of its pair. -/
theorem verifySidecarOf_eq {sidecar : CounterbalancedBatchComparisonFailureEvidence}
    (h : sidecarOf callbacks trace context = some sidecar) :
    verifySidecarOf sidecar.context.json sidecar.failure.json (attemptOf callbacks trace context).json
      context.pairIndex = .ok () := by
  obtain ⟨error, hcontext, ⟨horder, hrepetition, hclass, hmessage⟩, hattempt⟩ := sidecarOf_eq_some h
  have hblank : trimmed sidecar.failure.orderedFailure.message ≠ "" := by
    rw [hmessage]
    exact trimmed_errorText error
  have hle : sidecar.failure.repetitionIndex ≤ 1 := by
    rcases hrepetition with ⟨hzero, -⟩ | ⟨hone, -⟩ <;> omega
  have hexecution : (if sidecar.failure.repetitionIndex = 0 then firstExecutionOrder (pairOrderName context.pairOrder)
      else secondExecutionOrder (pairOrderName context.pairOrder)) =
      executionOrderName sidecar.failure.orderedFailure.executionOrder := by
    rcases hrepetition with ⟨hzero, hfirst, -⟩ | ⟨hone, hsecond, -⟩
    · rw [if_pos hzero, firstExecutionOrder_eq, hfirst]
    · rw [if_neg (by omega), secondExecutionOrder_eq, hsecond]
  have hordered : requiredField sidecar.failure.json "ordered_failure" "comparison failure" =
      .ok sidecar.failure.orderedFailure.json := by
    refine requiredField_eq ?_
    cases sidecar.failure.completedFirst <;> rfl
  rw [hattempt, hcontext]
  unfold verifySidecarOf
  rw [ExperimentAttemptRecord.json, requiredField_eq (v := context.json) rfl, Checked.ok_bind, require_ok rfl,
    Checked.ok_bind, requiredStr_eq (s := "failed") rfl, Checked.ok_bind, require_ok rfl, Checked.ok_bind,
    requiredField_eq rfl, Checked.ok_bind]
  show (requireEqualStr (ExperimentAttemptFailure.json _) _ _ _ >>= _) = _
  rw [ExperimentAttemptFailure.json, requireEqualStr_eq rfl, Checked.ok_bind, ExperimentAttemptContext.json,
    requiredStr_eq (s := pairOrderName context.pairOrder) rfl, Checked.ok_bind,
    CounterbalancedComparisonFailureEvidence.json, requiredStr_eq (s := pairOrderName context.pairOrder) (by rw [← horder]; rfl),
    Checked.ok_bind, require_ok rfl, Checked.ok_bind, requiredU64_eq (n := sidecar.failure.repetitionIndex) rfl,
    Checked.ok_bind, require_ok hle, Checked.ok_bind]
  have hcompleted := @verifyCompletedFirst_eq context sidecar.failure context.pairIndex hrepetition
  rw [CounterbalancedComparisonFailureEvidence.json] at hcompleted hordered
  rw [hcompleted, Checked.ok_bind, hordered, Checked.ok_bind, hexecution]
  exact verifyOrderedFailure_eq hclass hmessage hblank

/-- The sidecars are accepted one by one; those before belong to pairs before. -/
theorem verifySidecars_eq {pairSeed : UInt64} {requestedPairs : ℕ} (hrequested : requestedPairs ≤ 2 ^ 32)
    (n first position : ℕ) (seen : List ℕ) (hseen : ∀ i ∈ seen, i < first) (hn : first + n = requestedPairs) :
    verifySidecars ((List.range requestedPairs).map fun i => (attemptOf callbacks trace (scheduled pairSeed i)).json)
      requestedPairs position seen
      (((List.range' first n).filterMap fun i => sidecarOf callbacks trace (scheduled pairSeed i)).map
        CounterbalancedBatchComparisonFailureEvidence.json) = .ok () := by
  induction n generalizing first position seen with
  | zero => rfl
  | succ n ih =>
    rw [List.range'_succ, List.filterMap_cons]
    cases hsidecar : sidecarOf callbacks trace (scheduled pairSeed first) with
    | none =>
      exact ih (first + 1) position seen (fun i hi => (hseen i hi).trans (by omega)) (by omega)
    | some sidecar =>
      obtain ⟨error, hcontext, -, -⟩ := sidecarOf_eq_some hsidecar
      have hnew : first ∉ seen := fun hmem => absurd (hseen first hmem) (by omega)
      have hrow : ((List.range requestedPairs).map fun i =>
          (attemptOf callbacks trace (scheduled pairSeed i)).json).getD first .null =
          (attemptOf callbacks trace (scheduled pairSeed first)).json := by
        have hfirst : first < requestedPairs := by omega
        simp [List.getD, hfirst]
      have hone := verifySidecarOf_eq hsidecar
      have hrest := ih (first + 1) (position + 1) (first :: seen)
        (List.forall_mem_cons.2 ⟨by omega, fun i hi => (hseen i hi).trans (by omega)⟩) (by omega)
      have hindex : requiredU32 sidecar.context.json "pair_index" "comparison failure context" = .ok first := by
        rw [hcontext]
        exact requiredU32_eq rfl (by omega)
      rw [List.map_cons, verifySidecars, CounterbalancedBatchComparisonFailureEvidence.json,
        requiredField_eq (v := sidecar.context.json) rfl, Checked.ok_bind,
        requiredField_eq (v := sidecar.failure.json) rfl, Checked.ok_bind, hindex, Checked.ok_bind,
        require_ok (by omega), Checked.ok_bind, require_ok hnew, Checked.ok_bind, hrow]
      exact then_of_ok hone hrest

end BatchArchive

end DbLab.Experiment
