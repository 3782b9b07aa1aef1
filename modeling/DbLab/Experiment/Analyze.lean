import DbLab.Lib.Accumulate
import DbLab.Lib.Prog
import DbLab.Lib.SortedMap
import Mathlib.Data.String.Basic

/-!
# The analysis of operational timing

The collectors of an archive that was verified, as the analysis of repeated batches fills them from the JSON
documents of a snapshot, and the summaries it makes of them. The three strata, the two engines and the two
operations are the same for successes and failures. A document has at most 64 MiB, so no counter leaves a `u64`.
-/

namespace DbLab.Experiment.Analyze

/-! ### JSON values -/

/-- A JSON value, with the numbers that `as_u64` returns told from the others. -/
inductive Value
  | null
  | bool (b : Bool)
  | unsigned (n : ℕ)
  | otherNumber (literal : String)
  | string (s : String)
  | array (items : List Value)
  | object (members : List (String × Value))

namespace Value

def asObject : Value → Option (List (String × Value))
  | object members => some members
  | _ => none

def asArray : Value → Option (List Value)
  | array items => some items
  | _ => none

def asStr : Value → Option String
  | string s => some s
  | _ => none

def asU64 : Value → Option ℕ
  | unsigned n => some n
  | _ => none

def isNull : Value → Bool
  | null => true
  | _ => false

end Value

inductive AnalyzeError
  | verify (message : String)
  | io (path : String)
  | json (path : String)
  | invalid (message : String)
  deriving DecidableEq

def orInvalid {α : Type} (value : Option α) (message : String) : Except AnalyzeError α :=
  match value with
  | some a => .ok a
  | none => .error (.invalid message)

def rejectIf (p : Prop) [Decidable p] (message : String) : Except AnalyzeError Unit :=
  if p then .error (.invalid message) else .ok ()

def requiredObject (value : Value) (label : String) : Except AnalyzeError (List (String × Value)) :=
  orInvalid value.asObject s!"{label} must be a JSON object"

def requiredField (value : Value) (field label : String) : Except AnalyzeError Value := do
  let members ← requiredObject value label
  orInvalid (members.lookup field) s!"{label} is missing required field {field.quote}"

def optionalField (value : Value) (field label : String) : Except AnalyzeError (Option Value) := do
  let members ← requiredObject value label
  pure (members.lookup field)

def requiredArray (value : Value) (field label : String) : Except AnalyzeError (List Value) := do
  let found ← requiredField value field label
  orInvalid found.asArray s!"{label} {field} must be an array"

def requiredStr (value : Value) (field label : String) : Except AnalyzeError String := do
  let found ← requiredField value field label
  orInvalid found.asStr s!"{label} {field} must be a string"

def requiredU64 (value : Value) (field label : String) : Except AnalyzeError ℕ := do
  let found ← requiredField value field label
  orInvalid found.asU64 s!"{label} {field} must be an unsigned integer"

/-! ### Occurrences -/

/-- A map of the source that counts; a name is in it once it has occurred. -/
structure Occurrences where
  map : SortedMap String ℕ
  pos : ∀ name, map.find name ≠ some 0

namespace Occurrences

def empty : Occurrences := ⟨.empty, by simp⟩

/-- How often the name has occurred. -/
def count (o : Occurrences) (name : String) : ℕ := (o.map.find name).getD 0

/-- Source `*entry(name).or_default() += 1`. -/
def bump (o : Occurrences) (name : String) : Occurrences where
  map := o.map.insert name (o.count name + 1)
  pos other := by
    rw [SortedMap.find_insert]
    split
    · simp
    · exact o.pos other

theorem count_empty (name : String) : empty.count name = 0 := rfl

theorem count_bump (o : Occurrences) (name other : String) :
    (o.bump name).count other = o.count other + if other = name then 1 else 0 := by
  rw [count, bump, SortedMap.find_insert]
  by_cases h : other = name
  · simp [h]
  · simp [h, count]

theorem ext_count {o o' : Occurrences} (h : ∀ name, o.count name = o'.count name) : o = o' := by
  obtain ⟨map, pos⟩ := o
  obtain ⟨map', pos'⟩ := o'
  have hmap : map = map' := by
    refine SortedMap.ext_find fun name => ?_
    have hname := h name
    simp only [count] at hname
    have hpos := pos name
    have hpos' := pos' name
    cases hfind : map.find name with
    | none =>
      cases hfind' : map'.find name with
      | none => rfl
      | some n =>
        rw [hfind, hfind', Option.getD_none, Option.getD_some] at hname
        exact absurd (hname ▸ hfind') hpos'
    | some m =>
      cases hfind' : map'.find name with
      | none =>
        rw [hfind, hfind', Option.getD_none, Option.getD_some] at hname
        exact absurd (hname ▸ hfind) hpos
      | some n =>
        rw [hfind, hfind', Option.getD_some, Option.getD_some] at hname
        rw [hname]
  subst hmap
  rfl

end Occurrences

/-! ### Collectors -/

structure SuccessfulOperationCollector where
  durations : List ℕ
  workUnits : Occurrences
  measuredStepIndexMissing : ℕ

structure FailedOperationCollector where
  durations : List ℕ
  errorClasses : Occurrences
  workUnits : Occurrences
  workMissing : ℕ
  measuredStepIndexMissing : ℕ

def SuccessfulOperationCollector.new : SuccessfulOperationCollector := ⟨[], .empty, 0⟩

def FailedOperationCollector.new : FailedOperationCollector := ⟨[], .empty, .empty, 0, 0⟩

/-- What an engine has for each operation. -/
structure ByOperation (α : Type) where
  reopen : α
  compactionStall : α

/-- What a comparison has for each engine. -/
structure BySide (α : Type) where
  left : α
  right : α

/-- What a section has for all comparisons, and for those of each execution order. -/
structure ByOrder (α : Type) where
  combined : α
  leftThenRight : α
  rightThenLeft : α

abbrev Strata (α : Type) := ByOrder (BySide (ByOperation α))

abbrev SuccessCollector := Strata SuccessfulOperationCollector

abbrev FailureCollector := Strata FailedOperationCollector

def ByOperation.const {α : Type} (a : α) : ByOperation α := ⟨a, a⟩

def BySide.const {α : Type} (a : α) : BySide α := ⟨a, a⟩

def ByOrder.const {α : Type} (a : α) : ByOrder α := ⟨a, a, a⟩

def Strata.const {α : Type} (a : α) : Strata α := ByOrder.const (BySide.const (ByOperation.const a))

def SuccessCollector.new : SuccessCollector := Strata.const .new

def FailureCollector.new : FailureCollector := Strata.const .new

section Add

variable {α : Type} (collect : Value → String → α → Except AnalyzeError α)

/-- Source `EngineSuccessCollector::add` and `EngineFailureCollector::add`. -/
def ByOperation.add (timing : Value) (c : ByOperation α) : Except AnalyzeError (ByOperation α) := do
  let reopen ← collect timing "reopen" c.reopen
  let compactionStall ← collect timing "compaction_stall" c.compactionStall
  pure ⟨reopen, compactionStall⟩

/-- Source `ComparisonSuccessCollector::add` and `ComparisonFailureCollector::add`. -/
def BySide.add (left right : Value) (c : BySide (ByOperation α)) : Except AnalyzeError (BySide (ByOperation α)) := do
  let left ← c.left.add collect left
  let right ← c.right.add collect right
  pure ⟨left, right⟩

/-- The timings of a report or a failure, its execution order first. -/
structure OrderedTimings where
  order : String
  left : Value
  right : Value

/-- The comparison goes to all comparisons and to those of its order. -/
def ByOrder.add (label : String) (timings : OrderedTimings) (c : Strata α) : Except AnalyzeError (Strata α) := do
  let combined ← c.combined.add collect timings.left timings.right
  if timings.order = "left_then_right" then do
    let leftThenRight ← c.leftThenRight.add collect timings.left timings.right
    pure { c with combined, leftThenRight }
  else if timings.order = "right_then_left" then do
    let rightThenLeft ← c.rightThenLeft.add collect timings.left timings.right
    pure { c with combined, rightThenLeft }
  else .error (.invalid s!"{label} has unknown execution_order {timings.order.quote}")

end Add

/-! ### Samples -/

/-- Source `collect_work_unit`. -/
def collectWorkUnit (work : Value) (workUnits : Occurrences) : Except AnalyzeError Occurrences := do
  let unit ← requiredStr work "unit" "operational work"
  let _ ← requiredU64 work "units_examined" "operational work"
  let _ ← requiredU64 work "bytes_examined" "operational work"
  pure (workUnits.bump unit)

/-- The body of the loop of `collect_success_operation`. -/
def collectSuccessSample (legacyName samplesName : String) (item : (Value × Value) × ℕ)
    (c : SuccessfulOperationCollector) : Except AnalyzeError SuccessfulOperationCollector := do
  let legacyDuration ← orInvalid item.1.1.asU64
    s!"operational timing {legacyName}[{item.2}] must be an unsigned integer"
  let duration ← requiredU64 item.1.2 "duration_ns" "successful timing sample"
  rejectIf (duration ≠ legacyDuration)
    s!"operational timing {legacyName}[{item.2}] differs from {samplesName}[{item.2}].duration_ns"
  let step ← requiredField item.1.2 "measured_step_index" "successful timing sample"
  let work ← requiredField item.1.2 "work" "successful timing sample"
  let workUnits ← collectWorkUnit work c.workUnits
  pure
    { durations := c.durations ++ [duration]
      workUnits := workUnits
      measuredStepIndexMissing := c.measuredStepIndexMissing + if step.isNull then 1 else 0 }

/-- Source `collect_success_operation`. -/
def collectSuccessOperation (timing : Value) (name : String) (c : SuccessfulOperationCollector) :
    Except AnalyzeError SuccessfulOperationCollector := do
  let legacy ← requiredArray timing (name ++ "_ns") "operational timing"
  let samples ← requiredArray timing (name ++ "_samples") "operational timing"
  rejectIf (legacy.length ≠ samples.length)
    s!"operational timing {name}_ns has {legacy.length} entries but {name}_samples has {samples.length}"
  foldSteps (collectSuccessSample (name ++ "_ns") (name ++ "_samples")) (legacy.zip samples).zipIdx c

/-- A failed sample can have no work. -/
def collectFailedWork (work : Value) (workUnits : Occurrences) : Except AnalyzeError Occurrences :=
  if work.isNull then .ok workUnits else collectWorkUnit work workUnits

/-- The body of the loop of `collect_failed_operation`. -/
def collectFailedSample (sample : Value) (c : FailedOperationCollector) :
    Except AnalyzeError FailedOperationCollector := do
  let duration ← requiredU64 sample "duration_ns" "failed timing sample"
  let errorClass ← requiredStr sample "error_class" "failed timing sample"
  let step ← requiredField sample "measured_step_index" "failed timing sample"
  let work ← requiredField sample "work" "failed timing sample"
  let workUnits ← collectFailedWork work c.workUnits
  pure
    { durations := c.durations ++ [duration]
      errorClasses := c.errorClasses.bump errorClass
      workUnits := workUnits
      workMissing := c.workMissing + if work.isNull then 1 else 0
      measuredStepIndexMissing := c.measuredStepIndexMissing + if step.isNull then 1 else 0 }

/-- Source `collect_failed_operation`. -/
def collectFailedOperation (timing : Value) (name : String) (c : FailedOperationCollector) :
    Except AnalyzeError FailedOperationCollector := do
  let found ← optionalField timing (name ++ "_failure_samples") "operational timing"
  match found with
  | none => pure c
  | some found => do
    let samples ← orInvalid found.asArray s!"operational timing {name}_failure_samples must be an array"
    foldSteps collectFailedSample samples c

/-! ### Documents -/

/-- The fields that `add_ordered_report` reads. -/
def readOrderedReport (label : String) (report : Value) : Except AnalyzeError OrderedTimings := do
  let order ← requiredStr report "execution_order" label
  let comparison ← requiredField report "comparison" label
  let left ← requiredField comparison "left" "ordered comparison"
  let right ← requiredField comparison "right" "ordered comparison"
  let leftTiming ← requiredField left "operational_timing" "left engine evidence"
  let rightTiming ← requiredField right "operational_timing" "right engine evidence"
  pure ⟨order, leftTiming, rightTiming⟩

/-- Source `add_ordered_report`. -/
def addOrderedReport (label : String) (report : Value) (c : SuccessCollector) :
    Except AnalyzeError SuccessCollector := do
  let timings ← readOrderedReport label report
  c.add collectSuccessOperation label timings

/-- The fields that `add_failure_prefix` and `add_ordered_failure` read. -/
def readOrderedFailure (label : String) (ordered : Value) : Except AnalyzeError OrderedTimings := do
  let order ← requiredStr ordered "execution_order" label
  let left ← requiredField ordered "left_operational_timing" "ordered failure"
  let right ← requiredField ordered "right_operational_timing" "ordered failure"
  pure ⟨order, left, right⟩

/-- Source `add_failure_prefix`. -/
def addFailurePrefix (label : String) (ordered : Value) (c : SuccessCollector) :
    Except AnalyzeError SuccessCollector := do
  let timings ← readOrderedFailure label ordered
  c.add collectSuccessOperation label timings

/-- Source `add_ordered_failure`. -/
def addOrderedFailure (ordered : Value) (c : FailureCollector) : Except AnalyzeError FailureCollector := do
  let timings ← readOrderedFailure "ordered failure" ordered
  c.add collectFailedOperation "ordered failure" timings

/-- The body of the loop of `collect_complete_pairs`. -/
def collectAttempt (attempt : Value) (c : SuccessCollector) : Except AnalyzeError SuccessCollector := do
  let disposition ← requiredStr attempt "disposition" "batch attempt"
  if disposition ≠ "included" then pure c
  else do
    let report ← requiredField attempt "report" "included batch attempt"
    let first ← requiredField report "first" "counterbalanced report"
    let c ← addOrderedReport "counterbalanced first report" first c
    let second ← requiredField report "second" "counterbalanced report"
    addOrderedReport "counterbalanced second report" second c

/-- Source `collect_complete_pairs`. -/
def collectCompletePairs (batch : Value) (c : SuccessCollector) : Except AnalyzeError SuccessCollector := do
  let attempts ← requiredArray batch "attempts" "batch.json"
  foldSteps collectAttempt attempts c

/-- The collectors of the retained evidence of failed pairs. -/
structure FailedPairEvidence where
  completedRepetitions : SuccessCollector
  failingPrefix : SuccessCollector
  failures : FailureCollector

def FailedPairEvidence.new : FailedPairEvidence := ⟨.new, .new, .new⟩

/-- The report of a completed first repetition, where there is one. -/
def addCompleted (failure : Value) (c : SuccessCollector) : Except AnalyzeError SuccessCollector := do
  let found ← optionalField failure "completed_first" "comparison failure"
  match found with
  | none => pure c
  | some completed =>
    if completed.isNull then pure c else addOrderedReport "completed first repetition" completed c

/-- The body of the loop of `collect_failed_pair_evidence`. -/
def collectSidecar (sidecar : Value) (c : FailedPairEvidence) : Except AnalyzeError FailedPairEvidence := do
  let failure ← requiredField sidecar "failure" "comparison sidecar"
  let completedRepetitions ← addCompleted failure c.completedRepetitions
  let ordered ← requiredField failure "ordered_failure" "comparison failure"
  let failingPrefix ← addFailurePrefix "ordered failure" ordered c.failingPrefix
  let failures ← addOrderedFailure ordered c.failures
  pure ⟨completedRepetitions, failingPrefix, failures⟩

/-- Source `collect_failed_pair_evidence`. -/
def collectFailedPairEvidence (sidecars : Value) (c : FailedPairEvidence) :
    Except AnalyzeError FailedPairEvidence := do
  let sidecars ← orInvalid sidecars.asArray "comparison-failures.json must be an array"
  foldSteps collectSidecar sidecars c

/-! ### Summaries -/

structure DistributionSummary where
  samples : ℕ
  minNs : Option ℕ
  nearestRankP50Ns : Option ℕ
  nearestRankP95Ns : Option ℕ
  maxNs : Option ℕ
  deriving DecidableEq

/-- Source `nearest_rank_index`. The rank is not larger than the number of samples, so it is a `usize` and the
fallback of the conversion is not taken. -/
def nearestRankIndex (samples percentile : ℕ) : ℕ :=
  let rank := (samples * percentile + 99) / 100
  rank - 1

/-- Source `summarize_distribution`. -/
def summarizeDistribution (values : List ℕ) : DistributionSummary :=
  if values = [] then ⟨0, none, none, none, none⟩
  else
    let sorted := (values : Multiset ℕ).sort (· ≤ ·)
    { samples := sorted.length
      minNs := sorted.head?
      nearestRankP50Ns := sorted[nearestRankIndex sorted.length 50]?
      nearestRankP95Ns := sorted[nearestRankIndex sorted.length 95]?
      maxNs := sorted.getLast? }

structure SuccessfulOperationSummary where
  durationNs : DistributionSummary
  workUnits : Occurrences
  measuredStepIndexMissing : ℕ

structure FailedOperationSummary where
  durationNs : DistributionSummary
  errorClasses : Occurrences
  workUnits : Occurrences
  workMissing : ℕ
  measuredStepIndexMissing : ℕ

def SuccessfulOperationCollector.summarize (c : SuccessfulOperationCollector) : SuccessfulOperationSummary :=
  ⟨summarizeDistribution c.durations, c.workUnits, c.measuredStepIndexMissing⟩

def FailedOperationCollector.summarize (c : FailedOperationCollector) : FailedOperationSummary :=
  ⟨summarizeDistribution c.durations, c.errorClasses, c.workUnits, c.workMissing, c.measuredStepIndexMissing⟩

section Map

variable {α β : Type} (f : α → β)

def ByOperation.map (c : ByOperation α) : ByOperation β := ⟨f c.reopen, f c.compactionStall⟩

def BySide.map (c : BySide α) : BySide β := ⟨f c.left, f c.right⟩

def ByOrder.map (c : ByOrder α) : ByOrder β := ⟨f c.combined, f c.leftThenRight, f c.rightThenLeft⟩

end Map

abbrev SuccessSection := Strata SuccessfulOperationSummary

abbrev FailureSection := Strata FailedOperationSummary

/-- Source `SuccessCollector::summarize` with the ones it calls. -/
def SuccessCollector.summarize (c : SuccessCollector) : SuccessSection :=
  ByOrder.map (BySide.map (ByOperation.map SuccessfulOperationCollector.summarize)) c

/-- Source `FailureCollector::summarize` with the ones it calls. -/
def FailureCollector.summarize (c : FailureCollector) : FailureSection :=
  ByOrder.map (BySide.map (ByOperation.map FailedOperationCollector.summarize)) c

structure RetainedFailedPairEvidence where
  completedRepetitions : SuccessSection
  failingRepetitionPrefix : SuccessSection
  failedOperations : FailureSection

def FailedPairEvidence.summarize (c : FailedPairEvidence) : RetainedFailedPairEvidence :=
  ⟨SuccessCollector.summarize c.completedRepetitions, SuccessCollector.summarize c.failingPrefix,
    FailureCollector.summarize c.failures⟩

/-! ### The analysis -/

/-- What the analysis uses of the archive and its verification, in a state `τ` of the file system. -/
structure Archives (τ Archive Summary : Type) where
  requireRegularDirectory : Archive → Prog τ AnalyzeError Unit
  verifyBatchArchive : Archive → Prog τ AnalyzeError Summary
  snapshotArchive : Archive → Prog τ AnalyzeError Archive
  readJson : Archive → String → Prog τ AnalyzeError Value
  verifySourceMatchesSnapshot : Archive → Archive → Prog τ AnalyzeError Unit
  formatVersion : Summary → ℕ

/-- The sidecars, in the format versions that have them. -/
def Archives.readSidecars {τ Archive Summary : Type} (fs : Archives τ Archive Summary) (snapshot : Archive)
    (verification : Summary) : Prog τ AnalyzeError (Option Value) :=
  if fs.formatVersion verification = 10 ∨ fs.formatVersion verification = 11 then
    some <$> fs.readJson snapshot "comparison-failures.json"
  else pure none

structure AnalysisReport (Summary : Type) where
  verification : Summary
  primaryCompletePairs : SuccessSection
  retainedFailedPairEvidence : RetainedFailedPairEvidence

/-- The collectors that the documents of an archive fill. -/
def collectDocuments (batch : Value) (sidecars : Option Value) :
    Except AnalyzeError (SuccessCollector × FailedPairEvidence) := do
  let primary ← collectCompletePairs batch .new
  let evidence ← match sidecars with
    | some sidecars => collectFailedPairEvidence sidecars .new
    | none => pure .new
  pure (primary, evidence)

/-- Source `analyze`. -/
def analyze {τ Archive Summary : Type} [DecidableEq Summary] (fs : Archives τ Archive Summary) (source : Archive) :
    Prog τ AnalyzeError (AnalysisReport Summary) := do
  fs.requireRegularDirectory source
  let sourceVerification ← fs.verifyBatchArchive source
  let snapshot ← fs.snapshotArchive source
  let verification ← fs.verifyBatchArchive snapshot
  Prog.ofExcept (rejectIf (verification ≠ sourceVerification)
    "source archive changed while the verified analysis snapshot was being created")
  let batch ← fs.readJson snapshot "batch.json"
  let sidecars ← fs.readSidecars snapshot verification
  let collected ← Prog.ofExcept (collectDocuments batch sidecars)
  let verificationAfter ← fs.verifyBatchArchive snapshot
  Prog.ofExcept (rejectIf (verificationAfter ≠ verification)
    "verified analysis snapshot changed while it was being read")
  let sourceVerificationAfter ← fs.verifyBatchArchive source
  Prog.ofExcept (rejectIf (sourceVerificationAfter ≠ sourceVerification)
    "source archive verification summary changed during analysis")
  fs.verifySourceMatchesSnapshot source snapshot
  pure
    { verification := verification
      primaryCompletePairs := SuccessCollector.summarize collected.1
      retainedFailedPairEvidence := collected.2.summarize }

end DbLab.Experiment.Analyze
