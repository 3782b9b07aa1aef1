import DbLab.Experiment.TimingSums

/-!
# The analysis of an archive

The sections of a report hold exactly the samples of their documents: those of the included pairs, of the completed
first repetitions, of the prefixes that failed and of the failed operations. Attempts and sidecars may come in any
order, and the percentiles are nearest ranks of the samples.
-/

namespace DbLab.Experiment.Analyze

variable {label : String} {batch batch' : Value} {sidecars sidecars' : Option Value}

/-! ### The samples of the documents -/

abbrev Tallies := Stratum → Side → Operation → Tally

/-- The timings of an ordered report. -/
def reportTimings (report : Value) : OrderedTimings :=
  ⟨(report.field "execution_order").asStr.getD "",
    ((report.field "comparison").field "left").field "operational_timing",
    ((report.field "comparison").field "right").field "operational_timing"⟩

/-- The timings of an ordered failure. -/
def failureTimings (ordered : Value) : OrderedTimings :=
  ⟨(ordered.field "execution_order").asStr.getD "", ordered.field "left_operational_timing",
    ordered.field "right_operational_timing"⟩

def reportTallies (report : Value) : Tallies := (reportTimings report).tallies successTally

/-- The two reports of an attempt that is included. -/
def attemptReports (attempt : Value) : List Value :=
  if (attempt.field "disposition").asStr = some "included" then
    [(attempt.field "report").field "first", (attempt.field "report").field "second"]
  else []

/-- The report of the first repetition, if it was completed. -/
def completedReports (failure : Value) : List Value :=
  if (failure.field "completed_first").isNull then [] else [failure.field "completed_first"]

def orderedFailure (sidecar : Value) : Value := (sidecar.field "failure").field "ordered_failure"

def sidecarsOf (sidecars : Option Value) : List Value := (sidecars.getD (.array [])).items

/-- The success samples of the included pairs. -/
def primaryTallies (batch : Value) : Tallies :=
  (((batch.field "attempts").items.flatMap attemptReports).map reportTallies).sum

/-- The success samples of the completed first repetitions. -/
def completedTallies (sidecars : Option Value) : Tallies :=
  (((sidecarsOf sidecars).flatMap fun sidecar => completedReports (sidecar.field "failure")).map reportTallies).sum

/-- The success samples before the failures. -/
def prefixTallies (sidecars : Option Value) : Tallies :=
  ((sidecarsOf sidecars).map fun sidecar => (failureTimings (orderedFailure sidecar)).tallies successTally).sum

/-- The failure samples. -/
def failedTallies (sidecars : Option Value) : Tallies :=
  ((sidecarsOf sidecars).map fun sidecar => (failureTimings (orderedFailure sidecar)).tallies failureTally).sum

/-! ### The steps over the documents -/

theorem sum_flatMap {α β M : Type} [AddCommMonoid M] (l : List α) (f : α → List β) (g : β → M) :
    ((l.flatMap f).map g).sum = (l.map fun a => ((f a).map g).sum).sum := by
  induction l with
  | nil => rfl
  | cons a l ih => simp [ih]

theorem reportTimings_eq {report : Value} {timings : OrderedTimings}
    (h : readOrderedReport label report = .ok timings) : reportTimings report = timings := by
  simp only [readOrderedReport, Checked.bind_eq_ok, Checked.pure_eq, Except.ok.injEq] at h
  obtain ⟨order, horder, comparison, hcomparison, left, hleft, right, hright, leftTiming, hleftTiming, rightTiming,
    hrightTiming, rfl⟩ := h
  simp [reportTimings, asStr_of_requiredStr horder, field_of_requiredField hcomparison,
    field_of_requiredField hleft, field_of_requiredField hright, field_of_requiredField hleftTiming,
    field_of_requiredField hrightTiming]

theorem failureTimings_eq {ordered : Value} {timings : OrderedTimings}
    (h : readOrderedFailure label ordered = .ok timings) : failureTimings ordered = timings := by
  simp only [readOrderedFailure, Checked.bind_eq_ok, Checked.pure_eq, Except.ok.injEq] at h
  obtain ⟨order, horder, left, hleft, right, hright, rfl⟩ := h
  simp [failureTimings, asStr_of_requiredStr horder, field_of_requiredField hleft, field_of_requiredField hright]

abbrev successTallies (c : SuccessCollector) : Tallies := Strata.tallies SuccessfulOperationCollector.tally c

abbrev failureTallies (c : FailureCollector) : Tallies := Strata.tallies FailedOperationCollector.tally c

theorem accumulates_orderedReport : Accumulates (addOrderedReport label) successTallies reportTallies := by
  refine Accumulates.reads (fun timings _ => timings.tallies successTally)
    (fun timings => (accumulates_byOrder accumulates_successOperation label).comap) fun report timings h => ?_
  rw [reportTallies, reportTimings_eq h]

theorem accumulates_failurePrefix : Accumulates (addFailurePrefix label) successTallies
    fun ordered => (failureTimings ordered).tallies successTally := by
  refine Accumulates.reads (fun timings _ => timings.tallies successTally)
    (fun timings => (accumulates_byOrder accumulates_successOperation label).comap) fun ordered timings h => ?_
  rw [failureTimings_eq h]

theorem accumulates_orderedFailure : Accumulates addOrderedFailure failureTallies
    fun ordered => (failureTimings ordered).tallies failureTally := by
  refine Accumulates.reads (fun timings _ => timings.tallies failureTally)
    (fun timings => (accumulates_byOrder accumulates_failedOperation "ordered failure").comap)
    fun ordered timings h => ?_
  rw [failureTimings_eq h]

theorem accumulates_attempt : Accumulates collectAttempt successTallies
    fun attempt => ((attemptReports attempt).map reportTallies).sum := by
  refine Accumulates.reads (fun disposition attempt => if disposition = "included" then
      reportTallies ((attempt.field "report").field "first") + reportTallies ((attempt.field "report").field "second")
    else 0) (fun disposition => ?_) fun attempt disposition h => ?_
  · by_cases hincluded : disposition = "included"
    · simp only [hincluded, ne_eq, not_true, if_false, if_true]
      refine Accumulates.reads
        (fun report _ => reportTallies (report.field "first") + reportTallies (report.field "second"))
        (fun report => ?_) fun attempt report h => by rw [field_of_requiredField h]
      refine Accumulates.reads (fun first _ => reportTallies first + reportTallies (report.field "second"))
        (fun first => ?_) fun _ first h => by rw [field_of_requiredField h]
      refine accumulates_orderedReport.comap.andThen ?_
      refine Accumulates.reads (fun second _ => reportTallies second)
        (fun second => accumulates_orderedReport.comap) fun _ second h => by rw [field_of_requiredField h]
    · simp only [hincluded, ne_eq, not_false_eq_true, if_true, if_false]
      exact Accumulates.skip
  · simp only [attemptReports, asStr_of_requiredStr h, Option.some.injEq]
    by_cases hincluded : disposition = "included"
    · simp [hincluded]
    · simp [hincluded]

theorem accumulates_completed : Accumulates addCompleted successTallies
    fun failure => ((completedReports failure).map reportTallies).sum := by
  refine Accumulates.reads
    (fun found _ => if (found.getD .null).isNull then 0 else reportTallies (found.getD .null))
    (fun found => ?_) fun failure found h => ?_
  · cases found with
    | none => exact Accumulates.skip
    | some completed =>
      by_cases hnull : completed.isNull
      · simp only [hnull, if_true, Option.getD_some]
        exact Accumulates.skip
      · simp only [hnull, if_false, Option.getD_some, Bool.false_eq_true]
        exact accumulates_orderedReport.comap
  · rw [completedReports, field_of_optionalField h]
    by_cases hnull : (found.getD .null).isNull
    · simp [hnull]
    · simp [hnull]

/-- The tallies of the three sections. -/
def FailedPairEvidence.tallies (c : FailedPairEvidence) : Tallies × Tallies × Tallies :=
  (successTallies c.completedRepetitions, successTallies c.failingPrefix, failureTallies c.failures)

theorem accumulates_sidecar : Accumulates collectSidecar FailedPairEvidence.tallies fun sidecar =>
    (((completedReports (sidecar.field "failure")).map reportTallies).sum,
      (failureTimings (orderedFailure sidecar)).tallies successTally,
      (failureTimings (orderedFailure sidecar)).tallies failureTally) where
  adds h := by
    simp only [collectSidecar, Checked.bind_eq_ok, Checked.pure_eq, Except.ok.injEq] at h
    obtain ⟨failure, hfailure, completed, hcompleted, ordered, hordered, failing, hfailing, failures, hfailures,
      rfl⟩ := h
    simp only [orderedFailure, field_of_requiredField hfailure, field_of_requiredField hordered]
    exact Prod.ext (accumulates_completed.adds hcompleted)
      (Prod.ext (accumulates_failurePrefix.adds hfailing) (accumulates_orderedFailure.adds hfailures))
  accepts h t := by
    simp only [collectSidecar, Checked.bind_eq_ok, Checked.pure_eq, Except.ok.injEq] at h
    obtain ⟨failure, hfailure, completed, hcompleted, ordered, hordered, failing, hfailing, failures, hfailures,
      -⟩ := h
    obtain ⟨completed', hcompleted'⟩ := accumulates_completed.accepts hcompleted t.completedRepetitions
    obtain ⟨failing', hfailing'⟩ := accumulates_failurePrefix.accepts hfailing t.failingPrefix
    obtain ⟨failures', hfailures'⟩ := accumulates_orderedFailure.accepts hfailures t.failures
    refine ⟨⟨completed', failing', failures'⟩, ?_⟩
    simp only [collectSidecar, Checked.bind_eq_ok]
    exact ⟨failure, hfailure, completed', hcompleted', ordered, hordered, failing', hfailing', failures', hfailures',
      rfl⟩

/-! ### Balance -/

theorem addOrderedReport_balanced {report : Value} {c c' : SuccessCollector}
    (h : addOrderedReport label report c = .ok c') (hc : Balanced SuccessfulOperationCollector.tally c) :
    Balanced SuccessfulOperationCollector.tally c' := by
  obtain ⟨timings, -, hadd⟩ := Checked.bind_eq_ok.1 h
  exact ByOrder.add_balanced accumulates_successOperation hadd hc

theorem collectAttempt_balanced (attempt : Value) (c c' : SuccessCollector) (h : collectAttempt attempt c = .ok c')
    (hc : Balanced SuccessfulOperationCollector.tally c) : Balanced SuccessfulOperationCollector.tally c' := by
  obtain ⟨disposition, -, hrest⟩ := Checked.bind_eq_ok.1 h
  by_cases hincluded : disposition = "included"
  · simp only [hincluded, ne_eq, not_true, if_false, Checked.bind_eq_ok] at hrest
    obtain ⟨report, -, first, -, c₁, hfirst, second, -, hsecond⟩ := hrest
    exact addOrderedReport_balanced hsecond (addOrderedReport_balanced hfirst hc)
  · simp only [hincluded, ne_eq, not_false_eq_true, if_true, Checked.pure_eq, Except.ok.injEq] at hrest
    exact hrest ▸ hc

/-- All sections of the evidence are balanced. -/
def FailedPairEvidence.Balanced (c : FailedPairEvidence) : Prop :=
  Analyze.Balanced SuccessfulOperationCollector.tally c.completedRepetitions ∧
    Analyze.Balanced SuccessfulOperationCollector.tally c.failingPrefix ∧
    Analyze.Balanced FailedOperationCollector.tally c.failures

theorem collectSidecar_balanced (sidecar : Value) (c c' : FailedPairEvidence) (h : collectSidecar sidecar c = .ok c')
    (hc : c.Balanced) : c'.Balanced := by
  simp only [collectSidecar, Checked.bind_eq_ok, Checked.pure_eq, Except.ok.injEq] at h
  obtain ⟨failure, -, completed, hcompleted, ordered, -, failing, hfailing, failures, hfailures, rfl⟩ := h
  refine ⟨?_, ?_, ?_⟩
  · obtain ⟨found, -, hrest⟩ := Checked.bind_eq_ok.1 hcompleted
    cases found with
    | none => exact Except.ok.inj hrest ▸ hc.1
    | some report =>
      by_cases hnull : report.isNull
      · simp only [hnull, if_true, Checked.pure_eq, Except.ok.injEq] at hrest
        exact hrest ▸ hc.1
      · simp only [hnull, if_false, Bool.false_eq_true] at hrest
        exact addOrderedReport_balanced hrest hc.1
  · obtain ⟨timings, -, hadd⟩ := Checked.bind_eq_ok.1 hfailing
    exact ByOrder.add_balanced accumulates_successOperation hadd hc.2.1
  · obtain ⟨timings, -, hadd⟩ := Checked.bind_eq_ok.1 hfailures
    exact ByOrder.add_balanced accumulates_failedOperation hadd hc.2.2

end DbLab.Experiment.Analyze
