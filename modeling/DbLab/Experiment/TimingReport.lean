import DbLab.Experiment.TimingAnalysis

/-!
# The report of the analysis

What a report says about the samples of its documents. A summary depends on the samples alone, so the order of
attempts and sidecars has no part in it.
-/

namespace DbLab.Experiment.Analyze

variable {batch batch' : Value} {sidecars sidecars' : Option Value}

/-! ### Summaries -/

/-- The summary describes these durations. -/
structure Describes (samples : Multiset ℕ) (d : DistributionSummary) : Prop where
  samples_eq : d.samples = samples.card
  empty : samples = 0 → d = ⟨0, none, none, none, none⟩
  inBounds : samples ≠ 0 → nearestRankIndex samples.card 50 < samples.card ∧
    nearestRankIndex samples.card 95 < samples.card
  p50 : samples ≠ 0 → ∃ x, d.nearestRankP50Ns = some x ∧ IsNearestRank samples 50 x
  p95 : samples ≠ 0 → ∃ x, d.nearestRankP95Ns = some x ∧ IsNearestRank samples 95 x

structure DescribesSuccess (t : Tally) (r : SuccessfulOperationSummary) : Prop where
  durations : Describes t.durations r.durationNs
  workUnits : r.workUnits.count = t.workUnits
  stepMissing : r.measuredStepIndexMissing = t.stepMissing

structure DescribesFailure (t : Tally) (r : FailedOperationSummary) : Prop where
  durations : Describes t.durations r.durationNs
  errorClasses : r.errorClasses.count = t.errorClasses
  workUnits : r.workUnits.count = t.workUnits
  workMissing : r.workMissing = t.workMissing
  stepMissing : r.measuredStepIndexMissing = t.stepMissing

section Rank

variable {n p : ℕ}

/-- The index is the one of the nearest rank. -/
theorem nearestRankIndex_spec (hn : 0 < n) (hp : 0 < p) (hle : p ≤ 100) :
    nearestRankIndex n p < n ∧ p * n ≤ 100 * (nearestRankIndex n p + 1) ∧ 100 * nearestRankIndex n p < p * n := by
  have hpos : 0 < n * p := Nat.mul_pos hn hp
  have hmax : n * p ≤ n * 100 := Nat.mul_le_mul_left n hle
  have hcomm : p * n = n * p := Nat.mul_comm p n
  unfold nearestRankIndex
  dsimp only
  omega

theorem isNearestRank_index {samples : Multiset ℕ} (hne : samples ≠ 0) (hp : 0 < p) (hle : p ≤ 100) :
    ∃ x, (samples.sort (· ≤ ·))[nearestRankIndex samples.card p]? = some x ∧ IsNearestRank samples p x := by
  have hcard : 0 < samples.card := Multiset.card_pos.2 hne
  obtain ⟨hlt, henough, hleast⟩ := nearestRankIndex_spec hcard hp hle
  have hlength : (samples.sort (· ≤ ·)).length = samples.card := Multiset.length_sort _
  have hi : nearestRankIndex samples.card p < (samples.sort (· ≤ ·)).length := hlength ▸ hlt
  refine ⟨_, List.getElem?_eq_getElem hi, ?_⟩
  have hrank := isNearestRank_getElem (p := p) (Multiset.pairwise_sort (r := (· ≤ ·)) samples) hi
    (by rw [hlength]; exact henough) (by rw [hlength]; exact hleast)
  rwa [Multiset.sort_eq] at hrank

end Rank

theorem summarizeDistribution_describes (values : List ℕ) : Describes (values : Multiset ℕ) (summarizeDistribution values) := by
  by_cases hempty : values = []
  · subst hempty
    exact ⟨rfl, fun _ => rfl, fun h => absurd rfl h, fun h => absurd rfl h, fun h => absurd rfl h⟩
  · have hne : (values : Multiset ℕ) ≠ 0 := by simpa using hempty
    have hcard : 0 < (values : Multiset ℕ).card := Multiset.card_pos.2 hne
    rw [summarizeDistribution, if_neg hempty]
    dsimp only
    rw [Multiset.length_sort]
    exact ⟨rfl, fun h => absurd h hne,
      fun _ => ⟨(nearestRankIndex_spec hcard (by decide) (by decide)).1,
        (nearestRankIndex_spec hcard (by decide) (by decide)).1⟩,
      fun _ => isNearestRank_index hne (by decide) (by decide),
      fun _ => isNearestRank_index hne (by decide) (by decide)⟩

theorem summarizeDistribution_congr {values values' : List ℕ} (h : (values : Multiset ℕ) = values') :
    summarizeDistribution values = summarizeDistribution values' := by
  have hempty : values = [] ↔ values' = [] := by rw [← Multiset.coe_eq_zero, h, Multiset.coe_eq_zero]
  unfold summarizeDistribution
  rw [h]
  exact if_congr hempty rfl rfl

theorem SuccessfulOperationCollector.summarize_describes (c : SuccessfulOperationCollector) :
    DescribesSuccess c.tally c.summarize :=
  ⟨summarizeDistribution_describes c.durations, rfl, rfl⟩

theorem FailedOperationCollector.summarize_describes (c : FailedOperationCollector) :
    DescribesFailure c.tally c.summarize :=
  ⟨summarizeDistribution_describes c.durations, rfl, rfl, rfl, rfl⟩

theorem SuccessfulOperationCollector.summarize_congr {c c' : SuccessfulOperationCollector} (h : c.tally = c'.tally) :
    c.summarize = c'.summarize := by
  obtain ⟨hdurations, -, hunits, -, hstep⟩ := Tally.ext_iff.1 h
  have hunits : c.workUnits = c'.workUnits := Occurrences.ext_count fun name => congrFun hunits name
  rw [summarize, summarize, summarizeDistribution_congr hdurations, hunits]
  exact congrArg _ hstep

theorem FailedOperationCollector.summarize_congr {c c' : FailedOperationCollector} (h : c.tally = c'.tally) :
    c.summarize = c'.summarize := by
  obtain ⟨hdurations, hclasses, hunits, hwork, hstep⟩ := Tally.ext_iff.1 h
  have hunits : c.workUnits = c'.workUnits := Occurrences.ext_count fun name => congrFun hunits name
  have hclasses : c.errorClasses = c'.errorClasses := Occurrences.ext_count fun name => congrFun hclasses name
  have hwork : c.workMissing = c'.workMissing := hwork
  rw [summarize, summarize, summarizeDistribution_congr hdurations, hunits, hclasses, hwork]
  exact congrArg _ hstep

section Strata

variable {α β : Type} {f : α → β} {c c' : Strata α}

theorem at_map (stratum : Stratum) (side : Side) (op : Operation) :
    (((ByOrder.map (BySide.map (ByOperation.map f)) c).at stratum).at side).at op =
      f (((c.at stratum).at side).at op) := by
  cases stratum <;> cases side <;> cases op <;> rfl

theorem strata_ext (h : ∀ stratum side op, ((c.at stratum).at side).at op = ((c'.at stratum).at side).at op) :
    c = c' := by
  obtain ⟨⟨⟨_, _⟩, ⟨_, _⟩⟩, ⟨⟨_, _⟩, ⟨_, _⟩⟩, ⟨⟨_, _⟩, ⟨_, _⟩⟩⟩ := c
  obtain ⟨⟨⟨_, _⟩, ⟨_, _⟩⟩, ⟨⟨_, _⟩, ⟨_, _⟩⟩, ⟨⟨_, _⟩, ⟨_, _⟩⟩⟩ := c'
  simp only [ByOrder.mk.injEq, BySide.mk.injEq, ByOperation.mk.injEq]
  exact ⟨⟨⟨h .combined .left .reopen, h .combined .left .compactionStall⟩,
      h .combined .right .reopen, h .combined .right .compactionStall⟩,
    ⟨⟨h .leftThenRight .left .reopen, h .leftThenRight .left .compactionStall⟩,
      h .leftThenRight .right .reopen, h .leftThenRight .right .compactionStall⟩,
    ⟨h .rightThenLeft .left .reopen, h .rightThenLeft .left .compactionStall⟩,
      h .rightThenLeft .right .reopen, h .rightThenLeft .right .compactionStall⟩

theorem tallies_const {a : α} {tally : α → Tally} (h : tally a = 0) : Strata.tallies tally (Strata.const a) = 0 := by
  funext stratum side op
  cases stratum <;> cases side <;> cases op <;> exact h

theorem balanced_const {a : α} {tally : α → Tally} (h : tally a = 0) : Balanced tally (Strata.const a) := by
  intro side op
  rw [tallies_const h]
  exact (add_zero _).symm

end Strata

theorem SuccessCollector.summarize_congr {c c' : SuccessCollector} (h : successTallies c = successTallies c') :
    SuccessCollector.summarize c = SuccessCollector.summarize c' := by
  refine strata_ext fun stratum side op => ?_
  rw [SuccessCollector.summarize, SuccessCollector.summarize, at_map, at_map]
  exact SuccessfulOperationCollector.summarize_congr (congrFun (congrFun (congrFun h stratum) side) op)

theorem FailureCollector.summarize_congr {c c' : FailureCollector} (h : failureTallies c = failureTallies c') :
    FailureCollector.summarize c = FailureCollector.summarize c' := by
  refine strata_ext fun stratum side op => ?_
  rw [FailureCollector.summarize, FailureCollector.summarize, at_map, at_map]
  exact FailedOperationCollector.summarize_congr (congrFun (congrFun (congrFun h stratum) side) op)

theorem FailedPairEvidence.summarize_congr {c c' : FailedPairEvidence} (h : c.tallies = c'.tallies) :
    c.summarize = c'.summarize := by
  have hcompleted : successTallies c.completedRepetitions = successTallies c'.completedRepetitions :=
    congrArg Prod.fst h
  have hprefix : successTallies c.failingPrefix = successTallies c'.failingPrefix :=
    congrArg (fun t => t.2.1) h
  have hfailures : failureTallies c.failures = failureTallies c'.failures := congrArg (fun t => t.2.2) h
  rw [summarize, summarize, SuccessCollector.summarize_congr hcompleted, SuccessCollector.summarize_congr hprefix,
    FailureCollector.summarize_congr hfailures]

/-! ### The collectors of the documents -/

theorem successTallies_new : successTallies .new = 0 := tallies_const rfl

theorem failureTallies_new : failureTallies .new = 0 := tallies_const rfl

theorem tallies_new : FailedPairEvidence.new.tallies = 0 :=
  Prod.ext successTallies_new (Prod.ext successTallies_new failureTallies_new)

theorem balanced_new : FailedPairEvidence.new.Balanced := ⟨balanced_const rfl, balanced_const rfl, balanced_const rfl⟩

theorem collectDocuments_eq_ok {primary : SuccessCollector} {evidence : FailedPairEvidence} :
    collectDocuments batch sidecars = .ok (primary, evidence) ↔
      (∃ attempts, batch.field "attempts" = .array attempts ∧ foldSteps collectAttempt attempts .new = .ok primary) ∧
        match sidecars with
        | none => evidence = .new
        | some sidecars => ∃ items, sidecars = .array items ∧ foldSteps collectSidecar items .new = .ok evidence := by
  have harray : ∀ (v : Value) (items : List Value), v.asArray = some items ↔ v = .array items := by
    intro v items
    cases v <;> simp [Value.asArray]
  cases sidecars with
  | none =>
    simp only [collectDocuments, collectCompletePairs, Checked.bind_eq_ok, requiredArray_eq_ok, Checked.pure_eq,
      Except.ok.injEq, Prod.mk.injEq]
    constructor
    · rintro ⟨primary, hprimary, evidence, rfl, rfl, rfl⟩
      exact ⟨hprimary, rfl⟩
    · rintro ⟨hprimary, rfl⟩
      exact ⟨primary, hprimary, _, rfl, rfl, rfl⟩
  | some sidecars =>
    simp only [collectDocuments, collectCompletePairs, collectFailedPairEvidence, Checked.bind_eq_ok,
      requiredArray_eq_ok, orInvalid_eq_ok, harray, Checked.pure_eq, Except.ok.injEq, Prod.mk.injEq]
    constructor
    · rintro ⟨primary, hprimary, evidence, hevidence, rfl, rfl⟩
      exact ⟨hprimary, hevidence⟩
    · rintro ⟨hprimary, hevidence⟩
      exact ⟨primary, hprimary, evidence, hevidence, rfl, rfl⟩

section Collected

variable {primary : SuccessCollector} {evidence : FailedPairEvidence}

/-- The primary collector holds the samples of the included pairs. -/
theorem primary_collected (h : collectDocuments batch sidecars = .ok (primary, evidence)) :
    successTallies primary = primaryTallies batch ∧ Balanced SuccessfulOperationCollector.tally primary := by
  obtain ⟨⟨attempts, hattempts, hrun⟩, -⟩ := collectDocuments_eq_ok.1 h
  refine ⟨?_, foldSteps_induction collectAttempt_balanced hrun (balanced_const rfl)⟩
  rw [accumulates_attempt.fold.adds hrun, successTallies_new, zero_add, primaryTallies, sum_flatMap, hattempts]
  rfl

theorem sum_prod {α M N K : Type} [AddCommMonoid M] [AddCommMonoid N] [AddCommMonoid K] (l : List α) (f : α → M)
    (g : α → N) (k : α → K) :
    (l.map fun a => (f a, g a, k a)).sum = ((l.map f).sum, (l.map g).sum, (l.map k).sum) := by
  induction l with
  | nil => rfl
  | cons a l ih => simp [ih]

/-- The other collectors hold the samples of the sidecars. -/
theorem evidence_collected (h : collectDocuments batch sidecars = .ok (primary, evidence)) :
    evidence.tallies = (completedTallies sidecars, prefixTallies sidecars, failedTallies sidecars) ∧
      evidence.Balanced := by
  obtain ⟨-, hevidence⟩ := collectDocuments_eq_ok.1 h
  cases sidecars with
  | none =>
    have hnew : evidence = .new := hevidence
    subst hnew
    exact ⟨tallies_new, balanced_new⟩
  | some sidecars =>
    obtain ⟨items, rfl, hrun⟩ := hevidence
    refine ⟨?_, foldSteps_induction collectSidecar_balanced hrun balanced_new⟩
    rw [accumulates_sidecar.fold.adds hrun, tallies_new, zero_add, sum_prod, completedTallies, sum_flatMap]
    rfl

/-- Two documents are lists of the same items. -/
def Reordered (v v' : Value) : Prop := ∃ items items', v = .array items ∧ v' = .array items' ∧ items.Perm items'

/-- **The order of the documents** has no part in the summaries. -/
theorem collected_reordered (h : collectDocuments batch sidecars = .ok (primary, evidence))
    (hbatch : Reordered (batch.field "attempts") (batch'.field "attempts"))
    (hsidecars : Option.Rel Reordered sidecars sidecars') :
    ∃ primary' evidence', collectDocuments batch' sidecars' = .ok (primary', evidence') ∧
      SuccessCollector.summarize primary' = SuccessCollector.summarize primary ∧
      evidence'.summarize = evidence.summarize := by
  obtain ⟨⟨attempts, hattempts, hrun⟩, hevidence⟩ := collectDocuments_eq_ok.1 h
  obtain ⟨items, items', hitems, hitems', hperm⟩ := hbatch
  obtain rfl : items = attempts := Value.array.inj (hitems.symm.trans hattempts)
  obtain ⟨primary', hrun', hprimary⟩ := accumulates_attempt.perm hperm hrun
  cases hsidecars with
  | none =>
    have hnew : evidence = .new := hevidence
    subst hnew
    exact ⟨primary', .new, collectDocuments_eq_ok.2 ⟨⟨items', hitems', hrun'⟩, rfl⟩,
      SuccessCollector.summarize_congr hprimary, rfl⟩
  | some hsidecars =>
    obtain ⟨sides, hsides, hcollected⟩ := hevidence
    obtain ⟨sides₁, sides', hsides₁, hsides', hperm'⟩ := hsidecars
    obtain rfl : sides₁ = sides := Value.array.inj (hsides₁.symm.trans hsides)
    obtain ⟨evidence', hcollected', htallies⟩ := accumulates_sidecar.perm hperm' hcollected
    exact ⟨primary', evidence',
      collectDocuments_eq_ok.2 ⟨⟨items', hitems', hrun'⟩, sides', hsides', hcollected'⟩,
      SuccessCollector.summarize_congr hprimary, FailedPairEvidence.summarize_congr htallies⟩

end Collected

/-! ### The report -/

section Report

variable {τ Archive Summary : Type} [DecidableEq Summary] {fs : Archives τ Archive Summary} {source : Archive}
  {s s' : τ} {report : AnalysisReport Summary}

/-- The documents are those that the analysis reads from its snapshot of the archive. -/
def DocumentsOf (fs : Archives τ Archive Summary) (source : Archive) (batch : Value) (sidecars : Option Value) : Prop :=
  ∃ snapshot s₁ s₂ s₃ s₄ s₅, fs.snapshotArchive source s₁ = (.ok snapshot, s₂) ∧
    fs.readJson snapshot "batch.json" s₃ = (.ok batch, s₄) ∧
    (sidecars = none ∨ ∃ value, sidecars = some value ∧
      fs.readJson snapshot "comparison-failures.json" s₄ = (.ok value, s₅))

/-- An analysis that succeeds has collected the documents of the archive. -/
theorem analyze_collected (h : analyze fs source s = (.ok report, s')) :
    ∃ batch sidecars primary evidence, DocumentsOf fs source batch sidecars ∧
      collectDocuments batch sidecars = .ok (primary, evidence) ∧
      report.primaryCompletePairs = SuccessCollector.summarize primary ∧
      report.retainedFailedPairEvidence = evidence.summarize := by
  unfold analyze at h
  obtain ⟨_, t₁, -, h⟩ := Prog.bind_eq_ok.1 h
  obtain ⟨sourceVerification, t₂, -, h⟩ := Prog.bind_eq_ok.1 h
  obtain ⟨snapshot, t₃, hsnapshot, h⟩ := Prog.bind_eq_ok.1 h
  obtain ⟨verification, t₄, -, h⟩ := Prog.bind_eq_ok.1 h
  obtain ⟨_, t₅, -, h⟩ := Prog.bind_eq_ok.1 h
  obtain ⟨batch, t₆, hbatch, h⟩ := Prog.bind_eq_ok.1 h
  obtain ⟨sidecars, t₇, hsidecars, h⟩ := Prog.bind_eq_ok.1 h
  obtain ⟨⟨primary, evidence⟩, t₈, hcollected, h⟩ := Prog.bind_eq_ok.1 h
  obtain ⟨_, t₉, -, h⟩ := Prog.bind_eq_ok.1 h
  obtain ⟨_, t₁₀, -, h⟩ := Prog.bind_eq_ok.1 h
  obtain ⟨_, t₁₁, -, h⟩ := Prog.bind_eq_ok.1 h
  obtain ⟨_, t₁₂, -, h⟩ := Prog.bind_eq_ok.1 h
  obtain ⟨_, t₁₃, -, h⟩ := Prog.bind_eq_ok.1 h
  obtain ⟨hreport, -⟩ := Prod.mk.inj h
  have hreport := Except.ok.inj hreport
  subst hreport
  refine ⟨batch, sidecars, primary, evidence, ⟨snapshot, t₂, t₃, t₅, t₆, t₇, hsnapshot, hbatch, ?_⟩,
    congrArg Prod.fst hcollected, rfl, rfl⟩
  unfold Archives.readSidecars at hsidecars
  split at hsidecars
  · obtain ⟨value, t, hvalue, hsome⟩ := Prog.bind_eq_ok.1 hsidecars
    cases hsome
    exact .inr ⟨value, rfl, hvalue⟩
  · cases hsidecars
    exact .inl rfl

/-- The samples of all comparisons are those of the two execution orders together. -/
def AddUp (t : Tallies) : Prop :=
  ∀ side op, t .combined side op = t .leftThenRight side op + t .rightThenLeft side op

/-- **The timing analysis.** Every summary of a report describes exactly the samples of its section, those of all
comparisons being those of the two execution orders together, and the report is the same for every order of the
attempts and the sidecars. -/
theorem timing_analysis (h : analyze fs source s = (.ok report, s')) :
    ∃ batch sidecars, DocumentsOf fs source batch sidecars ∧
      (AddUp (primaryTallies batch) ∧ AddUp (completedTallies sidecars) ∧ AddUp (prefixTallies sidecars) ∧
        AddUp (failedTallies sidecars)) ∧
      (∀ stratum side op,
        DescribesSuccess (primaryTallies batch stratum side op)
          (((report.primaryCompletePairs.at stratum).at side).at op) ∧
        DescribesSuccess (completedTallies sidecars stratum side op)
          (((report.retainedFailedPairEvidence.completedRepetitions.at stratum).at side).at op) ∧
        DescribesSuccess (prefixTallies sidecars stratum side op)
          (((report.retainedFailedPairEvidence.failingRepetitionPrefix.at stratum).at side).at op) ∧
        DescribesFailure (failedTallies sidecars stratum side op)
          (((report.retainedFailedPairEvidence.failedOperations.at stratum).at side).at op)) ∧
      ∀ batch' sidecars', Reordered (batch.field "attempts") (batch'.field "attempts") →
        Option.Rel Reordered sidecars sidecars' →
        ∃ primary' evidence', collectDocuments batch' sidecars' = .ok (primary', evidence') ∧
          SuccessCollector.summarize primary' = report.primaryCompletePairs ∧
          evidence'.summarize = report.retainedFailedPairEvidence := by
  obtain ⟨batch, sidecars, primary, evidence, hdocuments, hcollected, hprimary, hevidence⟩ := analyze_collected h
  obtain ⟨htallies, hbalanced⟩ := primary_collected hcollected
  obtain ⟨htallies', hcompleted, hfailing, hfailures⟩ := evidence_collected hcollected
  obtain ⟨hcompletedTallies, hrest⟩ := Prod.mk.inj htallies'
  obtain ⟨hprefixTallies, hfailedTallies⟩ := Prod.mk.inj hrest
  refine ⟨batch, sidecars, hdocuments, ⟨htallies ▸ hbalanced, hcompletedTallies ▸ hcompleted,
    hprefixTallies ▸ hfailing, hfailedTallies ▸ hfailures⟩, fun stratum side op => ?_, fun batch' sidecars' hbatch hsidecars => ?_⟩
  · rw [hprimary, hevidence, ← htallies, ← hcompletedTallies, ← hprefixTallies, ← hfailedTallies]
    simp only [FailedPairEvidence.summarize, SuccessCollector.summarize, FailureCollector.summarize, at_map]
    exact ⟨SuccessfulOperationCollector.summarize_describes _, SuccessfulOperationCollector.summarize_describes _,
      SuccessfulOperationCollector.summarize_describes _, FailedOperationCollector.summarize_describes _⟩
  · rw [hprimary, hevidence]
    exact collected_reordered hcollected hbatch hsidecars

end Report

/-! ### An archive with one pair -/

/-- The timing of an engine that was reopened once. -/
def onceReopened (duration : ℕ) : Value :=
  .object [("reopen_ns", .array [.unsigned duration]),
    ("reopen_samples", .array [.object [("duration_ns", .unsigned duration), ("measured_step_index", .null),
      ("work", .object [("unit", .string "pages"), ("units_examined", .unsigned 1),
        ("bytes_examined", .unsigned 4096)])]]),
    ("compaction_stall_ns", .array []), ("compaction_stall_samples", .array [])]

def onceOrdered (order : String) (left right : ℕ) : Value :=
  .object [("execution_order", .string order),
    ("comparison", .object [("left", .object [("operational_timing", onceReopened left)]),
      ("right", .object [("operational_timing", onceReopened right)])])]

def oneAttempt : Value :=
  .object [("disposition", .string "included"),
    ("report", .object [("first", onceOrdered "left_then_right" 40 10),
      ("second", onceOrdered "right_then_left" 30 20)])]

def oneSidecar : Value :=
  .object [("failure", .object [("completed_first", .null),
    ("ordered_failure", .object [("execution_order", .string "right_then_left"),
      ("left_operational_timing", onceReopened 50), ("right_operational_timing", onceReopened 60)])])]

/-- The archive has one included pair and one failed one. -/
def oneArchive : Archives Unit Unit ℕ where
  requireRegularDirectory _ := pure ()
  verifyBatchArchive _ := pure 11
  snapshotArchive _ := pure ()
  readJson _ name := pure (if name = "batch.json" then .object [("attempts", .array [oneAttempt])]
    else .array [oneSidecar])
  verifySourceMatchesSnapshot _ _ := pure ()
  formatVersion := id

theorem timing_analysis_one : ∃ (report : AnalysisReport ℕ), analyze oneArchive () () = (.ok report, ()) ∧
    ∃ batch sidecars, DocumentsOf oneArchive () batch sidecars ∧ AddUp (primaryTallies batch) := by
  have hok : (analyze oneArchive () ()).1.toBool = true := by decide +kernel
  obtain ⟨report, hreport⟩ : ∃ report, (analyze oneArchive () ()).1 = .ok report := by
    cases hcase : (analyze oneArchive () ()).1 with
    | error e =>
      rw [hcase] at hok
      cases hok
    | ok report => exact ⟨report, rfl⟩
  have hrun : analyze oneArchive () () = (.ok report, ()) := Prod.ext hreport rfl
  obtain ⟨batch, sidecars, hdocuments, ⟨hprimary, -⟩, -⟩ := timing_analysis hrun
  exact ⟨report, hrun, batch, sidecars, hdocuments, hprimary⟩

end DbLab.Experiment.Analyze
