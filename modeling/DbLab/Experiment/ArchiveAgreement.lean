import DbLab.Experiment.ArchiveLedger

/-!
# The archive and its verification

What the program writes follows the rules of the verifier in all four formats. The verifier reads no file of more than
64 MiB, and the program writes them of any length.
-/

namespace DbLab.Experiment.BatchArchive

open Analyze (Value)

variable {σ ρ : Type} [Candidate σ] [Candidate ρ] {callbacks : Callbacks σ ρ} {trace : ExperimentTrace}

/-! ### The batch document -/

/-- The batch of a run with these callbacks. -/
def batchOf (callbacks : Callbacks σ ρ) (trace : ExperimentTrace) (pairSeed : UInt64) (requestedPairs : ℕ) :
    CounterbalancedExperimentBatchReport :=
  (Ledger.ofAttempts ((List.range requestedPairs).map fun i =>
    attemptOf callbacks trace (scheduled pairSeed i))).report trace pairSeed requestedPairs

/-- The sidecars of a run with these callbacks. -/
def sidecarsOf (callbacks : Callbacks σ ρ) (trace : ExperimentTrace) (pairSeed : UInt64) (requestedPairs : ℕ) :
    List CounterbalancedBatchComparisonFailureEvidence :=
  (List.range requestedPairs).filterMap fun i => sidecarOf callbacks trace (scheduled pairSeed i)

section Batch

variable {pairSeed : UInt64} {requestedPairs : ℕ}

theorem maxPairs_lt : maxExperimentBatchPairs < 2 ^ 32 := by decide

theorem verifyBatchLedger_eq (hpairs : 1 ≤ requestedPairs ∧ requestedPairs ≤ maxExperimentBatchPairs)
    (hreasoned : ∀ i < requestedPairs, callbacks.Reasoned (scheduled pairSeed i)) :
    verifyBatchLedger (batchOf callbacks trace pairSeed requestedPairs).json =
      .ok ⟨requestedPairs, (batchOf callbacks trace pairSeed requestedPairs).includedPairs,
        (batchOf callbacks trace pairSeed requestedPairs).failedPairs,
        (batchOf callbacks trace pairSeed requestedPairs).excludedPairs⟩ := by
  have hlt := maxPairs_lt
  have hlength : (batchOf callbacks trace pairSeed requestedPairs).attempts.length = requestedPairs := by
    simp [batchOf, Ledger.report, Ledger.ofAttempts]
  have hsum : (batchOf callbacks trace pairSeed requestedPairs).includedPairs +
      (batchOf callbacks trace pairSeed requestedPairs).failedPairs +
      (batchOf callbacks trace pairSeed requestedPairs).excludedPairs = requestedPairs :=
    (countP_dispositions _).trans hlength
  have hrows : verifyAttempts pairSeed.toNat 0
      ((batchOf callbacks trace pairSeed requestedPairs).attempts.map ExperimentAttemptRecord.json)
      ⟨requestedPairs, 0, 0, 0⟩ = .ok (BatchCounts.addAll ⟨requestedPairs, 0, 0, 0⟩
        (batchOf callbacks trace pairSeed requestedPairs).attempts) := by
    have h := verifyAttempts_eq (f := fun i => attemptOf callbacks trace (scheduled pairSeed i)) requestedPairs 0
      ⟨requestedPairs, 0, 0, 0⟩ fun i _ hi => verifyAttempt_attemptOf (hreasoned i (by omega)) (by omega)
    rw [← List.range_eq_range'] at h
    simpa [batchOf, Ledger.report, Ledger.ofAttempts, Function.comp_def] using h
  unfold verifyBatchLedger
  rw [CounterbalancedExperimentBatchReport.json, requiredU32_eq (n := requestedPairs) rfl (by omega), Checked.ok_bind,
    require_ok (by omega), Checked.ok_bind, requiredU64_eq (n := pairSeed.toNat) rfl, Checked.ok_bind,
    requiredU32_eq rfl (by omega), Checked.ok_bind, requiredU32_eq rfl (by omega), Checked.ok_bind,
    requiredU32_eq rfl (by omega), Checked.ok_bind, require_ok hsum, Checked.ok_bind, requiredArray_eq rfl,
    Checked.ok_bind, require_ok (by rw [List.length_map, hlength]), Checked.ok_bind, hrows, Checked.ok_bind]
  refine then_of_ok (require_ok ?_) rfl
  simp [BatchCounts.addAll, batchOf, Ledger.report, Ledger.ofAttempts]

theorem verifyContextualSidecars_eq (hpairs : requestedPairs ≤ maxExperimentBatchPairs) :
    verifyContextualSidecars
      (.array ((sidecarsOf callbacks trace pairSeed requestedPairs).map CounterbalancedBatchComparisonFailureEvidence.json))
      (batchOf callbacks trace pairSeed requestedPairs).json requestedPairs =
      .ok (sidecarsOf callbacks trace pairSeed requestedPairs).length := by
  have hlt := maxPairs_lt
  have h := @verifySidecars_eq _ _ _ _ callbacks trace pairSeed requestedPairs (by omega) requestedPairs 0 0 [] (by simp)
    (by omega)
  rw [← List.range_eq_range'] at h
  have hattempts : requiredArray (batchOf callbacks trace pairSeed requestedPairs).json "attempts" "batch.json" =
      .ok ((List.range requestedPairs).map fun i => (attemptOf callbacks trace (scheduled pairSeed i)).json) := by
    have hrows : (batchOf callbacks trace pairSeed requestedPairs).attempts.map ExperimentAttemptRecord.json =
        (List.range requestedPairs).map fun i => (attemptOf callbacks trace (scheduled pairSeed i)).json := by
      simp [batchOf, Ledger.report, Ledger.ofAttempts, Function.comp_def]
    rw [CounterbalancedExperimentBatchReport.json, requiredArray_eq rfl, hrows]
  unfold verifyContextualSidecars
  rw [Value.asArray, orInvalid_some, Checked.ok_bind, hattempts, Checked.ok_bind]
  refine then_of_ok h ?_
  rw [List.length_map]

end Batch

/-! ### The arguments -/

/-- The reasons that were parsed are not blank. -/
theorem parseExclusions_reasoned {values : List String} {pairs : U32} {exclusions : SortedMap ℕ String}
    (h : parseExclusions values pairs = .ok exclusions) :
    ∀ i reason, exclusions.find i = some reason → trimmed reason ≠ "" := by
  unfold parseExclusions at h
  suffices hfold : ∀ (values : List String) (start : SortedMap ℕ String),
      (∀ i reason, start.find i = some reason → trimmed reason ≠ "") →
      values.foldlM (parseExclusion pairs) start = .ok exclusions →
      ∀ i reason, exclusions.find i = some reason → trimmed reason ≠ "" from
    hfold values .empty (by simp) h
  intro values
  induction values with
  | nil =>
    intro start hstart hok
    cases hok
    exact hstart
  | cons encoded values ih =>
    intro start hstart hok
    rw [List.foldlM_cons] at hok
    obtain ⟨next, hround, hok⟩ := Checked.bind_eq_ok.1 hok
    refine ih next (fun i reason hfind => ?_) hok
    unfold parseExclusion at hround
    obtain ⟨⟨index, given⟩, -, hround⟩ := Checked.bind_eq_ok.1 hround
    obtain ⟨pairIndex, -, hround⟩ := Checked.bind_eq_ok.1 hround
    obtain ⟨_, -, hround⟩ := Checked.bind_eq_ok.1 hround
    obtain ⟨_, hreason, hround⟩ := Checked.bind_eq_ok.1 hround
    obtain ⟨_, -, hround⟩ := Checked.bind_eq_ok.1 hround
    cases hround
    rw [SortedMap.find_insert] at hfind
    split at hfind
    · cases hfind
      unfold requireUsage at hreason
      split at hreason
      · next hgiven => exact trimmed_trimmed_ne_empty hgiven.1
      · cases hreason
    · exact hstart i reason hfind

omit [Candidate σ] [Candidate ρ] in
theorem callbacksOf_reasoned {makeLeft : ExperimentInstanceContext → Except DbError σ}
    {makeRight : ExperimentInstanceContext → Except DbError ρ} {exclusions : SortedMap ℕ String}
    (h : ∀ i reason, exclusions.find i = some reason → trimmed reason ≠ "") (context : ExperimentAttemptContext) :
    (callbacksOf makeLeft makeRight exclusions).Reasoned context := by
  intro reason hadmission
  dsimp only [callbacksOf] at hadmission
  split at hadmission
  · next found hfind =>
    cases hadmission
    exact h _ _ hfind
  · cases hadmission

/-- The texts of an admission that must not be blank. -/
def BatchPublicationAdmissionRecord.texts (record : BatchPublicationAdmissionRecord) : List String :=
  [record.rustTargetTriple, record.hostLabel, record.hostCpu, record.hostMemory, record.storageDevice,
    record.filesystem, record.mountOptions, record.optimizationFlags, record.analysisScriptVersion, record.noiseBudget]

theorem requireUsage_eq_ok {p : Prop} [Decidable p] {reason : String} : requireUsage p reason = .ok () ↔ p := by
  unfold requireUsage
  split_ifs with h <;> simp [h]

theorem trimmed_of_bounded {label value result : String} {maximum : ℕ}
    (h : validateBoundedMetadata label value maximum = .ok result) : trimmed result ≠ "" := by
  unfold validateBoundedMetadata at h
  obtain ⟨_, hvalue, hresult⟩ := Checked.bind_eq_ok.1 h
  cases hresult
  exact trimmed_trimmed_ne_empty (requireUsage_eq_ok.1 hvalue).1

theorem trimmed_of_required {label result : String} {value : Option String}
    (h : requiredPublicationMetadata label value = .ok result) : trimmed result ≠ "" := by
  obtain ⟨_, -, hbounded⟩ := Checked.bind_eq_ok.1 h
  exact trimmed_of_bounded hbounded

theorem publicationRecord_texts {args : Cli} {triple : String} {record : BatchPublicationAdmissionRecord}
    (h : publicationRecord args triple = .ok record) :
    (∀ text ∈ record.texts, trimmed text ≠ "") ∧ record.requestedPairs = args.pairs.val := by
  unfold publicationRecord at h
  obtain ⟨_, htriple, h⟩ := Checked.bind_eq_ok.1 h
  obtain ⟨_, hlabel, h⟩ := Checked.bind_eq_ok.1 h
  obtain ⟨_, hcpu, h⟩ := Checked.bind_eq_ok.1 h
  obtain ⟨_, hmemory, h⟩ := Checked.bind_eq_ok.1 h
  obtain ⟨_, hdevice, h⟩ := Checked.bind_eq_ok.1 h
  obtain ⟨_, hfilesystem, h⟩ := Checked.bind_eq_ok.1 h
  obtain ⟨_, hmount, h⟩ := Checked.bind_eq_ok.1 h
  obtain ⟨_, hflags, h⟩ := Checked.bind_eq_ok.1 h
  obtain ⟨_, hscript, h⟩ := Checked.bind_eq_ok.1 h
  obtain ⟨_, hnoise, h⟩ := Checked.bind_eq_ok.1 h
  cases h
  refine ⟨?_, rfl⟩
  simp only [BatchPublicationAdmissionRecord.texts, List.forall_mem_cons]
  exact ⟨trimmed_of_bounded htriple, trimmed_of_required hlabel, trimmed_of_required hcpu, trimmed_of_required hmemory,
    trimmed_of_required hdevice, trimmed_of_required hfilesystem, trimmed_of_required hmount,
    trimmed_of_required hflags, trimmed_of_required hscript, trimmed_of_required hnoise, by simp⟩

/-- The admission of a run: none, or a record with texts and a warm cache. -/
def Admitted (args : Cli) : Option BatchPublicationAdmissionRecord → Prop
  | none => args.admission = .exploratory
  | some record => args.admission = .publicationWarmV1 ∧ args.cacheState = .warm ∧
      (∀ text ∈ record.texts, trimmed text ≠ "") ∧ record.requestedPairs = args.pairs.val

theorem admitted_of_validate {args : Cli} {exclusions : SortedMap ℕ String} {buildProfile : String}
    {triple : Option String} {admission : Option BatchPublicationAdmissionRecord}
    (h : validatePublicationAdmission args exclusions buildProfile triple = .ok admission) : Admitted args admission := by
  unfold validatePublicationAdmission at h
  split at h
  · next hadmission =>
    obtain ⟨_, -, h⟩ := Checked.bind_eq_ok.1 h
    cases h
    exact hadmission
  · next hadmission =>
    obtain ⟨_, -, h⟩ := Checked.bind_eq_ok.1 h
    obtain ⟨_, hwarm, h⟩ := Checked.bind_eq_ok.1 h
    obtain ⟨_, -, h⟩ := Checked.bind_eq_ok.1 h
    obtain ⟨_, -, h⟩ := Checked.bind_eq_ok.1 h
    obtain ⟨record, hrecord, h⟩ := Checked.bind_eq_ok.1 h
    cases h
    obtain ⟨htexts, hpairs⟩ := publicationRecord_texts hrecord
    exact ⟨hadmission, requireUsage_eq_ok.1 hwarm, htexts, hpairs⟩

/-! ### What a run prepares -/

section Prepared

variable {makeLeft : ExperimentInstanceContext → Except DbError σ}
  {makeRight : ExperimentInstanceContext → Except DbError ρ} {surroundings : Surroundings} {args : Cli}
  {prepared : Prepared}

/-- What is known of a run that has come to its archive. -/
structure Ready (makeLeft : ExperimentInstanceContext → Except DbError σ)
    (makeRight : ExperimentInstanceContext → Except DbError ρ) (surroundings : Surroundings) (args : Cli)
    (trace : ExperimentTrace) (prepared : Prepared) : Prop where
  valid : trace.validate = .ok ()
  pairs : 1 ≤ args.pairs.val ∧ args.pairs.val ≤ maxExperimentBatchPairs
  captured : ∃ callbacks : Callbacks σ ρ, (∀ context, callbacks.Reasoned context) ∧
    prepared.captured = ⟨batchOf callbacks trace args.pairSeed args.pairs.val,
      sidecarsOf callbacks trace args.pairSeed args.pairs.val⟩
  environment : ∃ admission, Admitted args admission ∧
    buildEnvironment surroundings args
      (selectArchiveFormatVersion admission.isSome (decide (prepared.captured.comparisonFailures ≠ []))) admission
      (decide (prepared.captured.comparisonFailures ≠ [])) = .ok prepared.environment

theorem ready_of_prepare (h : prepare makeLeft makeRight surroundings args trace = .ok prepared) :
    Ready makeLeft makeRight surroundings args trace prepared := by
  unfold prepare at h
  obtain ⟨_, -, h⟩ := Checked.bind_eq_ok.1 h
  obtain ⟨_, hpairs, h⟩ := Checked.bind_eq_ok.1 h
  obtain ⟨_, hvalid, h⟩ := Checked.bind_eq_ok.1 h
  obtain ⟨exclusions, hexclusions, h⟩ := Checked.bind_eq_ok.1 h
  obtain ⟨admission, hadmission, h⟩ := Checked.bind_eq_ok.1 h
  obtain ⟨captured, hcaptured, h⟩ := Checked.bind_eq_ok.1 h
  obtain ⟨environment, henvironment, h⟩ := Checked.bind_eq_ok.1 h
  cases h
  obtain ⟨hne, hle⟩ := requireUsage_eq_ok.1 hpairs
  have hbounds : 1 ≤ args.pairs.val ∧ args.pairs.val ≤ maxExperimentBatchPairs := ⟨by omega, hle⟩
  have hreasoned : ∀ context, (callbacksOf makeLeft makeRight exclusions).Reasoned context :=
    callbacksOf_reasoned (parseExclusions_reasoned hexclusions)
  have hrun := @runCounterbalancedExperimentBatchCaptured_eq _ _ _ _ (callbacksOf makeLeft makeRight exclusions) trace
    args.pairSeed args.pairs.val (Checked.mapError_eq_ok.1 hvalid) hbounds fun i _ => hreasoned _
  refine ⟨Checked.mapError_eq_ok.1 hvalid, hbounds, ⟨_, hreasoned, ?_⟩, admission, admitted_of_validate hadmission, henvironment⟩
  exact Except.ok.inj ((Checked.mapError_eq_ok.1 hcaptured).symm.trans hrun)

end Prepared

/-! ### Index and environment -/

/-- The format of an archive with or without publication and sidecars. -/
def formatFor (publication contextualFailures : Bool) : Format :=
  ⟨selectArchiveFormatVersion publication contextualFailures, publication, contextualFailures⟩

theorem formatOf_select (publication contextualFailures : Bool) :
    formatOf (selectArchiveFormatVersion publication contextualFailures) = .ok (formatFor publication contextualFailures) := by
  cases publication <;> cases contextualFailures <;> rfl

theorem select_lt (publication contextualFailures : Bool) :
    selectArchiveFormatVersion publication contextualFailures < 2 ^ 16 := by
  cases publication <;> cases contextualFailures <;> decide

section Declared

variable {members : List (String × Value)} {field expected label message : String}

theorem requireDeclared_true (h : members.lookup field = some (.string expected)) :
    requireDeclared (.object members) field expected label true message = .ok () :=
  requireEqualStr_eq h

theorem requireDeclared_false (h : members.lookup field = none) :
    requireDeclared (.object members) field expected label false message = .ok () := by
  show require ((members.lookup field).isNone = true) message = .ok ()
  exact require_ok (by rw [h]; rfl)

end Declared

theorem verifyFileNames_eq (serde : Serde) (names : List String) (position : ℕ) :
    verifyFileNames serde position (names.map .string) names = .ok () := by
  induction names generalizing position with
  | nil => rfl
  | cons name names ih =>
    rw [List.map_cons, verifyFileNames, require_ok (p := (Value.string name).asStr = some name) rfl, Checked.ok_bind]
    exact ih _

/-- The index of a run. -/
def indexOf (revision : String) (publication contextualFailures : Bool) : BatchArchiveIndex where
  formatVersion := selectArchiveFormatVersion publication contextualFailures
  repositoryRevision := revision
  comparisonFailureProtocol := if contextualFailures then some batchComparisonFailureProtocol else none
  admissionProtocol := if publication then some publicationAdmissionProtocol else none
  files := (formatFor publication contextualFailures).expectedFiles

theorem verifyIndex_eq (serde : Serde) (revision : String) (publication contextualFailures : Bool) :
    verifyIndex serde (indexOf revision publication contextualFailures).json (formatFor publication contextualFailures) =
      .ok () := by
  have hfiles : requiredArray (indexOf revision publication contextualFailures).json "files" "index.json" =
      .ok ((formatFor publication contextualFailures).expectedFiles.map .string) := by
    cases publication <;> cases contextualFailures <;> exact requiredArray_eq rfl
  unfold verifyIndex
  rw [hfiles, BatchArchiveIndex.json, requireEqualStr_eq rfl, Checked.ok_bind, requireEqualStr_eq rfl, Checked.ok_bind,
    Checked.ok_bind, require_ok (List.length_map _), Checked.ok_bind, verifyFileNames_eq, Checked.ok_bind,
    requiredObject_object, Checked.ok_bind]
  cases publication with
  | false =>
    cases contextualFailures with
    | false => exact then_of_ok (requireDeclared_false rfl) (requireDeclared_false rfl)
    | true => exact then_of_ok (requireDeclared_true rfl) (requireDeclared_false rfl)
  | true =>
    cases contextualFailures with
    | false => exact then_of_ok (requireDeclared_false rfl) (requireDeclared_true rfl)
    | true => exact then_of_ok (requireDeclared_true rfl) (requireDeclared_true rfl)

theorem verifyDescribed_eq {members : List (String × Value)} {fields : List String}
    (h : ∀ field ∈ fields, ∃ text, members.lookup field = some (.string text) ∧ trimmed text ≠ "") :
    verifyDescribed (.object members) fields = .ok () := by
  induction fields with
  | nil => rfl
  | cons field fields ih =>
    obtain ⟨text, hlookup, htext⟩ := h field (by simp)
    rw [verifyDescribed, requiredStr_eq hlookup, Checked.ok_bind, require_ok htext, Checked.ok_bind]
    exact ih fun field hfield => h field (by simp [hfield])

theorem verifyPublicationAdmission_eq {record : BatchPublicationAdmissionRecord} {requestedPairs : ℕ}
    (htexts : ∀ text ∈ record.texts, trimmed text ≠ "") (hpairs : record.requestedPairs = requestedPairs)
    (hlt : requestedPairs < 2 ^ 32) : verifyPublicationAdmission record.json requestedPairs = .ok () := by
  simp only [BatchPublicationAdmissionRecord.texts, List.forall_mem_cons] at htexts
  obtain ⟨htriple, hlabel, hcpu, hmemory, hdevice, hfilesystem, hmount, hflags, hscript, hnoise, -⟩ := htexts
  unfold verifyPublicationAdmission
  rw [BatchPublicationAdmissionRecord.json, requireEqualStr_eq rfl, Checked.ok_bind, requireEqualStr_eq rfl,
    Checked.ok_bind, requireEqualStr_eq rfl, Checked.ok_bind, requireEqualStr_eq rfl, Checked.ok_bind,
    requireEqualStr_eq rfl, Checked.ok_bind, requiredU32_eq (n := record.requestedPairs) rfl (by omega), Checked.ok_bind,
    require_ok hpairs, Checked.ok_bind, requiredU64_eq (n := 2) rfl, Checked.ok_bind, require_ok rfl, Checked.ok_bind]
  refine verifyDescribed_eq ?_
  simp only [describedFields, List.forall_mem_cons]
  exact ⟨⟨_, rfl, htriple⟩, ⟨_, rfl, hlabel⟩, ⟨_, rfl, hcpu⟩, ⟨_, rfl, hmemory⟩, ⟨_, rfl, hdevice⟩,
    ⟨_, rfl, hfilesystem⟩, ⟨_, rfl, hmount⟩, ⟨_, rfl, hflags⟩, ⟨_, rfl, hscript⟩, ⟨_, rfl, hnoise⟩, by simp⟩

section Environment

variable {surroundings : Surroundings} {args : Cli} {admission : Option BatchPublicationAdmissionRecord}
  {contextualFailures : Bool} {environment : BatchArchiveEnvironment}

/-- The environment of a run, up to what its surroundings say. -/
theorem environment_fields {formatVersion : ℕ}
    (h : buildEnvironment surroundings args formatVersion admission contextualFailures = .ok environment) :
    environment.formatVersion = formatVersion ∧ environment.repositoryRevision = args.revision ∧
      environment.comparisonFailureProtocol =
        (if contextualFailures then some batchComparisonFailureProtocol else none) ∧
      environment.pairSeed = args.pairSeed ∧ environment.requestedPairs = args.pairs.val ∧
      environment.cacheState = args.cacheState.asStr ∧ environment.publicationAdmission = admission := by
  obtain ⟨_, -, h⟩ := Checked.bind_eq_ok.1 h
  cases h
  exact ⟨rfl, rfl, rfl, rfl, rfl, rfl, rfl⟩

theorem verifyDeclaredAdmission_eq (hadmitted : Admitted args admission)
    (h : buildEnvironment surroundings args (selectArchiveFormatVersion admission.isSome contextualFailures) admission
      contextualFailures = .ok environment) :
    verifyDeclaredAdmission environment.json (formatFor admission.isSome contextualFailures) args.pairs.val = .ok () := by
  obtain ⟨-, -, hprotocol, -, -, hcache, hpublication⟩ := environment_fields h
  unfold verifyDeclaredAdmission BatchArchiveEnvironment.json
  rw [hprotocol, hpublication]
  cases admission with
  | none => cases contextualFailures <;> rfl
  | some record =>
    obtain ⟨-, hwarm, htexts, hpairs⟩ := hadmitted
    rw [hcache, hwarm]
    have hverified := verifyPublicationAdmission_eq htexts hpairs args.pairs.isLt
    cases contextualFailures with
    | false =>
      show (requiredField _ _ _ >>= _) = _
      rw [requiredField_eq (v := record.json) rfl, Checked.ok_bind, hverified, Checked.ok_bind, requireEqualStr_eq rfl]
    | true =>
      show (requiredField _ _ _ >>= _) = _
      rw [requiredField_eq (v := record.json) rfl, Checked.ok_bind, hverified, Checked.ok_bind, requireEqualStr_eq rfl]

theorem verifyEnvironment_eq {batch : CounterbalancedExperimentBatchReport} {expectedRevision : Option String}
    (hadmitted : Admitted args admission)
    (h : buildEnvironment surroundings args (selectArchiveFormatVersion admission.isSome contextualFailures) admission
      contextualFailures = .ok environment)
    (hseed : batch.pairSeed = args.pairSeed) (hpairs : batch.requestedPairs = args.pairs.val)
    (hrevision : ∀ expected ∈ expectedRevision, args.revision = expected) :
    verifyEnvironment environment.json (indexOf args.revision admission.isSome contextualFailures).json batch.json
      (formatFor admission.isSome contextualFailures) expectedRevision = .ok args.revision := by
  have hdeclared := verifyDeclaredAdmission_eq hadmitted h
  obtain ⟨hversion, hrepository, hprotocol, hseed', hpairs', hcache, hpublication⟩ := environment_fields h
  have hlt := args.pairs.isLt
  have hformat : environment.formatVersion = (formatFor admission.isSome contextualFailures).version := hversion
  -- Each field that the verifier reads is the one that the builder has written.
  have hcontextual : requireDeclared environment.json "comparison_failure_protocol" batchComparisonFailureProtocol
      "environment.json" contextualFailures
      s!"format v{(formatFor admission.isSome contextualFailures).version} environment.json must not declare comparison_failure_protocol" =
        .ok () := by
    rw [BatchArchiveEnvironment.json, hprotocol]
    cases contextualFailures with
    | true => exact requireDeclared_true rfl
    | false =>
      refine requireDeclared_false ?_
      cases environment.publicationAdmission <;> rfl
  have hpairSeed : requiredU64 environment.json "pair_seed" "environment.json" = .ok args.pairSeed.toNat := by
    rw [BatchArchiveEnvironment.json, hprotocol, hseed']
    cases contextualFailures <;> exact requiredU64_eq rfl
  have hrequested : requiredU32 environment.json "requested_pairs" "environment.json" = .ok args.pairs.val := by
    rw [BatchArchiveEnvironment.json, hprotocol, hpairs']
    cases contextualFailures <;> exact requiredU32_eq rfl hlt
  have hlayout : requireEqualStr environment.json "engine_layout" engineLayout "environment.json" = .ok () := by
    rw [BatchArchiveEnvironment.json, hprotocol]
    cases contextualFailures <;> exact requireEqualStr_eq rfl
  have hindex : requiredStr (indexOf args.revision admission.isSome contextualFailures).json "repository_revision"
      "index.json" = .ok args.revision := requiredStr_eq rfl
  have hbatchSeed : requiredU64 batch.json "pair_seed" "batch.json" = .ok args.pairSeed.toNat := by
    rw [← hseed]
    exact requiredU64_eq rfl
  have hbatchPairs : requiredU32 batch.json "requested_pairs" "batch.json" = .ok args.pairs.val := by
    rw [← hpairs]
    exact requiredU32_eq rfl (by omega)
  unfold verifyEnvironment
  rw [hlayout, hpairSeed, hrequested, hindex, hbatchSeed, hbatchPairs]
  rw [BatchArchiveEnvironment.json] at hdeclared hcontextual ⊢
  rw [requiredU16_eq (n := environment.formatVersion) rfl (hversion ▸ select_lt _ _), Checked.ok_bind,
    require_ok hformat, Checked.ok_bind, requireEqualStr_eq rfl, Checked.ok_bind, requireEqualStr_eq rfl,
    Checked.ok_bind, Checked.ok_bind, requiredStr_eq (s := environment.repositoryRevision) rfl, Checked.ok_bind,
    hrepository, Checked.ok_bind, require_ok rfl, Checked.ok_bind, require_ok hrevision, Checked.ok_bind, Checked.ok_bind,
    Checked.ok_bind, Checked.ok_bind, require_ok rfl, Checked.ok_bind, Checked.ok_bind, require_ok rfl, Checked.ok_bind,
    requiredObject_object, Checked.ok_bind]
  exact then_of_ok hcontextual (then_of_ok hdeclared rfl)

end Environment

/-! ### Reading the files -/

section Files

variable {serde : Serde} {values : List (String × Value)} {name : String} {v w : Value}

theorem lookup_writeBatchArchive :
    (writeBatchArchive serde values).lookup name =
      (values.lookup name).map fun v => ArchiveEntry.regular (serde.document v) := by
  induction values with
  | nil => rfl
  | cons file values ih =>
    rw [writeBatchArchive] at ih ⊢
    rw [List.map_cons, List.lookup_cons, List.lookup_cons, ih]
    cases name == file.1 <;> rfl

theorem mem_of_lookup (h : values.lookup name = some v) : (name, v) ∈ values := by
  induction values with
  | nil => cases h
  | cons file values ih =>
    rw [List.lookup_cons] at h
    split at h
    · next heq =>
      cases h
      rw [eq_of_beq heq]
      exact List.mem_cons_self
    · exact List.mem_cons_of_mem _ (ih h)

theorem readJson_eq (hlookup : values.lookup name = some v) (hfits : (serde.document v).length ≤ maxArchiveJsonBytes)
    (hround : serde.fromSlice (serde.document v) = .ok v) :
    readJson serde (writeBatchArchive serde values) name = .ok v := by
  rw [readJson, lookup_writeBatchArchive, hlookup]
  exact then_of_ok (require_ok hfits) (by rw [hround]; rfl)

theorem fits_of_readJson (hlookup : values.lookup name = some v)
    (h : readJson serde (writeBatchArchive serde values) name = .ok w) :
    (serde.document v).length ≤ maxArchiveJsonBytes := by
  rw [readJson, lookup_writeBatchArchive, hlookup] at h
  obtain ⟨_, hfits, -⟩ := Checked.bind_eq_ok.1 h
  exact require_eq_ok.1 hfits

theorem eq_of_readJson (hlookup : values.lookup name = some v) (hround : serde.fromSlice (serde.document v) = .ok v)
    (h : readJson serde (writeBatchArchive serde values) name = .ok w) : w = v := by
  have hfits := fits_of_readJson hlookup h
  rw [readJson_eq hlookup hfits hround, Except.ok.injEq] at h
  exact h.symm

theorem verifyEntryTypes_eq : verifyEntryTypes (writeBatchArchive serde values) = .ok () := by
  induction values with
  | nil => rfl
  | cons file values ih => exact ih

theorem verifyDirectoryEntries_eq {files : List String} (h : values.map Prod.fst = files ++ ["index.json"]) :
    verifyDirectoryEntries (writeBatchArchive serde values) files = .ok () := by
  have hnames : (writeBatchArchive serde values).map Prod.fst = files ++ ["index.json"] := by
    rw [← h, writeBatchArchive, List.map_map]
    rfl
  refine then_of_ok verifyEntryTypes_eq (require_ok ?_)
  rw [hnames]
  ext name
  simp

end Files

/-- The files of a run. -/
theorem archiveValues_eq {args : Cli} {captured : CounterbalancedExperimentBatchCapturedReport}
    {admission : Option BatchPublicationAdmissionRecord} {surroundings : Surroundings}
    {environment : BatchArchiveEnvironment}
    (h : buildEnvironment surroundings args
      (selectArchiveFormatVersion admission.isSome (decide (captured.comparisonFailures ≠ []))) admission
      (decide (captured.comparisonFailures ≠ [])) = .ok environment) :
    archiveValues args.revision trace captured.batch captured.comparisonFailures environment =
      [("trace.json", trace.json), ("batch.json", captured.batch.json), ("environment.json", environment.json)] ++
        (if captured.comparisonFailures = [] then []
          else [("comparison-failures.json",
            .array (captured.comparisonFailures.map CounterbalancedBatchComparisonFailureEvidence.json))]) ++
        [("index.json", (indexOf args.revision admission.isSome (decide (captured.comparisonFailures ≠ []))).json)] := by
  obtain ⟨hversion, -, hprotocol, -, -, -, hpublication⟩ := environment_fields h
  unfold archiveValues indexOf
  rw [hversion, hprotocol, hpublication]
  by_cases hfailures : captured.comparisonFailures = []
  · rw [hfailures]
    cases admission <;> rfl
  · rw [if_neg hfailures, decide_eq_true hfailures]
    cases admission <;> rfl

/-! ### Agreement -/

/-- `serde_json` reads back what is written. -/
structure Serde.RoundTrips (serde : Serde) (trace : ExperimentTrace) (values : List (String × Value)) : Prop where
  fromSlice : ∀ file ∈ values, serde.fromSlice (serde.document file.2) = .ok file.2
  trace : serde.traceFromValue trace.json = .ok trace

/-- No file is longer than the verifier reads. -/
def Fits (serde : Serde) (values : List (String × Value)) : Prop :=
  ∀ file ∈ values, (serde.document file.2).length ≤ maxArchiveJsonBytes

/-- The summary of what a run has written. -/
def summaryOf (args : Cli) (prepared : Prepared) : VerificationSummary where
  formatVersion := prepared.environment.formatVersion
  publicationAdmitted := prepared.environment.publicationAdmission.isSome
  repositoryRevision := args.revision
  requestedPairs := args.pairs.val
  includedPairs := prepared.captured.batch.includedPairs
  failedPairs := prepared.captured.batch.failedPairs
  excludedPairs := prepared.captured.batch.excludedPairs
  comparisonFailureSidecars := prepared.captured.comparisonFailures.length

section Agreement

variable {makeLeft : ExperimentInstanceContext → Except DbError σ}
  {makeRight : ExperimentInstanceContext → Except DbError ρ} {surroundings : Surroundings} {args : Cli}
  {prepared : Prepared} {serde : Serde} {expectedRevision : Option String} {requirePublication : Bool}

theorem readTrace_eq (hround : serde.RoundTrips trace (prepared.values args trace)) (hvalid : trace.validate = .ok ()) :
    readTrace serde trace.json = .ok trace := by
  refine then_of_ok (by rw [hround.trace]; rfl) (then_of_ok (by rw [hvalid]; rfl) rfl)

/-- The sidecars of a format that has them, and none otherwise. -/
theorem verifyDeclaredSidecars_eq {values : List (String × Value)} {publication : Bool} {batch : Value}
    {sidecars : List CounterbalancedBatchComparisonFailureEvidence} {requestedPairs : ℕ}
    (hread : sidecars ≠ [] → readJson serde (writeBatchArchive serde values) "comparison-failures.json" =
      .ok (.array (sidecars.map CounterbalancedBatchComparisonFailureEvidence.json)))
    (hsidecars : verifyContextualSidecars
      (.array (sidecars.map CounterbalancedBatchComparisonFailureEvidence.json)) batch requestedPairs =
        .ok sidecars.length) :
    verifyDeclaredSidecars serde (writeBatchArchive serde values) (formatFor publication (decide (sidecars ≠ []))) batch
      requestedPairs = .ok sidecars.length := by
  by_cases hempty : sidecars = []
  · rw [hempty]
    rfl
  · have hcontextual : (formatFor publication (decide (sidecars ≠ []))).contextualFailures = true :=
      decide_eq_true hempty
    rw [verifyDeclaredSidecars, if_pos hcontextual, hread hempty, Checked.ok_bind, hsidecars, Checked.ok_bind, require_ok (by simpa using hempty), Checked.ok_bind]

theorem verifyBatchArchive_eq (h : Ready makeLeft makeRight surroundings args trace prepared)
    (hround : serde.RoundTrips trace (prepared.values args trace)) (hfits : Fits serde (prepared.values args trace))
    (hrevision : ∀ expected ∈ expectedRevision, args.revision = expected)
    (hpublication : requirePublication = true → args.admission = .publicationWarmV1) :
    verifyBatchArchive serde (writeBatchArchive serde (prepared.values args trace)) expectedRevision
      requirePublication = .ok (summaryOf args prepared) := by
  obtain ⟨callbacks, hreasoned, hcaptured⟩ := h.captured
  obtain ⟨admission, hadmitted, henvironment⟩ := h.environment
  obtain ⟨hversion, -, -, -, -, -, hadmission⟩ := environment_fields henvironment
  have hvalues : prepared.values args trace = _ := archiveValues_eq henvironment
  have hread : ∀ {name v}, (prepared.values args trace).lookup name = some v →
      readJson serde (writeBatchArchive serde (prepared.values args trace)) name = .ok v := fun hlookup =>
    have hmem := mem_of_lookup hlookup
    readJson_eq hlookup (hfits _ hmem) (hround.fromSlice _ hmem)
  -- The index and the set of files depend on whether there are failures to record.
  have hindex : (prepared.values args trace).lookup "index.json" = some
      (indexOf args.revision admission.isSome (decide (prepared.captured.comparisonFailures ≠ []))).json := by
    rw [hvalues]
    by_cases hempty : prepared.captured.comparisonFailures = []
    · rw [hempty]
      rfl
    · rw [if_neg hempty]
      rfl
  have hnames : (prepared.values args trace).map Prod.fst =
      (formatFor admission.isSome (decide (prepared.captured.comparisonFailures ≠ []))).expectedFiles ++ ["index.json"] := by
    rw [hvalues]
    by_cases hempty : prepared.captured.comparisonFailures = []
    · rw [hempty]
      rfl
    · rw [if_neg hempty, decide_eq_true hempty]
      rfl
  have hrequired : requirePublication = true →
      (formatFor admission.isSome (decide (prepared.captured.comparisonFailures ≠ []))).publication = true := by
    intro hrequire
    cases admission with
    | none => exact absurd (hadmitted.symm.trans (hpublication hrequire)) (by simp)
    | some record => rfl
  have hsidecars := @verifyDeclaredSidecars_eq serde (prepared.values args trace) admission.isSome
    prepared.captured.batch.json prepared.captured.comparisonFailures args.pairs.val
    (fun hne => hread (by rw [hvalues, if_neg hne]; rfl))
    (by rw [hcaptured]; exact verifyContextualSidecars_eq h.pairs.2)
  -- The ledger is recomputed from the reports, which carry their reasons.
  have hledger : verifyBatchLedger prepared.captured.batch.json = .ok ⟨args.pairs.val,
      prepared.captured.batch.includedPairs, prepared.captured.batch.failedPairs,
      prepared.captured.batch.excludedPairs⟩ := by
    rw [hcaptured]
    exact verifyBatchLedger_eq h.pairs fun i _ => hreasoned _
  have htrace : prepared.captured.batch.trace = trace := by rw [hcaptured]; rfl
  have hseed : prepared.captured.batch.pairSeed = args.pairSeed := by rw [hcaptured]; rfl
  have hpairs : prepared.captured.batch.requestedPairs = args.pairs.val := by rw [hcaptured]; rfl
  have hidentity : verifyTraceIdentity trace.json prepared.captured.batch.json = .ok () := by
    refine then_of_ok (requiredField_eq (v := prepared.captured.batch.trace.json) rfl) (require_ok ?_)
    rw [htrace]
  have hversionRead : requiredU16
      (indexOf args.revision admission.isSome (decide (prepared.captured.comparisonFailures ≠ []))).json "format_version"
      "index.json" = .ok (selectArchiveFormatVersion admission.isSome
        (decide (prepared.captured.comparisonFailures ≠ []))) := requiredU16_eq rfl (select_lt _ _)
  -- Every check of the verifier is met, in its order.
  unfold verifyBatchArchive
  rw [hread hindex, Checked.ok_bind, hversionRead, Checked.ok_bind, formatOf_select, Checked.ok_bind,
    require_ok hrequired, Checked.ok_bind, verifyIndex_eq, Checked.ok_bind, verifyDirectoryEntries_eq hnames,
    Checked.ok_bind, hread (v := trace.json) (by rw [hvalues]; rfl), Checked.ok_bind, readTrace_eq hround h.valid,
    Checked.ok_bind, hread (v := prepared.captured.batch.json) (by rw [hvalues]; rfl), Checked.ok_bind,
    hread (v := prepared.environment.json) (by rw [hvalues]; rfl), Checked.ok_bind,
    verifyEnvironment_eq hadmitted henvironment hseed hpairs hrevision, Checked.ok_bind, hidentity, Checked.ok_bind,
    hledger, Checked.ok_bind, hsidecars, Checked.ok_bind, summaryOf, hversion, hadmission]
  rfl

/-- A trace that is verified is not longer than the verifier reads. -/
theorem trace_fits_of_verify {summary : VerificationSummary}
    (h : verifyBatchArchive serde (writeBatchArchive serde (prepared.values args trace)) expectedRevision
      requirePublication = .ok summary) : (serde.document trace.json).length ≤ maxArchiveJsonBytes := by
  unfold verifyBatchArchive at h
  obtain ⟨index, -, h⟩ := Checked.bind_eq_ok.1 h
  obtain ⟨formatVersion, -, h⟩ := Checked.bind_eq_ok.1 h
  obtain ⟨format, -, h⟩ := Checked.bind_eq_ok.1 h
  obtain ⟨_, -, h⟩ := Checked.bind_eq_ok.1 h
  obtain ⟨_, -, h⟩ := Checked.bind_eq_ok.1 h
  obtain ⟨_, -, h⟩ := Checked.bind_eq_ok.1 h
  obtain ⟨traceJson, hread, -⟩ := Checked.bind_eq_ok.1 h
  exact fits_of_readJson rfl hread

theorem fits_of_verify (h : Ready makeLeft makeRight surroundings args trace prepared)
    (hround : serde.RoundTrips trace (prepared.values args trace)) {summary : VerificationSummary}
    (hverify : verifyBatchArchive serde (writeBatchArchive serde (prepared.values args trace)) expectedRevision
      requirePublication = .ok summary) : Fits serde (prepared.values args trace) := by
  obtain ⟨admission, hadmitted, henvironment⟩ := h.environment
  have hvalues : prepared.values args trace = _ := archiveValues_eq henvironment
  have htrace := trace_fits_of_verify hverify
  unfold verifyBatchArchive at hverify
  obtain ⟨index, hindex, hverify⟩ := Checked.bind_eq_ok.1 hverify
  obtain ⟨formatVersion, hversion, hverify⟩ := Checked.bind_eq_ok.1 hverify
  obtain ⟨format, hformat, hverify⟩ := Checked.bind_eq_ok.1 hverify
  obtain ⟨_, -, hverify⟩ := Checked.bind_eq_ok.1 hverify
  obtain ⟨_, -, hverify⟩ := Checked.bind_eq_ok.1 hverify
  obtain ⟨_, -, hverify⟩ := Checked.bind_eq_ok.1 hverify
  obtain ⟨_, -, hverify⟩ := Checked.bind_eq_ok.1 hverify
  obtain ⟨_, -, hverify⟩ := Checked.bind_eq_ok.1 hverify
  obtain ⟨batch, hbatch, hverify⟩ := Checked.bind_eq_ok.1 hverify
  obtain ⟨environment, henvironmentRead, hverify⟩ := Checked.bind_eq_ok.1 hverify
  obtain ⟨_, -, hverify⟩ := Checked.bind_eq_ok.1 hverify
  obtain ⟨_, -, hverify⟩ := Checked.bind_eq_ok.1 hverify
  obtain ⟨counts, -, hverify⟩ := Checked.bind_eq_ok.1 hverify
  obtain ⟨_, hsidecars, -⟩ := Checked.bind_eq_ok.1 hverify
  have hbatchFits := fits_of_readJson (v := prepared.captured.batch.json) rfl hbatch
  have henvironmentFits := fits_of_readJson (v := prepared.environment.json) rfl henvironmentRead
  by_cases hempty : prepared.captured.comparisonFailures = []
  · rw [hempty] at hvalues
    have hlookup : (prepared.values args trace).lookup "index.json" =
        some (indexOf args.revision admission.isSome false).json := by
      rw [hvalues]
      rfl
    have hindexFits := fits_of_readJson hlookup hindex
    intro file hfile
    rw [hvalues] at hfile
    simp only [if_pos, List.append_nil, List.cons_append, List.nil_append, List.mem_cons, List.not_mem_nil, or_false] at hfile
    rcases hfile with rfl | rfl | rfl | rfl
    · exact htrace
    · exact hbatchFits
    · exact henvironmentFits
    · exact hindexFits
  · rw [if_neg hempty, decide_eq_true hempty] at hvalues
    have hlookup : (prepared.values args trace).lookup "index.json" =
        some (indexOf args.revision admission.isSome true).json := by
      rw [hvalues]
      rfl
    have hindexFits := fits_of_readJson hlookup hindex
    -- The index is the one that was written, so that its format has sidecars.
    obtain rfl := eq_of_readJson hlookup (hround.fromSlice _ (mem_of_lookup hlookup)) hindex
    have hwritten : requiredU16 (indexOf args.revision admission.isSome true).json "format_version" "index.json" =
        .ok (selectArchiveFormatVersion admission.isSome true) := requiredU16_eq rfl (select_lt _ _)
    obtain rfl := Except.ok.inj (hwritten.symm.trans hversion)
    obtain rfl := Except.ok.inj ((formatOf_select _ _).symm.trans hformat)
    obtain ⟨sidecars, hread, -⟩ := Checked.bind_eq_ok.1 hsidecars
    have hsidecarsFits := fits_of_readJson (v := .array (prepared.captured.comparisonFailures.map
      CounterbalancedBatchComparisonFailureEvidence.json)) (by rw [hvalues]; rfl) hread
    intro file hfile
    rw [hvalues] at hfile
    simp only [List.cons_append, List.nil_append, List.mem_cons, List.not_mem_nil, or_false] at hfile
    rcases hfile with rfl | rfl | rfl | rfl | rfl
    · exact htrace
    · exact hbatchFits
    · exact henvironmentFits
    · exact hsidecarsFits
    · exact hindexFits

/-- **The archive and its verification.** What a run has written is verified, with the format and the counts of the
run, exactly if none of its files is longer than the verifier reads. -/
theorem archive_verified_iff (expectedRevision : Option String) (requirePublication : Bool)
    {result : Except CliError Unit} {archive : ArchiveDir}
    (hrun : run makeLeft makeRight surroundings args trace serde = (result, some archive))
    (hround : ∀ prepared, prepare makeLeft makeRight surroundings args trace = .ok prepared →
      serde.RoundTrips trace (prepared.values args trace))
    (hrevision : ∀ expected ∈ expectedRevision, args.revision = expected)
    (hpublication : requirePublication = true → args.admission = .publicationWarmV1) :
    ∃ prepared, prepare makeLeft makeRight surroundings args trace = .ok prepared ∧
      archive = writeBatchArchive serde (prepared.values args trace) ∧
      (verifyBatchArchive serde archive expectedRevision requirePublication = .ok (summaryOf args prepared) ↔
        Fits serde (prepared.values args trace)) := by
  unfold run at hrun
  split at hrun
  · cases hrun
  · next prepared hprepare =>
    cases hrun
    have hready := ready_of_prepare hprepare
    have hround := hround prepared hprepare
    exact ⟨prepared, hprepare, rfl, fits_of_verify hready hround,
      fun hfits => verifyBatchArchive_eq hready hround hfits hrevision hpublication⟩

end Agreement

end DbLab.Experiment.BatchArchive
