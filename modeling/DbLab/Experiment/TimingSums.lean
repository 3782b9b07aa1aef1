import DbLab.Experiment.Analyze

/-!
# The sums of the analysis

A collector stands for the samples it has seen: their durations as a multiset, and how often each name and each
missing field occurred. Every step of the collection adds the samples of its own documents, so that the summaries
are those of all samples, in whatever order attempts and sidecars come.
-/

namespace DbLab.Experiment.Analyze

/-! ### Tallies -/

/-- What a number of samples amounts to. -/
@[ext] structure Tally where
  durations : Multiset ℕ
  errorClasses : String → ℕ
  workUnits : String → ℕ
  workMissing : ℕ
  stepMissing : ℕ

namespace Tally

instance : Zero Tally := ⟨⟨0, 0, 0, 0, 0⟩⟩

instance : Add Tally := ⟨fun s t =>
  ⟨s.durations + t.durations, s.errorClasses + t.errorClasses, s.workUnits + t.workUnits,
    s.workMissing + t.workMissing, s.stepMissing + t.stepMissing⟩⟩

theorem add_def (s t : Tally) : s + t =
    ⟨s.durations + t.durations, s.errorClasses + t.errorClasses, s.workUnits + t.workUnits,
      s.workMissing + t.workMissing, s.stepMissing + t.stepMissing⟩ := rfl

instance : AddCommMonoid Tally where
  add_assoc _ _ _ := Tally.ext (add_assoc ..) (add_assoc ..) (add_assoc ..) (add_assoc ..) (add_assoc ..)
  zero_add _ := Tally.ext (zero_add _) (zero_add _) (zero_add _) (zero_add _) (zero_add _)
  add_zero _ := Tally.ext (add_zero _) (add_zero _) (add_zero _) (add_zero _) (add_zero _)
  add_comm _ _ := Tally.ext (add_comm ..) (add_comm ..) (add_comm ..) (add_comm ..) (add_comm ..)
  nsmul := nsmulRec

end Tally

/-- A field of an object, `null` where it is missing. -/
def Value.field (v : Value) (name : String) : Value := ((v.asObject.getD []).lookup name).getD .null

def Value.items (v : Value) : List Value := v.asArray.getD []

def Tally.ofSuccess (sample : Value) : Tally where
  durations := {(sample.field "duration_ns").asU64.getD 0}
  errorClasses := 0
  workUnits unit := if ((sample.field "work").field "unit").asStr = some unit then 1 else 0
  workMissing := 0
  stepMissing := if (sample.field "measured_step_index").isNull then 1 else 0

def Tally.ofFailure (sample : Value) : Tally where
  durations := {(sample.field "duration_ns").asU64.getD 0}
  errorClasses errorClass := if (sample.field "error_class").asStr = some errorClass then 1 else 0
  workUnits unit := if ((sample.field "work").field "unit").asStr = some unit then 1 else 0
  workMissing := if (sample.field "work").isNull then 1 else 0
  stepMissing := if (sample.field "measured_step_index").isNull then 1 else 0

def SuccessfulOperationCollector.tally (c : SuccessfulOperationCollector) : Tally :=
  ⟨c.durations, 0, c.workUnits.count, 0, c.measuredStepIndexMissing⟩

def FailedOperationCollector.tally (c : FailedOperationCollector) : Tally :=
  ⟨c.durations, c.errorClasses.count, c.workUnits.count, c.workMissing, c.measuredStepIndexMissing⟩

/-! ### Readings that succeed -/

section Readings

variable {v w : Value} {name label message text : String} {n : ℕ} {items : List Value}

@[simp] theorem orInvalid_eq_ok {α : Type} {value : Option α} {a : α} :
    orInvalid value message = .ok a ↔ value = some a := by
  cases value with
  | none => simp [orInvalid]
  | some b => simp [orInvalid]

@[simp] theorem rejectIf_eq_ok {p : Prop} [Decidable p] {u : Unit} : rejectIf p message = .ok u ↔ ¬ p := by
  by_cases h : p
  · simp [rejectIf, h]
  · simp [rejectIf, h]

theorem field_of_requiredField (h : requiredField v name label = .ok w) : v.field name = w := by
  simp only [requiredField, requiredObject, Checked.bind_eq_ok, orInvalid_eq_ok] at h
  obtain ⟨members, hmembers, hlookup⟩ := h
  simp [Value.field, hmembers, hlookup]

theorem field_of_optionalField {found : Option Value} (h : optionalField v name label = .ok found) :
    v.field name = found.getD .null := by
  simp only [optionalField, requiredObject, Checked.bind_eq_ok, orInvalid_eq_ok, Checked.pure_eq,
    Except.ok.injEq] at h
  obtain ⟨members, hmembers, rfl⟩ := h
  simp [Value.field, hmembers]

theorem requiredArray_eq_ok : requiredArray v name label = .ok items ↔ v.field name = .array items := by
  simp only [requiredArray, requiredField, requiredObject, Checked.bind_eq_ok, orInvalid_eq_ok]
  constructor
  · rintro ⟨found, ⟨members, hmembers, hlookup⟩, hitems⟩
    cases found <;> simp [Value.asArray] at hitems
    simp [Value.field, hmembers, hlookup, hitems]
  · intro h
    cases hmembers : v.asObject with
    | none => simp [Value.field, hmembers] at h
    | some members =>
      cases hlookup : members.lookup name with
      | none => simp [Value.field, hmembers, hlookup] at h
      | some found =>
        simp only [Value.field, hmembers, hlookup, Option.getD_some] at h
        exact ⟨found, ⟨members, rfl, hlookup⟩, by rw [h]; rfl⟩

theorem asStr_of_requiredStr (h : requiredStr v name label = .ok text) : (v.field name).asStr = some text := by
  simp only [requiredStr, Checked.bind_eq_ok, orInvalid_eq_ok] at h
  obtain ⟨found, hfound, htext⟩ := h
  rw [field_of_requiredField hfound, htext]

theorem asU64_of_requiredU64 (h : requiredU64 v name label = .ok n) : (v.field name).asU64 = some n := by
  simp only [requiredU64, Checked.bind_eq_ok, orInvalid_eq_ok] at h
  obtain ⟨found, hfound, hn⟩ := h
  rw [field_of_requiredField hfound, hn]

end Readings

/-! ### Samples -/

section Samples

variable {work : Value} {o o' : Occurrences}

theorem collectWorkUnit_eq_ok : collectWorkUnit work o = .ok o' ↔
    ∃ unit, requiredStr work "unit" "operational work" = .ok unit ∧
      (∃ n, requiredU64 work "units_examined" "operational work" = .ok n) ∧
      (∃ n, requiredU64 work "bytes_examined" "operational work" = .ok n) ∧ o.bump unit = o' := by
  simp only [collectWorkUnit, Checked.bind_eq_ok, Checked.pure_eq, Except.ok.injEq]
  constructor
  · rintro ⟨unit, hunit, n, hn, m, hm, rfl⟩
    exact ⟨unit, hunit, ⟨n, hn⟩, ⟨m, hm⟩, rfl⟩
  · rintro ⟨unit, hunit, ⟨n, hn⟩, ⟨m, hm⟩, rfl⟩
    exact ⟨unit, hunit, n, hn, m, hm, rfl⟩

theorem accumulates_workUnit : Accumulates collectWorkUnit Occurrences.count
    fun work unit => if (work.field "unit").asStr = some unit then 1 else 0 where
  adds h := by
    obtain ⟨unit, hunit, -, -, rfl⟩ := collectWorkUnit_eq_ok.1 h
    funext other
    simp [Occurrences.count_bump, asStr_of_requiredStr hunit, @eq_comm _ other unit]
  accepts h t := by
    obtain ⟨unit, hunit, hn, hm, -⟩ := collectWorkUnit_eq_ok.1 h
    exact ⟨_, collectWorkUnit_eq_ok.2 ⟨unit, hunit, hn, hm, rfl⟩⟩

theorem accumulates_failedWork : Accumulates collectFailedWork Occurrences.count
    fun work unit => if (work.field "unit").asStr = some unit then 1 else 0 where
  adds {work o o'} h := by
    by_cases hnull : work.isNull
    · rw [collectFailedWork, if_pos hnull, Except.ok.injEq] at h
      subst h
      cases work <;> simp [Value.isNull] at hnull
      funext unit
      simp [Value.field, Value.asObject, Value.asStr]
    · rw [collectFailedWork, if_neg hnull] at h
      exact accumulates_workUnit.adds h
  accepts {work o o'} h t := by
    by_cases hnull : work.isNull
    · exact ⟨t, if_pos hnull⟩
    · rw [collectFailedWork, if_neg hnull] at h
      rw [collectFailedWork, if_neg hnull]
      exact accumulates_workUnit.accepts h t

@[simp] theorem coe_concat (l : List ℕ) (n : ℕ) : ((l ++ [n] : List ℕ) : Multiset ℕ) = (l : Multiset ℕ) + {n} := by
  rw [← Multiset.coe_singleton, Multiset.coe_add]

theorem accumulates_successSample (legacyName samplesName : String) :
    Accumulates (collectSuccessSample legacyName samplesName) SuccessfulOperationCollector.tally
      fun item => Tally.ofSuccess item.1.2 where
  adds h := by
    simp only [collectSuccessSample, Checked.bind_eq_ok, Checked.pure_eq, Except.ok.injEq] at h
    obtain ⟨legacy, -, duration, hduration, -, -, step, hstep, work, hwork, units, hunits, rfl⟩ := h
    refine Tally.ext ?_ rfl ?_ rfl ?_
    · simp [SuccessfulOperationCollector.tally, Tally.add_def, Tally.ofSuccess, asU64_of_requiredU64 hduration]
    · simp [SuccessfulOperationCollector.tally, Tally.add_def, Tally.ofSuccess, accumulates_workUnit.adds hunits,
        field_of_requiredField hwork]
    · simp [SuccessfulOperationCollector.tally, Tally.add_def, Tally.ofSuccess, field_of_requiredField hstep]
  accepts h t := by
    simp only [collectSuccessSample, Checked.bind_eq_ok, Checked.pure_eq, Except.ok.injEq] at h
    obtain ⟨legacy, hlegacy, duration, hduration, _, hsame, step, hstep, work, hwork, units, hunits, -⟩ := h
    obtain ⟨units', hunits'⟩ := accumulates_workUnit.accepts hunits t.workUnits
    exact ⟨_, by simp only [collectSuccessSample, Checked.bind_eq_ok]
                 exact ⟨legacy, hlegacy, duration, hduration, _, hsame, step, hstep, work, hwork, units', hunits',
                   rfl⟩⟩

theorem accumulates_failedSample : Accumulates collectFailedSample FailedOperationCollector.tally Tally.ofFailure where
  adds h := by
    simp only [collectFailedSample, Checked.bind_eq_ok, Checked.pure_eq, Except.ok.injEq] at h
    obtain ⟨duration, hduration, errorClass, hclass, step, hstep, work, hwork, units, hunits, rfl⟩ := h
    refine Tally.ext ?_ ?_ ?_ ?_ ?_
    · simp [FailedOperationCollector.tally, Tally.add_def, Tally.ofFailure, asU64_of_requiredU64 hduration]
    · funext other
      simp [FailedOperationCollector.tally, Tally.add_def, Tally.ofFailure, Occurrences.count_bump,
        asStr_of_requiredStr hclass, @eq_comm _ other errorClass]
    · simp [FailedOperationCollector.tally, Tally.add_def, Tally.ofFailure, accumulates_failedWork.adds hunits,
        field_of_requiredField hwork]
    · simp [FailedOperationCollector.tally, Tally.add_def, Tally.ofFailure, field_of_requiredField hwork]
    · simp [FailedOperationCollector.tally, Tally.add_def, Tally.ofFailure, field_of_requiredField hstep]
  accepts h t := by
    simp only [collectFailedSample, Checked.bind_eq_ok, Checked.pure_eq, Except.ok.injEq] at h
    obtain ⟨duration, hduration, errorClass, hclass, step, hstep, work, hwork, units, hunits, -⟩ := h
    obtain ⟨units', hunits'⟩ := accumulates_failedWork.accepts hunits t.workUnits
    exact ⟨_, by simp only [collectFailedSample, Checked.bind_eq_ok]
                 exact ⟨duration, hduration, errorClass, hclass, step, hstep, work, hwork, units', hunits', rfl⟩⟩

end Samples

/-! ### Operations -/

inductive Operation
  | reopen | compactionStall
  deriving DecidableEq

inductive Side
  | left | right
  deriving DecidableEq

inductive Stratum
  | combined | leftThenRight | rightThenLeft
  deriving DecidableEq

def Operation.name : Operation → String
  | reopen => "reopen"
  | compactionStall => "compaction_stall"

/-- The samples of the successes of an operation, or of its failures. -/
def successTally (timing : Value) (op : Operation) : Tally :=
  ((timing.field (op.name ++ "_samples")).items.map Tally.ofSuccess).sum

def failureTally (timing : Value) (op : Operation) : Tally :=
  ((timing.field (op.name ++ "_failure_samples")).items.map Tally.ofFailure).sum

theorem accumulates_successOperation (op : Operation) :
    Accumulates (fun timing c => collectSuccessOperation timing op.name c) SuccessfulOperationCollector.tally
      fun timing => successTally timing op := by
  refine Accumulates.reads (fun _ timing => successTally timing op) (fun legacy => ?_) fun timing _ _ => rfl
  refine Accumulates.reads (fun samples _ => (samples.map Tally.ofSuccess).sum) (fun samples => ?_)
    fun timing samples hsamples => by rw [successTally, requiredArray_eq_ok.1 hsamples]; rfl
  refine Accumulates.reads _ (fun _ => (accumulates_successSample _ _).fold.comap) fun _ _ hlength => ?_
  have hsamples : (legacy.zip samples).zipIdx.map (fun item => item.1.2) = samples := by
    have hle : samples.length ≤ legacy.length := (not_not.1 (rejectIf_eq_ok.1 hlength)).ge
    calc (legacy.zip samples).zipIdx.map (fun item => item.1.2)
        = ((legacy.zip samples).zipIdx.map Prod.fst).map Prod.snd := by rw [List.map_map]; rfl
      _ = (legacy.zip samples).map Prod.snd := by rw [List.zipIdx_map_fst]
      _ = samples := List.map_snd_zip hle
  conv_lhs => rw [← hsamples]
  rw [List.map_map]
  rfl

theorem accumulates_failedOperation (op : Operation) :
    Accumulates (fun timing c => collectFailedOperation timing op.name c) FailedOperationCollector.tally
      fun timing => failureTally timing op := by
  refine Accumulates.reads (fun found _ => ((found.getD .null).items.map Tally.ofFailure).sum)
    (fun found => ?_) fun timing found hfound => by rw [failureTally, field_of_optionalField hfound]
  cases found with
  | none => exact Accumulates.skip
  | some found =>
    refine Accumulates.reads (fun samples _ => (samples.map Tally.ofFailure).sum)
      (fun samples => accumulates_failedSample.fold.comap) fun _ samples hsamples => ?_
    rw [Option.getD_some, Value.items, orInvalid_eq_ok.1 hsamples, Option.getD_some]

/-! ### Strata -/

def ByOperation.at {α : Type} (c : ByOperation α) : Operation → α
  | .reopen => c.reopen
  | .compactionStall => c.compactionStall

def BySide.at {α : Type} (c : BySide α) : Side → α
  | .left => c.left
  | .right => c.right

def ByOrder.at {α : Type} (c : ByOrder α) : Stratum → α
  | .combined => c.combined
  | .leftThenRight => c.leftThenRight
  | .rightThenLeft => c.rightThenLeft

def OrderedTimings.at (timings : OrderedTimings) : Side → Value
  | .left => timings.left
  | .right => timings.right

/-- The comparisons with this execution order belong to the stratum. -/
def Stratum.Covers (order : String) : Stratum → Prop
  | combined => True
  | leftThenRight => order = "left_then_right"
  | rightThenLeft => order = "right_then_left"

instance (order : String) : (stratum : Stratum) → Decidable (stratum.Covers order)
  | .combined => .isTrue trivial
  | .leftThenRight => inferInstanceAs (Decidable (order = "left_then_right"))
  | .rightThenLeft => inferInstanceAs (Decidable (order = "right_then_left"))

section Strata

variable {α : Type} {collect : Value → String → α → Except AnalyzeError α} {tally : α → Tally}
  {amount : Value → Operation → Tally}

/-- The tallies of a section. -/
def Strata.tallies (tally : α → Tally) (c : Strata α) (stratum : Stratum) (side : Side) (op : Operation) : Tally :=
  tally (((c.at stratum).at side).at op)

/-- What the timings of a comparison amount to in each stratum. -/
def OrderedTimings.tallies (amount : Value → Operation → Tally) (timings : OrderedTimings) (stratum : Stratum)
    (side : Side) (op : Operation) : Tally :=
  if stratum.Covers timings.order then amount (timings.at side) op else 0

theorem OrderedTimings.tallies_of_covers {timings : OrderedTimings} {stratum : Stratum}
    (hcovers : stratum.Covers timings.order) :
    timings.tallies amount stratum = fun side op => amount (timings.at side) op := by
  funext side op
  rw [OrderedTimings.tallies, if_pos hcovers]

theorem OrderedTimings.tallies_of_not {timings : OrderedTimings} {stratum : Stratum}
    (hcovers : ¬ stratum.Covers timings.order) : timings.tallies amount stratum = 0 := by
  funext side op
  rw [OrderedTimings.tallies, if_neg hcovers]
  rfl

variable (h : ∀ op : Operation, Accumulates (fun timing c => collect timing op.name c) tally (amount · op))

include h

theorem accumulates_byOperation : Accumulates (ByOperation.add collect) (fun c op => tally (c.at op)) amount where
  adds hrun := by
    simp only [ByOperation.add, Checked.bind_eq_ok, Checked.pure_eq, Except.ok.injEq] at hrun
    obtain ⟨reopen, hreopen, stall, hstall, rfl⟩ := hrun
    funext op
    cases op with
    | reopen => exact (h .reopen).adds hreopen
    | compactionStall => exact (h .compactionStall).adds hstall
  accepts hrun t := by
    simp only [ByOperation.add, Checked.bind_eq_ok, Checked.pure_eq, Except.ok.injEq] at hrun
    obtain ⟨reopen, hreopen, stall, hstall, -⟩ := hrun
    obtain ⟨reopen', hreopen'⟩ := (h .reopen).accepts hreopen t.reopen
    obtain ⟨stall', hstall'⟩ := (h .compactionStall).accepts hstall t.compactionStall
    refine ⟨⟨reopen', stall'⟩, ?_⟩
    simp only [ByOperation.add, Checked.bind_eq_ok]
    exact ⟨reopen', hreopen', stall', hstall', rfl⟩

theorem accumulates_bySide : Accumulates (fun timings => BySide.add collect timings.left timings.right)
    (fun c side op => tally ((c.at side).at op)) fun (timings : OrderedTimings) side op => amount (timings.at side) op where
  adds hrun := by
    simp only [BySide.add, Checked.bind_eq_ok, Checked.pure_eq, Except.ok.injEq] at hrun
    obtain ⟨left, hleft, right, hright, rfl⟩ := hrun
    funext side
    cases side with
    | left => exact (accumulates_byOperation h).adds hleft
    | right => exact (accumulates_byOperation h).adds hright
  accepts hrun t := by
    simp only [BySide.add, Checked.bind_eq_ok, Checked.pure_eq, Except.ok.injEq] at hrun
    obtain ⟨left, hleft, right, hright, -⟩ := hrun
    obtain ⟨left', hleft'⟩ := (accumulates_byOperation h).accepts hleft t.left
    obtain ⟨right', hright'⟩ := (accumulates_byOperation h).accepts hright t.right
    refine ⟨⟨left', right'⟩, ?_⟩
    simp only [BySide.add, Checked.bind_eq_ok]
    exact ⟨left', hleft', right', hright', rfl⟩

omit h in
/-- What `ByOrder.add` does. -/
theorem ByOrder.add_eq_ok {label : String} {timings : OrderedTimings} {c c' : Strata α} :
    c.add collect label timings = .ok c' ↔
      ∃ combined, c.combined.add collect timings.left timings.right = .ok combined ∧
        ((timings.order = "left_then_right" ∧ ∃ stratum,
            c.leftThenRight.add collect timings.left timings.right = .ok stratum ∧
              (⟨combined, stratum, c.rightThenLeft⟩ : Strata α) = c') ∨
          timings.order = "right_then_left" ∧ ∃ stratum,
            c.rightThenLeft.add collect timings.left timings.right = .ok stratum ∧
              (⟨combined, c.leftThenRight, stratum⟩ : Strata α) = c') := by
  rw [ByOrder.add, Checked.bind_eq_ok]
  refine exists_congr fun combined => and_congr_right fun _ => ?_
  by_cases hleft : timings.order = "left_then_right"
  · simp [hleft]
  · by_cases hright : timings.order = "right_then_left"
    · simp [hright]
    · simp [hleft, hright]

theorem accumulates_byOrder (label : String) : Accumulates (fun timings c => ByOrder.add collect label timings c)
    (Strata.tallies tally) (OrderedTimings.tallies amount) where
  adds {timings c c'} hrun := by
    have hside := accumulates_bySide h
    have hall : Stratum.combined.Covers timings.order := trivial
    obtain ⟨combined, hcombined, ⟨horder, stratum, hstratum, rfl⟩ | ⟨horder, stratum, hstratum, rfl⟩⟩ :=
      ByOrder.add_eq_ok.1 hrun
    · funext t
      cases t with
      | combined =>
        rw [Pi.add_apply, OrderedTimings.tallies_of_covers hall]
        exact @Accumulates.adds _ _ _ _ _ _ _ _ hside timings _ _ hcombined
      | leftThenRight =>
        have hcovers : Stratum.leftThenRight.Covers timings.order := horder
        rw [Pi.add_apply, OrderedTimings.tallies_of_covers hcovers]
        exact @Accumulates.adds _ _ _ _ _ _ _ _ hside timings _ _ hstratum
      | rightThenLeft =>
        rw [Pi.add_apply, OrderedTimings.tallies_of_not (by simp [Stratum.Covers, horder]), add_zero]
        rfl
    · funext t
      cases t with
      | combined =>
        rw [Pi.add_apply, OrderedTimings.tallies_of_covers hall]
        exact @Accumulates.adds _ _ _ _ _ _ _ _ hside timings _ _ hcombined
      | leftThenRight =>
        rw [Pi.add_apply, OrderedTimings.tallies_of_not (by simp [Stratum.Covers, horder]), add_zero]
        rfl
      | rightThenLeft =>
        have hcovers : Stratum.rightThenLeft.Covers timings.order := horder
        rw [Pi.add_apply, OrderedTimings.tallies_of_covers hcovers]
        exact @Accumulates.adds _ _ _ _ _ _ _ _ hside timings _ _ hstratum
  accepts {timings c c'} hrun t := by
    have hside := accumulates_bySide h
    obtain ⟨combined, hcombined, hstratum⟩ := ByOrder.add_eq_ok.1 hrun
    obtain ⟨combined', hcombined'⟩ := @Accumulates.accepts _ _ _ _ _ _ _ _ hside timings _ _ hcombined t.combined
    rcases hstratum with ⟨horder, stratum, hstratum, -⟩ | ⟨horder, stratum, hstratum, -⟩
    · obtain ⟨stratum', hstratum'⟩ :=
        @Accumulates.accepts _ _ _ _ _ _ _ _ hside timings _ _ hstratum t.leftThenRight
      exact ⟨_, ByOrder.add_eq_ok.2 ⟨combined', hcombined', .inl ⟨horder, stratum', hstratum', rfl⟩⟩⟩
    · obtain ⟨stratum', hstratum'⟩ :=
        @Accumulates.accepts _ _ _ _ _ _ _ _ hside timings _ _ hstratum t.rightThenLeft
      exact ⟨_, ByOrder.add_eq_ok.2 ⟨combined', hcombined', .inr ⟨horder, stratum', hstratum', rfl⟩⟩⟩

omit h in
/-- The samples of all comparisons are those of the two execution orders together. -/
def Balanced (tally : α → Tally) (c : Strata α) : Prop :=
  ∀ side op, Strata.tallies tally c .combined side op =
    Strata.tallies tally c .leftThenRight side op + Strata.tallies tally c .rightThenLeft side op

theorem ByOrder.add_balanced {label : String} {timings : OrderedTimings} {c c' : Strata α}
    (hrun : c.add collect label timings = .ok c') (hc : Balanced tally c) : Balanced tally c' := by
  intro side op
  have htallies := (accumulates_byOrder h label).adds (a := timings) hrun
  have hcase : timings.order = "left_then_right" ∨ timings.order = "right_then_left" := by
    obtain ⟨-, -, ⟨horder, -⟩ | ⟨horder, -⟩⟩ := ByOrder.add_eq_ok.1 hrun
    · exact .inl horder
    · exact .inr horder
  rw [htallies]
  simp only [Pi.add_apply, hc side op, OrderedTimings.tallies, Stratum.Covers]
  rcases hcase with horder | horder
  · simp [horder, add_right_comm]
  · simp [horder, add_assoc]

end Strata

end DbLab.Experiment.Analyze
