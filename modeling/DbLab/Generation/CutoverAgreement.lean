import DbLab.Generation.Cutover
import DbLab.Generation.Lifecycle

/-!
# The cutover and its verification

A cutover that returns has left the sentinel, the retained log and the target that it has checked. Its verification
asks for more: a target with no other files than those of its import, and a sentinel that is not too long.
-/

namespace DbLab

namespace Task

variable {σ τ ε α : Type} {allowed : Io → Prop} {view : σ → τ} {put : τ → σ → σ} {x : Task τ ε α} {s s' : σ}
  {r : Except ε α} {R : σ → σ → Prop}

/-- A run on a part of the state. -/
theorem runs_zoom (hput : ∀ s, put (view s) s = s) (hview : ∀ t s, view (put t s) = t)
    (htwice : ∀ t t' s, put t' (put t s) = put t' s) :
    Runs allowed (Task.zoom view put x) s r s' ↔ ∃ t', Runs allowed x (view s) r t' ∧ s' = put t' s := by
  induction x generalizing s with
  | done r' =>
    rw [Task.zoom, runs_done]
    constructor
    · rintro ⟨rfl, rfl⟩
      exact ⟨_, .done, (hput s').symm⟩
    · rintro ⟨t', hrun, rfl⟩
      obtain ⟨rfl, rfl⟩ := runs_done.1 hrun
      exact ⟨rfl, hput s⟩
  | step act next ih =>
    constructor
    · rintro (_ | ⟨io, hio, hrun⟩)
      obtain ⟨t', hrest, rfl⟩ := (ih _).1 hrun
      rw [hview] at hrest
      exact ⟨t', .step io hio hrest, htwice _ _ _⟩
    · rintro ⟨t', hrun, rfl⟩
      rcases hrun with _ | ⟨io, hio, hrest⟩
      refine .step io hio ((ih _).2 ⟨t', ?_, (htwice _ _ _).symm⟩)
      rw [hview]
      exact hrest

/-- A task on a part of the state dies where it dies on that part. -/
theorem stops_zoom (hput : ∀ s, put (view s) s = s) (hview : ∀ t s, view (put t s) = t)
    (htwice : ∀ t t' s, put t' (put t s) = put t' s) (h : Stops allowed (Task.zoom view put x) s s') :
    ∃ t', Stops allowed x (view s) t' ∧ s' = put t' s := by
  induction x generalizing s with
  | done r => exact ⟨_, .here, (stops_done h).trans (hput _).symm⟩
  | step act next ih =>
    rcases h with _ | ⟨io, hio, h⟩
    · exact ⟨_, .here, (hput _).symm⟩
    · obtain ⟨t', hrest, rfl⟩ := ih _ h
      rw [hview] at hrest
      exact ⟨t', .later io hio hrest, htwice _ _ _⟩

/-- What the steps on a part do to the state. -/
theorem steady_zoom {P : τ → τ → Prop} (hR : ∀ s t, P (view s) t → R s (put t s)) (h : Steady P x) :
    Steady R (Task.zoom view put x) := by
  induction x with
  | done r => trivial
  | step act next ih => exact fun s io => ⟨hR s _ (h (view s) io).1, ih _ (h (view s) io).2⟩

end Task

namespace Generation

open Log

variable {allowed : Io → Prop} {fs fs' : FileSystem} {path other : Path} {ε α β : Type} {lift : GenerationError → ε}
  {legacy : LegacyPath} {target : Path}

/-! ### Runs on the file system -/

theorem runs_inDirectory {x : DirTask α} {a : α} :
    Task.Runs allowed (inDirectory lift path x) fs (.ok a) fs' ↔
      ∃ d', Task.Runs allowed x (fs path) (.ok a) d' ∧ fs' = Function.update fs path d' := by
  rw [inDirectory, Task.runs_mapError_ok, Task.runs_zoom]
  · exact fun s => Function.update_eq_self path s
  · exact fun t s => Function.update_self path t s
  · exact fun t t' s => Function.update_idem t t' s

/-- What only looks at a directory leaves the file system as it is. -/
theorem runs_inDirectory_quiet {x : DirTask α} {a : α} (hquiet : Quiet x) :
    Task.Runs allowed (inDirectory lift path x) fs (.ok a) fs' ↔
      Task.Runs allowed x (fs path) (.ok a) (fs path) ∧ fs' = fs := by
  rw [runs_inDirectory]
  constructor
  · rintro ⟨d', hrun, rfl⟩
    obtain rfl := hquiet.same hrun.stops
    exact ⟨hrun, Function.update_eq_self path fs⟩
  · rintro ⟨hrun, rfl⟩
    exact ⟨_, hrun, (Function.update_eq_self path fs').symm⟩

theorem runs_then {x : Task FileSystem ε α} {f : α → Task FileSystem ε β} {b : β} :
    Task.Runs allowed (x >>= f) fs (.ok b) fs' ↔
      ∃ a fs₁, Task.Runs allowed x fs (.ok a) fs₁ ∧ Task.Runs allowed (f a) fs₁ (.ok b) fs' :=
  Task.runs_bind_ok

theorem runs_refuseWhen {p : Prop} [Decidable p] {e : ε} {u : Unit} :
    Task.Runs allowed (refuseWhen p e) fs (.ok u) fs' ↔ ¬ p ∧ fs' = fs := by
  rw [refuseWhen, Task.ofExcept, Task.runs_done, eq_comm, Checked.guard_eq_ok]
  simp

theorem runs_value {a b : α} :
    Task.Runs allowed (pure b : Task FileSystem ε α) fs (.ok a) fs' ↔ a = b ∧ fs' = fs := by
  rw [Task.pure_eq, Task.runs_done, Except.ok.injEq]

theorem runs_result {r : Except ε α} {a : α} :
    Task.Runs allowed (Task.ofExcept r : Task FileSystem ε α) fs (.ok a) fs' ↔ r = .ok a ∧ fs' = fs := by
  rw [Task.ofExcept, Task.runs_done, eq_comm]

theorem runs_inDirectory_read (hs : allowed .success) {label : String} {name : Name} {bytes : Bytes} :
    Task.Runs allowed (inDirectory lift path (readRegular label name)) fs (.ok bytes) fs' ↔
      (fs path).find name = some (.regular bytes) ∧ fs' = fs := by
  have hquiet : Quiet (readRegular label name) := quiet_reading
  rw [runs_inDirectory_quiet hquiet, runs_readRegular hs]
  simp

theorem runs_inDirectory_inspect (hs : allowed .success) {name : Name} {report : InspectionReport} :
    Task.Runs allowed (inDirectory lift path (inspectAt name)) fs (.ok report) fs' ↔
      (∃ file, (fs path).find name = some (.regular file) ∧ inspectLog file = .ok report) ∧ fs' = fs := by
  rw [runs_inDirectory_quiet quiet_inspectAt, runs_inspectAt hs]
  simp

theorem runs_inDirectory_verify (hs : allowed .success) {s : GenerationVerificationSummary} :
    Task.Runs allowed (inDirectory lift path verifyGenerationDirectory) fs (.ok s) fs' ↔
      verifyGenerationDirectory.run (fs path) = (.ok s, fs path) ∧ fs' = fs := by
  rw [runs_inDirectory_quiet quiet_verify, runs_verifyGenerationDirectory hs, Task.run_eq_iff,
    @runs_verifyGenerationDirectory (fun io => io = .success) rfl]

/-! ### Steps that leave the file system as it is -/

section Looking

variable {β : Type} {b : β}

theorem runs_looking {x : Task FileSystem ε α} {P : α → Prop} {f : α → Task FileSystem ε β}
    (hx : ∀ a fs₁, Task.Runs allowed x fs (.ok a) fs₁ ↔ P a ∧ fs₁ = fs) :
    Task.Runs allowed (x >>= f) fs (.ok b) fs' ↔ ∃ a, P a ∧ Task.Runs allowed (f a) fs (.ok b) fs' := by
  rw [runs_then]
  constructor
  · rintro ⟨a, fs₁, hfirst, hrest⟩
    obtain ⟨ha, rfl⟩ := (hx a fs₁).1 hfirst
    exact ⟨a, ha, hrest⟩
  · rintro ⟨a, ha, hrest⟩
    exact ⟨a, fs, (hx a fs).2 ⟨ha, rfl⟩, hrest⟩

theorem runs_refuse {p : Prop} [Decidable p] {e : ε} {f : Unit → Task FileSystem ε β} :
    Task.Runs allowed (refuseWhen p e >>= f) fs (.ok b) fs' ↔ ¬ p ∧ Task.Runs allowed (f ()) fs (.ok b) fs' := by
  rw [runs_looking fun _ _ => runs_refuseWhen]
  exact ⟨fun ⟨_, hp, hrest⟩ => ⟨hp, hrest⟩, fun ⟨hp, hrest⟩ => ⟨(), hp, hrest⟩⟩

theorem runs_ofResult {r : Except ε α} {f : α → Task FileSystem ε β} :
    Task.Runs allowed (Task.ofExcept r >>= f) fs (.ok b) fs' ↔
      ∃ a, r = .ok a ∧ Task.Runs allowed (f a) fs (.ok b) fs' :=
  runs_looking fun _ _ => runs_result

theorem runs_read (hs : allowed .success) {label : String} {name : Name} {f : Bytes → Task FileSystem ε β} :
    Task.Runs allowed (inDirectory lift path (readRegular label name) >>= f) fs (.ok b) fs' ↔
      ∃ bytes, (fs path).find name = some (.regular bytes) ∧ Task.Runs allowed (f bytes) fs (.ok b) fs' :=
  runs_looking fun _ _ => runs_inDirectory_read hs

theorem runs_inspect (hs : allowed .success) {name : Name} {f : InspectionReport → Task FileSystem ε β} :
    Task.Runs allowed (inDirectory lift path (inspectAt name) >>= f) fs (.ok b) fs' ↔
      ∃ report, (∃ file, (fs path).find name = some (.regular file) ∧ inspectLog file = .ok report) ∧
        Task.Runs allowed (f report) fs (.ok b) fs' :=
  runs_looking fun _ _ => runs_inDirectory_inspect hs

theorem runs_verify (hs : allowed .success) {f : GenerationVerificationSummary → Task FileSystem ε β} :
    Task.Runs allowed (inDirectory lift path verifyGenerationDirectory >>= f) fs (.ok b) fs' ↔
      ∃ s, verifyGenerationDirectory.run (fs path) = (.ok s, fs path) ∧ Task.Runs allowed (f s) fs (.ok b) fs' :=
  runs_looking fun _ _ => runs_inDirectory_verify hs

theorem runs_quiet {x : DirTask α} (hquiet : Quiet x) {f : α → Task FileSystem ε β} :
    Task.Runs allowed (inDirectory lift path x >>= f) fs (.ok b) fs' ↔
      ∃ a, Task.Runs allowed x (fs path) (.ok a) (fs path) ∧ Task.Runs allowed (f a) fs (.ok b) fs' :=
  runs_looking fun _ _ => runs_inDirectory_quiet hquiet

end Looking

/-! ### What the cutover has checked -/

theorem runs_validateFreshImportTarget {source : InspectionReport} {summary : GenerationVerificationSummary} {u : Unit} :
    Task.Runs allowed (validateFreshImportTarget source summary) fs (.ok u) fs' ↔
      (summary.authoritativeGeneration = importGeneration ∧ ¬ Changed summary ∧
        summary.logVerification.liveKeys = source.verification.liveKeys) ∧ fs' = fs := by
  unfold validateFreshImportTarget
  rw [runs_refuse, runs_refuse, runs_refuseWhen, not_not, not_not]
  tauto

/-- What the checks of an import have seen: a clean log and its snapshot, and a target that verifies with its first
generation as the authority and the live state of the log. -/
structure ImportChecked (legacy : LegacyPath) (target : Path) (fs : FileSystem) (found : Import) : Prop where
  snapshot_at : (fs legacy.parent).find legacy.name = some (.regular found.snapshot)
  snapshot : inspectLog found.snapshot = .ok found.sourceState
  clean : ¬ Unclean found.sourceState
  entries : found.targetState.entries = found.sourceState.entries
  verified : ∃ s, verifyGenerationDirectory.run (fs target) = (.ok s, fs target) ∧
    s.authoritativeGeneration = importGeneration ∧
    ∃ file, (fs target).find s.authoritativeLog = some (.regular file) ∧ inspectLog file = .ok found.targetState

/-- The checks leave everything as it is. -/
theorem runs_checkImport (hs : allowed .success) {found : Import}
    (h : Task.Runs allowed (checkImport legacy target) fs (.ok found) fs') :
    fs' = fs ∧ ImportChecked legacy target fs found := by
  unfold checkImport inLegacy inTarget at h
  obtain ⟨-, -, h⟩ := (runs_read hs).1 h
  obtain ⟨sourceState, -, h⟩ := (runs_inspect hs).1 h
  obtain ⟨hclean, h⟩ := runs_refuse.1 h
  obtain ⟨snapshot, hread, h⟩ := (runs_read hs).1 h
  obtain ⟨captured, hcaptured, h⟩ := (runs_quiet quiet_done).1 h
  obtain ⟨hsame, h⟩ := runs_refuse.1 h
  obtain ⟨again, -, h⟩ := (runs_read hs).1 h
  obtain ⟨-, h⟩ := runs_refuse.1 h
  obtain ⟨-, -, h⟩ := (runs_quiet quiet_acquireLease).1 h
  obtain ⟨before, hverify, h⟩ := (runs_verify hs).1 h
  obtain ⟨-, ⟨hauthority, -, -⟩, h⟩ := (runs_looking fun _ _ => runs_validateFreshImportTarget).1 h
  obtain ⟨targetState, hinspect, h⟩ := (runs_inspect hs).1 h
  obtain ⟨hentries, h⟩ := runs_refuse.1 h
  obtain ⟨rfl, rfl⟩ := runs_value.1 h
  rw [not_not] at hsame hentries
  refine ⟨rfl, hread, ?_, hclean, hentries, before, hverify, hauthority, hinspect⟩
  rw [← hsame]
  exact (Task.runs_done.1 hcaptured).1.symm

/-! ### The other directories -/

section Untouched

variable {snapshot sentinel : Bytes}

/-- The directory is as it was. -/
def Untouched (path : Path) (fs fs' : FileSystem) : Prop := fs' path = fs path

theorem Untouched.refl (fs : FileSystem) : Untouched path fs fs := rfl

theorem Untouched.trans ⦃fs₁ fs₂ fs₃ : FileSystem⦄ (h : Untouched path fs₁ fs₂) (h' : Untouched path fs₂ fs₃) :
    Untouched path fs₁ fs₃ := Eq.trans h' h

theorem untouched_update (hne : path ≠ other) (d : Directory) : Untouched path fs (Function.update fs other d) := by
  rw [Untouched, Function.update_of_ne hne]

theorem untouched_inLegacy (hne : path ≠ legacy.parent) {x : DirTask α} : Task.Steady (Untouched path) (inLegacy legacy x) :=
  Task.Steady.mapError (Task.steady_zoom (fun _ d (_ : True) => untouched_update hne d) Task.steady_true)

theorem untouched_requireSnapshot (hne : path ≠ legacy.parent) {made : List Name} :
    Task.Steady (Untouched path) (requireSnapshot legacy snapshot made) := by
  refine (untouched_inLegacy hne).bind fun same => ?_
  split
  · trivial
  · exact (untouched_inLegacy hne).bind fun _ => trivial

theorem untouched_replacePathname (hne : path ≠ legacy.parent) :
    Task.Steady (Untouched path) (replacePathname legacy snapshot sentinel) :=
  (untouched_inLegacy hne).bind fun _ => (untouched_inLegacy hne).bind fun _ => (untouched_inLegacy hne).bind fun _ =>
    (untouched_requireSnapshot hne).bind fun _ => (untouched_inLegacy hne).bind fun _ =>
    (untouched_inLegacy hne).bind fun _ => (untouched_inLegacy hne).bind fun _ =>
    (untouched_requireSnapshot hne).bind fun _ => (untouched_inLegacy hne).bind fun _ =>
    Task.Steady.mapError (untouched_inLegacy hne)

end Untouched

/-! ### What the cutover leaves -/

/-- What is there behind a cutover that has returned. -/
structure CutOver (json : SentinelJson) (legacy : LegacyPath) (target : Path) (fs : FileSystem) (found : Import)
    (s : GenerationVerificationSummary) : Prop where
  sentinel : (fs legacy.parent).find legacy.name = some (.regular (json.toVecPretty (sentinelOf legacy target)))
  retained : (fs legacy.parent).find legacy.retained = some (.regular found.snapshot)
  snapshot : inspectLog found.snapshot = .ok found.sourceState
  clean : ¬ Unclean found.sourceState
  entries : found.targetState.entries = found.sourceState.entries
  verified : verifyGenerationDirectory.run (fs target) = (.ok s, fs target)
  unchanged : ¬ Changed s
  targetState : ∃ file, (fs target).find s.authoritativeLog = some (.regular file) ∧
    inspectLog file = .ok found.targetState

theorem foreign_retained : Foreign legacy.retained := by
  intro kind id heq
  have hlast := congrArg List.getLast? heq
  revert hlast
  cases kind <;>
    simp [LegacyPath.retained, retainedSuffix, canonicalName, FileKind.fixedSuffix, List.getLast?_append]

theorem runs_checkPaths {u : Unit} (h : Task.Runs allowed (checkPaths legacy target) fs (.ok u) fs') : fs' = fs := by
  unfold checkPaths at h
  obtain ⟨-, h⟩ := runs_refuse.1 h
  exact (runs_refuseWhen.1 h).2

/-- What the last checks have seen. -/
theorem runs_confirmCutover (hs : allowed .success) {found : Import} {sentinel : Bytes} {s : GenerationVerificationSummary}
    (h : Task.Runs allowed (confirmCutover legacy target found sentinel) fs (.ok s) fs') :
    fs' = fs ∧ (fs legacy.parent).find legacy.name = some (.regular sentinel) ∧
      (fs legacy.parent).find legacy.retained = some (.regular found.snapshot) ∧
      verifyGenerationDirectory.run (fs target) = (.ok s, fs target) ∧ ¬ Changed s ∧
      ∃ file, (fs target).find s.authoritativeLog = some (.regular file) ∧ inspectLog file = .ok found.targetState := by
  unfold confirmCutover inLegacy inTarget at h
  obtain ⟨published, hpublished, h⟩ := (runs_read hs).1 h
  obtain ⟨hsentinel, h⟩ := runs_refuse.1 h
  obtain ⟨retained, hretained, h⟩ := (runs_read hs).1 h
  obtain ⟨hsnapshot, h⟩ := runs_refuse.1 h
  obtain ⟨final, hverify, h⟩ := (runs_verify hs).1 h
  obtain ⟨-, ⟨-, hunchanged, -⟩, h⟩ := (runs_looking fun _ _ => runs_validateFreshImportTarget).1 h
  obtain ⟨finalState, hinspect, h⟩ := (runs_inspect hs).1 h
  obtain ⟨hstate, h⟩ := runs_refuse.1 h
  obtain ⟨rfl, rfl⟩ := runs_value.1 h
  rw [not_not] at hsentinel hsnapshot hstate
  rw [hsentinel] at hpublished
  rw [hsnapshot] at hretained
  rw [hstate] at hinspect
  exact ⟨rfl, hpublished, hretained, hverify, hunchanged, hinspect⟩

/-- **A cutover that returns** has checked what it leaves, and has not touched the target. -/
theorem cutOver_of_runs (hs : allowed .success) {json : SentinelJson} {summary : LegacyCutoverSummary}
    (h : Task.Runs allowed (cutoverMigratedLegacyAppendLog legacy target json) fs (.ok summary) fs') :
    ∃ found s, CutOver json legacy target fs' found s ∧ fs' target = fs target := by
  unfold cutoverMigratedLegacyAppendLog inLegacy at h
  have hquiet : ∀ label name, Quiet (requireAbsent label name) := fun _ _ => quiet_reading
  obtain ⟨found, fs₁, hcheck, h⟩ := runs_then.1 h
  obtain ⟨-, -, h⟩ := (runs_quiet (hquiet _ _)).1 h
  obtain ⟨-, -, h⟩ := (runs_quiet (hquiet _ _)).1 h
  obtain ⟨_, fs₂, hpaths, h⟩ := runs_then.1 h
  obtain ⟨_, fs₃, hreplace, h⟩ := runs_then.1 h
  obtain ⟨s, fs₄, hconfirm, h⟩ := runs_then.1 h
  obtain ⟨-, rfl⟩ := runs_value.1 h
  obtain rfl := runs_checkPaths hpaths
  obtain ⟨rfl, hpublished, hretained, hverify, hunchanged, hinspect⟩ := runs_confirmCutover hs hconfirm
  obtain ⟨rfl, hchecked⟩ := runs_checkImport hs hcheck
  refine ⟨found, s, ⟨hpublished, hretained, hchecked.snapshot, hchecked.clean, hchecked.entries, hverify, hunchanged,
    hinspect⟩, ?_⟩
  -- A target in the directory of the log would not be verified any more.
  have hne : target ≠ legacy.parent := by
    rintro rfl
    obtain ⟨ns, markerFile, log, marker, hv⟩ := exists_verifies hverify
    exact not_has_of_foreign hv.scanned foreign_retained (by rw [Directory.Has, hretained]; rfl)
  have hsame := (untouched_replacePathname hne).stops Untouched.refl Untouched.trans hreplace.stops
  exact hsame

/-! ### Agreement -/

/-- The verification of what a cutover has left. -/
theorem CutOver.runs_verify_iff (hs : allowed .success) {json : SentinelJson} {found : Import} {s : GenerationVerificationSummary}
    (h : CutOver json legacy target fs found s)
    (hjson : json.fromSlice (json.toVecPretty (sentinelOf legacy target)) = .ok (sentinelOf legacy target)) :
    (∃ v, Task.Runs allowed (verifyFreshLegacyCutover legacy target json) fs (.ok v) fs) ↔
      UntouchedImport s ∧ (json.toVecPretty (sentinelOf legacy target)).length ≤ maxSentinelBytes := by
  simp only [verifyFreshLegacyCutover, runs_read hs, runs_refuse, runs_ofResult, runs_inspect hs, runs_verify hs,
    runs_value, not_not, not_lt]
  constructor
  · rintro ⟨v, bytes, hbytes, hlength, sentinel, -, -, retained, -, -, -, sourceState, -, -, summary, hverify,
      huntouched, -⟩
    obtain rfl : s = summary := Except.ok.inj (congrArg Prod.fst (h.verified.symm.trans hverify))
    have hsame : Entry.regular (json.toVecPretty (sentinelOf legacy target)) = .regular bytes :=
      Option.some.inj (h.sentinel.symm.trans hbytes)
    exact ⟨huntouched, Entry.regular.inj hsame ▸ hlength⟩
  · rintro ⟨huntouched, hlength⟩
    obtain ⟨file, hfile, hinspect⟩ := h.targetState
    obtain ⟨ns, markerFile, log, marker, hv⟩ := exists_verifies h.verified
    have hlog : file = log := by
      have hfound := hv.log_at
      rw [← hv.authoritativeLog] at hfound
      exact Entry.regular.inj (Option.some.inj (hfile.symm.trans hfound))
    have hverification : found.targetState.verification = s.logVerification := by
      subst hlog
      obtain ⟨scan, hscan, hreport⟩ := verifyLog_eq_ok.1 hv.log_ok
      rw [inspectLog, hscan, Except.ok.injEq] at hinspect
      rw [← hinspect, ← hreport]
    refine ⟨_, _, h.sentinel, hlength, sentinelOf legacy target, ?_, rfl, _, h.retained, rfl, rfl, found.sourceState,
      ⟨_, h.retained, h.snapshot⟩, h.clean, s, h.verified, huntouched, h.unchanged, found.targetState,
      ⟨file, hfile, hinspect⟩, hverification, h.entries, rfl, trivial⟩
    rw [hjson]
    rfl

theorem CutOver.verify_iff {json : SentinelJson} {found : Import} {s : GenerationVerificationSummary}
    (h : CutOver json legacy target fs found s)
    (hjson : json.fromSlice (json.toVecPretty (sentinelOf legacy target)) = .ok (sentinelOf legacy target)) :
    (∃ v, (verifyFreshLegacyCutover legacy target json).run fs = (.ok v, fs)) ↔
      UntouchedImport s ∧ (json.toVecPretty (sentinelOf legacy target)).length ≤ maxSentinelBytes := by
  simp only [Task.run_eq_iff]
  exact @CutOver.runs_verify_iff (fun io => io = .success) fs legacy target rfl json found s h hjson

/-- **The cutover and its verification** agree exactly if the target held nothing but its import, and the sentinel
is not longer than the verification reads. -/
theorem cutover_verified_iff {json : SentinelJson} {summary : LegacyCutoverSummary}
    (hjson : json.fromSlice (json.toVecPretty (sentinelOf legacy target)) = .ok (sentinelOf legacy target))
    (h : Task.Runs (fun _ => True) (cutoverMigratedLegacyAppendLog legacy target json) fs (.ok summary) fs') :
    (∃ v, (verifyFreshLegacyCutover legacy target json).run fs' = (.ok v, fs')) ↔
      (∃ s, verifyGenerationDirectory.run (fs target) = (.ok s, fs target) ∧ UntouchedImport s) ∧
        (json.toVecPretty (sentinelOf legacy target)).length ≤ maxSentinelBytes := by
  obtain ⟨found, s, hcut, hsame⟩ := cutOver_of_runs trivial h
  rw [hcut.verify_iff hjson]
  refine and_congr_left fun _ => ?_
  rw [← hsame]
  constructor
  · exact fun huntouched => ⟨s, hcut.verified, huntouched⟩
  · rintro ⟨s', hverify, huntouched⟩
    obtain rfl : s = s' := Except.ok.inj (congrArg Prod.fst (hcut.verified.symm.trans hverify))
    exact huntouched

/-! ### A log that was imported -/

def importedLegacy : LegacyPath := ⟨['/', 'l'], ['a']⟩

def importTarget : Path := ['/', 'g']

/-- An empty legacy log and a target directory. -/
def imported (d : Directory) : FileSystem := fun path =>
  if path = importTarget then d
  else if path = importedLegacy.parent then Directory.empty.insert importedLegacy.name (.regular encodeFileHeader)
  else Directory.empty

/-- The encoding of sentinels without characters to escape. -/
def plainSentinel (sentinel : LegacyCutoverSentinel) : Bytes :=
  ("\x7b\n  \"protocol\": \"" ++ sentinel.protocol ++ "\",\n  \"target_directory\": \"" ++ sentinel.targetDirectory ++
    "\",\n  \"retained_legacy_path\": \"" ++ sentinel.retainedLegacyPath ++ "\"\n\x7d").toUTF8.data.toList.map
    fun b => ⟨b.toNat, b.toNat_lt⟩

def importedJson : SentinelJson where
  toVecPretty := plainSentinel
  fromSlice bytes :=
    if bytes = plainSentinel (sentinelOf importedLegacy importTarget) then .ok (sentinelOf importedLegacy importTarget)
    else .error "expected value"

theorem importedJson_reads : importedJson.fromSlice (importedJson.toVecPretty (sentinelOf importedLegacy importTarget)) =
    .ok (sentinelOf importedLegacy importTarget) := by
  simp [importedJson]

theorem runs_of_isOk {α : Type} {x : CutoverTask α} (h : (x.run fs).1.toBool = true) :
    ∃ a fs', Task.Runs (fun _ => True) x fs (.ok a) fs' := by
  rcases hrun : x.run fs with ⟨e | a, fs'⟩
  · rw [hrun] at h
    cases h
  · exact ⟨a, fs', (Task.run_eq_iff.1 hrun).mono fun _ _ => trivial⟩

theorem exists_verified (p : GenerationVerificationSummary → Prop) [DecidablePred p] {d : Directory}
    (h : ((verifyGenerationDirectory.run d).1.toOption.any fun s => decide (p s)) = true) :
    ∃ s, verifyGenerationDirectory.run d = (.ok s, d) ∧ p s := by
  rcases hrun : verifyGenerationDirectory.run d with ⟨e | s, d'⟩
  · rw [hrun] at h
    cases h
  · rw [hrun] at h
    obtain rfl := quiet_verify.same (Task.run_eq_iff.1 hrun).stops
    exact ⟨s, rfl, of_decide_eq_true h⟩

/-- The untouched import. -/
theorem cutover_verified_oneGeneration : ∃ (summary : LegacyCutoverSummary) (fs' : FileSystem),
    Task.Runs (fun _ => True) (cutoverMigratedLegacyAppendLog importedLegacy importTarget importedJson)
      (imported oneGeneration) (.ok summary) fs' ∧
    ∃ v, (verifyFreshLegacyCutover importedLegacy importTarget importedJson).run fs' = (.ok v, fs') := by
  have hok : ((cutoverMigratedLegacyAppendLog importedLegacy importTarget importedJson).run
      (imported oneGeneration)).1.toBool = true := by decide +kernel
  obtain ⟨summary, fs', hrun⟩ := runs_of_isOk hok
  refine ⟨summary, fs', hrun, (cutover_verified_iff importedJson_reads hrun).2 ⟨?_, by decide +kernel⟩⟩
  exact exists_verified UntouchedImport (d := oneGeneration) (by decide +kernel)

/-- The target has a reservation beside its import. -/
def reservedTarget : Directory := oneGeneration.insert (canonicalReservationName 2) (.regular [])

theorem cutover_not_verified : ∃ (summary : LegacyCutoverSummary) (fs' : FileSystem),
    Task.Runs (fun _ => True) (cutoverMigratedLegacyAppendLog importedLegacy importTarget importedJson)
      (imported reservedTarget) (.ok summary) fs' ∧
    ¬ ∃ v, (verifyFreshLegacyCutover importedLegacy importTarget importedJson).run fs' = (.ok v, fs') := by
  have hok : ((cutoverMigratedLegacyAppendLog importedLegacy importTarget importedJson).run
      (imported reservedTarget)).1.toBool = true := by decide +kernel
  obtain ⟨summary, fs', hrun⟩ := runs_of_isOk hok
  refine ⟨summary, fs', hrun, fun hverified => ?_⟩
  obtain ⟨found, s, hcut, hsame⟩ := cutOver_of_runs trivial hrun
  obtain ⟨huntouched, -⟩ := (hcut.verify_iff importedJson_reads).1 hverified
  obtain ⟨s', hverify, htouched⟩ := exists_verified (fun s => ¬ UntouchedImport s) (d := reservedTarget)
    (by decide +kernel)
  have hverified := hcut.verified
  rw [hsame] at hverified
  obtain rfl : s = s' := Except.ok.inj (congrArg Prod.fst (hverified.symm.trans hverify))
  exact htouched huntouched

end Generation

end DbLab
