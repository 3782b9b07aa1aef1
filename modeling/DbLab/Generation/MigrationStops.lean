import DbLab.Generation.CutoverAgreement
import DbLab.Generation.Migration

/-!
# Migrations and cutovers that die

A migration keeps the bytes at the pathname of the log, and so does the cutover up to its rename. Whatever step of
the two is the last, the pathname has the log or the complete sentinel; with the sentinel, the log is at the retained
path and the target has its import (`migration_survives`).
-/

namespace DbLab.Generation

open Log

/-! ### What the steps keep -/

section KeepsLog

variable {allowed : Io → Prop} {fs fs' : FileSystem} {legacy : LegacyPath} {target : TargetPath} {bytes : Bytes}
  {path : Path} {ε α : Type} {lift : GenerationError → ε}

/-- The task leaves the file system as it is. -/
abbrev Still (x : Task FileSystem ε α) : Prop := Task.Steady (fun fs fs' => fs' = fs) x

theorem Still.same {x : Task FileSystem ε α} (h : Still x) (hstop : Task.Stops allowed x fs fs') : fs' = fs :=
  @Task.Steady.stops _ _ _ fs fs' x (fun fs fs' => fs' = fs) allowed (fun _ => rfl)
    (fun _ _ _ hxy hyz => hyz.trans hxy) h hstop

theorem still_inDirectory {x : DirTask α} (h : Quiet x) : Still (inDirectory lift path x) :=
  Task.Steady.mapError (Task.steady_zoom (fun fs d hd => by rw [hd, Function.update_eq_self]) h)

theorem still_done {r : Except ε α} : Still (Task.done r) := trivial

/-- The pathname of the log keeps its bytes. -/
def KeepsLog (legacy : LegacyPath) (bytes : Bytes) (fs fs' : FileSystem) : Prop :=
  (fs legacy.parent).find legacy.name = some (.regular bytes) →
    (fs' legacy.parent).find legacy.name = some (.regular bytes)

theorem KeepsLog.refl (fs : FileSystem) : KeepsLog legacy bytes fs fs := id

theorem KeepsLog.trans ⦃fs₁ fs₂ fs₃ : FileSystem⦄ (h : KeepsLog legacy bytes fs₁ fs₂) (h' : KeepsLog legacy bytes fs₂ fs₃) :
    KeepsLog legacy bytes fs₁ fs₃ := h' ∘ h

/-- The steps of the task keep the bytes. -/
abbrev Keeping (legacy : LegacyPath) (bytes : Bytes) (x : Task FileSystem ε α) : Prop :=
  Task.Steady (KeepsLog legacy bytes) x

theorem Still.keeping {x : Task FileSystem ε α} (h : Still x) : Keeping legacy bytes x :=
  Task.Steady.mono h fun fs fs' heq => by
    rw [heq]
    exact .refl fs

theorem Keeping.keeps {x : Task FileSystem ε α} (h : Keeping legacy bytes x) (hstop : Task.Stops allowed x fs fs') :
    KeepsLog legacy bytes fs fs' :=
  Task.Steady.stops KeepsLog.refl KeepsLog.trans h hstop

/-- A task in another directory. -/
theorem keeping_elsewhere {x : DirTask α} (hne : path ≠ legacy.parent) :
    Keeping legacy bytes (inDirectory lift path x) := by
  refine Task.Steady.mapError (Task.steady_zoom (fun fs d (_ : True) hlegacy => ?_) Task.steady_true)
  rw [Function.update_of_ne hne.symm]
  exact hlegacy

/-- A name keeps its entry. -/
def KeepsName (name : Name) (d d' : Directory) : Prop := d'.find name = d.find name

theorem KeepsName.refl {name : Name} (d : Directory) : KeepsName name d d := rfl

theorem Quiet.keepsName {name : Name} {x : DirTask α} (h : Quiet x) : Task.Steady (KeepsName name) x :=
  Task.Steady.mono h fun d d' heq => by
    rw [heq]
    exact .refl d

/-- A task in the directory of the log that does not touch its name. -/
theorem keeping_beside {x : DirTask α} (h : Task.Steady (KeepsName legacy.name) x) :
    Keeping legacy bytes (inDirectory lift legacy.parent x) := by
  refine Task.Steady.mapError (Task.steady_zoom (fun fs d hd hlegacy => ?_) h)
  rw [Function.update_self, hd]
  exact hlegacy

end KeepsLog

/-! ### The migration keeps the log -/

section Migrating

variable {allowed : Io → Prop} {fs fs' : FileSystem} {legacy : LegacyPath} {target : TargetPath} {bytes snapshot : Bytes}
  {captured : InspectionReport}

theorem quiet_inspectSnapshot : Quiet (inspectSnapshot snapshot) := quiet_reading.bind fun _ => quiet_done

theorem still_captureSource : Still (captureSource legacy) :=
  (still_inDirectory quiet_reading).bind fun _ => (still_inDirectory quiet_inspectAt).bind fun _ =>
    still_done.bind fun _ => (still_inDirectory quiet_reading).bind fun _ =>
    (still_inDirectory quiet_inspectSnapshot).bind fun _ => still_done.bind fun _ =>
    (still_inDirectory quiet_reading).bind fun _ => still_done.bind fun _ => still_done

theorem still_requireFreshTarget : Still (requireFreshTarget target) := still_inDirectory quiet_reading

/-- A new directory is not at the pathname, and its own entries are elsewhere. -/
theorem keeping_createDirectory (hne : target.path ≠ legacy.parent) : Keeping legacy bytes (createDirectory target) := by
  refine Task.Steady.act fun fs io => ?_
  cases io with
  | failure written => exact .refl fs
  | success =>
    dsimp only
    split_ifs with hhas
    · exact .refl fs
    · intro hlegacy
      dsimp only
      rw [Function.update_of_ne hne.symm]
      by_cases hparent : legacy.parent = target.parent
      · have hname : legacy.name ≠ target.name := by
          intro heq
          rw [← hparent, ← heq, Directory.Has, hlegacy] at hhas
          exact hhas rfl
        rw [← hparent, Function.update_self, Directory.find_insert, if_neg hname]
        exact hlegacy
      · rw [Function.update_of_ne hparent]
        exact hlegacy

theorem keeping_makeTarget (hne : target.path ≠ legacy.parent) : Keeping legacy bytes (makeTarget target) :=
  still_requireFreshTarget.keeping.bind fun _ => (keeping_createDirectory hne).bind fun _ =>
    (keeping_elsewhere hne).bind fun _ => Task.Steady.mapError (still_inDirectory quiet_reading).keeping

theorem keeping_importSnapshot (hne : target.path ≠ legacy.parent) :
    Keeping legacy bytes (importSnapshot legacy target captured snapshot) := by
  have hmatches : Keeping legacy bytes (beside legacy (sourceMatchesSnapshot legacy snapshot)) :=
    (still_inDirectory quiet_reading).keeping
  unfold importSnapshot
  refine (keeping_elsewhere hne).bind fun _ => (keeping_elsewhere hne).bind fun _ => hmatches.bind fun _ =>
    still_done.keeping.bind fun _ => (keeping_elsewhere hne).bind fun _ => still_done.keeping.bind fun _ => ?_
  exact (keeping_elsewhere hne).bind fun _ => (keeping_elsewhere hne).bind fun _ => still_done.keeping.bind fun _ =>
    (keeping_elsewhere hne).bind fun _ => still_done.keeping.bind fun _ => hmatches.bind fun _ =>
    still_done.keeping.bind fun _ => still_done.keeping

/-- The directory of the log is no fresh target. -/
theorem ne_of_requireFreshTarget (hs : allowed .success) {u : Unit} (hlisted : fs.Listed)
    (hlegacy : (fs legacy.parent).find legacy.name = some (.regular bytes))
    (h : Task.Runs allowed (requireFreshTarget target) fs (.ok u) fs') : target.path ≠ legacy.parent := by
  intro heq
  have hquiet : Quiet (requireAbsent "migration target" target.name) := quiet_reading
  obtain ⟨hrun, -⟩ := (runs_inDirectory_quiet hquiet).1 h
  obtain ⟨habsent, -⟩ := (runs_requireAbsent hs).1 hrun
  refine habsent (hlisted target ⟨legacy.name, ?_⟩)
  rw [heq, Directory.Has, hlegacy]
  rfl

/-- **A migration that dies** has left the log as it was. -/
theorem migrate_stops (hs : allowed .success) (hlisted : fs.Listed)
    (hlegacy : (fs legacy.parent).find legacy.name = some (.regular bytes))
    (h : Task.Stops allowed (migrateLegacyAppendLog legacy target) fs fs') :
    (fs' legacy.parent).find legacy.name = some (.regular bytes) := by
  by_cases hne : target.path = legacy.parent
  · have hfresh : ∀ {u : Unit} {fs₂ : FileSystem}, ¬ Task.Runs allowed (requireFreshTarget target) fs (.ok u) fs₂ :=
      fun hrun => ne_of_requireFreshTarget hs hlisted hlegacy hrun hne
    have hmake : ∀ {fs₂ : FileSystem}, Task.Stops allowed (makeTarget target) fs fs₂ → fs₂ = fs := by
      intro fs₂ hstop
      rcases Task.stops_bind hstop with h | ⟨_, _, hrun, -⟩
      · exact still_requireFreshTarget.same h
      · exact absurd hrun hfresh
    rcases Task.stops_bind h with h | ⟨_, fs₁, hrun, h⟩
    · rwa [still_captureSource.same h]
    rw [still_captureSource.same hrun.stops] at h
    rcases Task.stops_bind h with h | ⟨_, _, hrun, -⟩
    · rwa [hmake h]
    · obtain ⟨_, _, hfirst, -⟩ := runs_then.1 hrun
      exact absurd hfirst hfresh
  · refine Keeping.keeps ?_ h hlegacy
    exact still_captureSource.keeping.bind fun _ => (keeping_makeTarget hne).bind fun _ => keeping_importSnapshot hne

/-- A migration that returns has made another directory. -/
theorem ne_of_migrate (hs : allowed .success) {summary : LegacyMigrationSummary} (hlisted : fs.Listed)
    (hlegacy : (fs legacy.parent).find legacy.name = some (.regular bytes))
    (h : Task.Runs allowed (migrateLegacyAppendLog legacy target) fs (.ok summary) fs') : target.path ≠ legacy.parent := by
  obtain ⟨_, fs₁, hcapture, h⟩ := runs_then.1 h
  obtain ⟨_, _, hmake, -⟩ := runs_then.1 h
  obtain ⟨_, _, hfresh, -⟩ := runs_then.1 hmake
  rw [still_captureSource.same hcapture.stops] at hfresh
  exact ne_of_requireFreshTarget hs hlisted hlegacy hfresh

end Migrating

/-! ### The cutover keeps the log or retires it -/

section Retiring

variable {allowed : Io → Prop} {fs fs' : FileSystem} {legacy : LegacyPath} {bytes snapshot sentinel : Bytes}
  {path : Path} {name source : Name} {ε α : Type} {lift : GenerationError → ε}

theorem LegacyPath.retained_ne (legacy : LegacyPath) : legacy.name ≠ legacy.retained := by
  intro heq
  have hlen := congrArg List.length heq
  simp [LegacyPath.retained, retainedSuffix] at hlen

theorem LegacyPath.staging_ne (legacy : LegacyPath) : legacy.name ≠ legacy.staging := by
  intro heq
  have hlen := congrArg List.length heq
  simp [LegacyPath.staging, stagingSuffix] at hlen

theorem LegacyPath.staging_ne_retained (legacy : LegacyPath) : legacy.staging ≠ legacy.retained := by
  intro heq
  exact absurd (List.append_cancel_left heq) (by decide)

/-- A change under another name. -/
theorem keepsName_permits (hne : legacy.name ≠ name) : Permits (KeepsName legacy.name) name where
  refl := KeepsName.refl
  insert := fun _ _ => Directory.find_insert.trans (if_neg hne)
  remove := fun _ => Directory.find_remove.trans (if_neg hne)

theorem keeping_createNewFile (hne : legacy.name ≠ name) :
    Keeping legacy bytes (inDirectory lift legacy.parent (createNewFile name)) :=
  keeping_beside (keepsName_permits hne).createNewFile

theorem keeping_hardLink (hne : legacy.name ≠ name) :
    Keeping legacy bytes (inDirectory lift legacy.parent (hardLink source name)) :=
  keeping_beside (keepsName_permits hne).hardLink

theorem keeping_writeAll (hne : legacy.name ≠ name) {content : Bytes} :
    Keeping legacy bytes (inDirectory lift legacy.parent (writeAll name content)) :=
  keeping_beside (keepsName_permits hne).writeAll

theorem keeping_cleanup {made : List Name} (hmade : ∀ name ∈ made, legacy.name ≠ name) :
    Keeping legacy bytes (inDirectory lift legacy.parent (cleanupPreCutover made)) := by
  refine keeping_beside ?_
  induction made with
  | nil => exact (Task.Steady.attempt quiet_reading.keepsName).bind fun _ => trivial
  | cons name names ih =>
    obtain ⟨hne, hrest⟩ := List.forall_mem_cons.1 hmade
    refine Task.Steady.bind ?_ fun _ => ih hrest
    refine (Task.Steady.attempt (keepsName_permits hne).removeFile).bind fun r => ?_
    split <;> trivial

theorem keeping_requireSnapshot {made : List Name} (hmade : ∀ name ∈ made, legacy.name ≠ name) :
    Keeping legacy bytes (requireSnapshot legacy snapshot made) := by
  have hmatches : Quiet (sourceMatchesSnapshot legacy snapshot) := quiet_reading
  refine (still_inDirectory hmatches).keeping.bind fun same => ?_
  split
  · exact still_done.keeping
  · exact (keeping_cleanup hmade).bind fun _ => still_done.keeping

theorem runs_requireSnapshot {made : List Name} {u : Unit}
    (h : Task.Runs allowed (requireSnapshot legacy snapshot made) fs (.ok u) fs') : fs' = fs := by
  have hmatches : Quiet (sourceMatchesSnapshot legacy snapshot) := quiet_reading
  obtain ⟨same, -, h⟩ := (runs_quiet hmatches).1 h
  split at h
  · exact (runs_value.1 h).2
  · obtain ⟨_, _, -, h⟩ := runs_then.1 h
    obtain ⟨herror, -⟩ := Task.runs_done.1 h
    cases herror

/-- Where a task in a directory dies. -/
theorem stops_inDirectory {x : DirTask α} (h : Task.Stops allowed (inDirectory lift path x) fs fs') :
    ∃ d', Task.Stops allowed x (fs path) d' ∧ fs' = Function.update fs path d' :=
  Task.stops_zoom (fun s => Function.update_eq_self path s) (fun t s => Function.update_self path t s)
    (fun t t' s => Function.update_idem t t' s) (Task.stops_mapError h)

/-- The sentinel is at the pathname, and the log at the retained path. -/
structure Replaced (legacy : LegacyPath) (bytes sentinel : Bytes) (fs : FileSystem) : Prop where
  sentinel_at : (fs legacy.parent).find legacy.name = some (.regular sentinel)
  retained_at : (fs legacy.parent).find legacy.retained = some (.regular bytes)

/-- The rename replaces the log by the sentinel at once. -/
theorem stops_rename (hlegacy : (fs legacy.parent).find legacy.name = some (.regular bytes))
    (hretained : (fs legacy.parent).find legacy.retained = some (.regular bytes))
    (hstaging : (fs legacy.parent).find legacy.staging = some (.regular sentinel))
    (h : Task.Stops allowed (inLegacy legacy (rename legacy.staging legacy.name)) fs fs') :
    (fs' legacy.parent).find legacy.name = some (.regular bytes) ∨ Replaced legacy bytes sentinel fs' := by
  obtain ⟨d', hstop, rfl⟩ := stops_inDirectory h
  rcases stops_changing hstop with rfl | hrenamed
  · rw [Function.update_eq_self]
    exact .inl hlegacy
  · rw [hstaging] at hrenamed
    obtain rfl := Except.ok.inj hrenamed
    refine .inr ⟨?_, ?_⟩
    · rw [Function.update_self, Directory.find_insert, if_pos rfl]
    · rw [Function.update_self, Directory.find_insert, if_neg legacy.retained_ne.symm, Directory.find_remove,
        if_neg legacy.staging_ne_retained.symm]
      exact hretained

/-- **The replacement** has the log at the pathname, or the sentinel there and the log at the retained path. -/
theorem replacePathname_stops (hs : allowed .success)
    (hlegacy : (fs legacy.parent).find legacy.name = some (.regular bytes))
    (h : Task.Stops allowed (replacePathname legacy snapshot sentinel) fs fs') :
    (fs' legacy.parent).find legacy.name = some (.regular bytes) ∨ Replaced legacy bytes sentinel fs' := by
  have hquiet : ∀ {fs₁ fs₂ : FileSystem}, Task.Stops allowed (inLegacy legacy sync) fs₁ fs₂ → fs₂ = fs₁ :=
    fun hstop => (still_inDirectory quiet_reading).same hstop
  have hone : ∀ name ∈ [legacy.staging], legacy.name ≠ name := by
    simpa using legacy.staging_ne
  have htwo : ∀ name ∈ [legacy.staging, legacy.retained], legacy.name ≠ name := by
    simpa using And.intro legacy.staging_ne legacy.retained_ne
  unfold replacePathname at h
  -- The staging file gets the bytes of the sentinel.
  rcases (keeping_createNewFile legacy.staging_ne).stops_bind KeepsLog.refl KeepsLog.trans h with
    hkeeps | ⟨_, fs₁, hcreate, hkeeps, h⟩
  · exact .inl (hkeeps hlegacy)
  replace hlegacy := hkeeps hlegacy
  rcases (keeping_writeAll legacy.staging_ne).stops_bind KeepsLog.refl KeepsLog.trans h with
    hkeeps | ⟨_, fs₂, hwrite, hkeeps, h⟩
  · exact .inl (hkeeps hlegacy)
  replace hlegacy := hkeeps hlegacy
  have hstaging : (fs₂ legacy.parent).find legacy.staging = some (.regular sentinel) := by
    obtain ⟨d₁, hrun₁, rfl⟩ := runs_inDirectory.1 hcreate
    obtain ⟨d₂, hrun₂, rfl⟩ := runs_inDirectory.1 hwrite
    obtain ⟨-, rfl⟩ := (runs_createNewFile hs).1 hrun₁
    rw [runs_writeAll hs, Function.update_self, appendTo_insert, List.nil_append] at hrun₂
    rw [Function.update_self, hrun₂, Directory.find_insert, if_pos rfl]
  rcases Task.stops_bind h with h | ⟨_, fs₃, hrun, h⟩
  · rw [hquiet h]
    exact .inl hlegacy
  rw [hquiet hrun.stops] at h
  rcases (keeping_requireSnapshot hone).stops_bind KeepsLog.refl KeepsLog.trans h with hkeeps | ⟨_, fs₄, hrun, -, h⟩
  · exact .inl (hkeeps hlegacy)
  rw [runs_requireSnapshot hrun] at h
  rcases Task.stops_bind h with h | ⟨_, fs₅, hrun, h⟩
  · rw [hquiet h]
    exact .inl hlegacy
  rw [hquiet hrun.stops] at h
  -- The log gets its second name.
  rcases (keeping_hardLink legacy.retained_ne).stops_bind KeepsLog.refl KeepsLog.trans h with
    hkeeps | ⟨_, fs₆, hlink, hkeeps, h⟩
  · exact .inl (hkeeps hlegacy)
  obtain ⟨d₆, hrun₆, hfs₆⟩ := runs_inDirectory.1 hlink
  obtain ⟨entry, hentry, -, hd₆⟩ := (runs_hardLink hs).1 hrun₆
  obtain rfl : Entry.regular bytes = entry := Option.some.inj (hlegacy.symm.trans hentry)
  have hbeside : fs₆ legacy.parent = (fs₂ legacy.parent).insert legacy.retained (.regular bytes) := by
    rw [hfs₆, Function.update_self, hd₆]
  have hretained : (fs₆ legacy.parent).find legacy.retained = some (.regular bytes) := by
    rw [hbeside, Directory.find_insert, if_pos rfl]
  replace hstaging : (fs₆ legacy.parent).find legacy.staging = some (.regular sentinel) := by
    rw [hbeside, Directory.find_insert, if_neg legacy.staging_ne_retained]
    exact hstaging
  replace hlegacy := hkeeps hlegacy
  rcases Task.stops_bind h with h | ⟨_, fs₇, hrun, h⟩
  · rw [hquiet h]
    exact .inl hlegacy
  rw [hquiet hrun.stops] at h
  rcases (keeping_requireSnapshot htwo).stops_bind KeepsLog.refl KeepsLog.trans h with hkeeps | ⟨_, fs₈, hrun, -, h⟩
  · exact .inl (hkeeps hlegacy)
  rw [runs_requireSnapshot hrun] at h
  -- The rename is the step from the one to the other.
  rcases Task.stops_bind h with h | ⟨_, fs₉, hrun, h⟩
  · exact stops_rename hlegacy hretained hstaging h
  · have hsync : Still (Task.mapError (fun _ => LegacyCutoverError.cutoverDurabilityUncertain (legacy.display legacy.name))
        (inLegacy legacy sync)) := Task.Steady.mapError (still_inDirectory quiet_reading)
    rw [hsync.same h]
    exact stops_rename hlegacy hretained hstaging hrun.stops

/-! ### What the cutover leaves, wherever it dies -/

theorem still_validateFreshImportTarget {source : InspectionReport} {summary : GenerationVerificationSummary} :
    Still (validateFreshImportTarget source summary) :=
  still_done.bind fun _ => still_done.bind fun _ => still_done

theorem still_checkImport : Still (checkImport legacy path) :=
  (still_inDirectory quiet_reading).bind fun _ => (still_inDirectory quiet_inspectAt).bind fun _ =>
    still_done.bind fun _ => (still_inDirectory quiet_reading).bind fun _ => (still_inDirectory quiet_done).bind fun _ =>
    still_done.bind fun _ => (still_inDirectory quiet_reading).bind fun _ => still_done.bind fun _ =>
    (still_inDirectory quiet_acquireLease).bind fun _ => (still_inDirectory quiet_verify).bind fun _ =>
    still_validateFreshImportTarget.bind fun _ => (still_inDirectory quiet_inspectAt).bind fun _ =>
    still_done.bind fun _ => still_done

theorem still_checkPaths : Still (checkPaths legacy path) := still_done.bind fun _ => still_done

theorem still_confirmCutover {found : Import} : Still (confirmCutover legacy path found sentinel) :=
  (still_inDirectory quiet_reading).bind fun _ => still_done.bind fun _ => (still_inDirectory quiet_reading).bind fun _ =>
    still_done.bind fun _ => (still_inDirectory quiet_verify).bind fun _ => still_validateFreshImportTarget.bind fun _ =>
    (still_inDirectory quiet_inspectAt).bind fun _ => still_done.bind fun _ => still_done

/-- The log is retired: the sentinel is at the pathname, the log at the retained path, and the target verifies with
its first generation as the authority and the live state of the log. -/
structure Retired (json : SentinelJson) (legacy : LegacyPath) (target : Path) (bytes : Bytes) (fs : FileSystem) : Prop where
  replaced : Replaced legacy bytes (json.toVecPretty (sentinelOf legacy target)) fs
  imported : ∃ s file original copy, verifyGenerationDirectory.run (fs target) = (.ok s, fs target) ∧
    s.authoritativeGeneration = importGeneration ∧ (fs target).find s.authoritativeLog = some (.regular file) ∧
    inspectLog bytes = .ok original ∧ inspectLog file = .ok copy ∧ copy.entries = original.entries

/-- **A cutover that dies** has left the log as it was, or has retired it. -/
theorem cutover_stops (hs : allowed .success) {json : SentinelJson} (hne : path ≠ legacy.parent)
    (hlegacy : (fs legacy.parent).find legacy.name = some (.regular bytes))
    (hstop : Task.Stops allowed (cutoverMigratedLegacyAppendLog legacy path json) fs fs') :
    (fs' legacy.parent).find legacy.name = some (.regular bytes) ∨ Retired json legacy path bytes fs' := by
  have habsent : ∀ {label name} {fs₁ fs₂ : FileSystem},
      Task.Stops allowed (inLegacy legacy (requireAbsent label name)) fs₁ fs₂ → fs₂ = fs₁ := by
    intro label name fs₁ fs₂ hstop
    have hquiet : Quiet (requireAbsent label name) := quiet_reading
    exact (still_inDirectory hquiet).same hstop
  unfold cutoverMigratedLegacyAppendLog at hstop
  rcases Task.stops_bind hstop with h | ⟨found, fs₁, hcheck, hrest⟩
  · rw [still_checkImport.same h]
    exact .inl hlegacy
  obtain ⟨rfl, hchecked⟩ := runs_checkImport hs hcheck
  obtain rfl : bytes = found.snapshot := Entry.regular.inj (Option.some.inj (hlegacy.symm.trans hchecked.snapshot_at))
  rcases Task.stops_bind hrest with h | ⟨_, fs₂, hrun, hrest⟩
  · rw [habsent h]
    exact .inl hlegacy
  rw [habsent hrun.stops] at hrest
  rcases Task.stops_bind hrest with h | ⟨_, fs₃, hrun, hrest⟩
  · rw [habsent h]
    exact .inl hlegacy
  rw [habsent hrun.stops] at hrest
  rcases Task.stops_bind hrest with h | ⟨_, fs₄, hrun, hrest⟩
  · rw [still_checkPaths.same h]
    exact .inl hlegacy
  rw [still_checkPaths.same hrun.stops] at hrest
  -- The target stays as it was checked.
  have hreplace : ∀ {fs₅ : FileSystem}, Task.Stops allowed (replacePathname legacy found.snapshot
      (json.toVecPretty (sentinelOf legacy path))) fs₁ fs₅ →
      (fs₅ legacy.parent).find legacy.name = some (.regular found.snapshot) ∨
        Retired json legacy path found.snapshot fs₅ := by
    intro fs₅ hstop
    refine (replacePathname_stops hs hlegacy hstop).imp_right fun hreplaced => ⟨hreplaced, ?_⟩
    have hsame := (untouched_replacePathname hne).stops Untouched.refl Untouched.trans hstop
    rw [Untouched] at hsame
    obtain ⟨s, hverified, hauthority, file, hfile, hinspect⟩ := hchecked.verified
    rw [hsame]
    exact ⟨s, file, _, _, hverified, hauthority, hfile, hchecked.snapshot, hinspect, hchecked.entries⟩
  rcases Task.stops_bind hrest with h | ⟨_, fs₅, hrun, hrest⟩
  · exact hreplace h
  have hconfirm : fs' = fs₅ := by
    rcases Task.stops_bind hrest with h | ⟨_, fs₆, hrun₆, h⟩
    · exact still_confirmCutover.same h
    · rw [Task.stops_done h, still_confirmCutover.same hrun₆.stops]
  rw [hconfirm]
  exact hreplace hrun.stops

/-- An empty legacy log in a directory beside the root. -/
def legacyOnly : FileSystem := fun path =>
  if path = importedLegacy.parent then Directory.empty.insert importedLegacy.name (.regular encodeFileHeader)
  else if path = [] then Directory.empty.insert ['l'] .other
  else Directory.empty

def freshTarget : TargetPath := ⟨[], ['g']⟩

theorem legacyOnly_listed : legacyOnly.Listed := by
  rintro ⟨parent, name⟩ ⟨entry, hhas⟩
  unfold legacyOnly TargetPath.path at hhas
  split_ifs at hhas with hlegacy hroot
  · rcases parent with _ | ⟨c, _ | ⟨c', parent⟩⟩
    · obtain rfl : name = ['l'] := (List.cons.inj hlegacy).2
      decide
    · simp [importedLegacy] at hlegacy
    · simp [importedLegacy] at hlegacy
  · simp at hroot
  · simp [Directory.Has, Directory.empty, Directory.find, lookupBy] at hhas

end Retiring

end DbLab.Generation
