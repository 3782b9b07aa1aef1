import DbLab.Generation.SwitchRecovery

/-!
# The lifecycle of a generation directory

A reservation is one more file, and it is made before the directory is verified again. A directory that has room
for it is still verified behind the call, whatever the call returns; in a directory with as many entries as the
scan accepts, the call leaves one entry too many, and nothing verifies the directory from then on.
-/

namespace DbLab.Task

variable {σ ε α β : Type} {allowed allowed' : Io → Prop} {t : Task σ ε α} {f : α → Task σ ε β} {s s₁ s' : σ} {a : α}
  {r : Except ε β} {r' : Except ε α}

/-- Runs in sequence. -/
theorem Runs.seq (h : Runs allowed t s (.ok a) s₁) (hf : Runs allowed (f a) s₁ r s') :
    Runs allowed (t >>= f) s r s' := by
  induction t generalizing s with
  | done result =>
    obtain ⟨rfl, rfl⟩ := runs_done.1 h
    exact hf
  | step act next ih =>
    rcases h with _ | ⟨io, hio, h⟩
    exact .step io hio (ih _ h)

theorem Runs.mono (hallowed : ∀ io, allowed io → allowed' io) (h : Runs allowed t s r' s') : Runs allowed' t s r' s' := by
  induction t generalizing s with
  | done result =>
    obtain ⟨rfl, rfl⟩ := runs_done.1 h
    exact .done
  | step act next ih =>
    rcases h with _ | ⟨io, hio, h⟩
    exact .step io (hallowed io hio) (ih _ h)

end DbLab.Task

namespace DbLab.Generation

open Log

variable {allowed : Io → Prop} {d d' : Directory} {s : GenerationVerificationSummary} {ns : GenerationNamespace}
  {markerFile log : Bytes} {marker : CommitMarker}

/-- A verification accepts the directory. -/
def Accepted (d : Directory) : Prop := ∃ s, verifyGenerationDirectory.run d = (.ok s, d)

/-- Every call of `reserve_next_generation`, under any outcomes of its steps, leaves a directory that is verified with
the same authority. -/
def ReserveCloses (d : Directory) (s : GenerationVerificationSummary) : Prop :=
  ∀ r d', Task.Runs (fun _ => True) reserveNextGeneration d r d' →
    ∃ s', verifyGenerationDirectory.run d' = (.ok s', d') ∧ s'.authoritativeGeneration = s.authoritativeGeneration

theorem exists_verifies (h : verifyGenerationDirectory.run d = (.ok s, d)) :
    ∃ ns markerFile log marker, Verifies d s ns markerFile log marker :=
  ((@runs_verifyGenerationDirectory (fun io => io = .success) rfl d d s).1 (Task.run_eq_iff.1 h)).2

theorem Accepted.length_le (h : Accepted d) : d.entries.length ≤ maxDirectoryEntries := by
  obtain ⟨s, hrun⟩ := h
  obtain ⟨ns, markerFile, log, marker, hv⟩ := exists_verifies hrun
  exact (scan_isOk.1 ⟨ns, hv.scanned⟩).1

theorem accepted_of_runs (hs : allowed .success) (h : Task.Runs allowed verifyGenerationDirectory d (.ok s) d') :
    Accepted d' := by
  obtain ⟨rfl, ns, markerFile, log, marker, hv⟩ := (runs_verifyGenerationDirectory hs).1 h
  exact ⟨s, hv.run⟩

/-! ### One reservation -/

section Reserve

variable (hv : Verifies d s ns markerFile log marker)

include hv

/-- The reservation file does not disturb the verification, as long as there is room for it. -/
theorem Verifies.reserved (hlt : s.highestObservedGeneration + 1 < u64Limit)
    (habsent : ¬ d.Has (canonicalReservationName (s.highestObservedGeneration + 1)))
    (hroom : d.entries.length < maxDirectoryEntries) :
    ∃ s', verifyGenerationDirectory.run
        (d.insert (canonicalReservationName (s.highestObservedGeneration + 1)) (.regular [])) =
        (.ok s', d.insert (canonicalReservationName (s.highestObservedGeneration + 1)) (.regular [])) ∧
      s'.authoritativeGeneration = s.authoritativeGeneration := by
  have haside : Aside (s.highestObservedGeneration + 1) d
      (d.insert (canonicalReservationName (s.highestObservedGeneration + 1)) (.regular [])) :=
    ⟨fun name hne _ => by rw [Directory.find_insert, if_neg hne], .inr (by rw [Directory.find_insert, if_pos rfl])⟩
  obtain ⟨ns', hscan'⟩ : ∃ ns', scanGenerationNamespace
      (d.insert (canonicalReservationName (s.highestObservedGeneration + 1)) (.regular [])) = .ok ns' := by
    refine scan_isOk.2 ⟨?_, fun name entry hfind => ?_⟩
    · rw [Directory.length_insert, if_neg habsent]
      exact hroom
    · rw [Directory.find_insert] at hfind
      by_cases hname : name = canonicalReservationName (s.highestObservedGeneration + 1)
      · rw [if_pos hname, Option.some.injEq] at hfind
        exact ⟨.reservation, _, hname, Nat.succ_pos _, hlt, fun _ => hfind.symm⟩
      · rw [if_neg hname] at hfind
        exact (scan_isOk.1 ⟨ns, hv.scanned⟩).2 name entry hfind
  obtain ⟨s', hv', hauth⟩ := haside.verifies hlt hv (Nat.lt_succ_self _) hscan'
  exact ⟨s', hv'.run, hauth⟩

/-- **With room for one more entry** every call leaves the directory verified. -/
theorem Verifies.reserveCloses (hroom : d.entries.length < maxDirectoryEntries) : ReserveCloses d s := by
  intro r d' hrun
  rcases reserve_stops trivial hv hrun.stops with rfl | ⟨hlt, habsent, rfl⟩
  · exact ⟨s, hv.run, rfl⟩
  · exact hv.reserved hlt habsent hroom

/-- A call that nothing disturbs makes the reservation file, whatever it returns. -/
theorem Verifies.exists_runs_reserve (hlt : s.highestObservedGeneration + 1 < u64Limit) :
    ∃ r, Task.Runs (fun _ => True) reserveNextGeneration d r
      (d.insert (canonicalReservationName (s.highestObservedGeneration + 1)) (.regular [])) := by
  have habsent : ¬ d.Has (canonicalReservationName (s.highestObservedGeneration + 1)) :=
    hv.not_has_above (Nat.lt_succ_self _) hlt
  have hlease : Task.Runs (fun _ => True) acquireLease d (.ok ()) d := Task.runs_act.2 ⟨.success, trivial, rfl⟩
  have hverify : Task.Runs (fun _ => True) verifyGenerationDirectory d (.ok s) d :=
    (runs_verifyGenerationDirectory trivial).2 ⟨rfl, ns, markerFile, log, marker, hv⟩
  have hnext : nextGenerationId s = .ok (s.highestObservedGeneration + 1) := by
    rw [nextGenerationId, if_pos hlt]
  -- The rest only looks at the directory.
  have hquiet : Quiet (retainedSummary (s.highestObservedGeneration + 1)) :=
    quiet_verify.bind fun _ => quiet_done.bind fun _ => quiet_done
  obtain ⟨r, d', hrest⟩ : ∃ r d', (retainedSummary (s.highestObservedGeneration + 1)).run
      (d.insert (canonicalReservationName (s.highestObservedGeneration + 1)) (.regular [])) = (r, d') := ⟨_, _, rfl⟩
  have hruns := (Task.run_eq_iff.1 hrest).mono fun _ _ => (trivial : True)
  obtain rfl := hquiet.same hruns.stops
  have hcreate : Task.Runs (fun _ => True)
      (createNewFile (canonicalReservationName (s.highestObservedGeneration + 1))) d (.ok ()) _ :=
    (runs_createNewFile trivial).2 ⟨habsent, rfl⟩
  have hsync : ∀ D : Directory, Task.Runs (fun _ => True) sync D (.ok ()) D := fun _ => (runs_sync trivial).2 rfl
  have hmapped : ∀ D : Directory, Task.Runs (fun _ => True)
      (Task.mapError (fun _ => .durabilityUncertain) sync : DirTask Unit) D (.ok ()) D :=
    fun D => Task.runs_mapError_ok.2 (hsync D)
  exact ⟨r, hlease.seq (hverify.seq (Task.Runs.seq (runs_ofExcept.2 ⟨hnext, rfl⟩)
    (hcreate.seq ((hsync _).seq ((hmapped _).seq hruns)))))⟩

/-- **The condition is exact.** -/
theorem Verifies.reserveCloses_iff (hlt : s.highestObservedGeneration + 1 < u64Limit) :
    ReserveCloses d s ↔ d.entries.length < maxDirectoryEntries := by
  refine ⟨fun hcloses => ?_, hv.reserveCloses⟩
  obtain ⟨r, hrun⟩ := hv.exists_runs_reserve hlt
  obtain ⟨s', hrun', -⟩ := hcloses r _ hrun
  have hle := Accepted.length_le ⟨s', hrun'⟩
  have habsent : ¬ d.Has (canonicalReservationName (s.highestObservedGeneration + 1)) :=
    hv.not_has_above (Nat.lt_succ_self _) hlt
  rwa [Directory.length_insert, if_neg habsent] at hle

end Reserve

/-! ### Any number of cycles -/

/-- A completed call leaves a directory that is verified. -/
def Closes {α : Type} (t : DirTask α) : Prop :=
  ∀ d a d', Task.Runs (fun _ => True) t d (.ok a) d' → Accepted d'

section Closes

variable {α β : Type} {t : DirTask α} {f : α → DirTask β}

theorem closes_verify : Closes verifyGenerationDirectory := fun _ _ _ hrun => accepted_of_runs trivial hrun

theorem Closes.last (h : ∀ a, Closes (f a)) : Closes (t >>= f) := by
  intro d b d' hrun
  obtain ⟨a, d₁, -, hrest⟩ := runs_bind.1 hrun
  exact h a d₁ b d' hrest

/-- What looks at the directory afterwards leaves it verified. -/
theorem Closes.quiet (h : Closes t) (hquiet : ∀ a, Quiet (f a)) : Closes (t >>= f) := by
  intro d b d' hrun
  obtain ⟨a, d₁, hfirst, hrest⟩ := runs_bind.1 hrun
  obtain rfl := (hquiet a).same hrest.stops
  exact h d a d' hfirst

end Closes

theorem closes_requireSameAuthority {expected : AuthorityWitness} : Closes (requireSameAuthority expected) :=
  closes_verify.quiet fun _ => quiet_done.bind fun _ => quiet_done

theorem closes_verifyExpectedAuthority {expected : ℕ} : Closes (verifyExpectedAuthority expected) :=
  closes_verify.quiet fun _ => quiet_done.bind fun _ => quiet_done

theorem closes_compactSwitchGenerationOffline : Closes compactSwitchGenerationOffline := by
  refine .last fun _ => .last fun _ => .last fun _ => .last fun _ => .last fun _ => .last fun _ => .last fun _ =>
    .last fun _ => .last fun _ => .last fun _ => .last fun _ => .last fun _ => ?_
  exact closes_verify.quiet fun _ => quiet_done.bind fun _ => quiet_inspectAt.bind fun _ => quiet_done.bind fun _ =>
    quiet_done

theorem closes_cleanupObsoleteGenerations : Closes cleanupObsoleteGenerations := by
  refine .last fun _ => .last fun _ => .last fun _ => .last fun _ => .last fun _ => .last fun _ => .last fun _ =>
    .last fun _ => .last fun _ => .last fun _ => .last fun _ => .last fun _ => .last fun _ => ?_
  exact closes_requireSameAuthority.quiet fun _ => quiet_reading.bind fun _ => quiet_done

theorem closes_retireGenerationOrphan {generation authority : ℕ} {orphan : Fingerprint}
    {staging : Option Fingerprint} {confirmed : Bool} :
    Closes (retireGenerationOrphan generation authority orphan staging confirmed) := by
  refine .last fun _ => .last fun _ => .last fun _ => .last fun _ => .last fun _ => .last fun _ => .last fun _ =>
    .last fun _ => .last fun _ => .last fun _ => .last fun _ => .last fun _ => .last fun _ => .last fun _ =>
    .last fun _ => .last fun _ => .last fun _ => .last fun _ => .last fun _ => .last fun _ => ?_
  exact closes_verifyExpectedAuthority.quiet fun _ => quiet_reading.bind fun _ => quiet_done.bind fun _ =>
    quiet_done.bind fun _ => quiet_done.bind fun _ => quiet_done

/-- The directories behind any number of steps: calls of `reserve_next_generation` with room for one more entry,
whatever they return, and completed compact switches, cleanups and retirements of orphans. -/
inductive Cycles : Directory → Directory → Prop
  | refl {d : Directory} : Cycles d d
  | reserve {d d₁ d₂ : Directory} {r : Except GenerationError GenerationReservationSummary} : Cycles d d₁ →
      d₁.entries.length < maxDirectoryEntries → Task.Runs (fun _ => True) reserveNextGeneration d₁ r d₂ → Cycles d d₂
  | switch {d d₁ d₂ : Directory} {summary : OfflineGenerationCompactSwitchSummary} : Cycles d d₁ →
      Task.Runs (fun _ => True) compactSwitchGenerationOffline d₁ (.ok summary) d₂ → Cycles d d₂
  | cleanup {d d₁ d₂ : Directory} {summary : GenerationCleanupSummary} : Cycles d d₁ →
      Task.Runs (fun _ => True) cleanupObsoleteGenerations d₁ (.ok summary) d₂ → Cycles d d₂
  | retire {d d₁ d₂ : Directory} {generation authority : ℕ} {orphan : Fingerprint} {staging : Option Fingerprint}
      {confirmed : Bool} {summary : GenerationOrphanRetirementSummary} : Cycles d d₁ →
      Task.Runs (fun _ => True) (retireGenerationOrphan generation authority orphan staging confirmed) d₁
        (.ok summary) d₂ → Cycles d d₂

/-- **Every run** keeps the directory verified. -/
theorem Accepted.cycles (haccepted : Accepted d) (h : Cycles d d') : Accepted d' := by
  induction h with
  | refl => exact haccepted
  | reserve _ hroom hrun ih =>
    obtain ⟨s, hs⟩ := ih
    obtain ⟨ns, markerFile, log, marker, hv⟩ := exists_verifies hs
    obtain ⟨s', hs', -⟩ := hv.reserveCloses hroom _ _ hrun
    exact ⟨s', hs'⟩
  | switch _ hrun => exact closes_compactSwitchGenerationOffline _ _ _ hrun
  | cleanup _ hrun => exact closes_cleanupObsoleteGenerations _ _ _ hrun
  | retire _ hrun => exact closes_retireGenerationOrphan _ _ _ hrun

/-- The first generation, committed next to `n` reservations. -/
def committedCrowd (n : ℕ) : Directory :=
  (crowded n).insert (canonicalMarkerName 1) (.regular (markerBytes 1 ⟨16, crc32 encodeFileHeader, 0, 1⟩))

theorem committedCrowd_eq {n : ℕ} (hn : n + 1 ≤ maxDirectoryEntries) :
    (withMarker (crowded n) 1 ⟨16, crc32 encodeFileHeader, 0, 1⟩).remove (canonicalStagingMarkerName 1) =
      committedCrowd n := by
  refine Directory.ext_find fun name => ?_
  have hstaging := Directory.not_has_iff.1 (runs_publish_crowded hn).1
  have hne : canonicalStagingMarkerName 1 ≠ canonicalMarkerName 1 :=
    names_ne (by decide) (by rw [u64Limit_eq]; decide)
  rw [Directory.find_remove, find_withMarker, committedCrowd, Directory.find_insert]
  by_cases hname : name = canonicalStagingMarkerName 1
  · rw [if_pos hname, hname, if_neg hne, hstaging]
  · simp [hname]

theorem committedCrowd_verifies {n : ℕ} (hn : n + 2 ≤ maxDirectoryEntries) :
    (committedCrowd n).entries.length = n + 2 ∧
      ∃ s, verifyGenerationDirectory.run (committedCrowd n) = (.ok s, committedCrowd n) ∧
        s.highestObservedGeneration ≤ n + 1 := by
  have hlimit : n + 2 < u64Limit := hn.trans_lt (by rw [u64Limit_eq]; decide)
  have hone : 1 < u64Limit := by omega
  obtain ⟨-, hrun⟩ := runs_publish_crowded (n := n) (by omega)
  rw [committedCrowd_eq (by omega)] at hrun
  obtain ⟨file, report, proof, h⟩ := publishes_of_runs trivial hone hrun
  obtain ⟨engine, ms, hopen, hfile, hholds⟩ := h.exists_engine
  have hlength : (committedCrowd n).entries.length = n + 2 := by
    rw [committedCrowd, Directory.length_insert, if_neg h.unmarked, length_crowded n (by omega)]
  obtain ⟨-, -, -, -, -, -, s, hverify, -, -⟩ :=
    h.verified_cut hone hfile hholds (hlength.trans_le hn) [] (n := file.length) le_rfl
  have hwhole : withLog (committedCrowd n) 1
      ((LogEngine.performAll [] engine).2.log.file.take file.length) = committedCrowd n := by
    have htake : (LogEngine.performAll [] engine).2.log.file.take file.length = file := by
      simp [LogEngine.performAll, hfile]
    rw [htake, h.withLog_self hone]
  rw [hwhole] at hverify
  refine ⟨hlength, s, hverify, ?_⟩
  obtain ⟨ns, markerFile, log, marker, hv⟩ := exists_verifies hverify
  have hle : ns.highestObservedGeneration ≤ ((n + 1 : ℕ) : WithBot ℕ) := by
    refine GenerationNamespace.highestObservedGeneration_le fun kind id hid => ?_
    obtain ⟨hhas, -, hid⟩ := (mem_files_of_scan hv.scanned).1 hid
    obtain ⟨entry, hfind⟩ := Option.isSome_iff_exists.1 hhas
    rw [committedCrowd, Directory.find_insert] at hfind
    have hid : id ≤ n + 1 := by
      split at hfind
      · obtain ⟨-, rfl⟩ := canonicalName_injective hid hone ‹_›
        omega
      · rcases find_crowded hfind with heq | ⟨k, hk, heq, -⟩
        · obtain ⟨-, rfl⟩ := canonicalName_injective hid hone heq
          omega
        · obtain ⟨-, rfl⟩ := canonicalName_injective hid (by omega) heq
          omega
    exact WithBot.coe_le_coe.2 hid
  rw [hv.highest] at hle
  exact WithBot.coe_le_coe.1 hle

end DbLab.Generation
