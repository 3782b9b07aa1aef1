import DbLab.Generation.SwitchStops

/-!
# The recovery behind a compact switch

The verification of the directory that a compact switch has left by dying. It selects the old generation or
the published one, with the live state that was there before, exactly when the copy's staging name is gone and
the directory is not too large: the scan knows neither that name nor more entries.
-/

namespace DbLab.Generation

open Log

variable {allowed : Io → Prop} {d d' : Directory} {s : GenerationVerificationSummary} {ns ns' : GenerationNamespace}
  {markerFile log : Bytes} {marker : CommitMarker} {n : ℕ} {name : Name}

/-- The live state of the log at a path. -/
def liveState (d : Directory) (path : Name) : Option Values :=
  match d.find path with
  | some (.regular file) => (inspectLog file).toOption.map InspectionReport.entries
  | _ => none

theorem liveState_of_inspect {file : Bytes} {report : InspectionReport}
    (hfind : d.find name = some (.regular file)) (hreport : inspectLog file = .ok report) :
    liveState d name = some report.entries := by
  rw [liveState, hfind]
  simp [hreport, Except.toOption]

theorem exists_inspectLog {file : Bytes} {report : VerificationReport} (h : verifyLog file = .ok report) :
    ∃ inspection, inspectLog file = .ok inspection := by
  obtain ⟨scan, hscan, -⟩ := verifyLog_eq_ok.1 h
  exact ⟨_, by simp [inspectLog, hscan]; rfl⟩

theorem runs_inspectAt (hs : allowed .success) {report : InspectionReport} :
    Task.Runs allowed (inspectAt name) d (.ok report) d' ↔
      d' = d ∧ ∃ file, d.find name = some (.regular file) ∧ inspectLog file = .ok report := by
  unfold inspectAt
  simp only [runs_bind, runs_readRegular hs, runs_ofExcept]
  constructor
  · rintro ⟨file, _, ⟨hfile, rfl⟩, hreport, rfl⟩
    exact ⟨rfl, file, hfile, hreport⟩
  · rintro ⟨rfl, file, hfile, hreport⟩
    exact ⟨file, _, ⟨hfile, rfl⟩, hreport, rfl⟩

/-! ### The verified directory -/

section Verified

variable (hv : Verifies d s ns markerFile log marker)

include hv

theorem Verifies.authority_mem : d.Has (canonicalMarkerName s.authoritativeGeneration) ∧
    0 < s.authoritativeGeneration ∧ s.authoritativeGeneration < u64Limit :=
  (mem_files_of_scan (k := .commit) hv.scanned).1 (Finset.mem_of_max hv.authority)

theorem Verifies.authority_le : s.authoritativeGeneration ≤ s.highestObservedGeneration := by
  obtain ⟨hhas, hvalid⟩ := hv.authority_mem
  exact le_highest_of_scan hv.scanned hv.highest ⟨.commit, _, le_rfl, hvalid, hhas⟩

theorem Verifies.not_has_above {kind : FileKind} {id : ℕ} (habove : s.highestObservedGeneration < id)
    (hlt : id < u64Limit) : ¬ d.Has (canonicalName kind id) := by
  intro hhas
  have hvalid : ValidId id := ⟨Nat.zero_lt_of_lt habove, hlt⟩
  exact absurd (le_highest_of_scan hv.scanned hv.highest ⟨kind, id, le_rfl, hvalid, hhas⟩) (not_le.2 habove)

theorem Verifies.exists_liveState : ∃ values, liveState d s.authoritativeLog = some values := by
  obtain ⟨inspection, hinspect⟩ := exists_inspectLog hv.log_ok
  have hfind := hv.log_at
  rw [← hv.authoritativeLog] at hfind
  exact ⟨_, liveState_of_inspect hfind hinspect⟩

/-- Two verifications of one directory find the same authority and the same ids. -/
theorem Verifies.unique {s₂ : GenerationVerificationSummary} {markerFile₂ log₂ : Bytes} {marker₂ : CommitMarker}
    (hv₂ : Verifies d s₂ ns' markerFile₂ log₂ marker₂) :
    s₂.authoritativeGeneration = s.authoritativeGeneration ∧
      s₂.highestObservedGeneration = s.highestObservedGeneration := by
  have hns : ns' = ns := Except.ok.inj (hv₂.scanned.symm.trans hv.scanned)
  subst hns
  exact ⟨Option.some.inj (hv₂.authority.symm.trans hv.authority),
    Option.some.inj (hv₂.highest.symm.trans hv.highest)⟩

end Verified

/-! ### A switch without its marker -/

/-- The directory can be scanned, as far as the copy for the generation `n` goes. -/
def Admissible (n : ℕ) (d : Directory) : Prop :=
  d.entries.length ≤ maxDirectoryEntries ∧ ¬ d.Has (compactingName (canonicalGenerationName n))

instance : Decidable (Admissible n d) := inferInstanceAs (Decidable (_ ∧ _))

/-- All names are known, or they are those of the candidate. -/
def Closed (n : ℕ) (d : Directory) : Prop :=
  ∀ name entry, d.find name = some entry → (∃ kind id, Admits kind id name entry) ∨ Written n name

section Aside

variable (hlt : n < u64Limit) (h : Aside n d d')

include hlt h

theorem Aside.find_canonical {kind : FileKind} {id : ℕ} (hid : id < u64Limit) (hne : kind = .commit ∨ id ≠ n) :
    d'.find (canonicalName kind id) = d.find (canonicalName kind id) := by
  have hother : ∀ kind', kind' ≠ .commit → canonicalName kind id ≠ canonicalName kind' n := by
    intro kind' hkind' heq
    obtain ⟨rfl, rfl⟩ := canonicalName_injective hid hlt heq
    exact hne.elim (fun h => hkind' h) fun h => h rfl
  refine h.others _ (hother .reservation (by decide)) ?_
  rintro (heq | heq | heq)
  · exact hother .generation (by decide) heq
  · exact hother .stagingCommit (by decide) heq
  · exact foreign_compactingName _ kind id heq.symm

theorem Aside.log_eq {g : ℕ} (hg : g < u64Limit) (hne : g ≠ n) :
    d'.find (canonicalGenerationName g) = d.find (canonicalGenerationName g) :=
  h.find_canonical hlt hg (.inr hne)

theorem Aside.marker_eq {g : ℕ} (hg : g < u64Limit) :
    d'.find (canonicalMarkerName g) = d.find (canonicalMarkerName g) :=
  h.find_canonical hlt hg (.inl rfl)

theorem Closed.aside (hpos : 0 < n) (hclosed : Closed n d) : Closed n d' := by
  intro name entry hfind
  by_cases hwritten : Written n name
  · exact .inr hwritten
  by_cases hreservation : name = canonicalReservationName n
  · subst hreservation
    rcases h.reservation with hsame | hempty
    · rw [hsame] at hfind
      exact hclosed _ _ hfind
    · rw [hempty, Option.some.injEq] at hfind
      exact .inl ⟨.reservation, n, rfl, hpos, hlt, fun _ => hfind.symm⟩
  · rw [h.others _ hreservation hwritten] at hfind
    exact hclosed _ _ hfind

omit h in
theorem Closed.scan (hpos : 0 < n) (hclosed : Closed n d) (hd : Admissible n d) :
    ∃ ns, scanGenerationNamespace d = .ok ns := by
  refine Generation.scan_isOk.2 ⟨hd.1, fun name entry hfind => ?_⟩
  rcases hclosed name entry hfind with hadmits | rfl | rfl | rfl
  · exact hadmits
  · exact ⟨.generation, n, rfl, hpos, hlt, by simp⟩
  · exact ⟨.stagingCommit, n, rfl, hpos, hlt, by simp⟩
  · exact absurd (by rw [Directory.Has, hfind]; rfl) hd.2

theorem Aside.markerFiles_eq (hscan : scanGenerationNamespace d = .ok ns)
    (hscan' : scanGenerationNamespace d' = .ok ns') : ns'.markerFiles = ns.markerFiles := by
  ext id
  have hold := @mem_files_of_scan id ns d .commit hscan
  have hnew := @mem_files_of_scan id ns' d' .commit hscan'
  refine hnew.trans (Iff.trans ?_ hold.symm)
  refine and_congr_left fun hvalid => ?_
  have hsame : d'.find (canonicalName .commit id) = d.find (canonicalName .commit id) := h.marker_eq hlt hvalid.2
  rw [Directory.Has, hsame, ← Directory.Has]

/-- The old generation is still selected, and its log is as it was. -/
theorem Aside.verifies (hv : Verifies d s ns markerFile log marker) (habove : s.highestObservedGeneration < n)
    (hscan' : scanGenerationNamespace d' = .ok ns') :
    ∃ s', Verifies d' s' ns' markerFile log marker ∧
      s'.authoritativeGeneration = s.authoritativeGeneration := by
  obtain ⟨-, hpos, hauth⟩ := hv.authority_mem
  have hne : s.authoritativeGeneration ≠ n := (hv.authority_le.trans_lt habove).ne
  have hmarkers := h.markerFiles_eq hlt hv.scanned hscan'
  have hlog := h.log_eq hlt hauth hne
  have hlisted : s.authoritativeGeneration ∈ ns'.generationFiles := by
    refine (mem_files_of_scan (k := .generation) hscan').2 ⟨?_, hpos, hauth⟩
    show (d'.find (canonicalGenerationName s.authoritativeGeneration)).isSome
    rw [hlog]
    exact ((mem_files_of_scan (k := .generation) hv.scanned).1 hv.log_listed).1
  obtain ⟨highest, hhighest⟩ := GenerationNamespace.exists_highest (k := .generation) hlisted
  let s' : GenerationVerificationSummary :=
    { s with
      highestObservedGeneration := highest
      markerGenerationIds := ns'.markerFiles
      stagingMarkerGenerationIds := ns'.stagingMarkerFiles
      reservationGenerationIds := ns'.reservationFiles
      uncommittedGenerationIds := ns'.generationFiles \ ns'.markerFiles }
  refine ⟨s', ?_, rfl⟩
  exact
    { hv with
      scanned := hscan'
      authority := by rw [hmarkers]; exact hv.authority
      highest := hhighest
      markerFile_at := by rw [← hv.markerFile_at]; exact h.marker_eq hlt hauth
      log_listed := hlisted
      log_at := by rw [← hv.log_at]; exact hlog
      markerIds := rfl
      stagingIds := rfl
      reservationIds := rfl
      uncommittedIds := rfl }

end Aside

/-! ### The directory behind the switch -/

/-- What the verification finds behind a switch that has died in `d'`: the old generation or, with its marker,
the next one, and the live state that was selected before. -/
def Survives (d d' : Directory) (s : GenerationVerificationSummary) : Prop :=
  ∃ s' values, verifyGenerationDirectory.run d' = (.ok s', d') ∧
    (s'.authoritativeGeneration = s.authoritativeGeneration ∨
      s'.authoritativeGeneration = s.highestObservedGeneration + 1 ∧
        d'.Has (canonicalMarkerName (s.highestObservedGeneration + 1))) ∧
    liveState d s.authoritativeLog = some values ∧ liveState d' s'.authoritativeLog = some values

/-- What a switch to the generation `n` has changed when it dies: nothing that a verification selects, or all
that a publication changes, behind a copy with the same live state. -/
def Switched (d d' : Directory) (n : ℕ) (source : Name) : Prop :=
  Aside n d d' ∨ ∃ d₀ file report proof, Aside n d d₀ ∧ Publishes d₀ d' n file report proof ∧
    ∃ values, liveState d source = some values ∧ liveState d₀ (canonicalGenerationName n) = some values

theorem Verifies.survives (hv : Verifies d s ns markerFile log marker) : Survives d d s := by
  obtain ⟨values, hvalues⟩ := hv.exists_liveState
  exact ⟨s, values, hv.run, .inl rfl, hvalues, hvalues⟩

theorem Aside.survives (hv : Verifies d s ns markerFile log marker)
    (hlt : s.highestObservedGeneration + 1 < u64Limit) (h : Aside (s.highestObservedGeneration + 1) d d')
    (hentries : d'.entries.length ≤ maxDirectoryEntries)
    (hcopy : ¬ d'.Has (compactingName (canonicalGenerationName (s.highestObservedGeneration + 1)))) :
    Survives d d' s := by
  have hclosed : Closed (s.highestObservedGeneration + 1) d :=
    fun name entry hfind => .inl ((Generation.scan_isOk.1 ⟨ns, hv.scanned⟩).2 name entry hfind)
  obtain ⟨ns', hscan'⟩ := (hclosed.aside hlt h (Nat.succ_pos _)).scan hlt (Nat.succ_pos _) ⟨hentries, hcopy⟩
  obtain ⟨s', hv', hauth⟩ := h.verifies hlt hv (Nat.lt_succ_self _) hscan'
  obtain ⟨inspection, hinspect⟩ := exists_inspectLog hv.log_ok
  have hold : liveState d s.authoritativeLog = some inspection.entries := by
    rw [hv.authoritativeLog]
    exact liveState_of_inspect hv.log_at hinspect
  have hnew : liveState d' s'.authoritativeLog = some inspection.entries := by
    rw [hv'.authoritativeLog]
    exact liveState_of_inspect hv'.log_at hinspect
  exact ⟨s', _, hv'.run, .inl hauth, hold, hnew⟩

/-- The log of a publication is replaced by itself. -/
theorem Publishes.withLog_self {file : Bytes} {report : VerificationReport} {proof : CommittedPrefix}
    (hlt : n < u64Limit) (h : Publishes d d' n file report proof) : withLog d' n file = d' := by
  refine Directory.ext_find fun name => ?_
  rw [withLog, Directory.find_insert]
  by_cases hname : name = canonicalGenerationName n
  · rw [if_pos hname, hname, h.log_at' hlt]
  · rw [if_neg hname]

theorem Publishes.survives {d₀ : Directory} {file : Bytes} {report : VerificationReport} {proof : CommittedPrefix}
    {values : Values} (hlt : s.highestObservedGeneration + 1 < u64Limit)
    (h : Publishes d₀ d' (s.highestObservedGeneration + 1) file report proof)
    (hentries : d'.entries.length ≤ maxDirectoryEntries) (hold : liveState d s.authoritativeLog = some values)
    (hnew : liveState d₀ (canonicalGenerationName (s.highestObservedGeneration + 1)) = some values) :
    Survives d d' s := by
  obtain ⟨engine, ms, -, hfile, hholds⟩ := h.exists_engine
  have hbound : file.length < u64Limit := hfile ▸ hholds.appended.length_lt
  obtain ⟨hlog, htail, hclean⟩ := requireCleanGeneration_eq_ok.1 h.clean
  obtain ⟨hbytes, -⟩ := derivePrefixProof_eq_ok.1 h.derived
  obtain ⟨scan, hscan, rfl⟩ := verifyLog_eq_ok.1 hlog
  have hvalid : file.length ≤ scan.validBytes := (hbytes.symm.trans hclean).le
  have hnone : scan.recoverableTail = none := htail
  obtain ⟨s', hrun, hauth, hpath⟩ := h.verified hlt hbound hentries (List.take_length ..) hscan hvalid
    (by simp [hnone])
  rw [h.withLog_self hlt] at hrun
  refine ⟨s', values, hrun, .inr ⟨hauth, ?_⟩, hold, ?_⟩
  · rw [Directory.Has, h.marker_at]
    rfl
  · rw [← hnew, hpath, liveState, liveState, h.log_at' hlt, h.log_at]

/-- The recovery needs a directory that the scan accepts. -/
theorem Survives.scanned (h : Survives d d' s) : ∃ ns', scanGenerationNamespace d' = .ok ns' := by
  obtain ⟨s', -, hrun, -⟩ := h
  obtain ⟨-, ns', _, _, _, hv'⟩ :=
    (@runs_verifyGenerationDirectory (fun io => io = .success) rfl _ _ s').1 (Task.run_eq_iff.1 hrun)
  exact ⟨ns', hv'.scanned⟩

theorem not_has_of_foreign (hscan : scanGenerationNamespace d = .ok ns) (hname : Foreign name) : ¬ d.Has name := by
  intro hhas
  obtain ⟨entry, hentry⟩ := Option.isSome_iff_exists.1 hhas
  obtain ⟨kind, id, hadmits⟩ := (Generation.scan_isOk.1 ⟨ns, hscan⟩).2 name entry hentry
  exact hname kind id hadmits.name_eq

/-! ### The steps of the switch -/

section Reserve

variable (hs : allowed .success) (hv : Verifies d s ns markerFile log marker)

include hs hv

/-- A reservation that dies has made nothing but the reservation file. -/
theorem reserve_stops (hstop : Task.Stops allowed reserveNextGeneration d d') :
    d' = d ∨ s.highestObservedGeneration + 1 < u64Limit ∧ ¬ d.Has (canonicalReservationName (s.highestObservedGeneration + 1)) ∧
      d' = d.insert (canonicalReservationName (s.highestObservedGeneration + 1)) (.regular []) := by
  unfold reserveNextGeneration at hstop
  rcases Task.stops_bind hstop with h | ⟨_, d₁, hrun, hrest⟩
  · exact .inl (quiet_acquireLease.same h)
  rw [quiet_acquireLease.same hrun.stops] at hrest
  rcases Task.stops_bind hrest with h | ⟨before, d₂, hrun, hrest⟩
  · exact .inl (quiet_verify.same h)
  obtain ⟨hd₂, ns₂, _, _, _, hbefore⟩ := (runs_verifyGenerationDirectory hs).1 hrun
  rw [hd₂] at hrest
  obtain ⟨-, hhighest⟩ := hv.unique hbefore
  rcases Task.stops_bind hrest with h | ⟨generation, d₃, hrun, hrest⟩
  · exact .inl (quiet_done.same h)
  obtain ⟨hnext, hd₃⟩ := runs_ofExcept.1 hrun
  rw [nextGenerationId, hhighest] at hnext
  rw [hd₃] at hrest
  split_ifs at hnext with hlt
  cases hnext
  rcases Task.stops_bind hrest with h | ⟨_, d₄, hrun, hrest⟩
  · rcases stops_changing h with h | h
    · exact .inl h
    · split_ifs at h with hhas
      exact .inr ⟨hlt, hhas, (Except.ok.inj h).symm⟩
  obtain ⟨hhas, hd₄⟩ := (runs_createNewFile hs).1 hrun
  rw [hd₄] at hrest
  have hquiet := Quiet.same (Task.Steady.bind quiet_reading (fun _ => Task.Steady.bind (Task.Steady.mapError quiet_reading) fun _ =>
    quiet_verify.bind fun _ => quiet_done.bind fun _ => quiet_done)) hrest
  exact .inr ⟨hlt, hhas, hquiet⟩

theorem runs_reserve {summary : GenerationReservationSummary}
    (h : Task.Runs allowed reserveNextGeneration d (.ok summary) d') :
    s.highestObservedGeneration + 1 < u64Limit ∧ summary.generation = s.highestObservedGeneration + 1 ∧
      d' = d.insert (canonicalReservationName (s.highestObservedGeneration + 1)) (.regular []) := by
  unfold reserveNextGeneration retainedSummary at h
  simp only [runs_bind, runs_verifyGenerationDirectory hs, runs_ofExcept, runs_createNewFile hs, runs_sync hs,
    Task.runs_mapError_ok, runs_rejectWhen, runs_pure] at h
  obtain ⟨_, d₁, hlease, before, _, ⟨rfl, _, _, _, _, hbefore⟩, generation, _, ⟨hnext, rfl⟩, _, _, ⟨-, rfl⟩,
    _, _, rfl, _, _, rfl, _, _, ⟨rfl, -⟩, _, _, ⟨-, rfl⟩, rfl, rfl⟩ := h
  obtain rfl := quiet_acquireLease.same hlease.stops
  obtain ⟨-, hhighest⟩ := hv.unique hbefore
  rw [nextGenerationId, hhighest] at hnext
  split_ifs at hnext with hlt
  cases hnext
  exact ⟨hlt, rfl, rfl⟩

end Reserve

theorem validateCompactState_eq_ok {source compacted : InspectionReport} {u : Unit}
    (h : validateCompactState n source compacted = .ok u) : compacted.entries = source.entries := by
  rw [validateCompactState, Checked.guard_eq_ok] at h
  simp only [not_or, not_not] at h
  exact h.1.2.2.2

/-- **A switch that dies** has changed nothing that a verification selects, or it has published its copy. -/
theorem switch_stops (hs : allowed .success) (hv : Verifies d s ns markerFile log marker)
    (hstop : Task.Stops allowed compactSwitchGenerationOffline d d') :
    d' = d ∨ s.highestObservedGeneration + 1 < u64Limit ∧
      Switched d d' (s.highestObservedGeneration + 1) s.authoritativeLog := by
  unfold compactSwitchGenerationOffline at hstop
  rcases Task.stops_bind hstop with h | ⟨reservation, d₁, hrun, hrest⟩
  · rcases reserve_stops hs hv h with h | ⟨hlt, -, rfl⟩
    · exact .inl h
    · exact .inr ⟨hlt, .inl aside_reserve⟩
  obtain ⟨hlt, hgeneration, hd₁⟩ := runs_reserve hs hv hrun
  refine .inr ⟨hlt, ?_⟩
  have hreserved : Aside (s.highestObservedGeneration + 1) d d₁ := by
    rw [hd₁]
    exact aside_reserve
  rcases Task.stops_bind hrest with h | ⟨before, d₂, hrun, hrest⟩
  · rw [quiet_verify.same h]
    exact .inl hreserved
  obtain ⟨hd₂, ns₂, _, _, _, hbefore⟩ := (runs_verifyGenerationDirectory hs).1 hrun
  rw [hd₂] at hrest
  have hauth : before.authoritativeGeneration = s.authoritativeGeneration := by
    have hmax := hbefore.authority
    rw [hreserved.markerFiles_eq hlt hv.scanned hbefore.scanned, hv.authority] at hmax
    exact (Option.some.inj hmax).symm
  have hsource : before.authoritativeLog = s.authoritativeLog := by
    rw [hbefore.authoritativeLog, hauth, hv.authoritativeLog]
  rcases Task.stops_bind hrest with h | ⟨_, d₃, hrun, hrest⟩
  · rw [quiet_done.same h]
    exact .inl hreserved
  rw [quiet_done.same hrun.stops] at hrest
  rcases Task.stops_bind hrest with h | ⟨sourceState, d₄, hrun, hrest⟩
  · rw [quiet_inspectAt.same h]
    exact .inl hreserved
  obtain ⟨hd₄, sourceFile, hsourceFile, hinspected⟩ := (runs_inspectAt hs).1 hrun
  rw [hd₄, hgeneration] at hrest
  have hold : liveState d s.authoritativeLog = some sourceState.entries := by
    have hne : s.authoritativeGeneration ≠ s.highestObservedGeneration + 1 :=
      (hv.authority_le.trans_lt (Nat.lt_succ_self _)).ne
    have hsame := @Aside.find_canonical d d₁ _ hlt hreserved .generation s.authoritativeGeneration
      hv.authority_mem.2.2 (.inr hne)
    rw [hsource, hv.authoritativeLog] at hsourceFile
    rw [hv.authoritativeLog]
    exact liveState_of_inspect (hsame.symm.trans hsourceFile) hinspected
  -- the copy is made outside of the lease
  have hcopy : Sideways (s.highestObservedGeneration + 1) (compactLogToFreshFile before.authoritativeLog
      (canonicalGenerationName (s.highestObservedGeneration + 1))) := sideways_compactLogToFreshFile hlt
  rcases Task.stops_bind hrest with h | ⟨compaction, d₅, hrun, hrest⟩
  · exact .inl (hreserved.trans (hcopy.aside h))
  have haside := hreserved.trans (hcopy.aside hrun.stops)
  rcases Task.stops_bind hrest with h | ⟨_, d₆, hrun, hrest⟩
  · rw [quiet_acquireLease.same h]
    exact .inl haside
  rw [quiet_acquireLease.same hrun.stops] at hrest
  rcases Task.stops_bind hrest with h | ⟨beforePublication, d₇, hrun, hrest⟩
  · rw [quiet_verify.same h]
    exact .inl haside
  rw [quiet_verify.same hrun.stops] at hrest
  rcases Task.stops_bind hrest with h | ⟨currentState, d₈, hrun, hrest⟩
  · rw [quiet_inspectAt.same h]
    exact .inl haside
  rw [quiet_inspectAt.same hrun.stops] at hrest
  rcases Task.stops_bind hrest with h | ⟨_, d₉, hrun, hrest⟩
  · rw [quiet_done.same h]
    exact .inl haside
  rw [quiet_done.same hrun.stops] at hrest
  rcases Task.stops_bind hrest with h | ⟨compactState, d₁₀, hrun, hrest⟩
  · rw [quiet_inspectAt.same h]
    exact .inl haside
  obtain ⟨hd₁₀, newFile, hnewFile, hnewInspected⟩ := (runs_inspectAt hs).1 hrun
  rw [hd₁₀] at hrest
  rcases Task.stops_bind hrest with h | ⟨_, d₁₁, hrun, hrest⟩
  · rw [quiet_done.same h]
    exact .inl haside
  obtain ⟨hvalidated, hd₁₁⟩ := runs_ofExcept.1 hrun
  rw [hd₁₁] at hrest
  have hnew : liveState d₅ (canonicalGenerationName (s.highestObservedGeneration + 1)) = some sourceState.entries := by
    rw [← validateCompactState_eq_ok hvalidated]
    exact liveState_of_inspect hnewFile hnewInspected
  have hpublish : ∀ d'', Task.Stops allowed (publishGenerationMarker (s.highestObservedGeneration + 1)) d₅ d'' →
      Switched d d'' (s.highestObservedGeneration + 1) s.authoritativeLog := by
    intro d'' h
    rcases publish_stops hs hlt h with hsideways | ⟨file, report, proof, hpublishes⟩
    · exact .inl (haside.trans hsideways)
    · exact .inr ⟨d₅, file, report, proof, haside, hpublishes, _, hold, hnew⟩
  rcases Task.stops_bind hrest with h | ⟨publication, d₁₂, hrun, hrest⟩
  · exact hpublish _ h
  have hquiet := Quiet.same (quiet_verify.bind fun _ => quiet_done.bind fun _ => quiet_inspectAt.bind fun _ =>
    quiet_done.bind fun _ => quiet_done) hrest
  rw [hquiet]
  exact hpublish _ hrun.stops

/-- **A compact switch may die anywhere**: the verification accepts what it leaves, selects the old generation
or the one whose marker it has linked, and finds the same live state, if and only if the staging name of the
copy is not there and the directory does not have too many entries. -/
theorem compact_switch_survives_iff (h : verifyGenerationDirectory.run d = (.ok s, d))
    (hstop : Task.Stops (fun _ => True) compactSwitchGenerationOffline d d') :
    Survives d d' s ↔ d'.entries.length ≤ maxDirectoryEntries ∧
      ¬ d'.Has (compactingName (canonicalGenerationName (s.highestObservedGeneration + 1))) := by
  obtain ⟨-, ns, _, _, _, hv⟩ :=
    (@runs_verifyGenerationDirectory (fun io => io = .success) rfl _ _ s).1 (Task.run_eq_iff.1 h)
  constructor
  · intro hsurvives
    obtain ⟨ns', hscan'⟩ := hsurvives.scanned
    exact ⟨(Generation.scan_isOk.1 ⟨ns', hscan'⟩).1, not_has_of_foreign hscan' (foreign_compactingName _)⟩
  · rintro ⟨hentries, hcopy⟩
    rcases switch_stops trivial hv hstop with rfl | ⟨hlt, haside | ⟨d₀, file, report, proof, -, hpublishes, values,
      hold, hnew⟩⟩
    · exact hv.survives
    · exact haside.survives hv hlt hentries hcopy
    · exact hpublishes.survives hlt hentries hold hnew

/-- The verification of the directory with one generation. -/
theorem verified_oneGeneration : ∃ s, verifyGenerationDirectory.run oneGeneration = (.ok s, oneGeneration) ∧
    s.highestObservedGeneration = 1 := by
  have hok : (verifyGenerationDirectory.run oneGeneration).1.map
      GenerationVerificationSummary.highestObservedGeneration = .ok 1 := by decide +kernel
  have hrun : Task.Runs (· = .success) verifyGenerationDirectory oneGeneration
      (verifyGenerationDirectory.run oneGeneration).1 (verifyGenerationDirectory.run oneGeneration).2 :=
    Task.run_eq_iff.1 rfl
  have hsame : (verifyGenerationDirectory.run oneGeneration).2 = oneGeneration := quiet_verify.same hrun.stops
  cases hcase : (verifyGenerationDirectory.run oneGeneration).1 with
  | ok s =>
    rw [hcase] at hok
    exact ⟨s, Prod.ext hcase hsame, Except.ok.inj hok⟩
  | error e =>
    rw [hcase] at hok
    cases hok

/-- The switch dies with its marker linked. -/
theorem compact_switch_survives_linked : ∃ s, verifyGenerationDirectory.run oneGeneration = (.ok s, oneGeneration) ∧
    Survives oneGeneration (Task.stateAfter 60 compactSwitchGenerationOffline oneGeneration) s := by
  obtain ⟨s, hrun, hhighest⟩ := verified_oneGeneration
  refine ⟨s, hrun, (compact_switch_survives_iff hrun (Task.stops_stateAfter trivial 60)).2 ⟨?_, ?_⟩⟩
  · decide +kernel
  · rw [hhighest]
    decide +kernel

/-- The switch dies when it has created the file of its copy. -/
theorem compact_switch_dies_copying : ∃ s d', verifyGenerationDirectory.run oneGeneration = (.ok s, oneGeneration) ∧
    Task.Stops (fun _ => True) compactSwitchGenerationOffline oneGeneration d' ∧ ¬ Survives oneGeneration d' s := by
  obtain ⟨s, hrun, -⟩ := verified_oneGeneration
  refine ⟨s, _, hrun, Task.stops_stateAfter trivial 23, fun hsurvives => ?_⟩
  obtain ⟨ns', hscan'⟩ := hsurvives.scanned
  refine not_has_of_foreign hscan' (foreign_compactingName (canonicalGenerationName 2)) ?_
  decide +kernel

end DbLab.Generation
