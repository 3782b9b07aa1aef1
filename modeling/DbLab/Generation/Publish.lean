import DbLab.Generation.Operations

/-!
# A successful publication

What is in the directory when the publication of a marker has returned without an error: the log as
it was, the marker that binds all of it, and nothing else that was not there before, except that the
staging name may be left.
-/

namespace DbLab.Generation

open Log

variable {allowed : Io → Prop} {d d' : Directory} {generation : ℕ} {name : Name}

theorem appendTo_insert {old bytes : Bytes} :
    appendTo (d.insert name (.regular old)) name bytes =
      (d.insert name (.regular old)).insert name (.regular (old ++ bytes)) := by
  have hfind : (d.insert name (.regular old)).find name = some (.regular old) := by
    rw [Directory.find_insert, if_pos rfl]
  rw [appendTo, hfind]

/-- The staging name is gone behind the removal, and nothing else has changed. -/
theorem find_of_runs_removeStale (hs : allowed .success) {u : Unit}
    (h : Task.Runs allowed (removeStaleStagingIfSafe name) d (.ok u) d') (name' : Name) :
    d'.find name' = if name' = name then none else d.find name' := by
  rw [removeStaleStagingIfSafe, runs_bind] at h
  obtain ⟨found, d₁, hlook, hremove⟩ := h
  obtain ⟨hfound, rfl⟩ := (runs_reading hs).1 hlook
  split at hfound
  · rename_i hnone
    cases hfound
    obtain ⟨-, rfl⟩ := runs_pure.1 hremove
    by_cases hname : name' = name
    · rw [if_pos hname, hname, hnone]
    · rw [if_neg hname]
  · cases hfound
    obtain ⟨-, rfl⟩ := (runs_removeFile hs).1 hremove
    exact Directory.find_remove
  · cases hfound

theorem find_of_runs_removeFile {r : Except GenerationError Unit}
    (h : Task.Runs allowed (removeFile name) d r d') : d' = d ∨ d' = d.remove name := by
  rw [removeFile, changing, Task.runs_act] at h
  obtain ⟨io, -, h⟩ := h
  by_cases hhas : d.Has name
  · cases io with
    | success =>
      simp only [if_pos hhas, Prod.mk.injEq] at h
      exact .inr h.2.symm
    | failure written =>
      simp only [Prod.mk.injEq] at h
      exact .inl h.2.symm
  · cases io with
    | success =>
      simp only [if_neg hhas, Prod.mk.injEq] at h
      exact .inl h.2.symm
    | failure written =>
      simp only [Prod.mk.injEq] at h
      exact .inl h.2.symm

theorem find_of_runs_removeQuietly {retained : Bool}
    (h : Task.Runs allowed (removeQuietly name) d (.ok retained) d') : d' = d ∨ d' = d.remove name := by
  rw [removeQuietly, runs_bind] at h
  obtain ⟨r, d₁, hattempt, hrest⟩ := h
  obtain ⟨r', -, hremove⟩ := Task.runs_attempt.1 hattempt
  have hd : d' = d₁ := by
    split at hrest
    · exact (runs_pure.1 hrest).2
    · exact (runs_pure.1 hrest).2
    · exact (runs_pure.1 hrest).2
  rw [hd]
  exact find_of_runs_removeFile hremove

theorem runs_requireExactCleanGeneration (hs : allowed .success) {baseline : VerificationReport}
    {proof : CommittedPrefix} {u : Unit} :
    Task.Runs allowed (requireExactCleanGeneration name baseline proof) d (.ok u) d' ↔
      d' = d ∧ ∃ file report, d.find name = some (.regular file) ∧
        verifyCommittedPrefix file proof = .ok report ∧ requireCleanGeneration file = .ok baseline := by
  rw [requireExactCleanGeneration]
  simp only [runs_bind, runs_readRegular hs, runs_ofExcept, runs_rejectWhen, not_not]
  constructor
  · rintro ⟨file, _, ⟨hfile, rfl⟩, report, _, ⟨hreport, rfl⟩, again, _, ⟨hagain, rfl⟩, current, _,
      ⟨hcurrent, rfl⟩, rfl, rfl⟩
    rw [hfile, Option.some.injEq, Entry.regular.injEq] at hagain
    subst hagain
    exact ⟨rfl, file, report, hfile, hreport, hcurrent⟩
  · rintro ⟨rfl, file, report, hfile, hreport, hcurrent⟩
    exact ⟨file, _, ⟨hfile, rfl⟩, report, _, ⟨hreport, rfl⟩, file, _, ⟨hfile, rfl⟩, _, _, ⟨hcurrent, rfl⟩,
      rfl, rfl⟩

theorem encodeCommitMarker_eq_ok {proof : CommittedPrefix} {bytes : Bytes} :
    encodeCommitMarker generation proof = .ok bytes ↔
      0 < generation ∧ proof.Valid ∧ bytes = markerBytes generation proof := by
  rw [encodeCommitMarker]
  simp only [Checked.bind_eq_ok, validateGeneration_eq_ok, validateCommittedPrefix_eq_ok, exists_const,
    Except.ok.injEq]
  exact and_congr_right fun _ => and_congr_right fun _ => eq_comm

theorem runs_proveGeneration (hs : allowed .success) {report : VerificationReport} {proof : CommittedPrefix} :
    Task.Runs allowed (proveGeneration name) d (.ok (report, proof)) d' ↔
      d' = d ∧ ∃ file, d.find name = some (.regular file) ∧ requireCleanGeneration file = .ok report ∧
        derivePrefixProof file report = .ok proof ∧ verifyCommittedPrefix file proof = .ok report := by
  unfold proveGeneration
  simp only [runs_bind, runs_readRegular hs, runs_ofExcept, runs_rejectWhen, runs_sync hs,
    runs_requireExactCleanGeneration hs, runs_pure, not_not, Prod.mk.injEq]
  constructor
  · rintro ⟨file, _, ⟨hfile, rfl⟩, baseline, _, ⟨hclean, rfl⟩, file₁, _, ⟨hfile₁, rfl⟩, derived, _,
      ⟨hderived, rfl⟩, file₂, _, ⟨hfile₂, rfl⟩, _, _, ⟨hproved, rfl⟩, _, _, ⟨rfl, rfl⟩, _, _, rfl, _, _,
      rfl, _, _, ⟨rfl, -⟩, ⟨rfl, rfl⟩, rfl⟩
    obtain rfl : file = file₁ := by simpa using hfile.symm.trans hfile₁
    obtain rfl : file = file₂ := by simpa using hfile.symm.trans hfile₂
    exact ⟨rfl, file, hfile, hclean, hderived, hproved⟩
  · rintro ⟨rfl, file, hfile, hclean, hderived, hproved⟩
    exact ⟨file, _, ⟨hfile, rfl⟩, report, _, ⟨hclean, rfl⟩, file, _, ⟨hfile, rfl⟩, proof, _,
      ⟨hderived, rfl⟩, file, _, ⟨hfile, rfl⟩, report, _, ⟨hproved, rfl⟩, (), _, ⟨rfl, rfl⟩, (), _, rfl,
      (), _, rfl, (), _, ⟨rfl, file, report, hfile, hproved, hclean⟩, ⟨rfl, rfl⟩, rfl⟩

/-- The staging file and then the marker hold the encoded marker. -/
def withMarker (d : Directory) (generation : ℕ) (proof : CommittedPrefix) : Directory :=
  ((d.insert (canonicalStagingMarkerName generation) (.regular [])).insert
    (canonicalStagingMarkerName generation) (.regular (markerBytes generation proof))).insert
    (canonicalMarkerName generation) (.regular (markerBytes generation proof))

theorem names_ne {kind kind' : FileKind} (h : kind ≠ kind') (hlt : generation < u64Limit) :
    canonicalName kind generation ≠ canonicalName kind' generation :=
  fun heq => h (canonicalName_injective hlt hlt heq).1

theorem find_withMarker {proof : CommittedPrefix} :
    (withMarker d generation proof).find name =
      if name = canonicalMarkerName generation ∨ name = canonicalStagingMarkerName generation then
        some (.regular (markerBytes generation proof)) else d.find name := by
  simp only [withMarker, Directory.find_insert]
  by_cases h₁ : name = canonicalMarkerName generation
  · simp [h₁]
  · by_cases h₂ : name = canonicalStagingMarkerName generation
    · simp [h₂]
    · simp [h₁, h₂]

/-- The directory behind `linkMarker`. -/
theorem runs_linkMarker (hs : allowed .success) {log : Name} {report : VerificationReport}
    {proof : CommittedPrefix} {u : Unit}
    (h : Task.Runs allowed (linkMarker generation log (canonicalMarkerName generation)
      (canonicalStagingMarkerName generation) report proof) d (.ok u) d') :
    0 < generation ∧ proof.Valid ∧ d' = withMarker d generation proof := by
  unfold linkMarker writeSyncedStaging at h
  simp only [runs_bind, runs_readRegular hs, runs_ofExcept, runs_sync hs, runs_createNewFile hs,
    runs_writeAll hs, runs_hardLink hs, runs_requireExactCleanGeneration hs, Task.runs_mapError_ok, runs_pure,
    Checked.mapError_eq_ok, encodeCommitMarker_eq_ok] at h
  obtain ⟨_, _, ⟨⟨hpos, hvalid, rfl⟩, rfl⟩, _, _, ⟨_, _, ⟨-, rfl⟩, _, _, rfl, rfl⟩, _, _, ⟨rfl, -⟩, _, _,
    ⟨entry, hentry, -, rfl⟩, _, _, rfl, _, _, ⟨-, rfl⟩, _, _, ⟨-, rfl⟩, _, _, ⟨-, rfl⟩, _, _, ⟨-, rfl⟩, -,
    rfl⟩ := h
  rw [appendTo_insert, Directory.find_insert, if_pos rfl, List.nil_append, Option.some.injEq] at hentry
  rw [appendTo_insert, List.nil_append, ← hentry]
  exact ⟨hpos, hvalid, rfl⟩

/-- It does return without an error on a clean log. -/
theorem exists_runs_linkMarker (hs : allowed .success) (hlt : generation < u64Limit) {file : Bytes}
    {report : VerificationReport} {proof : CommittedPrefix} (hpos : 0 < generation) (hvalid : proof.Valid)
    (hbytes : proof.bytes < u64Limit) (hcrc : proof.crc32 < 256 ^ 4)
    (hfile : d.find (canonicalGenerationName generation) = some (.regular file))
    (hclean : requireCleanGeneration file = .ok report)
    (hproved : verifyCommittedPrefix file proof = .ok report)
    (hmarker : ¬ d.Has (canonicalMarkerName generation))
    (hstaging : ¬ d.Has (canonicalStagingMarkerName generation)) :
    Task.Runs allowed (linkMarker generation (canonicalGenerationName generation)
      (canonicalMarkerName generation) (canonicalStagingMarkerName generation) report proof) d (.ok ())
      (withMarker d generation proof) := by
  have hlogMarker : canonicalGenerationName generation ≠ canonicalMarkerName generation :=
    names_ne (by decide) hlt
  have hlogStaging : canonicalGenerationName generation ≠ canonicalStagingMarkerName generation :=
    names_ne (by decide) hlt
  have hmarkerStaging : canonicalMarkerName generation ≠ canonicalStagingMarkerName generation :=
    names_ne (by decide) hlt
  unfold linkMarker writeSyncedStaging
  simp only [runs_bind, runs_readRegular hs, runs_ofExcept, runs_sync hs, runs_createNewFile hs,
    runs_writeAll hs, runs_hardLink hs, runs_requireExactCleanGeneration hs, Task.runs_mapError_ok, runs_pure,
    Checked.mapError_eq_ok, encodeCommitMarker_eq_ok]
  refine ⟨_, _, ⟨⟨hpos, hvalid, rfl⟩, rfl⟩, ?_⟩
  refine ⟨(), _, ⟨(), _, ⟨hstaging, rfl⟩, (), _, rfl, rfl⟩, ?_⟩
  rw [appendTo_insert, List.nil_append]
  refine ⟨(), _, ⟨rfl, file, report, ?_, hproved, hclean⟩, ?_⟩
  · simp only [Directory.find_insert, if_neg hlogStaging, hfile]
  refine ⟨(), _, ⟨.regular (markerBytes generation proof), ?_, ?_, rfl⟩, (), _, rfl, ?_⟩
  · simp only [Directory.find_insert, if_true]
  · simp only [Directory.Has, Directory.find_insert, if_neg hmarkerStaging]
    exact hmarker
  refine ⟨markerBytes generation proof, _, ⟨?_, rfl⟩, (), _, ⟨?_, rfl⟩, ?_⟩
  · simp only [Directory.find_insert, if_true]
  · simp [verifyPublishedMarker, decodeCommitMarker_markerBytes hpos hlt hvalid hbytes hcrc]
  refine ⟨file, _, ⟨?_, rfl⟩, report, _, ⟨hproved, rfl⟩, trivial, rfl⟩
  simp only [Directory.find_insert, if_neg hlogStaging, if_neg hlogMarker, hfile]

/-- What a successful publication of a log leaves. -/
structure Publishes (d d' : Directory) (generation : ℕ) (file : Bytes) (report : VerificationReport)
    (proof : CommittedPrefix) : Prop where
  pos : 0 < generation
  newer : ∃ ns, scanGenerationNamespace d = .ok ns ∧ ∀ id ∈ ns.markerFiles, id < generation
  log_at : d.find (canonicalGenerationName generation) = some (.regular file)
  unmarked : ¬ d.Has (canonicalMarkerName generation)
  clean : requireCleanGeneration file = .ok report
  derived : derivePrefixProof file report = .ok proof
  proved : verifyCommittedPrefix file proof = .ok report
  valid : proof.Valid
  marker_at : d'.find (canonicalMarkerName generation) = some (.regular (markerBytes generation proof))
  others : ∀ name, name ≠ canonicalMarkerName generation → name ≠ canonicalStagingMarkerName generation →
    d'.find name = d.find name
  staging : d'.find (canonicalStagingMarkerName generation) = none ∨
    d'.find (canonicalStagingMarkerName generation) = some (.regular (markerBytes generation proof))

/-- The state behind the link of the marker, with or without its staging name. -/
theorem publishes_of_linked (hlt : generation < u64Limit) {ns : GenerationNamespace} {report : VerificationReport}
    {proof : CommittedPrefix} {d₁ : Directory} {file : Bytes} (hscan : scanGenerationNamespace d = .ok ns)
    (hnewer : ¬ ∃ id ∈ ns.markerFiles, generation ≤ id) (hunmarked : ¬ d.Has (canonicalMarkerName generation))
    (hfind : ∀ name, d₁.find name = if name = canonicalStagingMarkerName generation then none else d.find name)
    (hfile : d₁.find (canonicalGenerationName generation) = some (.regular file))
    (hclean : requireCleanGeneration file = .ok report) (hderived : derivePrefixProof file report = .ok proof)
    (hproved : verifyCommittedPrefix file proof = .ok report) (hpos : 0 < generation) (hvalid : proof.Valid)
    (hrest : d' = withMarker d₁ generation proof ∨ d' = (withMarker d₁ generation proof).remove (canonicalStagingMarkerName generation)) :
    Publishes d d' generation file report proof := by
  have hmarker : canonicalMarkerName generation ≠ canonicalStagingMarkerName generation := names_ne (by decide) hlt
  have hlog : canonicalGenerationName generation ≠ canonicalStagingMarkerName generation := names_ne (by decide) hlt
  refine ⟨hpos, ⟨ns, hscan, fun id hid => ?_⟩, ?_, hunmarked, hclean, hderived, hproved, hvalid, ?_,
    fun name h₁ h₂ => ?_, ?_⟩
  · by_contra hge
    exact hnewer ⟨id, hid, not_lt.1 hge⟩
  · rwa [hfind, if_neg hlog] at hfile
  · rcases hrest with rfl | rfl
    · rw [find_withMarker, if_pos (.inl rfl)]
    · rw [Directory.find_remove, if_neg hmarker, find_withMarker, if_pos (.inl rfl)]
  · rcases hrest with rfl | rfl
    · rw [find_withMarker, if_neg (not_or.2 ⟨h₁, h₂⟩), hfind, if_neg h₂]
    · rw [Directory.find_remove, if_neg h₂, find_withMarker, if_neg (not_or.2 ⟨h₁, h₂⟩), hfind, if_neg h₂]
  · rcases hrest with rfl | rfl
    · rw [find_withMarker, if_pos (.inr rfl)]
      exact .inr rfl
    · rw [Directory.find_remove, if_pos rfl]
      exact .inl rfl

/-- **A successful publication.** -/
theorem publishes_of_runs (hs : allowed .success) (hlt : generation < u64Limit)
    {summary : GenerationPublicationSummary}
    (h : Task.Runs allowed (publishGenerationMarker generation) d (.ok summary) d') :
    ∃ file report proof, Publishes d d' generation file report proof := by
  unfold publishGenerationMarker at h
  simp only [runs_bind, runs_scan hs, runs_readRegular hs, runs_rejectWhen, runs_requireAbsent hs, runs_pure,
    Prod.exists] at h
  obtain ⟨_, _, ⟨-, rfl⟩, ns, _, ⟨hscan, rfl⟩, _, _, ⟨hnewer, rfl⟩, file₀, _, ⟨hfile₀, rfl⟩, _, _,
    ⟨hunmarked, rfl⟩, _, d₁, hstale, report, proof, _, hprove, _, d₂, hlink, _, d₃, hremove, -, rfl⟩ := h
  obtain ⟨rfl, file, hfile, hclean, hderived, hproved⟩ := (runs_proveGeneration hs).1 hprove
  obtain ⟨hpos, hvalid, rfl⟩ := runs_linkMarker hs hlink
  exact ⟨file, report, proof, publishes_of_linked hlt hscan hnewer hunmarked (find_of_runs_removeStale hs hstale)
    hfile hclean hderived hproved hpos hvalid (find_of_runs_removeQuietly hremove)⟩

theorem exists_runs_removeQuietly (hs : allowed .success) (hhas : d.Has name) :
    Task.Runs allowed (removeQuietly name) d (.ok false) (d.remove name) := by
  refine runs_bind.2 ⟨.ok (), d.remove name, ?_, runs_pure.2 ⟨rfl, rfl⟩⟩
  exact Task.runs_attempt.2 ⟨.ok (), rfl, (runs_removeFile hs).2 ⟨hhas, rfl⟩⟩

/-- The publication of a clean log, which is newer than all markers and has no staging marker. -/
theorem exists_runs_publish (hs : allowed .success) (hlt : generation < u64Limit) {file : Bytes}
    {report : VerificationReport} {proof : CommittedPrefix} {ns : GenerationNamespace} (hpos : 0 < generation)
    (hscan : scanGenerationNamespace d = .ok ns) (hnewer : ∀ id ∈ ns.markerFiles, id < generation)
    (hfile : d.find (canonicalGenerationName generation) = some (.regular file))
    (hmarker : ¬ d.Has (canonicalMarkerName generation))
    (hstaging : ¬ d.Has (canonicalStagingMarkerName generation))
    (hclean : requireCleanGeneration file = .ok report) (hderived : derivePrefixProof file report = .ok proof)
    (hproved : verifyCommittedPrefix file proof = .ok report) (hvalid : proof.Valid)
    (hbytes : proof.bytes < u64Limit) (hcrc : proof.crc32 < 256 ^ 4) :
    Task.Runs allowed (publishGenerationMarker generation) d (.ok ⟨generation, proof, false⟩)
      ((withMarker d generation proof).remove (canonicalStagingMarkerName generation)) := by
  unfold publishGenerationMarker
  refine runs_bind.2 ⟨(), d, runs_rejectWhen.2 ⟨hpos.ne', rfl⟩, ?_⟩
  refine runs_bind.2 ⟨ns, d, (runs_scan hs).2 ⟨hscan, rfl⟩, ?_⟩
  refine runs_bind.2 ⟨(), d, runs_rejectWhen.2 ⟨?_, rfl⟩, ?_⟩
  · rintro ⟨id, hid, hge⟩
    exact absurd (hnewer id hid) (not_lt.2 hge)
  refine runs_bind.2 ⟨file, d, (runs_readRegular hs).2 ⟨hfile, rfl⟩, ?_⟩
  refine runs_bind.2 ⟨(), d, (runs_requireAbsent hs).2 ⟨hmarker, rfl⟩, ?_⟩
  refine runs_bind.2 ⟨(), d, runs_bind.2 ⟨false, d, (runs_reading hs).2 ⟨?_, rfl⟩, ?_⟩, ?_⟩
  · rw [Directory.not_has_iff.1 hstaging]
  · exact runs_pure.2 ⟨rfl, rfl⟩
  refine runs_bind.2 ⟨(report, proof), d,
    (runs_proveGeneration hs).2 ⟨rfl, file, hfile, hclean, hderived, hproved⟩, ?_⟩
  refine runs_bind.2 ⟨(), _, exists_runs_linkMarker hs hlt hpos hvalid hbytes hcrc hfile hclean hproved
    hmarker hstaging, ?_⟩
  refine runs_bind.2 ⟨false, _, exists_runs_removeQuietly hs ?_, runs_pure.2 ⟨rfl, rfl⟩⟩
  rw [Directory.Has, find_withMarker, if_pos (.inr rfl)]
  rfl

/-- A publication makes the directory larger. -/
theorem Publishes.length_lt {file : Bytes} {report : VerificationReport} {proof : CommittedPrefix}
    (h : Publishes d d' generation file report proof) (hlt : generation < u64Limit)
    (hstaging : ¬ d.Has (canonicalStagingMarkerName generation)) :
    d.entries.length < d'.entries.length := by
  have hmarker : canonicalStagingMarkerName generation ≠ canonicalMarkerName generation :=
    names_ne (by decide) hlt
  have hlarger := @Directory.length_insert d (canonicalMarkerName generation)
    (.regular (markerBytes generation proof))
  rw [if_neg h.unmarked] at hlarger
  rcases h.staging with hnone | hsome
  · have hd' : d' = d.insert (canonicalMarkerName generation) (.regular (markerBytes generation proof)) := by
      refine Directory.ext_find fun name => ?_
      rw [Directory.find_insert]
      by_cases h₁ : name = canonicalMarkerName generation
      · rw [if_pos h₁, h₁, h.marker_at]
      · rw [if_neg h₁]
        by_cases h₂ : name = canonicalStagingMarkerName generation
        · rw [h₂, hnone, Directory.not_has_iff.1 hstaging]
        · exact h.others name h₁ h₂
    rw [hd', hlarger]
    exact Nat.lt_succ_self _
  · have hd' : d' = (d.insert (canonicalMarkerName generation)
        (.regular (markerBytes generation proof))).insert (canonicalStagingMarkerName generation)
        (.regular (markerBytes generation proof)) := by
      refine Directory.ext_find fun name => ?_
      rw [Directory.find_insert, Directory.find_insert]
      by_cases h₂ : name = canonicalStagingMarkerName generation
      · rw [if_pos h₂, h₂, hsome]
      · rw [if_neg h₂]
        by_cases h₁ : name = canonicalMarkerName generation
        · rw [if_pos h₁, h₁, h.marker_at]
        · rw [if_neg h₁]
          exact h.others name h₁ h₂
    have habsent : ¬ (d.insert (canonicalMarkerName generation)
        (.regular (markerBytes generation proof))).Has (canonicalStagingMarkerName generation) := by
      rw [Directory.has_insert]
      exact not_or.2 ⟨hmarker, hstaging⟩
    rw [hd', Directory.length_insert, if_neg habsent, hlarger]
    omega

end DbLab.Generation
