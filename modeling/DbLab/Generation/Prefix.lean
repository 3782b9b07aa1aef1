import DbLab.Generation.Handle
import DbLab.Generation.Publish
import DbLab.Record.Explain

/-!
# Recovery of a committed prefix

A published log may grow and may be cut or damaged. The verification accepts it as long as the prefix
that the marker binds is there and unchanged, and then opening it yields the published state followed
by the appended records that are complete. It never selects another generation instead.
-/

namespace DbLab.Generation

open Log Record

variable {d d' : Directory} {generation : ℕ} {file other : Bytes} {report r : VerificationReport}
  {proof : CommittedPrefix}

theorem verifyCommittedPrefix_eq_ok :
    verifyCommittedPrefix other proof = .ok r ↔
      proof.bytes ≤ other.length ∧ crc32 (other.take proof.bytes) = proof.crc32 ∧
        verifyLog (other.take proof.bytes) = .ok r ∧ r.recoverableTail = none ∧
        (r.fileBytes = proof.bytes ∧ r.validBytes = proof.bytes) ∧ r.recordCount = proof.recordCount ∧
        r.nextSequence = proof.nextSequence := by
  unfold verifyCommittedPrefix
  simp only [Checked.guard_eq_ok, Checked.bind_eq_ok, not_lt, not_not, not_or, Option.not_isSome_iff_eq_none,
    Except.ok.injEq]
  constructor
  · rintro ⟨hlen, hcrc, r', hlog, htail, hbytes, hcount, hnext, rfl⟩
    exact ⟨hlen, hcrc, hlog, htail, hbytes, hcount, hnext⟩
  · rintro ⟨hlen, hcrc, hlog, htail, hbytes, hcount, hnext⟩
    exact ⟨hlen, hcrc, r, hlog, htail, hbytes, hcount, hnext, rfl⟩

theorem provePrefix_eq_ok : provePrefix other proof = .ok r ↔ verifyCommittedPrefix other proof = .ok r := by
  unfold provePrefix
  split <;> simp_all

theorem requireCleanGeneration_eq_ok :
    requireCleanGeneration file = .ok report ↔
      verifyLog file = .ok report ∧ report.recoverableTail = none ∧ report.fileBytes = report.validBytes := by
  unfold requireCleanGeneration
  simp only [Checked.bind_eq_ok, Checked.guard_eq_ok, not_or, not_not, Option.not_isSome_iff_eq_none,
    Except.ok.injEq]
  constructor
  · rintro ⟨r, hlog, ⟨htail, hbytes⟩, rfl⟩
    exact ⟨hlog, htail, hbytes⟩
  · rintro ⟨hlog, htail, hbytes⟩
    exact ⟨report, hlog, ⟨htail, hbytes⟩, rfl⟩

theorem verifyLog_eq_ok :
    verifyLog file = .ok report ↔ ∃ scan, scanFile file = .ok scan ∧ report = verification scan := by
  cases hscan : scanFile file with
  | ok scan => simp [verifyLog, hscan, eq_comm]
  | error e => simp [verifyLog, hscan]

theorem derivePrefixProof_eq_ok :
    derivePrefixProof file report = .ok proof ↔
      report.fileBytes = file.length ∧
        proof = ⟨file.length, crc32 file, report.recordCount, report.nextSequence⟩ := by
  unfold derivePrefixProof
  simp only [Checked.guard_eq_ok, not_lt, Except.ok.injEq]
  constructor
  · rintro ⟨hle, hge, rfl⟩
    have heq := le_antisymm hle hge
    exact ⟨heq, by rw [heq, List.take_length]⟩
  · rintro ⟨heq, rfl⟩
    exact ⟨heq.le, heq.ge, by rw [heq, List.take_length]⟩

/-- The log of the generation is replaced. -/
def withLog (d : Directory) (generation : ℕ) (file : Bytes) : Directory :=
  d.insert (canonicalGenerationName generation) (.regular file)

section Published

variable (hlt : generation < u64Limit) (h : Publishes d d' generation file report proof)

include h

theorem Publishes.proof_eq :
    proof = ⟨file.length, crc32 file, report.recordCount, report.nextSequence⟩ :=
  (derivePrefixProof_eq_ok.1 h.derived).2

include hlt

theorem Publishes.log_at' : d'.find (canonicalGenerationName generation) = some (.regular file) := by
  have hmarker : canonicalGenerationName generation ≠ canonicalMarkerName generation :=
    names_ne (by decide) hlt
  have hstaging : canonicalGenerationName generation ≠ canonicalStagingMarkerName generation :=
    names_ne (by decide) hlt
  rw [h.others _ hmarker hstaging]
  exact h.log_at

theorem Publishes.has_marker_iff {id : ℕ} (hid : id < u64Limit) :
    (withLog d' generation other).Has (canonicalMarkerName id) ↔
      id = generation ∨ d.Has (canonicalMarkerName id) := by
  have hne : canonicalMarkerName id ≠ canonicalGenerationName generation :=
    fun heq => by simpa using (canonicalName_injective hid hlt heq).1
  have hstaging : canonicalMarkerName id ≠ canonicalStagingMarkerName generation :=
    fun heq => by simpa using (canonicalName_injective hid hlt heq).1
  rw [withLog, Directory.has_insert, or_iff_right hne]
  by_cases heq : id = generation
  · subst heq
    simp [Directory.Has, h.marker_at]
  · have hmarker : canonicalMarkerName id ≠ canonicalMarkerName generation :=
      fun hname => heq (canonicalName_injective hid hlt hname).2
    rw [Directory.Has, h.others _ hmarker hstaging, ← Directory.Has, or_iff_right heq]

theorem Publishes.length_withLog : (withLog d' generation other).entries.length = d'.entries.length := by
  have hhas : d'.Has (canonicalGenerationName generation) := by
    rw [Directory.Has, h.log_at' hlt]
    rfl
  rw [withLog, Directory.length_insert, if_pos hhas]

/-- The namespace is still closed. -/
theorem Publishes.scan_isOk :
    (∃ ns, scanGenerationNamespace (withLog d' generation other) = .ok ns) ↔
      d'.entries.length ≤ maxDirectoryEntries := by
  rw [Generation.scan_isOk, h.length_withLog hlt]
  refine and_iff_left fun name entry hfind => ?_
  obtain ⟨ns, hscan, -⟩ := h.newer
  rw [withLog, Directory.find_insert] at hfind
  by_cases hlog : name = canonicalGenerationName generation
  · exact ⟨.generation, generation, hlog, h.pos, hlt, by simp⟩
  rw [if_neg hlog] at hfind
  by_cases hmarker : name = canonicalMarkerName generation
  · exact ⟨.commit, generation, hmarker, h.pos, hlt, by simp⟩
  by_cases hstaging : name = canonicalStagingMarkerName generation
  · exact ⟨.stagingCommit, generation, hstaging, h.pos, hlt, by simp⟩
  rw [h.others _ hmarker hstaging] at hfind
  exact (Generation.scan_isOk.1 ⟨ns, hscan⟩).2 name entry hfind

/-- The published marker is the highest. -/
theorem Publishes.max_markerFiles {ns : GenerationNamespace}
    (hscan : scanGenerationNamespace (withLog d' generation other) = .ok ns) :
    ns.markerFiles.max = some generation := by
  have hmem : ∀ id, id ∈ ns.markerFiles ↔
      (withLog d' generation other).Has (canonicalMarkerName id) ∧ 0 < id ∧ id < u64Limit :=
    fun id => mem_files_of_scan (k := .commit) hscan
  obtain ⟨ns₀, hscan₀, hbelow⟩ := h.newer
  refine le_antisymm (Finset.max_le fun id hid => ?_) (Finset.le_max ?_)
  · obtain ⟨hhas, hpos, hid⟩ := (hmem id).1 hid
    rcases (h.has_marker_iff hlt hid).1 hhas with rfl | hold
    · exact le_rfl
    · exact WithBot.coe_le_coe.2
        (hbelow id ((mem_files_of_scan (k := .commit) hscan₀).2 ⟨hold, hpos, hid⟩)).le
  · exact (hmem generation).2 ⟨(h.has_marker_iff hlt hlt).2 (.inl rfl), h.pos, hlt⟩

theorem Publishes.marker_at' :
    (withLog d' generation other).find (canonicalMarkerName generation) =
      some (.regular (markerBytes generation proof)) := by
  have hlog : canonicalMarkerName generation ≠ canonicalGenerationName generation :=
    names_ne (by decide) hlt
  rw [withLog, Directory.find_insert, if_neg hlog]
  exact h.marker_at

theorem Publishes.readCommitMarker (hfile : file.length < u64Limit) :
    readCommitMarker (markerBytes generation proof) generation =
      .ok ⟨generation, appendLogFormatVersion, proof⟩ := by
  have hproof := h.proof_eq
  unfold Generation.readCommitMarker
  rw [if_neg (not_not.2 markerBytes_length), decodeCommitMarker_markerBytes h.pos hlt h.valid
    (by rw [hproof]; exact hfile) (by rw [hproof]; exact crc32_lt _)]

/-- **What every successful verification has found.** -/
theorem Publishes.of_verified (hfile : file.length < u64Limit) {allowed : Io → Prop} (hs : allowed .success)
    {s : GenerationVerificationSummary} {d₂ : Directory}
    (hrun : Task.Runs allowed verifyGenerationDirectory (withLog d' generation other) (.ok s) d₂) :
    s.authoritativeGeneration = generation ∧ file.length ≤ other.length ∧
      crc32 (other.take file.length) = crc32 file := by
  obtain ⟨-, ns, markerFile, log, marker, hv⟩ := (runs_verifyGenerationDirectory hs).1 hrun
  have hauth : s.authoritativeGeneration = generation := by
    have hmax := hv.authority.symm.trans (h.max_markerFiles hlt hv.scanned)
    exact Option.some.inj hmax
  have hmarkerFile := hv.markerFile_at
  have hmarker := hv.marker_ok
  have hlog := hv.log_at
  rw [hauth] at hmarkerFile hmarker hlog
  rw [h.marker_at' hlt, Option.some.injEq, Entry.regular.injEq] at hmarkerFile
  rw [← hmarkerFile, h.readCommitMarker hlt hfile, Except.ok.injEq] at hmarker
  rw [withLog, Directory.find_insert, if_pos rfl, Option.some.injEq, Entry.regular.injEq] at hlog
  have hpre := hv.prefix_ok
  rw [← hmarker, ← hlog, provePrefix_eq_ok, verifyCommittedPrefix_eq_ok] at hpre
  obtain ⟨hlen, hcrc, -⟩ := hpre
  rw [h.proof_eq] at hlen hcrc
  exact ⟨hauth, hlen, hcrc⟩

/-- **A log that begins with the bound prefix is accepted.** -/
theorem Publishes.verified (hfile : file.length < u64Limit) (hentries : d'.entries.length ≤ maxDirectoryEntries)
    (hpre : other.take file.length = file) {scan : ScanResult Values} (hscan : scanFile other = .ok scan)
    (hvalid : file.length ≤ scan.validBytes)
    (htail : ∀ tail ∈ scan.recoverableTail, file.length ≤ tail.recordOffset) :
    ∃ s, verifyGenerationDirectory.run (withLog d' generation other) =
        (.ok s, withLog d' generation other) ∧ s.authoritativeGeneration = generation ∧
      s.authoritativeLog = canonicalGenerationName generation := by
  obtain ⟨ns, hns⟩ : ∃ ns, scanGenerationNamespace (withLog d' generation other) = .ok ns :=
    (h.scan_isOk hlt).2 hentries
  have hmax := h.max_markerFiles hlt hns
  have hproof := h.proof_eq
  have hlisted : generation ∈ ns.generationFiles := by
    refine (mem_files_of_scan (k := .generation) hns).2 ⟨?_, h.pos, hlt⟩
    exact Directory.has_insert.2 (.inl rfl)
  obtain ⟨highest, hhighest⟩ := GenerationNamespace.exists_highest (k := .generation) hlisted
  have hlen : file.length ≤ other.length := by
    have := congrArg List.length hpre
    rw [List.length_take] at this
    omega
  -- The proof is about the first bytes of the log, and these are the same in the longer one.
  have hproved : verifyCommittedPrefix other proof = .ok report := by
    have hown := verifyCommittedPrefix_eq_ok.1 h.proved
    rw [verifyCommittedPrefix_eq_ok]
    simp only [hproof] at hown ⊢
    rw [List.take_length] at hown
    rw [hpre]
    exact ⟨hlen, hown.2⟩
  have hbound : requireBoundLog ⟨generation, appendLogFormatVersion, proof⟩ (verification scan) = .ok () := by
    unfold requireBoundLog
    simp only [verification, hproof]
    rw [if_neg (not_lt.2 hvalid)]
    split
    · rename_i tail hsome
      rw [if_neg (not_lt.2 (htail tail hsome))]
    · rfl
  -- What the run returns is named, so that each check of it is one field.
  let s : GenerationVerificationSummary :=
    { authoritativeGeneration := generation
      authoritativeLog := canonicalGenerationName generation
      highestObservedGeneration := highest
      markerGenerationIds := ns.markerFiles
      stagingMarkerGenerationIds := ns.stagingMarkerFiles
      reservationGenerationIds := ns.reservationFiles
      uncommittedGenerationIds := ns.generationFiles \ ns.markerFiles
      committedPrefix := proof
      committedPrefixVerification := report
      logVerification := verification scan }
  have hverifies : Verifies (withLog d' generation other) s ns (markerBytes generation proof) other
      ⟨generation, appendLogFormatVersion, proof⟩ :=
    { scanned := hns
      authority := hmax
      highest := hhighest
      markerFile_at := h.marker_at' hlt
      marker_ok := h.readCommitMarker hlt hfile
      logFormat := rfl
      log_listed := hlisted
      log_at := by rw [withLog, Directory.find_insert, if_pos rfl]
      log_ok := verifyLog_eq_ok.2 ⟨scan, hscan, rfl⟩
      format_eq := rfl
      prefix_ok := provePrefix_eq_ok.2 hproved
      bound := hbound
      authoritativeLog := rfl
      markerIds := rfl
      stagingIds := rfl
      reservationIds := rfl
      uncommittedIds := rfl
      committedPrefix := rfl }
  exact ⟨s, hverifies.run, rfl, rfl⟩

end Published

/-! ### The log behind the prefix -/

section Appended

variable {engine : LogEngine} {ms : List Mutation} {n k : ℕ}

theorem recordStart_append (fmt : RecordFormat) (start : ℕ) (ms ms' : List Mutation) (k : ℕ) :
    fmt.recordStart start (ms ++ ms') (ms.length + k) =
      fmt.recordStart (start + (fmt.recordsBytes ms).length) ms' k := by
  rw [RecordFormat.recordStart, RecordFormat.recordStart, List.take_length_add_append,
    RecordFormat.recordsBytes_append, List.length_append, Nat.add_assoc]

theorem recordStart_mono (fmt : RecordFormat) (start : ℕ) (ms : List Mutation) {j : ℕ} (h : k ≤ j) :
    fmt.recordStart start ms k ≤ fmt.recordStart start ms j := by
  have htake : ms.take j = ms.take k ++ (ms.take j).drop k := by
    have hsplit := (List.take_append_drop k (ms.take j)).symm
    rwa [List.take_take, min_eq_left h] at hsplit
  rw [RecordFormat.recordStart, RecordFormat.recordStart, htake, RecordFormat.recordsBytes_append,
    List.length_append]
  omega

/-- A cut of the records behind the first ones. -/
theorem cutAt_append {fmt : RecordFormat} {start : ℕ} {ms ms' : List Mutation} {n j : ℕ}
    (h : fmt.CutAt start (ms ++ ms') n j) (hn : fmt.recordStart start ms ms.length ≤ n) :
    ∃ k, j = ms.length + k ∧ fmt.CutAt (start + (fmt.recordsBytes ms).length) ms' n k := by
  have hfirst : fmt.recordStart start (ms ++ ms') ms.length = fmt.recordStart start ms ms.length := by
    rw [RecordFormat.recordStart, RecordFormat.recordStart, List.take_left, List.take_length]
  have hle : ms.length ≤ j := by
    by_contra hlt
    rw [not_le] at hlt
    have hafter := h.after (by rw [List.length_append]; omega)
    have hmono := recordStart_mono fmt start (ms ++ ms') (show j + 1 ≤ ms.length from hlt)
    omega
  obtain ⟨k, rfl⟩ := Nat.exists_eq_add_of_le hle
  refine ⟨k, rfl, ?_, ?_, fun hk => ?_⟩
  · have := h.le_length
    rw [List.length_append] at this
    omega
  · rw [← recordStart_append]
    exact h.before
  · rw [← recordStart_append, ← Nat.add_assoc]
    exact h.after (by rw [List.length_append]; omega)

/-- The log of an engine that has appended, cut behind what it held before. -/
theorem scan_appended (hholds : engine.Holds ms) (ops : List Op) (hn : engine.log.file.length ≤ n) :
    ∃ k scan, recordFormat.CutAt engine.log.file.length (LogEngine.performAll ops engine).1 n k ∧
      scanFile ((LogEngine.performAll ops engine).2.log.file.take n) = .ok scan ∧
      scan.values = ((LogEngine.performAll ops engine).1.take k).foldl replay engine.values ∧
      scan.validBytes = recordFormat.recordStart engine.log.file.length
        (LogEngine.performAll ops engine).1 k ∧
      ∀ tail ∈ scan.recoverableTail, tail.recordOffset = scan.validBytes := by
  have hfile := hholds.appended.file_eq
  have hlast := hholds.performAll ops
  have hlength : engine.log.file.length = fileHeaderLen + (recordFormat.recordsBytes ms).length := by
    rw [hfile, List.length_append, encodeFileHeader_length]
  obtain ⟨n', rfl⟩ : ∃ n', n = fileHeaderLen + n' := Nat.exists_eq_add_of_le (by omega)
  obtain ⟨j, tail, hcut⟩ := RecordFormat.exists_cut recordFormat (ms ++ (LogEngine.performAll ops engine).1) n'
  have hscan := hlast.scanFile_cut hcut
  have hcutAt : recordFormat.CutAt fileHeaderLen _ _ _ := hcut.numbers.1
  obtain ⟨k, rfl, hk⟩ := cutAt_append hcutAt (by
    rw [RecordFormat.recordStart, List.take_length]
    omega)
  refine ⟨k, _, hlength ▸ hk, hscan, ?_, ?_, ?_⟩
  · rw [List.take_length_add_append, replayAll, List.foldl_append, ← replayAll, ← hholds.values]
  · simp only
    rw [recordStart_append, hlength]
  · intro t ht
    simp only [RecordFormat.cutTail] at ht
    split at ht
    · cases ht
    · rw [Option.mem_def, Option.some.injEq] at ht
      rw [← ht]

end Appended

/-! ### Recovery -/

/-- What must hold of a directory in which the log `file` of the generation was published, when
`engine` has the published log open. -/
structure Recovers (d : Directory) (generation : ℕ) (file : Bytes) (engine : LogEngine) : Prop where
  /-- A log that was cut behind the bound prefix is verified and opened. -/
  accepts : ∀ ops n, file.length ≤ n →
    ∃ k, recordFormat.CutAt file.length (LogEngine.performAll ops engine).1 n k ∧
      (∃ s, verifyGenerationDirectory.run
          (withLog d generation ((LogEngine.performAll ops engine).2.log.file.take n)) =
          (.ok s, withLog d generation ((LogEngine.performAll ops engine).2.log.file.take n)) ∧
        s.authoritativeGeneration = generation) ∧
      ∀ minimum ≤ generation, ∃ inner d₂, (resolveAuthority minimum).run
          (withLog d generation ((LogEngine.performAll ops engine).2.log.file.take n)) =
          (.ok (generation, inner), d₂) ∧
        inner.values = ((LogEngine.performAll ops engine).1.take k).foldl replay engine.values
  /-- A log that was cut inside of it is not. -/
  rejects : ∀ ops n, n < file.length → ∀ s d₂, ¬ Task.Runs (fun _ => True) verifyGenerationDirectory
    (withLog d generation ((LogEngine.performAll ops engine).2.log.file.take n)) (.ok s) d₂
  /-- Neither is a log whose prefix was changed, when the checksum tells. -/
  detects : ∀ other, other.take file.length ≠ file → crc32 (other.take file.length) ≠ crc32 file →
    ∀ s d₂, ¬ Task.Runs (fun _ => True) verifyGenerationDirectory (withLog d generation other) (.ok s) d₂

section Published

variable (hlt : generation < u64Limit) (h : Publishes d d' generation file report proof)

include h

/-- The published log is open, with everything that is in it. -/
theorem Publishes.exists_engine : ∃ engine ms, LogEngine.openFile (some file) = .ok engine ∧
    engine.log.file = file ∧ engine.Holds ms := by
  obtain ⟨hlog, htail, -⟩ := requireCleanGeneration_eq_ok.1 h.clean
  obtain ⟨scan, hscan, rfl⟩ := verifyLog_eq_ok.1 hlog
  have hnone : scan.recoverableTail = none := htail
  obtain ⟨engine, hopen, hfile⟩ : ∃ engine, LogEngine.fromFile file false = .ok engine ∧
      engine.log.file = file := by
    simp [LogEngine.fromFile, hscan, hnone]
  obtain ⟨ms, -, -, hholds⟩ := LogEngine.holds_of_fromFile hopen
  exact ⟨engine, ms, hopen, hfile, hholds⟩

variable {engine : LogEngine} {ms : List Mutation} (hfile : engine.log.file = file)
  (hholds : engine.Holds ms)

include hfile hholds

omit h in
/-- The published prefix is at the front of the log. -/
theorem take_performAll (ops : List Op) {n : ℕ} (hn : file.length ≤ n) :
    ((LogEngine.performAll ops engine).2.log.file.take n).take file.length = file := by
  have hlast := hholds.performAll ops
  rw [List.take_take, min_eq_left hn, hlast.appended.file_eq, RecordFormat.recordsBytes_append,
    ← List.append_assoc, ← hholds.appended.file_eq, hfile, List.take_left]

include hlt

theorem Publishes.verified_cut (hentries : d'.entries.length ≤ maxDirectoryEntries) (ops : List Op) {n : ℕ}
    (hn : file.length ≤ n) :
    ∃ k scan, recordFormat.CutAt file.length (LogEngine.performAll ops engine).1 n k ∧
      scanFile ((LogEngine.performAll ops engine).2.log.file.take n) = .ok scan ∧
      scan.values = ((LogEngine.performAll ops engine).1.take k).foldl replay engine.values ∧
      file.length ≤ scan.validBytes ∧
      ∃ s, verifyGenerationDirectory.run
          (withLog d' generation ((LogEngine.performAll ops engine).2.log.file.take n)) =
          (.ok s, withLog d' generation ((LogEngine.performAll ops engine).2.log.file.take n)) ∧
        s.authoritativeGeneration = generation ∧
        s.authoritativeLog = canonicalGenerationName generation := by
  have hbound : file.length < u64Limit := hfile ▸ hholds.appended.length_lt
  obtain ⟨k, scan, hcut, hscan, hvalues, hvalid, htail⟩ := scan_appended hholds ops (hfile ▸ hn)
  rw [hfile] at hcut hvalid
  have hle : file.length ≤ scan.validBytes := by
    rw [hvalid, RecordFormat.recordStart]
    exact Nat.le_add_right ..
  refine ⟨k, scan, hcut, hscan, hvalues, hle, ?_⟩
  exact h.verified hlt hbound hentries (take_performAll hfile hholds ops hn) hscan hle
    fun tail ht => (htail tail ht).symm ▸ hle

/-- The open of a log that was cut: the incomplete record goes, and the directory still verifies. -/
theorem Publishes.resolved (hentries : d'.entries.length ≤ maxDirectoryEntries) (ops : List Op) {n : ℕ}
    (hn : file.length ≤ n) {minimum : ℕ} (hmin : minimum ≤ generation) {scan : ScanResult Values}
    (hscan : scanFile ((LogEngine.performAll ops engine).2.log.file.take n) = .ok scan)
    (hvalid : file.length ≤ scan.validBytes) :
    ∃ inner d₂, (resolveAuthority minimum).run
        (withLog d' generation ((LogEngine.performAll ops engine).2.log.file.take n)) =
        (.ok (generation, inner), d₂) ∧ inner.values = scan.values := by
  obtain ⟨-, -, -, -, -, -, s, hverify, hauth, hlog⟩ := h.verified_cut hlt hfile hholds hentries ops hn
  -- the repaired file is the log cut at another place
  obtain ⟨inner, n₂, hn₂, hopen, hrepaired, hvalues⟩ : ∃ inner n₂, file.length ≤ n₂ ∧
      LogEngine.openFile (some ((LogEngine.performAll ops engine).2.log.file.take n)) = .ok inner ∧
      inner.log.file = (LogEngine.performAll ops engine).2.log.file.take n₂ ∧
      inner.values = scan.values := by
    obtain ⟨inner, hopen, hvalues, hrepaired⟩ := LogEngine.openFile_of_scan hscan
    by_cases htail : scan.recoverableTail.isSome
    · rw [if_pos htail, List.take_take] at hrepaired
      exact ⟨inner, min scan.validBytes n, le_min hvalid hn, hopen, hrepaired, hvalues⟩
    · rw [if_neg htail] at hrepaired
      exact ⟨inner, n, hn, hopen, hrepaired, hvalues⟩
  obtain ⟨-, -, -, -, -, -, s₂, hverify₂, hauth₂, hlog₂⟩ := h.verified_cut hlt hfile hholds hentries ops hn₂
  have hdirectory : (withLog d' generation ((LogEngine.performAll ops engine).2.log.file.take n)).insert
      (canonicalGenerationName generation) (.regular inner.log.file) =
      withLog d' generation ((LogEngine.performAll ops engine).2.log.file.take n₂) := by
    refine Directory.ext_find fun name => ?_
    simp only [withLog, Directory.find_insert, hrepaired]
    by_cases hname : name = canonicalGenerationName generation
    · simp [hname]
    · simp [hname]
  have hfind : (withLog d' generation ((LogEngine.performAll ops engine).2.log.file.take n)).find
      (canonicalGenerationName generation) =
      some (.regular ((LogEngine.performAll ops engine).2.log.file.take n)) := by
    rw [withLog, Directory.find_insert, if_pos rfl]
  have hopened : openAt s.authoritativeLog .success
      (withLog d' generation ((LogEngine.performAll ops engine).2.log.file.take n)) =
      (.ok inner, withLog d' generation ((LogEngine.performAll ops engine).2.log.file.take n₂)) := by
    rw [hlog, openAt_regular hfind hopen, hdirectory]
  have hresolve := resolveAuthority_run hverify hopened hverify₂ (hauth.symm ▸ hmin) (hauth₂.trans hauth.symm)
    (hlog₂.trans hlog.symm)
  rw [hauth] at hresolve
  exact ⟨inner, _, hresolve, hvalues⟩

/-- **A published generation recovers if and only if its directory is not too large.** -/
theorem Publishes.recovers_iff :
    Recovers d' generation file engine ↔ d'.entries.length ≤ maxDirectoryEntries := by
  have hbound : file.length < u64Limit := hfile ▸ hholds.appended.length_lt
  constructor
  · intro hrecovers
    obtain ⟨-, -, ⟨s, hrun, -⟩, -⟩ := hrecovers.accepts [] file.length le_rfl
    obtain ⟨-, ns, markerFile, log, marker, hv⟩ :=
      (@runs_verifyGenerationDirectory (fun io => io = .success) rfl _ _ s).1 (Task.run_eq_iff.1 hrun)
    exact (h.scan_isOk hlt).1 ⟨ns, hv.scanned⟩
  · intro hentries
    refine ⟨fun ops n hn => ?_, fun ops n hn s d₂ hrun => ?_, fun other _ hcrc s d₂ hrun => ?_⟩
    · obtain ⟨k, scan, hcut, hscan, hvalues, hvalid, s, hrun, hauth, -⟩ :=
        h.verified_cut hlt hfile hholds hentries ops hn
      refine ⟨k, hcut, ⟨s, hrun, hauth⟩, fun minimum hmin => ?_⟩
      obtain ⟨inner, d₂, hresolve, hinner⟩ := h.resolved hlt hfile hholds hentries ops hn hmin hscan hvalid
      exact ⟨inner, d₂, hresolve, hinner.trans hvalues⟩
    · obtain ⟨-, hlen, -⟩ := h.of_verified hlt hbound trivial hrun
      rw [List.length_take] at hlen
      omega
    · obtain ⟨-, -, hsame⟩ := h.of_verified hlt hbound trivial hrun
      exact hcrc hsame

end Published

/-- **Recovery of a committed prefix.** -/
theorem committed_prefix_recovery {summary : GenerationPublicationSummary} (hlt : generation < u64Limit)
    (hrun : Task.Runs (fun _ => True) (publishGenerationMarker generation) d (.ok summary) d') :
    ∃ file engine, d'.find (canonicalGenerationName generation) = some (.regular file) ∧
      LogEngine.openFile (some file) = .ok engine ∧
      (Recovers d' generation file engine ↔ d'.entries.length ≤ maxDirectoryEntries) := by
  obtain ⟨file, report, proof, h⟩ := publishes_of_runs trivial hlt hrun
  obtain ⟨engine, ms, hopen, hfile, hholds⟩ := h.exists_engine
  exact ⟨file, engine, h.log_at' hlt, hopen, h.recovers_iff hlt hfile hholds⟩

/-! ### A directory that is full -/

/-- A log of generation 1, and the reservations of `n` further generations. -/
def crowded : ℕ → Directory
  | 0 => Directory.empty.insert (canonicalGenerationName 1) (.regular encodeFileHeader)
  | n + 1 => (crowded n).insert (canonicalReservationName (n + 2)) (.regular [])

theorem find_crowded {n : ℕ} {name : Name} {entry : Entry} (h : (crowded n).find name = some entry) :
    name = canonicalGenerationName 1 ∨
      ∃ k < n, name = canonicalReservationName (k + 2) ∧ entry = .regular [] := by
  induction n with
  | zero =>
    rw [crowded, Directory.find_insert] at h
    split at h
    · exact .inl ‹_›
    · simp [Directory.find, Directory.empty, lookupBy] at h
  | succ n ih =>
    rw [crowded, Directory.find_insert] at h
    split at h
    · rw [Option.some.injEq] at h
      exact .inr ⟨n, Nat.lt_succ_self n, ‹_›, h.symm⟩
    · rcases ih h with hlog | ⟨k, hk, hname⟩
      · exact .inl hlog
      · exact .inr ⟨k, Nat.lt_succ_of_lt hk, hname⟩

theorem find_crowded_log (n : ℕ) (hn : n + 1 < u64Limit) :
    (crowded n).find (canonicalGenerationName 1) = some (.regular encodeFileHeader) := by
  induction n with
  | zero => rw [crowded, Directory.find_insert, if_pos rfl]
  | succ n ih =>
    have hne : canonicalGenerationName 1 ≠ canonicalReservationName (n + 2) :=
      fun heq => by simpa using (canonicalName_injective (by omega) (by omega) heq).1
    rw [crowded, Directory.find_insert, if_neg hne]
    exact ih (by omega)

theorem length_crowded (n : ℕ) (hn : n + 1 < u64Limit) : (crowded n).entries.length = n + 1 := by
  induction n with
  | zero => rfl
  | succ n ih =>
    have habsent : ¬ (crowded n).Has (canonicalReservationName (n + 2)) := by
      intro hhas
      obtain ⟨entry, hfind⟩ := Option.isSome_iff_exists.1 hhas
      rcases find_crowded hfind with heq | ⟨k, hk, heq, -⟩
      · simpa using (canonicalName_injective (by omega) (by omega) heq).1
      · have := (canonicalName_injective (by omega) (by omega) heq).2
        omega
    rw [crowded, Directory.length_insert, if_neg habsent, ih (by omega)]

/-- The generation can be published as long as the scan accepts the directory. -/
theorem runs_publish_crowded {n : ℕ} (hn : n + 1 ≤ maxDirectoryEntries) :
    ¬ (crowded n).Has (canonicalStagingMarkerName 1) ∧
      Task.Runs (fun _ => True) (publishGenerationMarker 1) (crowded n)
        (.ok ⟨1, ⟨16, crc32 encodeFileHeader, 0, 1⟩, false⟩)
        ((withMarker (crowded n) 1 ⟨16, crc32 encodeFileHeader, 0, 1⟩).remove
          (canonicalStagingMarkerName 1)) := by
  have hlimit : n + 1 < u64Limit := hn.trans_lt (by rw [u64Limit_eq]; decide)
  have hone : 1 < u64Limit := by rw [u64Limit_eq]; decide
  obtain ⟨ns, hscan⟩ : ∃ ns, scanGenerationNamespace (crowded n) = .ok ns := by
    refine scan_isOk.2 ⟨(length_crowded n hlimit).trans_le hn, fun name entry hfind => ?_⟩
    rcases find_crowded hfind with rfl | ⟨k, hk, rfl, rfl⟩
    · exact ⟨.generation, 1, rfl, Nat.one_pos, hone, by simp⟩
    · exact ⟨.reservation, k + 2, rfl, by omega, by omega, fun _ => rfl⟩
  have habsent : ∀ kind, kind ≠ .generation → kind ≠ .reservation → ∀ id, id < u64Limit →
      ¬ (crowded n).Has (canonicalName kind id) := by
    intro kind hgeneration hreservation id hid hhas
    obtain ⟨entry, hfind⟩ := Option.isSome_iff_exists.1 hhas
    rcases find_crowded hfind with heq | ⟨k, hk, heq, -⟩
    · exact hgeneration (canonicalName_injective hid hone heq).1
    · exact hreservation (canonicalName_injective hid (by omega) heq).1
  have hmarker := habsent .commit (by decide) (by decide) 1 hone
  have hstaging := habsent .stagingCommit (by decide) (by decide) 1 hone
  have hnewer : ∀ id ∈ ns.markerFiles, id < 1 := by
    intro id hid
    obtain ⟨hhas, -, hid'⟩ := (mem_files_of_scan (k := .commit) hscan).1 hid
    exact absurd hhas (habsent .commit (by decide) (by decide) id hid')
  have hclean : requireCleanGeneration encodeFileHeader = .ok ⟨1, 16, 16, 0, 0, 1, none⟩ := by
    decide +kernel
  have hderived : derivePrefixProof encodeFileHeader ⟨1, 16, 16, 0, 0, 1, none⟩ =
      .ok ⟨16, crc32 encodeFileHeader, 0, 1⟩ := by
    decide +kernel
  have hproved : verifyCommittedPrefix encodeFileHeader ⟨16, crc32 encodeFileHeader, 0, 1⟩ =
      .ok ⟨1, 16, 16, 0, 0, 1, none⟩ := by
    decide +kernel
  exact ⟨hstaging, exists_runs_publish trivial hone Nat.one_pos hscan hnewer (find_crowded_log n hlimit)
    hmarker hstaging hclean hderived hproved ⟨le_rfl, by rw [u64Limit_eq]; decide, rfl⟩
    (by rw [u64Limit_eq]; decide) (crc32_lt _)⟩

/-- The last publication that the scan of the directory permits leaves one file too many. -/
theorem committed_prefix_lost : ∃ d d' summary file engine,
    Task.Runs (fun _ => True) (publishGenerationMarker 1) d (.ok summary) d' ∧
      d'.find (canonicalGenerationName 1) = some (.regular file) ∧
      LogEngine.openFile (some file) = .ok engine ∧ ¬ Recovers d' 1 file engine := by
  have hone : 1 < u64Limit := by rw [u64Limit_eq]; decide
  obtain ⟨hstaging, hrun⟩ := runs_publish_crowded (n := 8191) (by decide)
  obtain ⟨file, report, proof, h⟩ := publishes_of_runs trivial hone hrun
  obtain ⟨engine, ms, hopen, hfile, hholds⟩ := h.exists_engine
  refine ⟨_, _, _, file, engine, hrun, h.log_at' hone, hopen, fun hrecovers => ?_⟩
  have hle := (h.recovers_iff hone hfile hholds).1 hrecovers
  have hlonger := h.length_lt hone hstaging
  rw [length_crowded 8191 (by rw [u64Limit_eq]; decide)] at hlonger
  unfold maxDirectoryEntries at hle
  omega

/-- The recovery of the first generation, in a directory of its own. -/
theorem committed_prefix_recovery_first : ∃ d' file engine,
    d'.find (canonicalGenerationName 1) = some (.regular file) ∧
      LogEngine.openFile (some file) = .ok engine ∧ Recovers d' 1 file engine := by
  obtain ⟨-, hrun⟩ := runs_publish_crowded (n := 0) (by decide)
  obtain ⟨file, engine, hfile, hopen, hiff⟩ :=
    committed_prefix_recovery (by rw [u64Limit_eq]; decide) hrun
  exact ⟨_, file, engine, hfile, hopen, hiff.2 (by decide +kernel)⟩

end DbLab.Generation
